import Workflow.Machine

/-!
Transitions with a pure registry.

A pure registry answers without a look at the calls made before, and nothing else of a run depends on
them. So what a transition leaves of its instance and hands to the host is the same whatever was called
before it.
-/

set_option autoImplicit false

namespace Workflow

/-- The run, with another log of calls. -/
def Run.withCalls (r : Run) (calls : List Call) : Run := { r with calls }

/-- The flow, with another log of calls. -/
def Flow.withCalls (calls : List Call) : Flow → Flow
  | .next r => .next (r.withCalls calls)
  | .stop r => .stop (r.withCalls calls)
  | .fault r f => .fault (r.withCalls calls) f

namespace Run

@[simp] theorem withCalls_inst (r : Run) (calls : List Call) : (r.withCalls calls).inst = r.inst := rfl

@[simp] theorem withCalls_failure (r : Run) (calls : List Call) :
    (r.withCalls calls).failure = r.failure := rfl

variable {cx : Collaborators}

/-- A pure registry gives the same answer, and the question is logged behind whatever came before. -/
theorem ask_withCalls (pure : cx.conditions.IsPure) (r : Run) (calls : List Call) (id : String) :
    ((r.withCalls calls).ask cx id).1 = (r.ask cx id).1
      ∧ ∃ calls', ((r.withCalls calls).ask cx id).2 = (r.ask cx id).2.withCalls calls' :=
  ⟨(pure ..).trans (pure ..).symm, _, rfl⟩

/-- Cancelling a fork asks nothing. -/
theorem cancel_withCalls (r : Run) (calls : List Call) (f : Option ForkFailure) :
    (r.withCalls calls).cancel f = (r.cancel f).withCalls calls := by
  cases f with
  | none => rfl
  | some f =>
    simp only [cancel]
    split <;> rfl

/-- Sending asks nothing. -/
theorem foldl_send_withCalls (r : Run) (calls : List Call) (commands : List String) :
    commands.foldl send (r.withCalls calls) = (commands.foldl send r).withCalls calls := by
  induction commands generalizing r with
  | nil => rfl
  | cons command rest ih => exact ih (r.send command)

/-- Where a failure goes is decided without asking. -/
theorem routeFailure_withCalls (r : Run) (calls : List Call) (route : FailureRoute) :
    (r.withCalls calls).routeFailure route = (r.routeFailure route).withCalls calls := by
  have cancelled : Run.cancel { r.withCalls calls with failure := none } route.fork = _ :=
    cancel_withCalls { r with failure := none } calls route.fork
  unfold routeFailure
  rw [withCalls_failure]
  cases r.failure with
  | none => rfl
  | some failure =>
    by_cases failed : r.inst.phase ≠ Name.failed
    · have failed' : (r.withCalls calls).inst.phase ≠ Name.failed := failed
      dsimp only
      rw [if_pos failed, if_pos failed']
      rfl
    · have failed' : ¬ (r.withCalls calls).inst.phase ≠ Name.failed := failed
      dsimp only
      rw [if_neg failed, if_neg failed', cancelled]
      cases route.handler with
      | some trigger => rfl
      | none =>
        cases route.fork with
        | none => rfl
        | some f =>
          dsimp only
          split <;> rfl

variable (pure : cx.conditions.IsPure) (r : Run) (calls : List Call)

include pure

/-- What a continuation does depends on answers only. Each loop it ends may ask once, so the log that is
left is some log. -/
theorem follow_withCalls (k : Continuation) :
    ∃ calls', (r.withCalls calls).follow cx k = (r.follow cx k).withCalls calls' := by
  induction k generalizing r calls with
  | loop c exit ih =>
    obtain ⟨same, asked, logged⟩ := ask_withCalls pure
      (r.setCounter c.counter (r.inst.counter c.counter + 1)) calls c.conditionId
    have counted : ∀ n, (r.withCalls calls).setCounter c.counter n
        = (r.setCounter c.counter n).withCalls calls := fun _ => rfl
    simp only [follow, withCalls_inst, counted, same, logged]
    split
    · exact ih ((r.setCounter c.counter (r.inst.counter c.counter + 1)).setCounter c.counter 0) calls
    · split
      · exact ih ((ask cx (r.setCounter c.counter (r.inst.counter c.counter + 1))
          c.conditionId).2.setCounter c.counter 0) asked
      · exact ⟨asked, rfl⟩
  | _ => exact ⟨calls, rfl⟩

/-- So it is with an action: besides continuations, only a validation asks. -/
theorem step_withCalls (m : Message) (a : Action) :
    ∃ calls', (r.withCalls calls).step cx m a = (r.step cx m a).withCalls calls' := by
  have along : ∀ (r : Run) (k : Continuation), ∃ calls',
      Flow.next ((r.withCalls calls).follow cx k) = (Flow.next (r.follow cx k)).withCalls calls' := by
    intro r k
    obtain ⟨calls', same⟩ := follow_withCalls pure r calls k
    exact ⟨calls', congrArg Flow.next same⟩
  cases a with
  | validate g =>
    obtain ⟨same, asked, logged⟩ := ask_withCalls pure r calls g.conditionId
    simp only [step, same, logged]
    split <;> exact ⟨asked, rfl⟩
  | routeFailure route => exact ⟨calls, routeFailure_withCalls r calls route⟩
  | proceed k => exact along r k
  | route route =>
    have same : ((route.arms.find? (·.value = State.routingText (r.withCalls calls).inst.state
        route.key.fieldPath)).map RouteArm.target).or route.fallback = _ := rfl
    cases found : ((route.arms.find? (·.value = State.routingText r.inst.state
        route.key.fieldPath)).map RouteArm.target).or route.fallback with
    | some target =>
      simp only [step, choose, same.trans found, found]
      exact along r target
    | none =>
      simp only [step, choose, same.trans found, found]
      exact ⟨calls, rfl⟩
  | decide approved rejected =>
    simp only [step]
    split
    next decision _ =>
      cases decision with
      | approved => exact along (r.setPending none) approved
      | rejected => exact along (r.setPending none) rejected
      | deferred => exact ⟨calls, rfl⟩
    next => exact ⟨calls, rfl⟩
  | startPaths fork commands => exact ⟨calls, congrArg Flow.next (foldl_send_withCalls r calls commands)⟩
  | applyUpdate =>
    simp only [step, merge]
    split
    · split <;> exact ⟨calls, rfl⟩
    · exact ⟨calls, rfl⟩
  | guardCorrelation approval =>
    simp only [step, withCalls_inst]
    split
    next c _ =>
      by_cases awaited : r.inst.pendingApproval = some c <;>
        simp only [awaited, ↓reduceIte] <;> exact ⟨calls, rfl⟩
    next => exact ⟨calls, rfl⟩
  | resumeFailedStep targets =>
    have same : targets.find? (·.step
        = ((r.withCalls calls).inst.failureContext.map FailureContext.failedStep).getD "") = _ := rfl
    cases found : targets.find? (·.step
        = (r.inst.failureContext.map FailureContext.failedStep).getD "") with
    | some t =>
      simp only [step, resume, same.trans found, found]
      exact ⟨calls, rfl⟩
    | none =>
      simp only [step, resume, same.trans found, found]
      exact ⟨calls, rfl⟩
  | recordPendingApproval =>
    simp only [step]
    split <;> exact ⟨calls, rfl⟩
  | recordDecision =>
    simp only [step]
    split <;> exact ⟨calls, rfl⟩
  | captureFailure =>
    simp only [step]
    split <;> exact ⟨calls, rfl⟩
  | _ => exact ⟨calls, rfl⟩

/-- And so with the actions of a body, as far as they are carried out. -/
theorem steps_withCalls (m : Message) (actions : List Action) :
    ∃ calls', (r.withCalls calls).steps cx m actions = (r.steps cx m actions).withCalls calls' := by
  induction actions generalizing r calls with
  | nil => exact ⟨calls, rfl⟩
  | cons a rest ih =>
    obtain ⟨calls', first⟩ := step_withCalls pure r calls m a
    simp only [steps, first]
    cases r.step cx m a with
    | next r' => exact ih r' calls'
    | stop r' => exact ⟨calls', rfl⟩
    | fault r' f => exact ⟨calls', rfl⟩

end Run

/-- What a transition leaves and hands on does not depend on the calls made before it. -/
theorem Transition.apply_pure {cx : Collaborators} (pure : cx.conditions.IsPure) (t : Transition)
    (calls calls' : List Call) (i : Instance) (m : Message) :
    (t.apply cx calls' i m).inst = (t.apply cx calls i m).inst
      ∧ (t.apply cx calls' i m).result = (t.apply cx calls i m).result := by
  obtain ⟨_, same⟩ := Run.steps_withCalls pure ⟨i, none, [], calls⟩ calls' m t.body
  have flow : Run.steps cx m ⟨i, none, [], calls'⟩ t.body = _ := same
  unfold Transition.apply
  rw [flow]
  cases Run.steps cx m ⟨i, none, [], calls⟩ t.body <;> exact ⟨rfl, rfl⟩

end Workflow
