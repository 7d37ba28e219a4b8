import Workflow.Proofs.Host.Token
import Workflow.Proofs.Machine.Turns

/-!
Phases along a transition.

The phase of an instance and the flag that it has finished are set in different places: steps and
requests enter a phase, ends set both, and a failure on a path of a fail-fast fork sets the flag where
the phase was set before it. `UnderWay` and `Ended` say how the two go together before and after an end.
Only the last action of a transition can end an instance and let the transition go on, so a transition
that finds an instance under way leaves it under way or ended, whatever the message carries.
-/

set_option autoImplicit false

namespace Workflow

/-! ## Phases that are held -/

namespace Continuation

/-- The phases a continuation may enter without an end. -/
def held : Continuation → List String
  | .loop _ exit => exit.held
  | .requestApproval q => [q.phase]
  | _ => []

end Continuation

namespace Action

/-- The phases an action may enter without an end, other than those of a failure or a refusal. -/
def held (a : Action) : List String :=
  a.continuations.flatMap Continuation.held ++
    match a with
    | .setPhase phase => [phase]
    | .routeFailure r => [r.step]
    | _ => []

/-- Whether an action may end its instance and let the transition go on. -/
def mayEnd (a : Action) : Bool :=
  !a.continuations.isEmpty

end Action

namespace Instance

/-- An instance that has not ended is in a declared phase, but not in that of completion. -/
structure UnderWay (phases : List String) (i : Instance) : Prop where
  declared : i.phase ∈ phases
  unfinished : i.isFinished = false
  incomplete : i.phase ≠ Name.completed

/-- One that has is completed or failed. -/
structure Ended (phases : List String) (i : Instance) : Prop where
  declared : i.phase ∈ phases
  finished : i.isFinished = true
  closed : i.phase = Name.completed ∨ i.phase = Name.failed

end Instance

/-- Where a flow goes on its instance is under way; where it stops the instance may have ended. -/
def Flow.GoesOn (phases : List String) : Flow → Prop
  | .next r => r.inst.UnderWay phases
  | .stop r => r.inst.UnderWay phases ∨ r.inst.Ended phases
  | .fault _ _ => True

/-- Unless there is a fault, the instance is under way or has ended. -/
def Flow.Arrives (phases : List String) : Flow → Prop
  | .next r => r.inst.UnderWay phases ∨ r.inst.Ended phases
  | .stop r => r.inst.UnderWay phases ∨ r.inst.Ended phases
  | .fault _ _ => True

/-- A flow that goes on has arrived where it may. -/
theorem Flow.GoesOn.arrives {phases : List String} {f : Flow} (goesOn : f.GoesOn phases) :
    f.Arrives phases := by
  cases f with
  | next r => exact .inl goesOn
  | stop r => exact goesOn
  | fault r f => trivial

theorem Name.failed_ne_completed : Name.failed ≠ Name.completed := by decide

theorem Name.validationFailed_ne_completed : Name.validationFailed ≠ Name.completed := by decide

namespace Run

variable {phases : List String} {r : Run}

/-- A continuation leads to a phase it names and leaves the instance under way, or ends it. -/
theorem follow_arrives (cx : Collaborators) {k : Continuation} (declared : ∀ p ∈ k.phases, p ∈ phases)
    (held : Name.completed ∉ k.held) (going : r.inst.UnderWay phases) :
    (r.follow cx k).inst.UnderWay phases ∨ (r.follow cx k).inst.Ended phases := by
  induction k generalizing r with
  | send command => exact .inl going
  | complete => exact .inr ⟨declared _ List.mem_cons_self, rfl, .inl rfl⟩
  | fail => exact .inr ⟨declared _ List.mem_cons_self, rfl, .inr rfl⟩
  | requestApproval q =>
    have apart : q.phase ≠ Name.completed := fun same => held (same ▸ List.mem_cons_self)
    exact .inl ⟨declared _ List.mem_cons_self, going.unfinished, apart⟩
  | loop c exit ih =>
    simp only [Run.follow]
    split
    · exact ih declared held ⟨going.declared, going.unfinished, going.incomplete⟩
    · split
      · exact ih declared held ⟨going.declared, going.unfinished, going.incomplete⟩
      · exact .inl ⟨going.declared, going.unfinished, going.incomplete⟩

/-- Cancelling a fork leaves the instance alone. -/
theorem inst_cancel (r : Run) (f : Option ForkFailure) : (r.cancel f).inst = r.inst := by
  cases f with
  | none => rfl
  | some f =>
    simp only [cancel]
    split <;> rfl

/-- Sending leaves the instance alone. -/
theorem inst_foldl_send (r : Run) (commands : List String) :
    (commands.foldl send r).inst = r.inst := by
  induction commands generalizing r with
  | nil => rfl
  | cons command rest ih => exact ih (r.send command)

/-- A failure that is routed stops the transition. On a path of a fail-fast fork it ends the instance,
which has failed before. -/
theorem routeFailure_goesOn {route : FailureRoute} (declared : route.step ∈ phases)
    (apart : route.step ≠ Name.completed) (going : r.inst.UnderWay phases) :
    (r.routeFailure route).GoesOn phases := by
  unfold routeFailure
  split
  · exact going
  · split
    · exact going
    next failed =>
      have cancelled : (Run.cancel { r with failure := none } route.fork).inst.UnderWay phases := by
        rw [inst_cancel]
        exact going
      dsimp only
      split
      · exact .inl cancelled
      · split
        · refine .inr ⟨cancelled.declared, rfl, .inr ?_⟩
          rw [inst_cancel]
          exact not_not.mp failed
        · exact .inl ⟨declared, cancelled.unfinished, apart⟩
      · trivial

variable {a : Action} (cx : Collaborators) (m : Message) (declared : ∀ p ∈ a.phases, p ∈ phases)
  (held : Name.completed ∉ a.held) (going : r.inst.UnderWay phases)

include declared held going

/-- An action that may not end the instance leaves it under way where the transition goes on. -/
theorem step_goesOn (quiet : a.mayEnd = false) : (r.step cx m a).GoesOn phases := by
  have same : ∀ {r' : Run}, r'.inst.phase = r.inst.phase →
      r'.inst.isFinished = r.inst.isFinished → r'.inst.UnderWay phases := fun phase finished =>
    ⟨phase ▸ going.declared, finished ▸ going.unfinished, phase ▸ going.incomplete⟩
  cases a with
  | setPhase phase =>
    have apart : phase ≠ Name.completed := fun same => held (same ▸ by simp [Action.held])
    exact ⟨declared phase (by simp [Action.phases]), going.unfinished, apart⟩
  | validate g =>
    simp only [step]
    split
    · exact same rfl rfl
    · have named := declared Name.validationFailed (by simp [Action.phases])
      exact .inl ⟨named, going.unfinished, Name.validationFailed_ne_completed⟩
  | applyUpdate =>
    simp only [step]
    split
    · simp only [merge]
      split
      · have named := declared Name.failed (by simp [Action.phases])
        exact ⟨named, going.unfinished, Name.failed_ne_completed⟩
      · exact same rfl rfl
    · trivial
  | routeFailure route =>
    have apart : route.step ≠ Name.completed := fun same => held (same ▸ by simp [Action.held])
    exact routeFailure_goesOn (declared _ (by simp [Action.phases])) apart going
  | startPaths fork commands =>
    have kept := inst_foldl_send r commands
    exact same (congrArg Instance.phase kept) (congrArg Instance.isFinished kept)
  | recordPendingApproval =>
    simp only [step]
    split
    · exact same rfl rfl
    · trivial
  | guardCorrelation approval =>
    simp only [step]
    split
    · split
      · exact going
      · exact .inl going
    · exact .inl going
  | recordDecision =>
    simp only [step]
    split
    · exact same rfl rfl
    · trivial
  | captureFailure =>
    simp only [step]
    split
    · exact same rfl rfl
    · trivial
  | resumeFailedStep targets =>
    simp only [step, resume]
    split
    · exact same rfl rfl
    · trivial
  | proceed k => cases quiet
  | decide approved rejected => cases quiet
  | route route =>
    simp only [step, choose]
    split
    next target found =>
      have target : target ∈ route.targets := Route.mem_targets found
      simp only [Action.mayEnd, Action.continuations, Bool.not_eq_false', List.isEmpty_iff] at quiet
      rw [quiet] at target
      cases target
    next => trivial
  | createInstance => exact going
  | dispatchWork workType command => exact same rfl rfl
  | joinPath target => exact same rfl rfl
  | clearPendingApproval => exact same rfl rfl

/-- Any action leaves it under way or ended. -/
theorem step_arrives : (r.step cx m a).Arrives phases := by
  have along : ∀ {r : Run} {k : Continuation}, k ∈ a.continuations → r.inst.UnderWay phases →
      (r.follow cx k).inst.UnderWay phases ∨ (r.follow cx k).inst.Ended phases := by
    intro r k leads going
    refine follow_arrives cx (fun p hp => declared p ?_) (fun own => held ?_) going
    · exact List.mem_append_left _ (List.mem_flatMap.mpr ⟨k, leads, hp⟩)
    · exact List.mem_append_left _ (List.mem_flatMap.mpr ⟨k, leads, own⟩)
  cases a with
  | proceed k => exact along (by simp [Action.continuations]) going
  | route route =>
    simp only [step, choose]
    split
    next target found => exact along (Route.mem_targets found) going
    next => trivial
  | decide approved rejected =>
    have cleared : (r.setPending none).inst.UnderWay phases :=
      ⟨going.declared, going.unfinished, going.incomplete⟩
    simp only [step]
    split
    next decision _ =>
      cases decision with
      | approved => exact along (by simp [Action.continuations]) cleared
      | rejected => exact along (by simp [Action.continuations]) cleared
      | deferred => exact .inl going
    next => trivial
  | _ => exact (step_goesOn cx m declared held going rfl).arrives

omit declared held going in
/-- Actions none of which may end the instance leave it under way, one after the other. -/
theorem steps_goesOn {actions : List Action} (declared : ∀ a ∈ actions, ∀ p ∈ a.phases, p ∈ phases)
    (held : ∀ a ∈ actions, Name.completed ∉ a.held) (quiet : ∀ a ∈ actions, a.mayEnd = false)
    (going : r.inst.UnderWay phases) : (r.steps cx m actions).GoesOn phases := by
  induction actions generalizing r with
  | nil => exact going
  | cons a rest ih =>
    obtain ⟨here, declared⟩ := List.forall_mem_cons.mp declared
    obtain ⟨mine, held⟩ := List.forall_mem_cons.mp held
    obtain ⟨still, quiet⟩ := List.forall_mem_cons.mp quiet
    have first := step_goesOn cx m here mine going still
    simp only [Run.steps]
    split
    next r' hr =>
      rw [hr] at first
      exact ih declared held quiet first
    next => exact first

end Run

/-- A transition only whose last action may end an instance leaves what was under way under way or
ended, unless it raises a fault. -/
theorem Transition.apply_arrives {phases : List String} {t : Transition} {front : List Action}
    {last : Action} (body : t.body = front ++ [last])
    (declared : ∀ a ∈ t.body, ∀ p ∈ a.phases, p ∈ phases)
    (held : ∀ a ∈ t.body, Name.completed ∉ a.held) (quiet : ∀ a ∈ front, a.mayEnd = false)
    (cx : Collaborators) {calls : List Call} {i : Instance} (m : Message)
    (going : i.UnderWay phases) {es : List Effect} (ok : (t.apply cx calls i m).result = .ok es) :
    (t.apply cx calls i m).inst.UnderWay phases ∨ (t.apply cx calls i m).inst.Ended phases := by
  have arrives : (Run.steps cx m ⟨i, none, [], calls⟩ t.body).Arrives phases := by
    rw [body] at declared held ⊢
    obtain ⟨before, ending⟩ := List.forall_mem_append.mp declared
    obtain ⟨earlier, final⟩ := List.forall_mem_append.mp held
    have first := Run.steps_goesOn (r := ⟨i, none, [], calls⟩) cx m before earlier quiet going
    rw [Run.steps_append]
    cases flow : Run.steps cx m ⟨i, none, [], calls⟩ front with
    | next r =>
      rw [flow] at first
      have arrived := Run.step_arrives cx m (ending last (by simp)) (final last (by simp)) first
      dsimp only [Run.steps]
      cases step : r.step cx m last with
      | next r' | stop r' | fault r' f =>
        rw [step] at arrived
        exact arrived
    | stop r | fault r f =>
      rw [flow] at first
      exact first.arrives
  unfold Transition.apply at ok ⊢
  cases flow : Run.steps cx m ⟨i, none, [], calls⟩ t.body with
  | next r | stop r =>
    rw [flow] at arrives
    exact arrives
  | fault r f =>
    rw [flow] at ok
    cases ok

/-! ## Compiled transitions -/

theorem Name.awaitPhase_ne_completed (approval : String) :
    Name.awaitPhase approval ≠ Name.completed := by
  intro same
  have chars := congrArg String.toList same
  simp [Name.awaitPhase, Name.completed] at chars

namespace Definition

variable (d : Definition)

/-- A gate waits in a phase of its own. -/
theorem not_mem_held_request (g : Gate) : Name.completed ∉ g.request.held := by
  simp [Gate.request, Continuation.held, (Name.awaitPhase_ne_completed g.name).symm]

/-- Where the loops of a step end, no phase is held: what follows starts a step or ends the process. -/
theorem held_loopControl (loops : List Loop) : (d.loopControl loops).held = [] := by
  induction loops with
  | nil => rfl
  | cons l outer ih =>
    simp only [loopControl, Continuation.held]
    cases l.continuation with
    | some step => rfl
    | none => exact ih

theorem held_pathEnd (e : PathEnd) : e.continuation.held = [] := by
  unfold PathEnd.continuation
  split
  · rfl
  · split <;> rfl

theorem held_toRoute (b : Branch) : (Action.route b.toRoute).held = [] := by
  have entry : ∀ k, (b.entryOf k).held = [] := by
    intro k
    unfold Branch.entryOf
    split
    · rfl
    · exact held_pathEnd _
  simp only [Action.held, Action.continuations, Route.targets, Branch.toRoute, List.map_map,
    List.append_nil, List.flatMap_eq_nil_iff, List.mem_append, List.mem_map, Option.mem_toList,
    Option.map_eq_some_iff, Function.comp_apply]
  rintro k (⟨literal, _, rfl⟩ | ⟨case, _, rfl⟩) <;> exact entry _

theorem held_approved (a : Approval) : (d.approved a).held = [] := by
  unfold approved
  split <;> rfl

/-- Nor is one held where a line ends. -/
theorem held_ending (line : Line) : (line.ending d).held = [] := by
  cases line with
  | path b k => simp [Line.ending, Action.held, Action.continuations, held_pathEnd]
  | escalation a g => simp [Line.ending, Action.held, Action.continuations, held_approved]
  | recovery g =>
    simp only [Line.ending, chainEnd]
    split <;> rfl
  | _ => rfl

end Definition

namespace Compiled

variable {d : Definition} {t : Table} (c : Compiled d t)

include c

/-- No step has the phase of a completed process for its own: the names are claimed apart. -/
theorem phase_ne_completed {x : Spot} (here : x.In d) : x.phase d ≠ Name.completed :=
  (c.phase_ne_reserved (Definition.mem_sites_iff_mem_plan.mp (here.site_mem c.wellFormed))
    (by simp [Entry.phases])).2.1

/-- So nothing that may follow a step waits in it. -/
theorem not_mem_held_next {x : Spot} (here : x.In d) :
    Name.completed ∉ (d.next (x.site d)).held := by
  obtain ⟨line, k, x⟩ := x
  by_cases main : line = .main
  · subst main
    rw [Spot.site, d.next_main k x]
    split
    · simp [Action.held, Action.continuations, Definition.held_loopControl]
    · split
      · simp [Definition.held_toRoute]
      · simpa [Action.held, Action.continuations] using Definition.not_mem_held_request _
      all_goals simp [Action.held, Action.continuations, Fork.cascade, Continuation.held]
  · rw [Spot.site, c.next_siteAt line here.1 main here.2]
    split
    · simp [Action.held, Action.continuations, Continuation.held]
    · simp [d.held_ending line]

/-- In a transition no action holds the phase of completion, and only the last may end an instance. -/
theorem body_cases {tr : Transition} (listed : tr ∈ t.transitions) :
    (∃ front last, tr.body = front ++ [last] ∧ ∀ a ∈ front, a.mayEnd = false)
      ∧ ∀ a ∈ tr.body, Name.completed ∉ a.held := by
  cases c.transition_cases listed with
  | @start x here =>
    have apart := c.phase_ne_completed here
    constructor
    · refine ⟨.setPhase (x.site d).phase :: (x.site d).guardActions, _, rfl, ?_⟩
      simp only [Site.guardActions]
      split <;> simp [Action.mayEnd, Action.continuations]
    · simp only [Site.startTransition, Transition.of, Site.guardActions]
      split <;> simp [Action.held, Action.continuations, apart.symm]
  | @completion x here =>
    have apart := c.phase_ne_completed here
    constructor
    · exact ⟨[.applyUpdate, .routeFailure (x.site d).failureRoute], _, rfl, by
        simp [Action.mayEnd, Action.continuations]⟩
    · simp only [Definition.completion, Transition.of, List.forall_mem_cons]
      refine ⟨by simp [Action.held, Action.continuations], ?_, c.not_mem_held_next here, by simp⟩
      simp [Action.held, Action.continuations, Site.failureRoute, apart.symm]
  | @gate a g _ attached link member =>
    have refused : g.gate.rejected.held = [] := by
      unfold Gate.rejected
      split <;> rfl
    have escalated : Name.completed ∉ g.timedOut.held := by
      unfold Approval.timedOut
      split
      · simp [Continuation.held]
      · simp [Continuation.held]
      · simp [Continuation.held]
      · exact Definition.not_mem_held_request _
    simp only [Approval.transitions, List.mem_cons, List.not_mem_nil, or_false] at member
    rcases member with rfl | rfl | rfl
    · refine ⟨⟨[], _, rfl, by simp⟩, by simp [Transition.of, Action.held, Action.continuations]⟩
    · refine ⟨⟨[.guardCorrelation g.gate.name, .recordDecision], _, rfl, by
        simp [Action.mayEnd, Action.continuations]⟩, ?_⟩
      simp [Transition.of, Action.held, Action.continuations, d.held_approved, refused]
    · refine ⟨⟨[.guardCorrelation g.gate.name, .clearPendingApproval], _, rfl, by
        simp [Action.mayEnd, Action.continuations]⟩, ?_⟩
      simp [Transition.of, Action.held, Action.continuations, escalated]
  | trigger declared first =>
    refine ⟨⟨[.captureFailure], _, rfl, by simp [Action.mayEnd, Action.continuations]⟩, ?_⟩
    simp [Transition.of, Action.held, Action.continuations, Continuation.held]

/-- A transition of the table leaves an instance under way or ended. -/
theorem apply_arrives {tr : Transition} (listed : tr ∈ t.transitions) (cx : Collaborators)
    {calls : List Call} {i : Instance} (m : Message) (going : i.UnderWay t.phases)
    {es : List Effect} (ok : (tr.apply cx calls i m).result = .ok es) :
    (tr.apply cx calls i m).inst.UnderWay t.phases
      ∨ (tr.apply cx calls i m).inst.Ended t.phases := by
  obtain ⟨⟨front, last, body, quiet⟩, held⟩ := c.body_cases listed
  refine Transition.apply_arrives body (fun a ha => (c.admits_actions a ?_).phases) held quiet cx m
    going ok
  exact List.mem_flatMap.mpr ⟨tr, List.mem_cons_of_mem _ listed, ha⟩

/-- A new instance is under way. -/
theorem underWay_fresh (id : Key) (state : Value) : (Instance.fresh t id state).UnderWay t.phases where
  declared := by
    rw [c.phases_eq]
    exact List.mem_cons_self
  unfinished := rfl
  incomplete := by
    change Name.notStarted ≠ Name.completed
    decide

end Compiled

end Workflow
