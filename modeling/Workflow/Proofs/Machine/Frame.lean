import Workflow.Proofs.Machine.Completion
import Workflow.Proofs.Table.Closed

/-!
What a transition leaves alone.

Few actions touch the outstanding request of an instance or its counters: an acknowledgement records a
request, an answer clears it, and the control of a loop counts up below its bound or starts over. A
property of these two fields is kept by every transition for which it survives those three, whatever
else the transition does. Nothing a transition hands to the host carries a correlation id.
-/

set_option autoImplicit false

namespace Workflow

/-- A property of an instance's outstanding request and counters that the end of the request does not
break. -/
structure Instance.Framed (P : Instance → Prop) : Prop where
  same {i j : Instance} (pending : j.pendingApproval = i.pendingApproval)
    (counters : j.counters = i.counters) (holds : P i) : P j
  clear {i : Instance} (holds : P i) : P { i with pendingApproval := none }

/-- The property survives the control of a loop, which starts its count over or counts one up below its
bound. -/
def Instance.Survives (P : Instance → Prop) (c : LoopControl) : Prop :=
  ∀ i, P i → P (i.counting c.counter 0)
    ∧ (¬ c.maxIterations ≤ i.counter c.counter + 1 →
      P (i.counting c.counter (i.counter c.counter + 1)))

/-- Whether an effect carries no correlation id. -/
def Effect.IsMute : Effect → Prop
  | .send m => m.correlation? = none
  | .join _ _ _ m => m.correlation? = none
  | .cancelFork _ => True

/-- The instance of a run has a property, and nothing that was handed on carries a correlation id. -/
structure Run.Tame (P : Instance → Prop) (r : Run) : Prop where
  inst : P r.inst
  mute : ∀ e ∈ r.effects, e.IsMute

/-- So it is where the flow ends. -/
def Flow.Tame (P : Instance → Prop) : Flow → Prop
  | .next r => r.Tame P
  | .stop r => r.Tame P
  | .fault r _ => r.Tame P

/-- What a value leads to is one of the targets. -/
theorem Route.mem_targets {route : Route} {value : String} {k : Continuation}
    (found : ((route.arms.find? (·.value = value)).map RouteArm.target).or route.fallback = some k) :
    k ∈ route.targets := by
  simp only [Route.targets, List.mem_append, List.mem_map, Option.mem_toList]
  rcases Option.or_eq_some_iff.mp found with matched | ⟨_, fallback⟩
  · obtain ⟨arm, first, rfl⟩ := Option.map_eq_some_iff.mp matched
    exact .inl ⟨arm, List.mem_of_find?_eq_some first, rfl⟩
  · exact .inr fallback

namespace Run.Tame

variable {P : Instance → Prop} {r : Run}

theorem emit (tame : r.Tame P) {e : Effect} (mute : e.IsMute) : (r.emit e).Tame P where
  inst := tame.inst
  mute := by
    intro e' he'
    rcases List.mem_append.mp he' with old | new
    · exact tame.mute e' old
    · rw [List.mem_singleton.mp new]
      exact mute

theorem foldl_send (tame : r.Tame P) (commands : List String) :
    (commands.foldl Run.send r).Tame P := by
  induction commands generalizing r with
  | nil => exact tame
  | cons command rest ih => exact ih (tame.emit rfl)

theorem cancel (tame : r.Tame P) (f : Option ForkFailure) : (r.cancel f).Tame P := by
  cases f with
  | none => exact tame
  | some f =>
    simp only [Run.cancel]
    split
    · exact tame.emit trivial
    · exact tame

variable (framed : Instance.Framed P)

include framed

/-- Everything else about a run may change. -/
theorem congr (tame : r.Tame P) {r' : Run} (pending : r'.inst.pendingApproval = r.inst.pendingApproval)
    (counters : r'.inst.counters = r.inst.counters) (effects : r'.effects = r.effects) :
    r'.Tame P :=
  ⟨framed.same pending counters tame.inst, effects ▸ tame.mute⟩

theorem clear (tame : r.Tame P) : (r.setPending none).Tame P :=
  ⟨framed.clear tame.inst, tame.mute⟩

theorem follow (cx : Collaborators) {k : Continuation}
    (count : ∀ c ∈ k.controls, Instance.Survives P c) (tame : r.Tame P) :
    (r.follow cx k).Tame P := by
  induction k generalizing r with
  | send command => exact tame.emit rfl
  | complete => exact tame.congr framed rfl rfl rfl
  | fail => exact tame.congr framed rfl rfl rfl
  | requestApproval q => exact emit (r := r.enter q.phase) (tame.congr framed rfl rfl rfl) rfl
  | loop c exit ih =>
    have mine := count c List.mem_cons_self r.inst tame.inst
    -- whatever is counted before, a loop that is left counts from zero again
    have left : ∀ calls, Run.Tame P (Run.follow cx { (r.setCounter c.counter
        (r.inst.counter c.counter + 1)).setCounter c.counter 0 with calls } exit) := by
      intro calls
      refine ih (fun c' hc' => count c' (List.mem_cons_of_mem _ hc')) ⟨?_, tame.mute⟩
      have reset := mine.1
      rwa [Instance.counting, ← Keyed.insert_insert _ _ (r.inst.counter c.counter + 1)] at reset
    simp only [Run.follow]
    split
    · exact left _
    next below =>
      split
      · exact left _
      · exact emit (r := { r.setCounter c.counter (r.inst.counter c.counter + 1) with
          calls := _ }) ⟨mine.2 below, tame.mute⟩ rfl

theorem routeFailure (tame : r.Tame P) (route : FailureRoute) : (r.routeFailure route).Tame P := by
  unfold Run.routeFailure
  split
  · exact tame
  · split
    · exact tame
    · have cancelled := cancel (r := { r with failure := none })
        (tame.congr framed rfl rfl rfl) route.fork
      dsimp only
      split
      · exact cancelled.emit rfl
      · split
        · exact cancelled.congr framed rfl rfl rfl
        · exact emit (r := Run.enter _ route.step) (cancelled.congr framed rfl rfl rfl) rfl
      · exact cancelled

theorem step (cx : Collaborators) (m : Message) {a : Action}
    (record : a = .recordPendingApproval → ∀ c, m.correlation? = some c →
      ∀ i, P i → P { i with pendingApproval := some c })
    (count : ∀ c ∈ a.controls, Instance.Survives P c) (tame : r.Tame P) :
    (r.step cx m a).Tame P := by
  have going : ∀ {r : Run} {k : Continuation}, k ∈ a.continuations → r.Tame P →
      (r.follow cx k).Tame P := fun hk tame =>
    tame.follow framed cx fun c hc => count c (List.mem_flatMap.mpr ⟨_, hk, hc⟩)
  cases a with
  | validate g =>
    simp only [Run.step]
    split
    · exact tame.congr framed rfl rfl rfl
    · refine emit ?_ rfl
      exact tame.congr framed rfl rfl rfl
  | dispatchWork workType command => exact tame.emit rfl
  | applyUpdate =>
    simp only [Run.step]
    split
    · simp only [Run.merge]
      split <;> exact tame.congr framed rfl rfl rfl
    · exact tame
  | routeFailure route => exact tame.routeFailure framed route
  | proceed k => exact going (by simp [Action.continuations]) tame
  | route route =>
    simp only [Run.step, Run.choose]
    split
    next target found => exact going (Route.mem_targets found) tame
    next => exact tame
  | startPaths fork commands => exact tame.foldl_send commands
  | joinPath target => exact tame.emit rfl
  | recordPendingApproval =>
    simp only [Run.step]
    split
    next c carried => exact ⟨record rfl c carried _ tame.inst, tame.mute⟩
    next => exact tame
  | guardCorrelation approval =>
    simp only [Run.step]
    split
    · split <;> exact tame
    · exact tame
  | clearPendingApproval => exact tame.clear framed
  | recordDecision =>
    simp only [Run.step]
    split
    · exact tame.congr framed rfl rfl rfl
    · exact tame
  | decide approved rejected =>
    simp only [Run.step]
    split
    next decision _ =>
      cases decision with
      | approved => exact going (by simp [Action.continuations]) (tame.clear framed)
      | rejected => exact going (by simp [Action.continuations]) (tame.clear framed)
      | deferred => exact tame
    next => exact tame
  | captureFailure =>
    simp only [Run.step]
    split
    · exact tame.congr framed rfl rfl rfl
    · exact tame
  | resumeFailedStep targets =>
    simp only [Run.step, Run.resume]
    split
    · exact tame.emit rfl
    · exact tame
  | _ => exact tame.congr framed rfl rfl rfl

theorem steps (cx : Collaborators) (m : Message) {actions : List Action}
    (record : .recordPendingApproval ∈ actions → ∀ c, m.correlation? = some c →
      ∀ i, P i → P { i with pendingApproval := some c })
    (count : ∀ a ∈ actions, ∀ c ∈ a.controls, Instance.Survives P c)
    (tame : r.Tame P) : (r.steps cx m actions).Tame P := by
  induction actions generalizing r with
  | nil => exact tame
  | cons a rest ih =>
    have first := tame.step framed cx m (fun same => record (same ▸ List.mem_cons_self))
      (count a List.mem_cons_self)
    simp only [Run.steps]
    split
    next r' hr =>
      rw [hr] at first
      exact ih (fun later => record (List.mem_cons_of_mem _ later))
        (fun a' ha' => count a' (List.mem_cons_of_mem _ ha')) first
    next => exact first

end Run.Tame

/-- A transition keeps a property of the outstanding request and the counters. -/
theorem Transition.apply_keeps {P : Instance → Prop} (framed : Instance.Framed P) {t : Transition}
    {cx : Collaborators} {calls : List Call} {i : Instance} {m : Message}
    (record : .recordPendingApproval ∈ t.body → ∀ c, m.correlation? = some c →
      ∀ i, P i → P { i with pendingApproval := some c })
    (count : ∀ a ∈ t.body, ∀ c ∈ a.controls, Instance.Survives P c)
    (holds : P i) : P (t.apply cx calls i m).inst := by
  have tame : (Run.steps cx m ⟨i, none, [], calls⟩ t.body).Tame P :=
    Run.Tame.steps framed cx m record count ⟨holds, by simp⟩
  unfold Transition.apply
  cases flow : Run.steps cx m ⟨i, none, [], calls⟩ t.body <;>
    exact Run.Tame.inst (by rw [flow] at tame; exact tame)

/-- What a transition hands to the host carries no correlation id. -/
theorem Transition.apply_isMute {t : Transition} {cx : Collaborators} {calls : List Call}
    {i : Instance} {m : Message} {es : List Effect} (ok : (t.apply cx calls i m).result = .ok es) :
    ∀ e ∈ es, e.IsMute := by
  have tame : (Run.steps cx m ⟨i, none, [], calls⟩ t.body).Tame fun _ => True :=
    Run.Tame.steps ⟨fun _ _ _ => trivial, fun _ => trivial⟩ cx m (fun _ _ _ _ _ => trivial)
      (fun _ _ _ _ _ _ => ⟨trivial, fun _ => trivial⟩) ⟨trivial, by simp⟩
  unfold Transition.apply at ok
  cases flow : Run.steps cx m ⟨i, none, [], calls⟩ t.body with
  | next r | stop r =>
    rw [flow] at tame ok
    cases ok
    exact Run.Tame.mute tame
  | fault r f =>
    rw [flow] at ok
    cases ok

end Workflow
