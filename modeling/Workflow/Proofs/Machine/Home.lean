import Workflow.Machine

/-!
A transition stays with its instance: it keeps the instance's key, and what it hands to the host is
addressed to that key.
-/

set_option autoImplicit false

namespace Workflow

/-- Whether an effect concerns an instance and no other. A cancellation concerns the instance of the
message that caused it. -/
def Effect.IsFor (id : Key) : Effect → Prop
  | .send m => m.instanceId = id
  | .join _ _ _ m => m.instanceId = id
  | .cancelFork _ => True

/-- The run is on the instance of a key and has stayed with it. -/
structure Run.Home (id : Key) (r : Run) : Prop where
  inst_id : r.inst.id = id
  effects : ∀ e ∈ r.effects, e.IsFor id

/-- Where the flow ends, the run has stayed with its instance. -/
def Flow.Home (id : Key) : Flow → Prop
  | .next r => r.Home id
  | .stop r => r.Home id
  | .fault r _ => r.Home id

namespace Run.Home

variable {id : Key} {r : Run}

/-- An effect that concerns the instance may be handed on. -/
theorem emit (h : r.Home id) {e : Effect} (he : e.IsFor id) : (r.emit e).Home id where
  inst_id := h.inst_id
  effects := by
    intro e' he'
    rcases List.mem_append.mp he' with he' | he'
    · exact h.effects e' he'
    · rw [List.mem_singleton] at he'
      exact he' ▸ he

/-- What a run sends, it sends to its own instance. -/
theorem sendBody (h : r.Home id) (name : String) (body : Body) : (r.sendBody name body).Home id :=
  h.emit h.inst_id

/-- What a run reports to a join carries the key of its own instance. -/
theorem report (h : r.Home id) (j : JoinTarget) : (r.report j).Home id :=
  h.emit h.inst_id

theorem foldl_send (h : r.Home id) (commands : List String) :
    (commands.foldl Run.send r).Home id := by
  induction commands generalizing r with
  | nil => exact h
  | cons command rest ih => exact ih (h.sendBody command .empty)

/-- A continuation changes phase, flags and counters, and sends messages: it stays. -/
theorem follow (cx : Collaborators) (h : r.Home id) (k : Continuation) :
    (r.follow cx k).Home id := by
  induction k generalizing r with
  | send command => exact h.sendBody command .empty
  | complete => exact ⟨h.inst_id, h.effects⟩
  | fail => exact ⟨h.inst_id, h.effects⟩
  | requestApproval q => exact sendBody (r := r.enter q.phase) ⟨h.inst_id, h.effects⟩ _ _
  | loop c exit ih =>
    simp only [Run.follow]
    split
    · exact ih ⟨h.inst_id, h.effects⟩
    · split
      · exact ih ⟨h.inst_id, h.effects⟩
      · refine sendBody ?_ c.again .empty
        exact ⟨h.inst_id, h.effects⟩

theorem cancel (h : r.Home id) (f : Option ForkFailure) : (r.cancel f).Home id := by
  cases f with
  | none => exact h
  | some f =>
    simp only [Run.cancel]
    split
    · exact h.emit trivial
    · exact h

/-- A failure stays with its instance wherever it goes, also where it cancels a fork. -/
theorem routeFailure (h : r.Home id) (route : FailureRoute) : (r.routeFailure route).Home id := by
  unfold Run.routeFailure
  split
  · exact h
  · split
    · exact h
    · have cancelled := cancel (r := { r with failure := none }) ⟨h.inst_id, h.effects⟩ route.fork
      dsimp only
      split
      · exact cancelled.sendBody _ _
      · split
        · exact ⟨cancelled.inst_id, cancelled.effects⟩
        · refine report ?_ _
          exact ⟨cancelled.inst_id, cancelled.effects⟩
      · exact cancelled

/-- Every action stays with its instance: one case for each of them. -/
theorem step (cx : Collaborators) (m : Message) (h : r.Home id) (a : Action) :
    (r.step cx m a).Home id := by
  cases a with
  | validate g =>
    simp only [Run.step]
    split
    · exact ⟨h.inst_id, h.effects⟩
    · refine sendBody ?_ _ _
      exact ⟨h.inst_id, h.effects⟩
  | dispatchWork workType command => exact h.sendBody _ _
  | applyUpdate =>
    simp only [Run.step]
    split
    · simp only [Run.merge]
      split <;> exact ⟨h.inst_id, h.effects⟩
    · exact h
  | routeFailure route => exact h.routeFailure route
  | proceed k => exact h.follow cx k
  | route route =>
    simp only [Run.step, Run.choose]
    split
    · exact h.follow cx _
    · exact h
  | startPaths fork commands => exact h.foldl_send commands
  | joinPath target => exact h.report target
  | recordPendingApproval =>
    simp only [Run.step]
    split
    · exact ⟨h.inst_id, h.effects⟩
    · exact h
  | guardCorrelation approval =>
    simp only [Run.step]
    split
    · split <;> exact h
    · exact h
  | recordDecision =>
    simp only [Run.step]
    split
    · exact ⟨h.inst_id, h.effects⟩
    · exact h
  | decide approved rejected =>
    simp only [Run.step]
    split
    next decision _ =>
      cases decision with
      | approved => exact follow cx (r := r.setPending none) ⟨h.inst_id, h.effects⟩ approved
      | rejected => exact follow cx (r := r.setPending none) ⟨h.inst_id, h.effects⟩ rejected
      | deferred => exact h
    next => exact h
  | captureFailure =>
    simp only [Run.step]
    split
    · exact ⟨h.inst_id, h.effects⟩
    · exact h
  | resumeFailedStep targets =>
    simp only [Run.step, Run.resume]
    split
    · exact h.sendBody _ _
    · exact h
  | _ => exact ⟨h.inst_id, h.effects⟩

/-- So do all actions of a body, by induction on them. -/
theorem steps (cx : Collaborators) (m : Message) (actions : List Action) (h : r.Home id) :
    (r.steps cx m actions).Home id := by
  induction actions generalizing r with
  | nil => exact h
  | cons a rest ih =>
    have first := h.step cx m a
    simp only [Run.steps]
    split
    next r' hr => exact ih (by rwa [hr] at first)
    next => exact first

end Run.Home

/-- What a transition does to an instance keeps its key. -/
theorem Transition.apply_inst_id (t : Transition) (cx : Collaborators) (calls : List Call)
    (i : Instance) (m : Message) : (t.apply cx calls i m).inst.id = i.id := by
  have home : (Run.steps cx m ⟨i, none, [], calls⟩ t.body).Home i.id :=
    Run.Home.steps cx m t.body ⟨rfl, by simp⟩
  unfold Transition.apply
  cases h : Run.steps cx m ⟨i, none, [], calls⟩ t.body <;>
    exact Run.Home.inst_id (by rw [h] at home; exact home)

/-- What a transition hands to the host concerns its instance. -/
theorem Transition.apply_effects_isFor {t : Transition} {cx : Collaborators} {calls : List Call}
    {i : Instance} {m : Message} {es : List Effect} (ok : (t.apply cx calls i m).result = .ok es) :
    ∀ e ∈ es, e.IsFor i.id := by
  have home : (Run.steps cx m ⟨i, none, [], calls⟩ t.body).Home i.id :=
    Run.Home.steps cx m t.body ⟨rfl, by simp⟩
  unfold Transition.apply at ok
  cases h : Run.steps cx m ⟨i, none, [], calls⟩ t.body with
  | next r =>
    rw [h] at home ok
    cases ok
    exact Run.Home.effects home
  | stop r =>
    rw [h] at home ok
    cases ok
    exact Run.Home.effects home
  | fault r f =>
    rw [h] at ok
    cases ok

end Workflow
