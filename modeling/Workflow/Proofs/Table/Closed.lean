import Workflow.Proofs.Plan.Next

/-!
Closed tables: a table that names nothing it does not declare.

Names are built in many places, by concatenation, and are looked up at run time only. `references`,
`phases`, `controls` and `fields` collect what an action names, down to the exits of loops inside
loops; `Table.Closed` asks that all of it is declared, each message with the kind its position needs.
The main statement is that compilation gives closed tables.
-/

set_option autoImplicit false

namespace Workflow

/-! ## What an action names -/

namespace Continuation

/-- The messages a continuation may send, each with the kind it has to be of. -/
def references : Continuation → List (MessageKind × String)
  | .send command => [(.startStep, command)]
  | .complete => []
  | .fail => []
  | .loop c exit => (.startStep, c.again) :: exit.references
  | .requestApproval q => [(.approvalRequested, q.event)]

/-- The phases it may enter. -/
def phases : Continuation → List String
  | .send _ => []
  | .complete => [Name.completed]
  | .fail => [Name.failed]
  | .loop _ exit => exit.phases
  | .requestApproval q => [q.phase]

/-- The loops it may count. -/
def controls : Continuation → List LoopControl
  | .loop c exit => c :: exit.controls
  | _ => []

end Continuation

namespace Route

/-- Where a route may lead. -/
def targets (r : Route) : List Continuation :=
  r.arms.map RouteArm.target ++ r.fallback.toList

end Route

namespace FailureRoute

/-- The messages a failure may send. -/
def references (r : FailureRoute) : List (MessageKind × String) :=
  (r.handler.map fun trigger => (MessageKind.failureTrigger, trigger)).toList
    ++ (r.fork.map fun f => (MessageKind.startStep, f.join.command)).toList

end FailureRoute

namespace Action

/-- Where an action may go on. -/
def continuations : Action → List Continuation
  | .proceed k => [k]
  | .route r => r.targets
  | .decide approved rejected => [approved, rejected]
  | _ => []

/-- The messages it may send, each with the kind it has to be of. -/
def references (a : Action) : List (MessageKind × String) :=
  a.continuations.flatMap Continuation.references ++
    match a with
    | .validate g => [(.validationFailed, g.event)]
    | .dispatchWork _ command => [(.executeWorker, command)]
    | .routeFailure r => r.references
    | .startPaths _ commands => commands.map fun command => (.startStep, command)
    | .joinPath j => [(.startStep, j.command)]
    | .resumeFailedStep targets => targets.map fun target => (.startStep, target.command)
    | _ => []

/-- The phases it may enter, or name as the phase of a failed step. -/
def phases (a : Action) : List String :=
  a.continuations.flatMap Continuation.phases ++
    match a with
    | .setPhase phase => [phase]
    | .validate g => [g.step, Name.validationFailed]
    | .applyUpdate => [Name.failed]
    | .routeFailure r => [r.step]
    | .resumeFailedStep targets => targets.map ResumeTarget.step
    | _ => []

/-- The loops it may count. -/
def controls (a : Action) : List LoopControl :=
  a.continuations.flatMap Continuation.controls

/-- The fields it works on that not every process has. -/
def fields : Action → List FieldKind
  | .recordPendingApproval => [.pendingApproval]
  | .guardCorrelation _ => [.pendingApproval]
  | .clearPendingApproval => [.pendingApproval]
  | .recordDecision => [.approvalDecision]
  | .decide _ _ => [.pendingApproval]
  | .captureFailure => [.failureContext]
  | .resumeFailedStep _ => [.failureContext]
  | _ => []

end Action

/-! ## Closed tables -/

namespace Table

/-- Every action of the table. -/
def actions (t : Table) : List Action :=
  (t.start :: t.transitions).flatMap Transition.body

/-- A message is declared, with a kind. -/
def Declares (t : Table) (r : MessageKind × String) : Prop :=
  t.kindOf? r.2 = some r.1

/-- What is declared with a kind is one of the messages. -/
theorem Declares.exists_mem {t : Table} {r : MessageKind × String} (h : t.Declares r) :
    ∃ m ∈ t.messages, m.name = r.2 := by
  obtain ⟨m, found, _⟩ := Option.map_eq_some_iff.mp h
  unfold message? at found
  exact ⟨m, List.mem_of_find?_eq_some found, by simpa using List.find?_some found⟩

/-- A loop is declared: its counter is a field, and its check is a check of its condition. -/
def DeclaresLoop (t : Table) (c : LoopControl) : Prop :=
  ⟨c.counter, .iterationCounter c.loopPath⟩ ∈ t.fields
    ∧ ⟨c.check, c.conditionId, c.loopPath⟩ ∈ t.checks

/-- A table that names nothing it does not declare. -/
structure Closed (t : Table) : Prop where
  triggers_distinct : (t.transitions.map Transition.trigger).Nodup
  /-- An instance consumes exactly the messages of an inbound kind. -/
  triggers_inbound : ∀ name, name ∈ t.transitions.map Transition.trigger
    ↔ ∃ m ∈ t.messages, m.name = name ∧ m.kind.isInbound = true
  /-- They are exactly what has a fallback, under their own kind. -/
  fallbacks_inbound : ∀ kind name, (∃ f ∈ t.fallbacks, f.kind = kind ∧ name ∈ f.messages)
    ↔ kind.isInbound = true ∧ ∃ m ∈ t.messages, m.name = name ∧ m.kind = kind
  fallbacks_once : (t.fallbacks.flatMap Fallback.messages).Nodup
  references_declared : ∀ a ∈ t.actions, ∀ r ∈ a.references, t.Declares r
  phases_declared : ∀ a ∈ t.actions, ∀ p ∈ a.phases, p ∈ t.phases
  loops_declared : ∀ a ∈ t.actions, ∀ c ∈ a.controls, t.DeclaresLoop c
  fields_declared : ∀ a ∈ t.actions, ∀ k ∈ a.fields, k ∈ t.fields.map Field.kind
  /-- A fork waits for a completion, releases a start, and lists phases of the process. -/
  forks_declared : ∀ f ∈ t.forks, t.Declares (.stepCompleted, f.trigger)
    ∧ t.Declares (.startStep, f.joinCommand) ∧ ∀ path ∈ f.paths, ∀ p ∈ path.phases, p ∈ t.phases

/-- What a closed table asks of one continuation. -/
structure AdmitsGoing (t : Table) (k : Continuation) : Prop where
  references : ∀ r ∈ k.references, t.Declares r
  phases : ∀ p ∈ k.phases, p ∈ t.phases
  controls : ∀ c ∈ k.controls, t.DeclaresLoop c

/-- What it asks of one action. -/
structure Admits (t : Table) (a : Action) : Prop where
  references : ∀ r ∈ a.references, t.Declares r
  phases : ∀ p ∈ a.phases, p ∈ t.phases
  controls : ∀ c ∈ a.controls, t.DeclaresLoop c
  fields : ∀ k ∈ a.fields, k ∈ t.fields.map Field.kind

/-- An action that only goes on somewhere is admitted where its continuations are. -/
theorem admits_of_continuations {t : Table} {a : Action}
    (going : ∀ k ∈ a.continuations, t.AdmitsGoing k)
    (references : a.references = a.continuations.flatMap Continuation.references)
    (phases : a.phases = a.continuations.flatMap Continuation.phases)
    (fields : ∀ k ∈ a.fields, k ∈ t.fields.map Field.kind) : t.Admits a where
  references := by
    rw [references]
    intro r hr
    obtain ⟨k, hk, hr⟩ := List.mem_flatMap.mp hr
    exact (going k hk).references r hr
  phases := by
    rw [phases]
    intro p hp
    obtain ⟨k, hk, hp⟩ := List.mem_flatMap.mp hp
    exact (going k hk).phases p hp
  controls := by
    intro c hc
    obtain ⟨k, hk, hc⟩ := List.mem_flatMap.mp hc
    exact (going k hk).controls c hc
  fields := fields

/-- Sending asks for nothing but the message. -/
theorem admits_send {t : Table} {command : String} (h : t.Declares (.startStep, command)) :
    t.AdmitsGoing (.send command) where
  references := by simpa [Continuation.references] using h
  phases := by simp [Continuation.phases]
  controls := by simp [Continuation.controls]

/-- Going on asks for nothing but what is gone on with. -/
theorem admits_proceed {t : Table} {k : Continuation} (h : t.AdmitsGoing k) :
    t.Admits (.proceed k) :=
  admits_of_continuations (by simpa [Action.continuations] using h)
    (by simp [Action.references]) (by simp [Action.phases]) (by simp [Action.fields])

end Table

/-- An approval is the first link of its chain. -/
theorem Approval.mem_chain_self (a : Approval) : a ∈ a.chain := by
  cases a <;> simp [Approval.chain]

/-- A chain holds the next link of each of its links. -/
theorem Approval.next_mem_chain {a next : Approval} {g : Gate} (h : .asking g next ∈ a.chain) :
    next ∈ a.chain := by
  induction a with
  | failing _ => simp [Approval.chain] at h
  | running _ _ => simp [Approval.chain] at h
  | asking g' next' ih =>
    simp only [Approval.chain, List.mem_cons] at h ⊢
    rcases h with h | h
    · cases h
      exact .inr next.mem_chain_self
    · exact .inr (ih h)

/-! ## Names of a compiled definition -/

namespace Compiled

variable {d : Definition} {t : Table} (c : Compiled d t)

include c

/-- A message of the definition is declared under its kind: no other has its name. -/
theorem declares_of_mem {m : MessageEntry} (hm : m ∈ d.messages) : t.Declares (m.kind, m.name) :=
  c.kindOf?_eq hm

/-- Every site has a command that starts it. -/
theorem declares_start {s : Site} (hs : s ∈ d.sites) : t.Declares (.startStep, s.startCommand) :=
  c.declares_of_mem (m := ⟨s.startCommand, .startStep, s.phase⟩)
    (Definition.mem_messages_of_site hs (by simp [Site.messages]))

/-- Every site has a command for its worker. -/
theorem declares_worker {s : Site} (hs : s ∈ d.sites) :
    t.Declares (.executeWorker, s.workerCommand) :=
  c.declares_of_mem (m := ⟨s.workerCommand, .executeWorker, s.phase⟩)
    (Definition.mem_messages_of_site hs (by simp [Site.messages]))

/-- Every site has an event for its completion. -/
theorem declares_completed {s : Site} (hs : s ∈ d.sites) :
    t.Declares (.stepCompleted, s.completedEvent) :=
  c.declares_of_mem (m := ⟨s.completedEvent, .stepCompleted, s.phase⟩)
    (Definition.mem_messages_of_site hs (by simp [Site.messages]))

/-- A guarded site has an event for its refusal. -/
theorem declares_validationFailed {s : Site} (hs : s ∈ d.sites) (hg : s.step.isGuarded = true) :
    t.Declares (.validationFailed, s.validationFailedEvent) :=
  c.declares_of_mem (m := ⟨s.validationFailedEvent, .validationFailed, s.phase⟩)
    (Definition.mem_messages_of_site hs (by simp [Site.messages, hg]))

/-- So every step of every line may be started, by the name that is spelt for it there. -/
theorem declares_startOnLine (line : Line) (belongs : line.In d) {i : Nat} {x : Step}
    (hx : (line.steps d)[i]? = some x) :
    t.Declares (.startStep, Name.startCommand (line.stem d x)) := by
  have declared := c.declares_start (c.wellFormed.siteAt_mem_sites line belongs hx)
  simpa only [Site.startCommand, Line.siteAt_stem] using declared

/-- A step of the main line is started by its own name. -/
theorem declares_startOnMain {x : String} (h : x ∈ d.stepNames) :
    t.Declares (.startStep, Name.startCommand x) := by
  obtain ⟨i, y, hy, rfl⟩ := Definition.exists_step_of_mem_stepNames h
  exact c.declares_startOnLine .main trivial hy

/-- A step of the main line reports under its own name. -/
theorem declares_completedOnMain {x : String} (h : x ∈ d.stepNames) :
    t.Declares (.stepCompleted, Name.completedEvent x) := by
  obtain ⟨i, y, hy, rfl⟩ := Definition.exists_step_of_mem_stepNames h
  exact c.declares_completed (c.wellFormed.siteAt_mem_sites .main trivial hy)

/-- The messages of a gate are declared, at every link of a chain. -/
theorem declares_gate {a g : Approval} (ha : a ∈ d.approvals) (hg : g ∈ a.chain)
    {m : MessageEntry} (hm : m ∈ (Entry.approval g (d.approved a)).messages) :
    t.Declares (m.kind, m.name) :=
  c.declares_of_mem (Definition.mem_messages_of_plan
    (c.wellFormed.mem_plan_iff.mpr (.gate ha hg)) hm)

/-- A handler has a message that triggers it. -/
theorem declares_trigger {h : Handler} (hh : h ∈ d.handlers) :
    t.Declares (.failureTrigger, Name.failureTrigger h.id) :=
  c.declares_of_mem (m := ⟨Name.failureTrigger h.id, .failureTrigger, Text.sanitize h.id⟩)
    (Definition.mem_messages_of_plan (c.wellFormed.mem_plan_iff.mpr (.handler hh))
      (by simp [Entry.messages]))

/-! ## Phases -/

/-- The phases of an entry are phases of the table. -/
theorem mem_phases_of_entry {e : Entry} (he : e ∈ d.plan) {p : String} (hp : p ∈ e.phases) :
    p ∈ t.phases := by
  rw [c.phases_eq]
  exact List.mem_cons_of_mem _ (List.mem_append_left _ (List.mem_flatMap.mpr ⟨e, he, hp⟩))

theorem mem_phases_of_site {s : Site} (hs : s ∈ d.sites) : s.phase ∈ t.phases :=
  c.mem_phases_of_entry (Definition.mem_sites_iff_mem_plan.mp hs) (by simp [Entry.phases])

/-- So are those in which every process may end. -/
theorem mem_phases_of_closing {p : String} (hp : p ∈ Definition.closingPhases) : p ∈ t.phases := by
  rw [c.phases_eq]
  exact List.mem_cons_of_mem _ (List.mem_append_right _ hp)

/-! ## Continuations -/

theorem admits_complete : t.AdmitsGoing .complete where
  references := by simp [Continuation.references]
  phases := by
    simpa [Continuation.phases] using c.mem_phases_of_closing (by simp [Definition.closingPhases])
  controls := by simp [Continuation.controls]

theorem admits_fail : t.AdmitsGoing .fail where
  references := by simp [Continuation.references]
  phases := by
    simpa [Continuation.phases] using c.mem_phases_of_closing (by simp [Definition.closingPhases])
  controls := by simp [Continuation.controls]

/-- A gate may be asked at every link of a chain: its event and the phase to wait in are declared. -/
theorem admits_request {a g : Approval} (ha : a ∈ d.approvals) (hg : g ∈ a.chain) :
    t.AdmitsGoing g.gate.request where
  references := by
    have declared := c.declares_gate ha hg
      (m := ⟨Name.approvalRequested g.gate.name, .approvalRequested, g.gate.name⟩)
      (by simp [Entry.messages])
    simpa [Gate.request, Continuation.references] using declared
  phases := by
    have mem := c.mem_phases_of_entry (c.wellFormed.mem_plan_iff.mpr (.gate ha hg))
      (p := Name.awaitPhase g.gate.name) (by simp [Entry.phases])
    simpa [Gate.request, Continuation.phases] using mem
  controls := by simp [Gate.request, Continuation.controls]

/-- A loop is declared under its whole nesting path. -/
theorem declaresLoop {l : Loop} (hl : l ∈ d.loops) {again : String} :
    t.DeclaresLoop
      { loopPath := Name.loopPath (d.loopNames l), counter := Name.iterationCounter (d.loopNames l)
        check := Name.exitCheck (d.loopNames l), conditionId := l.conditionId
        maxIterations := l.maxIterations, again } := by
  constructor
  · rw [c.fields_eq, Definition.fields]
    exact List.mem_append_left _ (List.mem_append_right _ (List.mem_map.mpr ⟨l, hl, rfl⟩))
  · rw [c.checks_eq, Definition.checks]
    exact List.mem_map.mpr ⟨l, hl, rfl⟩

/-- A loop is left for its continuation where it has one, and otherwise for whatever follows outward. -/
theorem admits_loopExit {l : Loop} (hl : l ∈ d.loops) {outward : Continuation}
    (outer : t.AdmitsGoing outward) :
    t.AdmitsGoing (match l.continuation with
      | some step => .send (Name.startCommand step)
      | none => outward) := by
  split
  next step hstep =>
    exact Table.admits_send (c.declares_startOnMain (c.wellFormed.loop_continuation l hl step hstep))
  next => exact outer

/-- Loops stacked on one step, each inside the exit of the one before. -/
theorem admits_loopControl {loops : List Loop} (h : ∀ l ∈ loops, l ∈ d.loops) :
    t.AdmitsGoing (d.loopControl loops) := by
  induction loops with
  | nil => exact c.admits_complete
  | cons l outer ih =>
    have hl := h l List.mem_cons_self
    have again := c.declares_startOnMain (c.wellFormed.loop_first l hl)
    have exit := c.admits_loopExit hl (ih fun l hl => h l (List.mem_cons_of_mem _ hl))
    constructor
    · simp only [Definition.loopControl, Continuation.references, List.forall_mem_cons]
      exact ⟨again, exit.references⟩
    · exact exit.phases
    · simp only [Definition.loopControl, Continuation.controls, List.forall_mem_cons]
      exact ⟨c.declaresLoop hl, exit.controls⟩

/-- The end of a path rejoins the main line or completes the process. -/
theorem admits_pathEnd {b : Branch} {k : Case} (hb : b ∈ d.branches) :
    t.AdmitsGoing (PathEnd.continuation ⟨b, k⟩) := by
  unfold PathEnd.continuation
  split
  · exact c.admits_complete
  · split
    next step hstep =>
      exact Table.admits_send (c.declares_startOnMain (c.wellFormed.branch_rejoin b hb step hstep))
    next => exact c.admits_complete

/-- A case is entered at its first step, or left at once where it has none. -/
theorem admits_entryOf {b : Branch} {k : Case} (hb : b ∈ d.branches) (hk : k ∈ b.cases) :
    t.AdmitsGoing (b.entryOf k) := by
  unfold Branch.entryOf
  split
  next first rest hsteps =>
    have at? : ((Line.path b k).steps d)[0]? = some first := by simp [Line.steps, hsteps]
    exact Table.admits_send (c.declares_startOnLine (.path b k) ⟨hb, hk⟩ at?)
  next => exact c.admits_pathEnd hb

/-- Consent leads to the next step of the main line, or completes the process. -/
theorem admits_approved {a : Approval} : t.AdmitsGoing (d.approved a) := by
  unfold Definition.approved
  split
  next x hx =>
    obtain ⟨i, _, hi⟩ := Option.bind_eq_some_iff.mp hx
    exact Table.admits_send (c.declares_startOnMain
      (List.mem_map.mpr ⟨x, List.mem_of_getElem? hi, rfl⟩))
  next => exact c.admits_complete

/-- A refusal leads to the first of its steps, or fails the process. -/
theorem admits_rejected {a g : Approval} (ha : a ∈ d.approvals) (hg : g ∈ a.chain) :
    t.AdmitsGoing g.gate.rejected := by
  unfold Gate.rejected
  split
  next first rest hsteps =>
    have at? : ((Line.rejection a g).steps d)[0]? = some first := by simp [Line.steps, hsteps]
    exact Table.admits_send (c.declares_startOnLine (.rejection a g) ⟨ha, hg⟩ at?)
  next => exact c.admits_fail

/-- A timeout leads to its steps, to the next link of the chain, or fails the process. -/
theorem admits_timedOut {a g : Approval} (ha : a ∈ d.approvals) (hg : g ∈ a.chain) :
    t.AdmitsGoing g.timedOut := by
  unfold Approval.timedOut
  split
  next => exact c.admits_fail
  next => exact c.admits_fail
  next gate first rest =>
    have at? : ((Line.escalation a (.running gate (first :: rest))).steps d)[0]? = some first := rfl
    exact Table.admits_send (c.declares_startOnLine (.escalation a _) ⟨ha, hg⟩ at?)
  next gate next => exact c.admits_request ha (Approval.next_mem_chain hg)

/-! ## Actions -/

/-- Where there is an approval there are fields for what is pending and what was decided. -/
theorem field_of_approvals {a : Approval} (ha : a ∈ d.approvals) {k : FieldKind}
    (hk : k = .pendingApproval ∨ k = .approvalDecision) : k ∈ t.fields.map Field.kind := by
  have some : d.approvals.isEmpty = false := by
    cases h : d.approvals with
    | nil => simp [h] at ha
    | cons _ _ => rfl
  rw [c.fields_eq, Definition.fields, some]
  rcases hk with rfl | rfl <;> simp

/-- Where there is a handler there is a field for the failure. -/
theorem field_of_handlers {h : Handler} (hh : h ∈ d.handlers) :
    FieldKind.failureContext ∈ t.fields.map Field.kind := by
  have some : d.handlers.isEmpty = false := by
    cases h : d.handlers with
    | nil => simp [h] at hh
    | cons _ _ => rfl
  rw [c.fields_eq, Definition.fields, some]
  simp

/-- A route leads to the entries of its cases, fallback included. -/
theorem admits_route {b : Branch} (hb : b ∈ d.branches) : t.Admits (.route b.toRoute) := by
  refine Table.admits_of_continuations ?_ (by simp [Action.references]) (by simp [Action.phases])
    (by simp [Action.fields])
  intro k hk
  simp only [Action.continuations, Route.targets, Branch.toRoute, List.map_map, List.mem_append,
    List.mem_map, Option.mem_toList, Option.map_eq_some_iff] at hk
  rcases hk with ⟨⟨value, k⟩, hk, rfl⟩ | ⟨k, hk, rfl⟩
  · obtain ⟨k', hk', literal⟩ := List.mem_filterMap.mp hk
    have same : k' = k := by
      cases hsel : k'.selector <;> simp_all
    exact c.admits_entryOf hb (same ▸ hk')
  · exact c.admits_entryOf hb (List.mem_of_find?_eq_some hk)

/-- A fork starts the first step of each path. -/
theorem admits_cascade {f : Fork} (hf : f ∈ d.forks) : t.Admits f.cascade where
  references := by
    intro r hr
    simp only [Action.references, Fork.cascade, Action.continuations, List.flatMap_nil,
      List.nil_append, List.mem_map, List.mem_filterMap, Option.map_eq_some_iff] at hr
    obtain ⟨_, ⟨steps, hsteps, x, hx, rfl⟩, rfl⟩ := hr
    obtain ⟨p, hp⟩ := List.mem_iff_getElem?.mp hsteps
    have at? : ((Line.fork f p).steps d)[0]? = some x := by
      simp [Line.steps, hp, ← List.head?_eq_getElem?, hx]
    exact c.declares_startOnLine (.fork f p) hf at?
  phases := by simp [Fork.cascade, Action.phases, Action.continuations]
  controls := by simp [Fork.cascade, Action.controls, Action.continuations]
  fields := by simp [Fork.cascade, Action.fields]

/-- A path reports to the step where its fork joins. -/
theorem admits_joinPath {f : Fork} (hf : f ∈ d.forks) (p : Nat) :
    t.Admits (.joinPath (Definition.joinTarget f p)) where
  references := by
    have join := c.declares_startOnMain (c.wellFormed.fork_join f hf)
    simpa [Action.references, Action.continuations, Definition.joinTarget] using join
  phases := by simp [Action.phases, Action.continuations]
  controls := by simp [Action.controls, Action.continuations]
  fields := by simp [Action.fields]

/-- A recovery ends the process, or resumes at one of the sites. -/
theorem admits_chainEnd {h : Handler} (hh : h ∈ d.handlers) : t.Admits (d.chainEnd h) := by
  have target : ∀ r ∈ d.resumeTargets h, ∃ s ∈ d.sites, r = ⟨s.phase, s.startCommand⟩ := by
    intro r hr
    obtain ⟨s, hs, rfl⟩ := List.mem_map.mp hr
    exact ⟨s, (List.mem_filter.mp hs).1, rfl⟩
  unfold Definition.chainEnd
  split
  · exact Table.admits_proceed c.admits_fail
  · constructor
    · simp only [Action.references, Action.continuations, List.flatMap_nil, List.nil_append,
        List.forall_mem_map]
      intro r hr
      obtain ⟨s, hs, rfl⟩ := target r hr
      exact c.declares_start hs
    · simp only [Action.phases, Action.continuations, List.flatMap_nil, List.nil_append,
        List.forall_mem_map]
      intro r hr
      obtain ⟨s, hs, rfl⟩ := target r hr
      exact c.mem_phases_of_site hs
    · simp [Action.controls, Action.continuations]
    · simpa [Action.fields] using c.field_of_handlers hh

/-- Every line ends with what is declared: one case for each kind of line. -/
theorem admits_ending (line : Line) (belongs : line.In d) : t.Admits (line.ending d) := by
  cases line with
  | main => exact Table.admits_proceed c.admits_complete
  | path b k => exact Table.admits_proceed (c.admits_pathEnd belongs.1)
  | fork f p => exact c.admits_joinPath belongs p
  | escalation a g => exact Table.admits_proceed c.admits_approved
  | rejection a g => exact Table.admits_proceed c.admits_complete
  | recovery h => exact c.admits_chainEnd belongs

theorem admits_startNext (line : Line) (belongs : line.In d) {i : Nat} {stem : String}
    (h : line.next d i = some stem) :
    t.Admits (.proceed (.send (Name.startCommand stem))) := by
  obtain ⟨x, hx, rfl⟩ := Option.map_eq_some_iff.mp h
  exact Table.admits_proceed (Table.admits_send (c.declares_startOnLine line belongs hx))

/-- Whatever a site is followed by names declared things only. -/
theorem admits_next {s : Site} (hs : s ∈ d.sites) : t.Admits (d.next s) := by
  obtain ⟨line, belongs, i, x, hx, rfl⟩ := c.wellFormed.mem_sites_iff.mp hs
  by_cases off : line = .main
  · subst off
    have ending : ∀ l ∈ d.loopsEndingAt x.identifier, l ∈ d.loops := by
      intro l hl
      simp only [Definition.loopsEndingAt, List.mem_mergeSort, List.mem_filter] at hl
      exact hl.1
    rw [Definition.next_main]
    split
    · exact Table.admits_proceed (c.admits_loopControl ending)
    · split
      next b hb => exact c.admits_route (c.wellFormed.branchAfter?_eq_some_iff.mp hb).1
      next a _ ha =>
        exact Table.admits_proceed (c.admits_request (c.wellFormed.approvalAfter?_eq_some_iff.mp ha).1
          a.mem_chain_self)
      next f _ _ hf => exact c.admits_cascade (c.wellFormed.forkAfter?_eq_some_iff.mp hf).1
      next stem _ _ _ hn => exact c.admits_startNext .main trivial hn
      next => exact Table.admits_proceed c.admits_complete
  · rw [c.next_siteAt line belongs off hx]
    split
    next stem hn => exact c.admits_startNext line belongs hn
    next => exact c.admits_ending line belongs

/-! ## Transitions -/

/-- A failure goes to a handler of the definition, or to the join of the fork around it. -/
theorem admits_failureRoute {s : Site} (hs : s ∈ d.sites) :
    t.Admits (.routeFailure s.failureRoute) where
  references := by
    obtain ⟨line, belongs, i, x, hx, rfl⟩ := c.wellFormed.mem_sites_iff.mp hs
    intro r hr
    simp only [Action.references, Action.continuations, List.flatMap_nil, List.nil_append,
      FailureRoute.references, Site.failureRoute, List.mem_append, Option.mem_toList,
      Option.map_map, Option.map_eq_some_iff, Function.comp_apply, Line.siteAt_handler,
      Line.siteAt_forkPath] at hr
    rcases hr with ⟨h, hh, rfl⟩ | ⟨f, hf, rfl⟩
    · exact c.declares_trigger (line.handler_mem hh)
    · obtain ⟨g, p, rfl, rfl⟩ := line.eq_fork_of_forkPath hf
      exact c.declares_startOnMain (c.wellFormed.fork_join g belongs)
  phases := by
    simpa [Action.phases, Action.continuations, Site.failureRoute] using c.mem_phases_of_site hs
  controls := by simp [Action.controls, Action.continuations]
  fields := by simp [Action.fields]

/-- What starts a step names its phase, its worker and, where it is guarded, its refusal. -/
theorem admits_startTransition {s : Site} (hs : s ∈ d.sites) :
    ∀ a ∈ s.startTransition.body, t.Admits a := by
  have phase := c.mem_phases_of_site hs
  have set : t.Admits (.setPhase s.phase) :=
    ⟨by simp [Action.references, Action.continuations],
      by simpa [Action.phases, Action.continuations] using phase,
      by simp [Action.controls, Action.continuations], by simp [Action.fields]⟩
  have work : t.Admits (.dispatchWork s.step.workType s.workerCommand) :=
    ⟨by simpa [Action.references, Action.continuations] using c.declares_worker hs,
      by simp [Action.phases, Action.continuations],
      by simp [Action.controls, Action.continuations], by simp [Action.fields]⟩
  have guarded : ∀ a ∈ s.guardActions, t.Admits a := by
    unfold Site.guardActions
    split
    next => simp
    next g hg =>
      have refused := c.declares_validationFailed hs (by simp [Step.isGuarded, hg])
      have reserved := c.mem_phases_of_closing (p := Name.validationFailed)
        (by simp [Definition.closingPhases])
      intro a ha
      rw [List.mem_singleton.mp ha]
      exact ⟨by simpa [Action.references, Action.continuations] using refused,
        by simpa [Action.phases, Action.continuations] using ⟨phase, reserved⟩,
        by simp [Action.controls, Action.continuations], by simp [Action.fields]⟩
  intro a ha
  simp only [Site.startTransition, Transition.of, List.cons_append, List.mem_cons,
    List.mem_append, List.not_mem_nil, or_false] at ha
  rcases ha with rfl | ha | rfl
  · exact set
  · exact guarded a ha
  · exact work

/-- What completes a step names where its failure goes and what follows it. -/
theorem admits_completion {s : Site} (hs : s ∈ d.sites) :
    ∀ a ∈ (d.completion s).body, t.Admits a := by
  have update : t.Admits .applyUpdate :=
    ⟨by simp [Action.references, Action.continuations],
      by simpa [Action.phases, Action.continuations] using
        c.mem_phases_of_closing (by simp [Definition.closingPhases]),
      by simp [Action.controls, Action.continuations], by simp [Action.fields]⟩
  intro a ha
  simp only [Definition.completion, Transition.of, List.mem_cons, List.not_mem_nil, or_false] at ha
  rcases ha with rfl | rfl | rfl
  · exact update
  · exact c.admits_failureRoute hs
  · exact c.admits_next hs

/-- The transitions of a gate touch fields that are there, and lead on as the gate says. -/
theorem admits_gateTransitions {a g : Approval} (ha : a ∈ d.approvals) (hg : g ∈ a.chain) :
    ∀ tr ∈ g.transitions (d.approved a), ∀ b ∈ tr.body, t.Admits b := by
  have pending := c.field_of_approvals ha (.inl rfl)
  have decision := c.field_of_approvals ha (.inr rfl)
  -- three of the five actions only touch a field
  have plain : ∀ {b : Action}, b.continuations = [] → b.references = [] → b.phases = [] →
      (∀ k ∈ b.fields, k = .pendingApproval ∨ k = .approvalDecision) → t.Admits b := by
    intro b going references phases fields
    refine ⟨by simp [references], by simp [phases], by simp [Action.controls, going], ?_⟩
    intro k hk
    exact c.field_of_approvals ha (fields k hk)
  have decide : t.Admits (.decide (d.approved a) g.gate.rejected) := by
    refine Table.admits_of_continuations ?_ (by simp [Action.references])
      (by simp [Action.phases]) (by simpa [Action.fields] using pending)
    simpa [Action.continuations] using ⟨c.admits_approved, c.admits_rejected ha hg⟩
  intro tr htr b hb
  simp only [Approval.transitions, Transition.of, List.mem_cons, List.not_mem_nil, or_false] at htr
  rcases htr with rfl | rfl | rfl <;>
    simp only [List.mem_cons, List.not_mem_nil, or_false] at hb
  · subst hb
    exact plain rfl rfl rfl (by simp [Action.fields])
  · rcases hb with rfl | rfl | rfl
    · exact plain rfl rfl rfl (by simp [Action.fields])
    · exact plain rfl rfl rfl (by simp [Action.fields])
    · exact decide
  · rcases hb with rfl | rfl | rfl
    · exact plain rfl rfl rfl (by simp [Action.fields])
    · exact plain rfl rfl rfl (by simp [Action.fields])
    · exact Table.admits_proceed (c.admits_timedOut ha hg)

/-- The trigger of a handler records the failure and starts the chain. -/
theorem admits_triggerTransition {h : Handler} (hh : h ∈ d.handlers) {tr : Transition}
    (htr : h.trigger = .ok tr) : ∀ b ∈ tr.body, t.Admits b := by
  unfold Handler.trigger at htr
  split at htr
  next => cases htr
  next first rest hsteps =>
    cases htr
    have at? : ((Line.recovery h).steps d)[0]? = some first := by simp [Line.steps, hsteps]
    have start := c.declares_startOnLine (.recovery h) hh at?
    intro b hb
    simp only [Transition.of, List.mem_cons, List.not_mem_nil, or_false] at hb
    rcases hb with rfl | rfl
    · exact ⟨by simp [Action.references, Action.continuations],
        by simp [Action.phases, Action.continuations],
        by simp [Action.controls, Action.continuations],
        by simpa [Action.fields] using c.field_of_handlers hh⟩
    · exact Table.admits_proceed (Table.admits_send start)

theorem admits_startFactory : ∀ b ∈ t.start.body, t.Admits b := by
  obtain ⟨first, at?, start⟩ := c.exists_start
  rw [start]
  intro b hb
  simp only [List.mem_cons, List.not_mem_nil, or_false] at hb
  rcases hb with rfl | rfl
  · exact ⟨by simp [Action.references, Action.continuations],
      by simp [Action.phases, Action.continuations],
      by simp [Action.controls, Action.continuations], by simp [Action.fields]⟩
  · exact Table.admits_proceed (Table.admits_send (c.declares_startOnLine .main trivial at?))

/-- Every action of a compiled table is admitted: by where it comes from in the plan. -/
theorem admits_actions : ∀ b ∈ t.actions, t.Admits b := by
  intro b hb
  obtain ⟨tr, htr, hb⟩ := List.mem_flatMap.mp hb
  rcases List.mem_cons.mp htr with rfl | htr
  · exact c.admits_startFactory b hb
  · obtain ⟨e, he, ts, hts, htr⟩ := c.mem_transitions_iff.mp htr
    cases c.wellFormed.mem_plan_iff.mp he with
    | step line belongs hx =>
      have hs := c.wellFormed.siteAt_mem_sites line belongs hx
      cases hts
      simp only [List.mem_cons, List.not_mem_nil, or_false] at htr
      rcases htr with rfl | rfl
      · exact c.admits_startTransition hs b hb
      · exact c.admits_completion hs b hb
    | gate attached link =>
      cases hts
      exact c.admits_gateTransitions attached link tr htr b hb
    | handler declared =>
      obtain ⟨tr', htr', rfl⟩ := map_eq_ok.mp hts
      rw [List.mem_singleton] at htr
      subst htr
      exact c.admits_triggerTransition declared htr' b hb

/-! ## Fallbacks and forks -/

omit c in
/-- What has a fallback is what an instance consumes, under its own kind. -/
theorem mem_fallbacks_iff {messages : List MessageEntry} {kind : MessageKind} {name : String} :
    (∃ f ∈ Fallback.ofMessages messages, f.kind = kind ∧ name ∈ f.messages)
      ↔ kind.isInbound = true ∧ ∃ m ∈ messages, m.name = name ∧ m.kind = kind := by
  simp only [Fallback.ofMessages, List.mem_filterMap]
  constructor
  · rintro ⟨f, ⟨k, _, hf⟩, rfl, hname⟩
    split at hf
    next some =>
      cases hf
      obtain ⟨m, hm, rfl⟩ := List.mem_map.mp hname
      obtain ⟨hm, hkind⟩ := List.mem_filter.mp hm
      exact ⟨(Bool.and_eq_true_iff.mp some).1, m, hm, rfl, of_decide_eq_true hkind⟩
    next => cases hf
  · rintro ⟨inbound, m, hm, rfl, rfl⟩
    have mem : m.name ∈ (messages.filter (·.kind = m.kind)).map MessageEntry.name :=
      List.mem_map_of_mem (List.mem_filter.mpr ⟨hm, by simp⟩)
    have filled : ((messages.filter (·.kind = m.kind)).map MessageEntry.name).isEmpty = false := by
      rw [List.isEmpty_eq_false_iff]
      exact List.ne_nil_of_mem mem
    refine ⟨⟨m.kind, _⟩, ⟨m.kind, MessageKind.mem_all _, ?_⟩, rfl, mem⟩
    rw [if_pos (by simp [inbound, filled])]

/-- A message has one kind, so it is listed under one kind and once. -/
theorem fallbacks_nodup : (t.fallbacks.flatMap Fallback.messages).Nodup := by
  have named : ∀ kind : MessageKind,
      ((d.messages.filter (·.kind = kind)).map MessageEntry.name).Nodup := fun kind =>
    c.messages_distinct.sublist (List.filter_sublist.map _)
  have fallback : ∀ f ∈ t.fallbacks,
      f.messages = (d.messages.filter (·.kind = f.kind)).map MessageEntry.name := by
    intro f hf
    rw [c.fallbacks_eq, Fallback.ofMessages] at hf
    obtain ⟨k, _, hf⟩ := List.mem_filterMap.mp hf
    dsimp only at hf
    split at hf
    · cases hf
      rfl
    · cases hf
  have kinds : (t.fallbacks.map Fallback.kind).Nodup := by
    have sorted : (t.fallbacks.map Fallback.kind).Sublist MessageKind.all := by
      rw [c.fallbacks_eq, Fallback.ofMessages]
      generalize MessageKind.all = all
      induction all with
      | nil => simp
      | cons k all ih =>
        rw [List.filterMap_cons]
        split
        next => exact ih.cons k
        next f hf =>
          dsimp only at hf
          split at hf
          · cases hf
            exact ih.cons_cons k
          · cases hf
    exact List.Nodup.sublist sorted (by decide)
  apply List.nodup_flatMap.mpr
  refine ⟨fun f hf => fallback f hf ▸ named f.kind, ?_⟩
  refine (List.pairwise_map.mp kinds).imp_of_mem fun {f g} hf hg different name hname hname' => ?_
  rw [fallback f hf] at hname
  rw [fallback g hg] at hname'
  obtain ⟨m, hm, rfl⟩ := List.mem_map.mp hname
  obtain ⟨m', hm', same⟩ := List.mem_map.mp hname'
  simp only [List.mem_filter, decide_eq_true_eq] at hm hm'
  have one := c.message_eq_of_name_eq hm'.1 hm.1 same
  exact different (by rw [← hm.2, ← hm'.2, one])

/-- What a host is told of a fork is declared. -/
theorem declares_fork : ∀ f ∈ t.forks, t.Declares (.stepCompleted, f.trigger)
    ∧ t.Declares (.startStep, f.joinCommand)
    ∧ ∀ path ∈ f.paths, ∀ p ∈ path.phases, p ∈ t.phases := by
  rw [c.forks_eq]
  intro layout hlayout
  obtain ⟨f, hf, rfl⟩ := List.mem_map.mp hlayout
  refine ⟨c.declares_completedOnMain (c.wellFormed.fork_previous f hf),
    c.declares_startOnMain (c.wellFormed.fork_join f hf), ?_⟩
  intro path hpath p hp
  obtain ⟨i, hi, rfl⟩ := List.mem_mapIdx.mp hpath
  obtain ⟨s, hs, rfl⟩ := List.mem_map.mp hp
  have along : s ∈ d.forkSites f :=
    List.mem_flatten.mpr ⟨_, List.mem_mapIdx.mpr ⟨i, hi, rfl⟩, hs⟩
  obtain ⟨q, j, x, hx, rfl⟩ := Definition.mem_forkSites_iff.mp along
  exact c.mem_phases_of_site (c.wellFormed.siteAt_mem_sites (.fork f q) hf hx)

end Compiled

/-- Compilation gives closed tables: every message, phase, counter, check and field that occurs
anywhere in a table is declared by it, each message with the kind its position needs. -/
theorem compile_closed {d : Definition} {s : Settings} {t : Table} (h : d.compile s = .ok t) :
    t.Closed := by
  have c := Definition.compiled_of_compile h
  have admits := c.admits_actions
  exact {
    triggers_distinct := c.triggers_distinct
    triggers_inbound := by
      intro name
      rw [c.triggers_eq]
      simp only [List.mem_map, List.mem_filter]
      constructor
      · rintro ⟨m, ⟨hm, inbound⟩, hname⟩
        exact ⟨m, hm, hname, inbound⟩
      · rintro ⟨m, hm, hname, inbound⟩
        exact ⟨m, ⟨hm, inbound⟩, hname⟩
    fallbacks_inbound := by
      intro kind name
      rw [c.fallbacks_eq, c.messages_eq]
      exact Compiled.mem_fallbacks_iff
    fallbacks_once := c.fallbacks_nodup
    references_declared := fun a ha => (admits a ha).references
    phases_declared := fun a ha => (admits a ha).phases
    loops_declared := fun a ha => (admits a ha).controls
    fields_declared := fun a ha => (admits a ha).fields
    forks_declared := c.declares_fork }

theorem compile_closed_order : ∃ t, Definition.order.compile .default = .ok t ∧ t.Closed := by
  obtain ⟨t, ht⟩ := Definition.exists_compile_order
  exact ⟨t, ht, compile_closed ht⟩

end Workflow
