import Workflow.Proofs.Host.Projection
import Workflow.Proofs.Machine.Completion
import Workflow.Proofs.Table.Closed

/-!
Tokens: the messages a host queues by itself, read as positions of the definition instead of names.

A token says what it is for: to start, to work at or to complete a position of a line, to trigger a
handler, or to carry a signal of a gate. Names are distinct, so a message is the message of one
token, and what its delivery does can be said without a transition table: `Token.applied` is that
rule, and `exists_transition` says that the table follows it.
-/

set_option autoImplicit false

namespace Workflow

/-! ## Positions -/

/-- A position of a line, with its step. -/
structure Spot where
  line : Line
  index : Nat
  step : Step
  deriving DecidableEq, Repr

namespace Spot

/-- Whether the position is one of the definition's. -/
def In (d : Definition) (x : Spot) : Prop :=
  x.line.In d ∧ (x.line.steps d)[x.index]? = some x.step

/-- The phase of its step. -/
def phase (d : Definition) (x : Spot) : String := x.line.phase d x.step

/-- What the names of its messages are built from. -/
def stem (d : Definition) (x : Spot) : String := x.line.stem d x.step

/-- The site the plan has for it. -/
def site (d : Definition) (x : Spot) : Site := x.line.siteAt d x.index x.step

/-- The handler of its failures. -/
def handler? (d : Definition) (x : Spot) : Option Handler := x.line.handler? d x.step

variable {d : Definition} {x : Spot}

@[simp] theorem site_phase : (x.site d).phase = x.phase d := Line.siteAt_phase

@[simp] theorem site_stem : (x.site d).stem = x.stem d := Line.siteAt_stem

@[simp] theorem site_step : (x.site d).step = x.step := Line.siteAt_step

theorem In.site_mem (hx : x.In d) (hw : d.WellFormed) : x.site d ∈ d.sites :=
  hw.siteAt_mem_sites x.line hx.1 hx.2

theorem fork_mem (hx : x.In d) {f : Fork} {p : Nat} (line : x.line = .fork f p) : f ∈ d.forks := by
  have belongs := hx.1
  rw [line] at belongs
  exact belongs

theorem recovery_mem (hx : x.In d) {g : Handler} (line : x.line = .recovery g) :
    g ∈ d.handlers := by
  have belongs := hx.1
  rw [line] at belongs
  exact belongs

/-- A failure goes to a handler of the definition. -/
theorem handler_mem {g : Handler} (takes : x.handler? d = some g) : g ∈ d.handlers :=
  x.line.handler_mem (x := x.step) (by rw [Line.handler_site]; exact takes)

end Spot

/-- Whether the line runs by itself and not beside others or in a recovery. -/
def Line.IsPlain : Line → Prop
  | .fork _ _ => False
  | .recovery _ => False
  | _ => True

/-- The fork and the path a line is. -/
def Line.lane? : Line → Option (Fork × Nat)
  | .fork f index => some (f, index)
  | _ => none

theorem Line.IsPlain.lane?_eq {line : Line} (plain : line.IsPlain) : line.lane? = none := by
  cases line <;> first | rfl | exact plain.elim

/-- Whether a name is one of the messages that drive the steps of a path. -/
def Fork.Drives (d : Definition) (f : Fork) (p : Nat) (name : String) : Prop :=
  ∃ x : Spot, x.In d ∧ x.line = .fork f p ∧ ∃ m ∈ (x.site d).messages, m.name = name

/-! ## Tokens -/

/-- Whether messages of the kind carry control. -/
def MessageKind.isControl : MessageKind → Bool
  | .startStep | .executeWorker | .stepCompleted | .failureTrigger | .approvalPending => true
  | _ => false

/-- A message that a host queues by itself. -/
inductive Token where
  | start (x : Spot)
  | work (x : Spot) (state : Value)
  | done (x : Spot) (update : Value) (failure : Option StepFailure)
  | trigger (h : Handler) (failure : FailureContext)
  /-- The acknowledgement of a request at the link `g` of the approval `a`. -/
  | pending (a g : Approval) (correlation : Key)
  | decided (a g : Approval) (correlation : Key) (decision : Decision)
  | timedOut (a g : Approval) (correlation : Key)
  deriving DecidableEq, Repr

namespace Token

/-- Whether the token is for a part of the definition. -/
def In (d : Definition) : Token → Prop
  | .start x => x.In d
  | .work x _ => x.In d
  | .done x _ _ => x.In d
  | .trigger h _ => h ∈ d.handlers
  | .pending a g _ => a ∈ d.approvals ∧ g ∈ a.chain
  | .decided a g _ _ => a ∈ d.approvals ∧ g ∈ a.chain
  | .timedOut a g _ => a ∈ d.approvals ∧ g ∈ a.chain

/-- The message of the token, to an instance. -/
def message (d : Definition) (id : Key) : Token → Message
  | .start x => ⟨Name.startCommand (x.stem d), id, .empty⟩
  | .work x state => ⟨Name.workerCommand (x.stem d), id, .work x.step.workType state⟩
  | .done x update failure => ⟨Name.completedEvent (x.stem d), id, .completed update failure⟩
  | .trigger h failure => ⟨Name.failureTrigger h.id, id, .failureTrigger failure⟩
  | .pending _ g c => ⟨Name.approvalPending g.gate.name, id, .approvalPending c⟩
  | .decided _ g c decision =>
    ⟨Name.approvalDecided g.gate.name, id, .approvalDecided c decision⟩
  | .timedOut _ g c => ⟨Name.approvalTimedOut g.gate.name, id, .approvalTimedOut c⟩

/-- The kind of its message. -/
def kind : Token → MessageKind
  | .start _ => .startStep
  | .work _ _ => .executeWorker
  | .done _ _ _ => .stepCompleted
  | .trigger _ _ => .failureTrigger
  | .pending _ _ _ => .approvalPending
  | .decided _ _ _ _ => .approvalDecided
  | .timedOut _ _ _ => .approvalTimedOut

/-- Whether it carries control: signals from outside do not. -/
def isControl (tok : Token) : Bool := tok.kind.isControl

/-- The position it is at. -/
def spot? : Token → Option Spot
  | .start x => some x
  | .work x _ => some x
  | .done x _ _ => some x
  | _ => none

@[simp] theorem message_instanceId (d : Definition) (id : Key) (tok : Token) :
    (tok.message d id).instanceId = id := by
  cases tok <;> rfl

theorem isControl_of_signal {tok : Token}
    (signal : tok.kind = .approvalDecided ∨ tok.kind = .approvalTimedOut) : tok.isControl = false := by
  rcases signal with kind | kind <;> rw [isControl, kind] <;> rfl

/-- A signal adds nothing to control. -/
theorem control_append {toks : List Token} {tok : Token}
    (signal : tok.kind = .approvalDecided ∨ tok.kind = .approvalTimedOut) :
    (toks ++ [tok]).filter isControl = toks.filter isControl := by
  rw [List.filter_append, List.filter_singleton, isControl_of_signal signal]
  exact List.append_nil _

end Token

/-! ## Names of tokens -/

namespace Compiled

variable {d : Definition} {t : Table} (c : Compiled d t)

include c

/-- The declaration of a token's message, and the entry of the plan it belongs to. -/
theorem exists_entry {tok : Token} (here : tok.In d) (id : Key) :
    ∃ e ∈ d.plan, ∃ m ∈ e.messages, m.name = (tok.message d id).name ∧ m.kind = tok.kind
      ∧ (∀ x, tok.spot? = some x → e = .step (x.site d))
      ∧ (tok.spot? = none → e.site? = none) := by
  have atSpot : ∀ {x : Spot}, x.In d → Entry.step (x.site d) ∈ d.plan := fun hx =>
    Definition.mem_sites_iff_mem_plan.mp (hx.site_mem c.wellFormed)
  have atGate : ∀ {a g : Approval}, a ∈ d.approvals ∧ g ∈ a.chain →
      Entry.approval g (d.approved a) ∈ d.plan := fun h =>
    c.wellFormed.mem_plan_iff.mpr (.gate h.1 h.2)
  cases tok with
  | start x =>
    exact ⟨_, atSpot here, ⟨(x.site d).startCommand, .startStep, (x.site d).phase⟩,
      by simp [Entry.messages, Site.messages], by simp [Site.startCommand, Token.message], rfl,
      by simp [Token.spot?], by simp [Token.spot?]⟩
  | work x state =>
    exact ⟨_, atSpot here, ⟨(x.site d).workerCommand, .executeWorker, (x.site d).phase⟩,
      by simp [Entry.messages, Site.messages], by simp [Site.workerCommand, Token.message], rfl,
      by simp [Token.spot?], by simp [Token.spot?]⟩
  | done x update failure =>
    exact ⟨_, atSpot here, ⟨(x.site d).completedEvent, .stepCompleted, (x.site d).phase⟩,
      by simp [Entry.messages, Site.messages], by simp [Site.completedEvent, Token.message], rfl,
      by simp [Token.spot?], by simp [Token.spot?]⟩
  | trigger h failure =>
    exact ⟨.handler h, c.wellFormed.mem_plan_iff.mpr (.handler here),
      ⟨Name.failureTrigger h.id, .failureTrigger, Text.sanitize h.id⟩,
      by simp [Entry.messages], rfl, rfl, by simp [Token.spot?], by simp [Entry.site?]⟩
  | pending a g correlation =>
    exact ⟨_, atGate here, ⟨Name.approvalPending g.gate.name, .approvalPending, g.gate.name⟩,
      by simp [Entry.messages], rfl, rfl, by simp [Token.spot?], by simp [Entry.site?]⟩
  | decided a g correlation decision =>
    exact ⟨_, atGate here, ⟨Name.approvalDecided g.gate.name, .approvalDecided, g.gate.name⟩,
      by simp [Entry.messages], rfl, rfl, by simp [Token.spot?], by simp [Entry.site?]⟩
  | timedOut a g correlation =>
    exact ⟨_, atGate here, ⟨Name.approvalTimedOut g.gate.name, .approvalTimedOut, g.gate.name⟩,
      by simp [Entry.messages], rfl, rfl, by simp [Token.spot?], by simp [Entry.site?]⟩

theorem kindOf?_message {tok : Token} (here : tok.In d) (id : Key) :
    t.kindOf? (tok.message d id).name = some tok.kind := by
  obtain ⟨e, he, m, hm, name, kind, _⟩ := c.exists_entry here id
  rw [← name, c.kindOf?_eq (Definition.mem_messages_of_plan he hm), kind]

/-- A name that a site declares and a token has is of the token's own position. -/
theorem site_eq_of_name {tok : Token} (here : tok.In d) {id : Key} {s : Site} (hs : s ∈ d.sites)
    {m : MessageEntry} (hm : m ∈ s.messages) (name : m.name = (tok.message d id).name) :
    ∃ x, tok.spot? = some x ∧ s = x.site d := by
  obtain ⟨e, he, m', hm', name', _, atSpot, offSpot⟩ := c.exists_entry here id
  have same := c.entry_eq_of_message (Definition.mem_sites_iff_mem_plan.mp hs) he hm hm'
    (name.trans name'.symm)
  cases h : tok.spot? with
  | none =>
    rw [← same] at offSpot
    cases offSpot h
  | some x =>
    rw [atSpot x h] at same
    exact ⟨x, rfl, Entry.step.inj same⟩

/-- Positions of one site are on one path of one fork, or on none. -/
theorem lane?_eq_of_site {x : Spot} (hx : x.In d) {f : Fork} (hf : f ∈ d.forks) {p i : Nat} {y : Step}
    (same : (Line.fork f p).siteAt d i y = x.site d) : x.line = .fork f p := by
  have path := congrArg Site.forkPath same
  simp only [Line.siteAt_forkPath, Spot.site] at path
  obtain ⟨f', p', line, route⟩ := x.line.eq_fork_of_forkPath path.symm
  have join := congrArg ForkFailure.join route
  simp only [Definition.joinTarget, JoinTarget.mk.injEq] at join
  have hf' : f' ∈ d.forks := Spot.fork_mem hx line
  have one : f = f' := List.inj_on_of_nodup_map c.wellFormed.forks_distinct hf hf'
    ((String.append_right_inj _).mp join.1)
  rw [line, one, join.2.1]

omit c in
/-- The messages a fork lists for a path. -/
theorem mem_forkLayout_messages {f : Fork} {p : Nat} {name : String} :
    (∃ layout, (d.forkLayout f).paths[p]? = some layout ∧ name ∈ layout.messages)
      ↔ ∃ i y, (f.paths.getD p [])[i]? = some y
        ∧ ∃ m ∈ ((Line.fork f p).siteAt d i y).messages, m.name = name := by
  simp only [Definition.forkLayout, List.getElem?_mapIdx]
  cases path : f.paths[p]? with
  | none => simp [List.getD_eq_getElem?_getD, path]
  | some steps =>
    have along : ∀ s, s ∈ d.pathSites f p steps
        ↔ ∃ i y, steps[i]? = some y ∧ s = (Line.fork f p).siteAt d i y := by
      intro s
      have line : (Line.fork f p).steps d = steps := by
        simp [Line.steps, List.getD_eq_getElem?_getD, path]
      have := Definition.mem_link_site (d := d) (s := s) (.fork f p) (by simp)
      rw [line] at this
      exact this
    simp only [Option.map_some, Option.some.injEq, exists_eq_left', List.mem_flatMap, along,
      List.mem_map, List.getD_eq_getElem?_getD, path, Option.getD_some]
    constructor
    · rintro ⟨_, ⟨i, y, hy, rfl⟩, m, hm, name⟩
      exact ⟨i, y, hy, m, hm, name⟩
    · rintro ⟨i, y, hy, m, hm, name⟩
      exact ⟨_, ⟨i, y, hy, rfl⟩, m, hm, name⟩

omit c in
/-- What a fork lists for a path is what drives the path. -/
theorem drives_iff {f : Fork} (declared : f ∈ d.forks) {p : Nat} {name : String} :
    f.Drives d p name
      ↔ ∃ layout, (d.forkLayout f).paths[p]? = some layout ∧ name ∈ layout.messages := by
  rw [mem_forkLayout_messages]
  constructor
  · rintro ⟨⟨line, i, y⟩, here, rfl, listed⟩
    exact ⟨i, y, here.2, listed⟩
  · rintro ⟨i, y, at?, listed⟩
    exact ⟨⟨.fork f p, i, y⟩, ⟨declared, at?⟩, rfl, listed⟩

/-- A name drives one path of one fork at most. -/
theorem eq_of_drives {f f' : Fork} (declared : f ∈ d.forks) {p p' : Nat} {name : String}
    (drives : f.Drives d p name) (drives' : f'.Drives d p' name) : f' = f ∧ p' = p := by
  obtain ⟨⟨line, i, y⟩, here, rfl, m, hm, own⟩ := drives
  obtain ⟨x', here', line', m', hm', own'⟩ := drives'
  have same := c.entry_eq_of_message
    (Definition.mem_sites_iff_mem_plan.mp (here.site_mem c.wellFormed))
    (Definition.mem_sites_iff_mem_plan.mp (here'.site_mem c.wellFormed)) hm hm'
    (own.trans own'.symm)
  have other := c.lane?_eq_of_site here' declared (Entry.step.inj same)
  rw [line'] at other
  cases other
  exact ⟨rfl, rfl⟩

/-- The table finds the path that a name drives. -/
theorem pathOf?_eq_some_iff {name : String} {layout : ForkLayout} {p : Nat} :
    t.pathOf? name = some (layout, p)
      ↔ ∃ f ∈ d.forks, layout = d.forkLayout f ∧ f.Drives d p name := by
  have hit : ∀ {layout p}, t.pathOf? name = some (layout, p) →
      ∃ f ∈ d.forks, layout = d.forkLayout f ∧ f.Drives d p name := by
    intro layout p found
    rw [Table.pathOf?, c.forks_eq] at found
    obtain ⟨_, listed, idx⟩ := List.exists_of_findSome?_eq_some found
    obtain ⟨f, declared, rfl⟩ := List.mem_map.mp listed
    obtain ⟨q, first, same⟩ := Option.map_eq_some_iff.mp idx
    cases same
    obtain ⟨inside, member, _⟩ := List.findIdx?_eq_some_iff_getElem.mp first
    exact ⟨f, declared, rfl, (drives_iff declared).mpr
      ⟨_, List.getElem?_eq_getElem inside, of_decide_eq_true member⟩⟩
  refine ⟨hit, ?_⟩
  rintro ⟨f, declared, rfl, drives⟩
  cases found : t.pathOf? name with
  | some other =>
    obtain ⟨layout, q⟩ := other
    obtain ⟨f', _, rfl, drives'⟩ := hit found
    obtain ⟨rfl, rfl⟩ := c.eq_of_drives declared drives drives'
    rfl
  | none =>
    -- the fork lists the name, so the search could not miss it
    obtain ⟨layout, at?, member⟩ := (drives_iff declared).mp drives
    rw [Table.pathOf?, c.forks_eq, List.findSome?_eq_none_iff] at found
    have missed := found _ (List.mem_map_of_mem declared)
    rw [Option.map_eq_none_iff, List.findIdx?_eq_none_iff] at missed
    exact absurd member (of_decide_eq_false (missed layout (List.mem_of_getElem? at?)))

omit c in
/-- The message of a token drives the path that the token is on. -/
theorem drives_message {tok : Token} (here : tok.In d) {x : Spot} (atX : tok.spot? = some x) {f : Fork}
    {p : Nat} (line : x.line = .fork f p) (id : Key) : f.Drives d p (tok.message d id).name := by
  refine ⟨x, ?_, line, ?_⟩
  · cases tok <;> cases atX <;> exact here
  · cases tok <;> cases atX <;>
      simp [Site.messages, Site.startCommand, Site.workerCommand, Site.completedEvent, Token.message]

/-- A message is on a path of a fork where its token is. -/
theorem pathOf?_message {tok : Token} (here : tok.In d) (id : Key) :
    t.pathOf? (tok.message d id).name
      = (tok.spot?.bind (·.line.lane?)).map fun lane => (d.forkLayout lane.1, lane.2) := by
  cases lane : tok.spot?.bind (·.line.lane?) with
  | some fp =>
    obtain ⟨f, p⟩ := fp
    obtain ⟨x, atX, onLane⟩ := Option.bind_eq_some_iff.mp lane
    have line : x.line = .fork f p := by
      cases h : x.line <;> rw [h] at onLane <;> cases onLane
      rfl
    have spotIn : x.In d := by
      cases tok <;> cases atX <;> exact here
    exact c.pathOf?_eq_some_iff.mpr
      ⟨f, Spot.fork_mem spotIn line, rfl, drives_message here atX line id⟩
  | none =>
    rw [Option.map_none, Option.eq_none_iff_forall_ne_some]
    rintro ⟨layout, p⟩ found
    obtain ⟨f, declared, _, y, there, line, m, hm, name⟩ := c.pathOf?_eq_some_iff.mp found
    obtain ⟨x, atX, same⟩ := c.site_eq_of_name here (there.site_mem c.wellFormed) hm name
    have spotIn : x.In d := by
      cases tok <;> cases atX <;> exact here
    rw [Spot.site, line] at same
    rw [atX, Option.bind_some, c.lane?_eq_of_site spotIn declared same] at lane
    cases lane

end Compiled

/-! ## What a token does -/

/-- The start of a step: its phase, and its work unless its guard refuses. -/
def Spot.started (d : Definition) (cx : Collaborators) (x : Spot) (i : Instance)
    (calls : List Call) : Applied :=
  let working (calls : List Call) : Applied :=
    ⟨{ i with phase := x.phase d }, calls, .ok [.send ((Token.work x i.state).message d i.id)]⟩
  match x.step.guard with
  | none => working calls
  | some g =>
    let holds := cx.conditions calls g.conditionId i.state
    let asked := calls ++ [.condition g.conditionId holds]
    if holds then working asked
    else ⟨{ i with phase := Name.validationFailed }, asked, .ok
      [.send ⟨Name.validationFailedEvent (x.stem d), i.id,
        .validationFailed (x.phase d) g.message⟩]⟩

/-- A refusal at a gate. -/
def Gate.refused (g : Gate) (i : Instance) (calls : List Call) : Applied :=
  match g.rejectionSteps with
  | first :: _ => i.starting calls (Name.rejectionPhase g.name first.identifier)
  | [] => i.finishing calls Name.failed

/-- A timeout at a link of an approval. -/
def Approval.escalated (a : Approval) (i : Instance) (calls : List Call) : Applied :=
  match a with
  | .failing _ => i.finishing calls Name.failed
  | .running _ [] => i.finishing calls Name.failed
  | .running g (first :: _) => i.starting calls (Name.escalationPhase g.name first.identifier)
  | .asking _ next => next.gate.requested i calls

/-- A decision at a link of an approval, on the request it is for. An approval leads where the end of
the escalation would. -/
def Approval.settled (d : Definition) (a g : Approval) (decision : Decision) (i : Instance)
    (calls : List Call) : Applied :=
  let noted := { i with lastDecision := some decision }
  let cleared := { noted with pendingApproval := none }
  match decision with
  | .approved => d.lineEnded (.escalation a g) cleared calls
  | .rejected => g.gate.refused cleared calls
  | .deferred => ⟨noted, calls, .ok []⟩

/-- What a token does to its instance. Work is for the executor and does nothing to it. -/
def Token.applied (d : Definition) (cx : Collaborators) (tok : Token) (i : Instance)
    (calls : List Call) : Applied :=
  match tok with
  | .start x => x.started d cx i calls
  | .work _ _ => ⟨i, calls, .ok []⟩
  | .done x update failure => d.completed cx x.line x.index x.step update failure i calls
  | .trigger h failure =>
    let captured := { i with failureContext := some failure }
    match h.steps with
    | first :: _ => captured.starting calls (Name.recoveryPhase h.id first.identifier)
    | [] => ⟨captured, calls, .ok []⟩
  | .pending _ _ c => ⟨{ i with pendingApproval := some c }, calls, .ok []⟩
  | .decided a g c decision =>
    if i.pendingApproval = some c then a.settled d g decision i calls else ⟨i, calls, .ok []⟩
  | .timedOut _ g c =>
    if i.pendingApproval = some c then g.escalated { i with pendingApproval := none } calls
    else ⟨i, calls, .ok []⟩

section Means

variable {cx : Collaborators}

theorem means_fail : Continuation.fail.Means cx (Instance.finishing · · Name.failed) :=
  fun _ _ => rfl

theorem means_rejected (g : Gate) : g.rejected.Means cx g.refused := by
  unfold Gate.rejected Gate.refused
  cases g.rejectionSteps with
  | nil => exact means_fail
  | cons first rest => exact means_send _

theorem means_timedOut (a : Approval) : a.timedOut.Means cx a.escalated := by
  cases a with
  | failing g => exact means_fail
  | running g steps =>
    cases steps with
    | nil => exact means_fail
    | cons first rest => exact means_send _
  | asking g next => exact means_request next.gate

end Means

namespace Compiled

variable {d : Definition} {t : Table} (c : Compiled d t)

include c

omit c in
/-- The start of a site does what the rule says. -/
theorem apply_startTransition (x : Spot) (cx : Collaborators) (calls : List Call) (i : Instance)
    (m : Message) : (x.site d).startTransition.apply cx calls i m = x.started d cx i calls := by
  simp only [Site.startTransition, Transition.of, Transition.apply, Site.guardActions,
    Spot.site_step, Spot.site_phase, Spot.started]
  cases x.step.guard with
  | none => simp [Run.steps, Run.step, Run.enter, Run.sendBody, Run.emit, Flow.applied, Token.message,
      Site.workerCommand]
  | some g =>
    simp only [List.cons_append, List.nil_append, Run.steps, Run.step, Run.ask, Registry.ask,
      Run.enter]
    by_cases holds : cx.conditions calls g.conditionId i.state = true <;>
      simp [holds, Run.sendBody, Run.emit, Flow.applied, Token.message, Site.workerCommand,
        Site.validationFailedEvent]

/-- The transitions of a gate are in the table. -/
theorem transitionFor?_gate {a g : Approval} (ha : a ∈ d.approvals) (hg : g ∈ a.chain)
    {r : Transition} (hr : r ∈ g.transitions (d.approved a)) :
    t.transitionFor? r.trigger = some r :=
  c.transitionFor?_eq (c.mem_transitions_iff.mpr
    ⟨_, c.wellFormed.mem_plan_iff.mpr (.gate ha hg), _, rfl, hr⟩)

/-- The table has a transition for every token but work, and it does what the token is for. -/
theorem exists_transition {tok : Token} (here : tok.In d) (consumed : tok.kind ≠ .executeWorker)
    (id : Key) :
    ∃ tr, t.transitionFor? (tok.message d id).name = some tr
      ∧ ∀ cx calls i, tr.apply cx calls i (tok.message d id) = tok.applied d cx i calls := by
  cases tok with
  | start x =>
    have found := c.transitionFor?_startCommand (here.site_mem c.wellFormed)
    simp only [Site.startCommand, Spot.site_stem] at found
    exact ⟨_, found, fun cx calls i => apply_startTransition x cx calls i _⟩
  | work x state => exact absurd rfl consumed
  | done x update failure =>
    have found := c.transitionFor?_completedEvent (here.site_mem c.wellFormed)
    simp only [Site.completedEvent, Spot.site_stem] at found
    exact ⟨_, found, fun cx calls i => c.apply_completion x.line here.1 here.2 cx calls i _ rfl⟩
  | trigger h failure =>
    have some : h.steps ≠ [] := c.wellFormed.handler_steps h here
    cases steps : h.steps with
    | nil => exact absurd steps some
    | cons first rest =>
      have made : h.trigger = .ok (.of .failureTrigger (Name.failureTrigger h.id)
          [.captureFailure, .proceed
            (.send (Name.startCommand (Name.recoveryPhase h.id first.identifier)))]) := by
        simp only [Handler.trigger, steps]
      have listed := c.mem_transitions_iff.mpr ⟨.handler h,
        c.wellFormed.mem_plan_iff.mpr (.handler here), _, map_eq_ok.mpr ⟨_, made, rfl⟩,
        List.mem_singleton_self _⟩
      refine ⟨_, c.transitionFor?_eq listed, fun cx calls i => ?_⟩
      simp only [Token.applied, steps]
      rfl
  | pending a g correlation =>
    exact ⟨_, c.transitionFor?_gate here.1 here.2 (r := .of .approvalSetPending
      (Name.approvalPending g.gate.name) [.recordPendingApproval])
      (by simp [Approval.transitions]), fun cx calls i => rfl⟩
  | decided a g correlation decision =>
    refine ⟨_, c.transitionFor?_gate here.1 here.2 (r := .of .approvalResume
      (Name.approvalDecided g.gate.name)
      [.guardCorrelation g.gate.name, .recordDecision, .decide (d.approved a) g.gate.rejected])
      (by simp [Approval.transitions]), fun cx calls i => ?_⟩
    by_cases waiting : i.pendingApproval = some correlation
    · simp only [Transition.of, Transition.apply, Run.steps, Run.step, Token.message,
        Message.correlation?, Token.applied, waiting, ↓reduceIte]
      cases decision with
      | approved => exact means_approved a _ calls
      | rejected => exact means_rejected g.gate _ calls
      | deferred => simp only [Run.act, Flow.applied, Approval.settled, waiting]
    · simp only [Transition.of, Transition.apply, Run.steps, Run.step, Token.message,
        Message.correlation?, Token.applied, waiting, ↓reduceIte]
      rfl
  | timedOut a g correlation =>
    refine ⟨_, c.transitionFor?_gate here.1 here.2 (r := .of .approvalTimeout
      (Name.approvalTimedOut g.gate.name)
      [.guardCorrelation g.gate.name, .clearPendingApproval, .proceed g.timedOut])
      (by simp [Approval.transitions]), fun cx calls i => ?_⟩
    by_cases waiting : i.pendingApproval = some correlation
    · simp only [Transition.of, Transition.apply, Run.steps, Run.step, Token.message,
        Message.correlation?, Token.applied, waiting, ↓reduceIte]
      exact means_timedOut g _ calls
    · simp only [Transition.of, Transition.apply, Run.steps, Run.step, Token.message,
        Message.correlation?, Token.applied, waiting, ↓reduceIte]
      rfl

end Compiled

/-- A transition of a table, by what introduces it. -/
inductive Definition.TransitionOf (d : Definition) : Transition → Prop
  | start {x : Spot} (here : x.In d) : TransitionOf d (x.site d).startTransition
  | completion {x : Spot} (here : x.In d) : TransitionOf d (d.completion (x.site d))
  | gate {a g : Approval} {tr : Transition} (attached : a ∈ d.approvals) (link : g ∈ a.chain)
      (member : tr ∈ g.transitions (d.approved a)) : TransitionOf d tr
  | trigger {g : Handler} (declared : g ∈ d.handlers) (first : Step) :
      TransitionOf d (.of .failureTrigger (Name.failureTrigger g.id) [.captureFailure,
        .proceed (.send (Name.startCommand (Name.recoveryPhase g.id first.identifier)))])

/-- A table has no other transitions. -/
theorem Compiled.transition_cases {d : Definition} {t : Table} (c : Compiled d t) {tr : Transition}
    (listed : tr ∈ t.transitions) : d.TransitionOf tr := by
  obtain ⟨entry, planned, ts, made, member⟩ := c.mem_transitions_iff.mp listed
  cases c.wellFormed.mem_plan_iff.mp planned with
  | @step line k x belongs at? =>
    cases made
    rcases List.mem_cons.mp member with rfl | member
    · exact Definition.TransitionOf.start (x := ⟨line, k, x⟩) ⟨belongs, at?⟩
    · rw [List.mem_singleton.mp member]
      exact Definition.TransitionOf.completion (x := ⟨line, k, x⟩) ⟨belongs, at?⟩
  | gate attached link =>
    cases made
    exact .gate attached link member
  | handler declared =>
    obtain ⟨tr', created, rfl⟩ := map_eq_ok.mp made
    cases List.mem_singleton.mp member
    unfold Handler.trigger at created
    split at created
    · cases created
    · cases created
      exact .trigger declared _

end Workflow
