import Workflow.Proofs.Plan.Entries

/-!
Identifiers: the names of a valid definition, and the names built from them.

The search for defects refuses every name that is not an identifier, except the ids of handlers, which
are masked wherever a name is built from them. Names are built by concatenation, and what may go on an
identifier may be appended to one, so the phases and messages of a plan are identifiers.
-/

set_option autoImplicit false

namespace Workflow

/-! ## What a definition names -/

namespace Definition

/-- The names a definition gives are identifiers. -/
structure Named (d : Definition) : Prop where
  process : Text.isIdentifier d.name = true
  steps : ∀ line : Line, line.In d → ∀ x ∈ line.steps d, Text.isIdentifier x.identifier = true
  loops : ∀ l ∈ d.loops, Text.isIdentifier l.name = true
  scopes : ∀ b ∈ d.branches, ∀ scope, b.loopScope = some scope → Text.isIdentifier scope = true
  labels : ∀ b ∈ d.branches, ∀ c ∈ b.cases, Text.isIdentifier c.label = true
  gates : ∀ a ∈ d.approvals, ∀ g ∈ a.chain, Text.isIdentifier g.gate.name = true

theorem identifierDefect?_eq_none_iff {name : String} :
    identifierDefect? name = none ↔ Text.isIdentifier name = true :=
  demand_eq_none_iff

/-- A sequence that passes has steps with identifiers for names. -/
theorem isIdentifier_of_sequence {scope : String} {seen : List String} {steps : List Step}
    (h : sequenceDefect? scope seen steps = none) :
    ∀ x ∈ steps, Text.isIdentifier x.identifier = true := by
  induction steps generalizing seen with
  | nil => simp
  | cons first rest ih =>
    simp only [sequenceDefect?, Option.or_eq_none_iff, identifierDefect?_eq_none_iff] at h
    exact List.forall_mem_cons.mpr ⟨h.1, ih h.2.2⟩

/-- So have cases that pass, labels included. -/
theorem isIdentifier_of_cases {branch : String} {values labels : List String} {cases' : List Case}
    (h : casesDefect? branch values labels cases' = none) : ∀ c ∈ cases',
      Text.isIdentifier c.label = true ∧ ∀ x ∈ c.steps, Text.isIdentifier x.identifier = true := by
  induction cases' generalizing values labels with
  | nil => simp
  | cons first rest ih =>
    simp only [casesDefect?, Option.or_eq_none_iff, identifierDefect?_eq_none_iff] at h
    obtain ⟨_, label, _, steps, tail⟩ := h
    exact List.forall_mem_cons.mpr ⟨⟨label, isIdentifier_of_sequence steps⟩, ih tail⟩

/-- The loops that a branch names as its scope, joined, are an identifier. -/
theorem isIdentifier_of_scope {d : Definition} {b : Branch} (h : d.loopScopeDefect? b = none)
    {scope : String} (prefixed : b.loopScope = some scope) : Text.isIdentifier scope = true := by
  simp only [loopScopeDefect?, prefixed, Option.or_eq_none_iff, identifierDefect?_eq_none_iff] at h
  exact h.1

/-- Branches that pass have identifiers for the names of their scopes, labels and steps. -/
theorem isIdentifier_of_branches {d : Definition} {ids : List String} {branches : List Branch}
    (h : d.branchesDefect? ids branches = none) : ∀ b ∈ branches,
      (∀ scope, b.loopScope = some scope → Text.isIdentifier scope = true)
        ∧ ∀ c ∈ b.cases, Text.isIdentifier c.label = true
          ∧ ∀ x ∈ c.steps, Text.isIdentifier x.identifier = true := by
  induction branches generalizing ids with
  | nil => simp
  | cons first rest ih =>
    simp only [branchesDefect?, branchCasesDefect?, Option.or_eq_none_iff] at h
    obtain ⟨_, _, _, _, scope, ⟨_, _, cases'⟩, _, tail⟩ := h
    exact List.forall_mem_cons.mpr
      ⟨⟨fun _ prefixed => isIdentifier_of_scope scope prefixed, isIdentifier_of_cases cases'⟩, ih tail⟩

/-- A chain of gates that passes has identifiers for the names of its gates, and for those of all steps
that it may run. -/
theorem isIdentifier_of_chain {names : List String} {gates : List Approval}
    (h : chainDefect? names gates = none) : ∀ g ∈ gates,
      Text.isIdentifier g.gate.name = true
        ∧ (∀ x ∈ g.escalationSteps, Text.isIdentifier x.identifier = true)
        ∧ ∀ x ∈ g.gate.rejectionSteps, Text.isIdentifier x.identifier = true := by
  induction gates generalizing names with
  | nil => simp
  | cons first rest ih =>
    simp only [chainDefect?, gateDefect?, Option.or_eq_none_iff, identifierDefect?_eq_none_iff] at h
    obtain ⟨⟨name, escalation, rejection⟩, _, tail⟩ := h
    exact List.forall_mem_cons.mpr
      ⟨⟨name, isIdentifier_of_sequence escalation, isIdentifier_of_sequence rejection⟩, ih tail⟩

/-- So has every gate of approvals that pass. -/
theorem isIdentifier_of_approvals {d : Definition} {names : List String} {approvals : List Approval}
    (h : d.approvalsDefect? names approvals = none) : ∀ a ∈ approvals, ∀ g ∈ a.chain,
      Text.isIdentifier g.gate.name = true
        ∧ (∀ x ∈ g.escalationSteps, Text.isIdentifier x.identifier = true)
        ∧ ∀ x ∈ g.gate.rejectionSteps, Text.isIdentifier x.identifier = true := by
  induction approvals generalizing names with
  | nil => simp
  | cons first rest ih =>
    simp only [approvalsDefect?, Option.or_eq_none_iff] at h
    exact List.forall_mem_cons.mpr ⟨isIdentifier_of_chain h.2.1, ih h.2.2⟩

/-- Handlers that pass have steps with identifiers for names. Their ids are another matter. -/
theorem isIdentifier_of_handlers {d : Definition} {scopes : List Scope} {handlers : List Handler}
    (h : d.handlersDefect? scopes handlers = none) : ∀ g ∈ handlers,
      ∀ x ∈ g.steps, Text.isIdentifier x.identifier = true := by
  induction handlers generalizing scopes with
  | nil => simp
  | cons first rest ih =>
    simp only [handlersDefect?, Option.or_eq_none_iff] at h
    obtain ⟨_, _, steps, _, _, tail⟩ := h
    exact List.forall_mem_cons.mpr ⟨isIdentifier_of_sequence steps, ih tail⟩

/-- The search for defects lets identifiers through only. -/
theorem named_of_defect?_eq_none {d : Definition} (h : d.defect? = none) : d.Named := by
  simp only [defect?, loopsDefect?, Option.or_eq_none_iff, identifierDefect?_eq_none_iff,
    List.findSome?_eq_none_iff] at h
  obtain ⟨_, process, mainLine, ⟨loops, _⟩, branches, approvals, forks, handlers, _⟩ := h
  have onBranch := isIdentifier_of_branches branches
  have atGate := isIdentifier_of_approvals approvals
  have onFork : ∀ f ∈ d.forks, ∀ path ∈ f.paths, ∀ x ∈ path, Text.isIdentifier x.identifier = true := by
    intro f hf path hpath x hx
    have part := forks f hf
    simp only [forkDefect?, Option.or_eq_none_iff] at part
    exact isIdentifier_of_sequence part.2.2.2.2 x (List.mem_flatten.mpr ⟨path, hpath, hx⟩)
  refine {
    process := process
    steps := fun line belongs x hx => ?_
    loops := fun l hl => ?_
    scopes := fun b hb => (onBranch b hb).1
    labels := fun b hb c hc => ((onBranch b hb).2 c hc).1
    gates := fun a ha g hg => (atGate a ha g hg).1 }
  · cases line with
    | main => exact isIdentifier_of_sequence mainLine x hx
    | path b c => exact ((onBranch b belongs.1).2 c belongs.2).2 x hx
    | fork f p =>
      simp only [Line.steps, List.getD_eq_getElem?_getD] at hx
      cases at? : f.paths[p]? with
      | none => simp [at?] at hx
      | some path => exact onFork f belongs path (List.mem_of_getElem? at?) x (by simpa [at?] using hx)
    | escalation a g => exact (atGate a belongs.1 g belongs.2).2.1 x hx
    | rejection a g => exact (atGate a belongs.1 g belongs.2).2.2 x hx
    | recovery g => exact isIdentifier_of_handlers handlers g belongs x hx
  · have part := loops l hl
    simp only [loopDefect?, Option.or_eq_none_iff, identifierDefect?_eq_none_iff] at part
    exact part.1

end Definition

/-! ## What is built from the names -/

namespace Name

open Text

variable {subject : String} (h : isIdentifier subject = true)

include h

theorem startCommand_isIdentifier : isIdentifier (startCommand subject) = true :=
  isIdentifier_append (isIdentifier_append_isIdentifier (by decide) h) (by decide)

theorem workerCommand_isIdentifier : isIdentifier (workerCommand subject) = true :=
  isIdentifier_append (isIdentifier_append_isIdentifier (by decide) h) (by decide)

end Name

variable {d : Definition}

/-- The messages of a site are named by identifiers where its stem is one. -/
theorem Site.isIdentifier_of_messages {s : Site} (stem : Text.isIdentifier s.stem = true) :
    ∀ m ∈ s.messages, Text.isIdentifier m.name = true := by
  have completed : Text.isIdentifier s.completedEvent = true := Text.isIdentifier_append stem (by decide)
  have refused : Text.isIdentifier s.validationFailedEvent = true :=
    Text.isIdentifier_append stem (by decide)
  intro m hm
  rcases List.mem_append.mp hm with hm | hm
  · simp only [List.mem_cons, List.not_mem_nil, or_false] at hm
    rcases hm with rfl | rfl | rfl
    · exact Name.startCommand_isIdentifier stem
    · exact Name.workerCommand_isIdentifier stem
    · exact completed
  · split at hm
    · rw [List.mem_singleton.mp hm]
      exact refused
    · cases hm

namespace Definition

theorem mem_loops_of_mem_enclosingLoops {step : String} {l : Loop} (h : l ∈ d.enclosingLoops step) :
    l ∈ d.loops := by
  unfold enclosingLoops at h
  split at h
  · cases h
  · exact (List.mem_filter.mp (List.mem_mergeSort.mp h)).1

namespace Named

variable (names : d.Named)

include names

/-- The phase of a step, on whatever line, is an identifier. -/
theorem phase_isIdentifier {line : Line} (belongs : line.In d) {x : Step} (hx : x ∈ line.steps d) :
    Text.isIdentifier (line.phase d x) = true := by
  have step := names.steps line belongs x hx
  cases line with
  | main =>
    refine Text.isIdentifier_intercalate (by simp) fun n hn => ?_
    rcases List.mem_append.mp hn with hn | hn
    · obtain ⟨l, hl, rfl⟩ := List.mem_map.mp hn
      exact names.loops l (mem_loops_of_mem_enclosingLoops hl)
    · rw [List.mem_singleton.mp hn]
      exact step
  | path b c =>
    have label := names.labels b belongs.1 c belongs.2
    have behind : ∀ {front : String}, Text.isIdentifier front = true →
        Text.isIdentifier (front ++ "_" ++ x.identifier) = true := fun starts =>
      Text.isIdentifier_append_isIdentifier (Text.isIdentifier_append starts (by decide)) step
    simp only [Line.phase, Name.branchPhase]
    split
    next scope prefixed =>
      exact behind (Text.isIdentifier_append_isIdentifier
        (Text.isIdentifier_append (names.scopes b belongs.1 scope prefixed) (by decide)) label)
    next => exact behind label
  | fork f p => exact step
  | escalation a g =>
    exact Text.isIdentifier_append_isIdentifier
      (Text.isIdentifier_append (names.gates a belongs.1 g belongs.2) (by decide)) step
  | rejection a g =>
    exact Text.isIdentifier_append_isIdentifier
      (Text.isIdentifier_append (names.gates a belongs.1 g belongs.2) (by decide)) step
  | recovery h =>
    -- the id of a handler may be any text; masked, it is an identifier
    exact Text.isIdentifier_append_isIdentifier
      (Text.isIdentifier_append (Text.isIdentifier_append_isIdentifier (by decide)
        (Text.sanitize_isIdentifier h.id)) (by decide)) step

/-- What the messages of a step are spelt from is its name on the main line and its phase elsewhere. -/
theorem stem_isIdentifier {line : Line} (belongs : line.In d) {x : Step} (hx : x ∈ line.steps d) :
    Text.isIdentifier (line.stem d x) = true := by
  cases line with
  | main => exact names.steps .main belongs x hx
  | _ => exact names.phase_isIdentifier belongs hx

/-- Every message of a valid definition is named by an identifier. -/
theorem message_isIdentifier (hw : d.WellFormed) {m : MessageEntry} (hm : m ∈ d.messages) :
    Text.isIdentifier m.name = true := by
  rcases List.mem_cons.mp hm with rfl | hm
  · exact Name.startCommand_isIdentifier names.process
  · obtain ⟨e, he, hm⟩ := List.mem_flatMap.mp hm
    cases hw.mem_plan_iff.mp he with
    | step line belongs hx =>
      refine Site.isIdentifier_of_messages ?_ m hm
      rw [Line.siteAt_stem]
      exact names.stem_isIdentifier belongs (List.mem_of_getElem? hx)
    | @gate a g attached link =>
      have gate := names.gates a attached g link
      simp only [Entry.messages, List.mem_cons, List.not_mem_nil, or_false] at hm
      rcases hm with rfl | rfl | rfl | rfl <;> exact Text.isIdentifier_append gate (by decide)
    | @handler h _ =>
      rw [List.mem_singleton.mp hm]
      exact Text.isIdentifier_append (Text.isIdentifier_append_isIdentifier (by decide)
        (Text.sanitize_isIdentifier h.id)) (by decide)

end Named

end Definition

end Workflow
