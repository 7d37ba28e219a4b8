import Mathlib.Data.List.Nodup
import Workflow.Definition.Defect

/-!
What the search for defects promises to everything after it.

`Definition.defect?` walks the parts of a definition in order and stops at the first thing wrong.
`WellFormed` says what is true once it has walked through: names resolve, sequences do not repeat a
step, loops do not lead back to themselves, a step carries one attachment. It holds only what later
proofs ask for; that the texts are identifiers is for the names to say.
-/

set_option autoImplicit false

namespace Workflow.Definition

/-- A definition without defects, as far as control goes. -/
structure WellFormed (d : Definition) : Prop where
  steps_ne : d.steps ≠ []
  steps_distinct : d.stepNames.Nodup
  loop_name : ∀ l ∈ d.loops, l.name ≠ ""
  loop_bound : ∀ l ∈ d.loops, l.maxIterations ≠ 0
  loop_first : ∀ l ∈ d.loops, l.firstStep ∈ d.stepNames
  loop_last : ∀ l ∈ d.loops, l.lastStep ∈ d.stepNames
  loop_order : ∀ l ∈ d.loops, ∀ r, d.loopRange? l = some r → r.1 ≤ r.2
  loop_continuation : ∀ l ∈ d.loops, ∀ x, l.continuation = some x → x ∈ d.stepNames
  loop_acyclic : ∀ l ∈ d.loops, d.climbsBack l = false
  loop_paths : (d.loops.map d.loopNames).Nodup
  /-- Loops with the same last step lie in one another. -/
  loop_stacked : d.loops.Pairwise fun a b =>
    a.lastStep = b.lastStep → d.isAncestor a b = true ∨ d.isAncestor b a = true
  /-- The body of a loop lies within the body of its parent. -/
  loop_within : ∀ l ∈ d.loops, ∀ p, d.parent? l = some p → ∀ r, d.loopRange? l = some r →
    ∃ r', d.loopRange? p = some r' ∧ r'.1 ≤ r.1 ∧ r.2 ≤ r'.2
  /-- Loops with bodies that meet lie in one another. -/
  loop_apart : d.loops.Pairwise fun a b =>
    rangesMeet (d.loopRange? a) (d.loopRange? b) = true →
      d.isAncestor a b = true ∨ d.isAncestor b a = true
  branch_previous : ∀ b ∈ d.branches, b.previousStep ∈ d.stepNames
  branch_rejoin : ∀ b ∈ d.branches, ∀ x, b.rejoinStep = some x → x ∈ d.stepNames
  approval_preceding : ∀ a ∈ d.approvals, a.gate.precedingStep ∈ d.stepNames
  fork_previous : ∀ f ∈ d.forks, f.previousStep ∈ d.stepNames
  fork_join : ∀ f ∈ d.forks, f.joinStep ∈ d.stepNames
  fork_paths : ∀ f ∈ d.forks, 2 ≤ f.paths.length
  fork_path_ne : ∀ f ∈ d.forks, [] ∉ f.paths
  handler_steps : ∀ h ∈ d.handlers, h.steps ≠ []
  handler_trigger : ∀ h ∈ d.handlers, ∀ x, h.scope = .step x → x ∈ d.stepNames
  handler_scopes : (d.handlers.map Handler.scope).Nodup
  /-- Where a fork cancels its paths, a handler of the whole process ends it. -/
  handler_ends : ∀ h ∈ d.handlers, h.scope = .workflow → h.isTerminal = false →
    ∀ f ∈ d.forks, f.failFast = false
  attachments_distinct : (d.attachments.map Prod.fst).Nodup

/-! ## Look-ups on the main line -/

/-- A step has a place on the main line where it is one of its steps. -/
theorem isSome_indexOf?_iff {d : Definition} {x : String} :
    (d.indexOf? x).isSome = true ↔ x ∈ d.stepNames := by
  simp [indexOf?, stepNames]

/-- So every step of the main line has a place to count from. -/
theorem exists_indexOf?_of_mem {d : Definition} {x : String} (h : x ∈ d.stepNames) :
    ∃ i, d.indexOf? x = some i :=
  Option.isSome_iff_exists.mp (isSome_indexOf?_iff.mpr h)

/-- A name that a construct refers to is accepted where a step of the main line has it. -/
theorem stepDefect?_eq_none_iff {d : Definition} {construct x : String} :
    d.stepDefect? construct x = none ↔ x ∈ d.stepNames := by
  rw [stepDefect?, demand_eq_none_iff, isSome_indexOf?_iff]

/-- Where a construct may go without a step, the step that it does give is one of the main line. -/
theorem optionalStepDefect?_eq_none {d : Definition} {construct : String} {step : Option String}
    (h : d.optionalStepDefect? construct step = none) {x : String} (hx : step = some x) :
    x ∈ d.stepNames := by
  subst hx
  exact stepDefect?_eq_none_iff.mp h

/-! ## Sequences -/

/-- A sequence that passes repeats no step, neither one of its own nor one of those seen before it. -/
theorem sequenceDefect?_eq_none {scope : String} {seen : List String} {steps : List Step}
    (h : sequenceDefect? scope seen steps = none) :
    (steps.map Step.identifier).Nodup ∧ ∀ s ∈ steps, s.identifier ∉ seen := by
  induction steps generalizing seen with
  | nil => simp
  | cons s rest ih =>
    simp only [sequenceDefect?, Option.or_eq_none_iff, demand_eq_none_iff, decide_eq_true_eq] at h
    obtain ⟨_, fresh, tail⟩ := h
    obtain ⟨distinct, apart⟩ := ih tail
    simp only [List.mem_cons, not_or] at apart
    constructor
    · rw [List.map_cons, List.nodup_cons]
      refine ⟨fun mem => ?_, distinct⟩
      obtain ⟨other, hother, same⟩ := List.mem_map.mp mem
      exact (apart other hother).1 same
    · intro other hother
      rcases List.mem_cons.mp hother with rfl | hother
      · exact fresh
      · exact (apart other hother).2

/-! ## Loops -/

/-- From a loop without a parent there is nowhere to climb, however far one may go. -/
theorem climb_of_parent?_eq_none {d : Definition} {l : Loop} (h : d.parent? l = none) (n : Nat) :
    d.climb n l = [] := by
  cases n with
  | zero => rfl
  | succ n => simp only [climb, h]

/-- So an outermost loop does not lead back to itself. -/
theorem climbsBack_of_parent?_eq_none {d : Definition} {l : Loop} (h : d.parent? l = none) :
    d.climbsBack l = false := by
  simp [climbsBack, climb_of_parent?_eq_none h]

/-- A loop that passes beside its parent has a body within the parent's. -/
theorem containmentDefect?_eq_none {d : Definition} {l p : Loop} {name : String}
    (h : d.containmentDefect? l name = none) (parent : d.parent? l = some p) {r : Nat × Nat}
    (range : d.loopRange? l = some r) :
    ∃ r', d.loopRange? p = some r' ∧ r'.1 ≤ r.1 ∧ r.2 ≤ r'.2 := by
  simp only [containmentDefect?, range, parent] at h
  split at h
  next first last outer =>
    exact ⟨_, outer, by simpa only [demand_eq_none_iff, decide_eq_true_eq] using h⟩
  · cases h

/-- A parent that is accepted leads to no circle and has the wider body. Where none is declared there is
nothing to show; where the declared one is missing the search has stopped. -/
theorem parentDefect?_eq_none {d : Definition} {l : Loop} (h : d.parentDefect? l = none) :
    d.climbsBack l = false ∧ ∀ p, d.parent? l = some p → ∀ r, d.loopRange? l = some r →
      ∃ r', d.loopRange? p = some r' ∧ r'.1 ≤ r.1 ∧ r.2 ≤ r'.2 := by
  unfold parentDefect? at h
  split at h
  next hp =>
    -- No parent is named, so nothing is climbed and nothing is contained.
    have none : d.parent? l = none := by simp [parent?, hp]
    refine ⟨climbsBack_of_parent?_eq_none none, fun p parent => ?_⟩
    rw [none] at parent
    cases parent
  next =>
    split at h
    · cases h
    · simp only [Option.or_eq_none_iff, demand_eq_none_iff, Bool.not_eq_eq_eq_not,
        Bool.not_true] at h
      exact ⟨h.1, fun p parent r range => containmentDefect?_eq_none h.2 parent range⟩
    · cases h

/-- Two loops that pass beside each other share a last step or meet only where one lies in the other. -/
theorem loopPairDefect?_eq_none {d : Definition} {a b : Loop} (h : d.loopPairDefect? a b = none) :
    (a.lastStep = b.lastStep → d.isAncestor a b = true ∨ d.isAncestor b a = true)
      ∧ (rangesMeet (d.loopRange? a) (d.loopRange? b) = true →
        d.isAncestor a b = true ∨ d.isAncestor b a = true) := by
  simp only [loopPairDefect?, Option.or_eq_none_iff, demand_eq_none_iff, Bool.or_eq_true,
    decide_eq_true_eq, ne_eq, Bool.not_eq_eq_eq_not, Bool.not_true] at h
  exact ⟨fun shared => h.1.resolve_left fun apart => apart shared,
    fun meet => h.2.resolve_left fun apart => by rw [apart] at meet; cases meet⟩

/-- The search compares each loop with all that come after it, which are all the pairs. -/
theorem loopPairsDefect?_eq_none_iff {d : Definition} {loops : List Loop} :
    d.loopPairsDefect? loops = none ↔ loops.Pairwise fun a b => d.loopPairDefect? a b = none := by
  induction loops with
  | nil => exact iff_of_true rfl List.Pairwise.nil
  | cons a rest ih =>
    rw [loopPairsDefect?, Option.or_eq_none_iff, List.findSome?_eq_none_iff, List.pairwise_cons, ih]

/-! ## Attachments in order -/

/-- The steps that a branch names are on the main line. The ids seen so far play no part in this. -/
theorem branchesDefect?_eq_none {d : Definition} {ids : List String} {branches : List Branch}
    (h : d.branchesDefect? ids branches = none) {b : Branch} (hb : b ∈ branches) :
    b.previousStep ∈ d.stepNames ∧ ∀ x, b.rejoinStep = some x → x ∈ d.stepNames := by
  induction branches generalizing ids with
  | nil => cases hb
  | cons first rest ih =>
    simp only [branchesDefect?, Option.or_eq_none_iff] at h
    obtain ⟨_, _, previous, rejoin, _, _, _, tail⟩ := h
    rcases List.mem_cons.mp hb with rfl | hb
    · exact ⟨stepDefect?_eq_none_iff.mp previous, fun _ hx => optionalStepDefect?_eq_none rejoin hx⟩
    · exact ih tail hb

/-- The step that an approval follows is on the main line. The names seen so far play no part in
this. -/
theorem approvalsDefect?_eq_none {d : Definition} {names : List String} {approvals : List Approval}
    (h : d.approvalsDefect? names approvals = none) {a : Approval} (ha : a ∈ approvals) :
    a.gate.precedingStep ∈ d.stepNames := by
  induction approvals generalizing names with
  | nil => cases ha
  | cons first rest ih =>
    simp only [approvalsDefect?, Option.or_eq_none_iff] at h
    obtain ⟨preceding, _, tail⟩ := h
    rcases List.mem_cons.mp ha with rfl | ha
    · exact stepDefect?_eq_none_iff.mp preceding
    · exact ih tail ha

/-- Handlers that pass have steps and a trigger on the main line, and no two of them have the same
scope. -/
theorem handlersDefect?_eq_none {d : Definition} {scopes : List Scope} {handlers : List Handler}
    (h : d.handlersDefect? scopes handlers = none) :
    (∀ g ∈ handlers, g.steps ≠ [] ∧ ∀ x, g.scope = .step x → x ∈ d.stepNames)
      ∧ (handlers.map Handler.scope).Nodup ∧ ∀ g ∈ handlers, g.scope ∉ scopes := by
  induction handlers generalizing scopes with
  | nil => simp
  | cons first rest ih =>
    simp only [handlersDefect?, Option.or_eq_none_iff, demand_eq_none_iff, decide_eq_true_eq] at h
    obtain ⟨_, steps, _, trigger, fresh, tail⟩ := h
    obtain ⟨each, distinct, apart⟩ := ih tail
    simp only [List.mem_cons, not_or] at apart
    refine ⟨fun g hg => ?_, ?_, fun g hg => ?_⟩
    · rcases List.mem_cons.mp hg with rfl | hg
      · exact ⟨steps, fun x hx =>
          optionalStepDefect?_eq_none trigger (by simp [Handler.trigger?, hx])⟩
      · exact each g hg
    · rw [List.map_cons, List.nodup_cons]
      refine ⟨fun mem => ?_, distinct⟩
      obtain ⟨other, hother, same⟩ := List.mem_map.mp mem
      exact (apart other hother).1 same
    · rcases List.mem_cons.mp hg with rfl | hg
      · exact fresh
      · exact (apart g hg).2

/-- A handler of the whole process that resumes goes with no fork that cancels its paths. -/
theorem resumeDefect?_eq_none {d : Definition} (h : d.resumeDefect? = none) {g : Handler}
    (hg : g ∈ d.handlers) (hscope : g.scope = .workflow) (hends : g.isTerminal = false)
    {f : Fork} (hf : f ∈ d.forks) : f.failFast = false := by
  unfold resumeDefect? at h
  split at h
  next => cases h
  next hnone =>
    cases hfind : d.handlers.find? (fun h => h.scope = .workflow && !h.isTerminal) with
    | none =>
      -- The search passes over no handler such as `g`.
      have := List.find?_eq_none.mp hfind g hg
      simp [hscope, hends] at this
    | some resuming =>
      cases hfast : d.forks.find? (·.failFast) with
      | none => simpa using List.find?_eq_none.mp hfast f hf
      | some fast => exact absurd hfast (hnone resuming fast hfind)

/-! ## Attachments -/

section Attachments

variable {d : Definition}

/-- The last step of a loop carries the end of the loop, once for all loops that end there. -/
theorem attached_loop {l : Loop} (declared : l ∈ d.loops) :
    (l.lastStep, "loop end") ∈ d.attachments := by
  simp only [attachments, List.mem_append, List.mem_map, List.mem_eraseDups]
  exact .inl (.inl (.inl ⟨_, ⟨l, declared, rfl⟩, rfl⟩))

/-- The step in front of a branch carries the branch. -/
theorem attached_branch {b : Branch} (declared : b ∈ d.branches) :
    (b.previousStep, "branch") ∈ d.attachments := by
  simp only [attachments, List.mem_append, List.mem_map]
  exact .inl (.inl (.inr ⟨b, declared, rfl⟩))

/-- The step in front of an approval carries the approval. -/
theorem attached_approval {a : Approval} (declared : a ∈ d.approvals) :
    (a.gate.precedingStep, "approval") ∈ d.attachments := by
  simp only [attachments, List.mem_append, List.mem_map]
  exact .inl (.inr ⟨a, declared, rfl⟩)

/-- The step in front of a fork carries the fork. -/
theorem attached_fork {f : Fork} (declared : f ∈ d.forks) :
    (f.previousStep, "fork") ∈ d.attachments := by
  simp only [attachments, List.mem_append, List.mem_map]
  exact .inr ⟨f, declared, rfl⟩

/-- A step carries one attachment. -/
theorem WellFormed.attached_once (hw : d.WellFormed) {x label label' : String}
    (attached : (x, label) ∈ d.attachments) (attached' : (x, label') ∈ d.attachments) :
    label = label' := by
  have same := List.inj_on_of_nodup_map hw.attachments_distinct attached attached' rfl
  exact (Prod.mk.inj same).2

end Attachments

/-! ## The whole search -/

/-- A definition in which no defect is found is well formed. -/
theorem wellFormed_of_defect?_eq_none {d : Definition} (h : d.defect? = none) : d.WellFormed := by
  simp only [defect?, Option.or_eq_none_iff, demand_eq_none_iff, decide_eq_true_eq] at h
  obtain ⟨steps, _, line, loops, branches, approvals, forks, handlers, resume, conflict⟩ := h
  simp only [loopsDefect?, Option.or_eq_none_iff, List.findSome?_eq_none_iff] at loops
  obtain ⟨each, paths, pairs⟩ := loops
  -- What is asked of each loop by itself; what is asked of two loops stays in `pairs`.
  have loop : ∀ l ∈ d.loops, l.firstStep ∈ d.stepNames ∧ l.lastStep ∈ d.stepNames
      ∧ (∀ r, d.loopRange? l = some r → r.1 ≤ r.2)
      ∧ (∀ x, l.continuation = some x → x ∈ d.stepNames)
      ∧ (d.climbsBack l = false ∧ ∀ p, d.parent? l = some p → ∀ r, d.loopRange? l = some r →
        ∃ r', d.loopRange? p = some r' ∧ r'.1 ≤ r.1 ∧ r.2 ≤ r'.2)
      ∧ l.name ≠ "" ∧ l.maxIterations ≠ 0 := by
    intro l hl
    have part := each l hl
    simp only [loopDefect?, Option.or_eq_none_iff, stepDefect?_eq_none_iff, identifierDefect?,
      demand_eq_none_iff] at part
    obtain ⟨identifier, bound, first, last, order, continuation, parent⟩ := part
    refine ⟨first, last, fun r hr => ?_, fun _ hx => optionalStepDefect?_eq_none continuation hx,
      parentDefect?_eq_none parent, ?_, of_decide_eq_true bound⟩
    · simpa [hr] using order
    -- The empty text is no identifier.
    · rintro unnamed
      rw [unnamed] at identifier
      cases identifier
  have fork : ∀ f ∈ d.forks, f.previousStep ∈ d.stepNames ∧ f.joinStep ∈ d.stepNames
      ∧ 2 ≤ f.paths.length ∧ [] ∉ f.paths := by
    intro f hf
    have part := List.findSome?_eq_none_iff.mp forks f hf
    simp only [forkDefect?, Option.or_eq_none_iff, stepDefect?_eq_none_iff, demand_eq_none_iff,
      decide_eq_true_eq, Option.map_eq_none_iff, List.findIdx?_eq_none_iff] at part
    obtain ⟨previous, join, two, filled, _⟩ := part
    exact ⟨previous, join, two, fun mem => by simpa using filled [] mem⟩
  obtain ⟨handler, scopes, _⟩ := handlersDefect?_eq_none handlers
  exact {
    steps_ne := steps
    steps_distinct := (sequenceDefect?_eq_none line).1
    loop_name := fun l hl => (loop l hl).2.2.2.2.2.1
    loop_bound := fun l hl => (loop l hl).2.2.2.2.2.2
    loop_first := fun l hl => (loop l hl).1
    loop_last := fun l hl => (loop l hl).2.1
    loop_order := fun l hl => (loop l hl).2.2.1
    loop_continuation := fun l hl => (loop l hl).2.2.2.1
    loop_acyclic := fun l hl => (loop l hl).2.2.2.2.1.1
    loop_paths := by
      simp only [loopPathDefect?, Option.map_eq_none_iff, Claim.clash?_eq_none_iff,
        List.map_map] at paths
      exact paths
    loop_stacked := (loopPairsDefect?_eq_none_iff.mp pairs).imp fun h => (loopPairDefect?_eq_none h).1
    loop_within := fun l hl => (loop l hl).2.2.2.2.1.2
    loop_apart := (loopPairsDefect?_eq_none_iff.mp pairs).imp fun h => (loopPairDefect?_eq_none h).2
    branch_previous := fun b hb => (branchesDefect?_eq_none branches hb).1
    branch_rejoin := fun b hb => (branchesDefect?_eq_none branches hb).2
    approval_preceding := fun a ha => approvalsDefect?_eq_none approvals ha
    fork_previous := fun f hf => (fork f hf).1
    fork_join := fun f hf => (fork f hf).2.1
    fork_paths := fun f hf => (fork f hf).2.2.1
    fork_path_ne := fun f hf => (fork f hf).2.2.2
    handler_steps := fun g hg => (handler g hg).1
    handler_trigger := fun g hg => (handler g hg).2
    handler_scopes := scopes
    handler_ends := fun g hg hscope hends f hf => resumeDefect?_eq_none resume hg hscope hends hf
    attachments_distinct := by
      simpa only [conflictDefect?, Option.map_eq_none_iff, Claim.clash?_eq_none_iff] using conflict }

end Workflow.Definition
