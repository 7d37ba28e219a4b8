import Workflow.Proofs.Definition.Bodies
import Workflow.Proofs.Machine.Turns

/-!
Which loops a table controls.

The control of a loop stands in the completion of its last body step: by itself, or in the exit of the
loops stacked inside it on that step. An exit leads outward as long as the loops on the way have no
continuation of their own. One that has leads there instead, and the loops around it are left out of the
transition, though their counters and their checks are declared. `mem_controls_iff` says that this is the
only way in which a loop can be left out.
-/

set_option autoImplicit false

namespace Workflow

namespace Definition

variable {d : Definition}

/-- Loops around one another have controls of their own. -/
theorem WellFormed.control_ne_of_isAncestor (hw : d.WellFormed) {a l : Loop} (hl : l ∈ d.loops)
    (above : d.isAncestor a l = true) : d.control a ≠ d.control l :=
  fun same => hw.iterationCounter_ne_of_isAncestor hl above (congrArg LoopControl.counter same)

/-- Among loops stacked on one step, a loop is controlled unless one inside it goes on somewhere of its
own. -/
theorem WellFormed.mem_controls_loopControl_iff (hw : d.WellFormed) {loops : List Loop}
    (declared : ∀ l ∈ loops, l ∈ d.loops)
    (stacked : loops.Pairwise fun inner outer => d.isAncestor outer inner = true) {l : Loop}
    (hl : l ∈ loops) :
    d.control l ∈ (d.loopControl loops).controls
      ↔ ∀ l' ∈ loops, d.isAncestor l l' = true → l'.continuation = none := by
  induction loops with
  | nil => cases hl
  | cons inner outer ih =>
    obtain ⟨around, stacked⟩ := List.pairwise_cons.mp stacked
    obtain ⟨hi, further⟩ := List.forall_mem_cons.mp declared
    rcases List.mem_cons.mp hl with rfl | hl
    · -- the innermost comes first, and is around no other
      refine iff_of_true List.mem_cons_self fun l' hl' above => ?_
      have below : d.isAncestor l' l = false := by
        rcases List.mem_cons.mp hl' with rfl | hl'
        · exact hw.not_isAncestor_of_isAncestor hi hi above
        · exact hw.not_isAncestor_of_isAncestor hi (further l' hl') above
      rcases List.mem_cons.mp hl' with rfl | hl'
      · exact absurd above (by simp [below])
      · exact absurd (around l' hl') (by simp [below])
    · have apart := hw.control_ne_of_isAncestor hi (around l hl)
      have first : d.control l ∈ (d.loopControl (inner :: outer)).controls
          ↔ inner.continuation = none ∧ d.control l ∈ (d.loopControl outer).controls := by
        refine List.mem_cons.trans ((or_iff_right apart).trans ?_)
        cases inner.continuation with
        | some step => simp [Continuation.controls]
        | none => simp
      rw [first, ih further stacked hl, List.forall_mem_cons]
      exact and_congr_left' ⟨fun none _ => none, fun none => none (around l hl)⟩

end Definition

/-- The completion of a loop's last body step controls the loop exactly when no loop inside it that ends
at the same step has a continuation of its own. -/
theorem Definition.mem_controls_iff {d : Definition} {settings : Settings} {t : Table}
    (compiles : d.compile settings = .ok t) {l : Loop} (declared : l ∈ d.loops) :
    ∃ tr, t.transitionFor? (Name.completedEvent l.lastStep) = some tr
      ∧ ((∃ a ∈ tr.body, d.control l ∈ a.controls)
        ↔ ∀ l' ∈ d.loops, l'.lastStep = l.lastStep → d.isAncestor l l' = true →
          l'.continuation = none) := by
  have c := Definition.compiled_of_compile compiles
  obtain ⟨x, step, last⟩ : ∃ x ∈ d.steps, x.identifier = l.lastStep :=
    List.mem_map.mp (c.wellFormed.loop_last l declared)
  obtain ⟨i, here⟩ := List.getElem?_of_mem step
  have found := c.transitionFor?_completedEvent
    (c.wellFormed.siteAt_mem_sites .main trivial here)
  have ends : l ∈ d.loopsEndingAt x.identifier := mem_loopsEndingAt_iff.mpr ⟨declared, last.symm⟩
  refine ⟨_, by simpa [Site.completedEvent, Line.stem, last] using found, ?_⟩
  have body : (∃ a ∈ (d.completion (Line.main.siteAt d i x)).body, d.control l ∈ a.controls)
      ↔ d.control l ∈ (d.loopControl (d.loopsEndingAt x.identifier)).controls := by
    rw [completion, d.next_main i x, if_pos (List.ne_nil_of_mem ends)]
    simp [Transition.of, Action.controls, Action.continuations]
  rw [body, c.wellFormed.mem_controls_loopControl_iff
    (fun _ => mem_loops_of_mem_loopsEndingAt) (c.wellFormed.pairwise_loopsEndingAt _) ends]
  simp only [mem_loopsEndingAt_iff, and_imp, last]

/-- An edition: drafted and reviewed until it is good, and each draft reviewed until it is polished.
A polished draft may go somewhere of its own. -/
def Definition.edition (polished : Option String) : Definition where
  name := "Edition"
  steps := [.ofName "Draft", .ofName "Review", .ofName "Ship"]
  stateType := none
  loops := [⟨"Edition", "good", 3, "Draft", "Review", some "Ship", none⟩,
    ⟨"Polish", "polished", 2, "Review", "Review", polished, some "Edition"⟩]
  branches := []
  approvals := []
  forks := []
  handlers := []

/-- If it does not, both loops are controlled. -/
theorem mem_controls_edition : ∃ t tr, (Definition.edition none).compile .default = .ok t
    ∧ t.transitionFor? (Name.completedEvent "Review") = some tr
    ∧ ∀ l ∈ (Definition.edition none).loops,
      ∃ a ∈ tr.body, (Definition.edition none).control l ∈ a.controls := by
  obtain ⟨t, compiles, _⟩ := Definition.exists_table (.edition none) .default (fun _ => true) (by
      simp only [Definition.compile, Definition.checkClaims, Definition.claims,
        Definition.transitions, Definition.phases, Definition.messages, Definition.plan,
        Definition.mainLine, Definition.mainPhase, Definition.enclosingLoops_eq_insertionSort,
        Definition.loopsEndingAt_eq_insertionSort]
      decide +kernel)
  have inner : ∀ l ∈ (Definition.edition none).loops, ∀ l' ∈ (Definition.edition none).loops,
      (Definition.edition none).isAncestor l l' = true → l'.continuation = none := by
    decide +kernel
  have shared : ∀ l ∈ (Definition.edition none).loops, l.lastStep = "Review" := by decide
  obtain ⟨tr, found, _⟩ := Definition.mem_controls_iff compiles
    (l := ⟨"Edition", "good", 3, "Draft", "Review", some "Ship", none⟩) List.mem_cons_self
  refine ⟨t, tr, compiles, found, fun l hl => ?_⟩
  obtain ⟨tr', found', controlled⟩ := Definition.mem_controls_iff compiles hl
  rw [shared l hl, found] at found'
  cases found'
  exact controlled.mpr fun l' hl' _ above => inner l hl l' hl' above

/-- If it does, the outer loop has its counter and its check, but is not controlled. -/
theorem not_mem_controls_edition : ∃ t l, (Definition.edition (some "Ship")).compile .default = .ok t
    ∧ l ∈ (Definition.edition (some "Ship")).loops
    ∧ Name.iterationCounter ((Definition.edition (some "Ship")).loopNames l)
        ∈ t.fields.map Field.name
    ∧ Name.exitCheck ((Definition.edition (some "Ship")).loopNames l) ∈ t.checks.map ExitCheck.name
    ∧ ∀ tr ∈ t.transitions, ∀ a ∈ tr.body,
      (Definition.edition (some "Ship")).control l ∉ a.controls := by
  let l : Loop := ⟨"Edition", "good", 3, "Draft", "Review", some "Ship", none⟩
  obtain ⟨t, compiles, computed⟩ := Definition.exists_table (.edition (some "Ship")) .default
    (fun t => Name.iterationCounter ((Definition.edition (some "Ship")).loopNames l)
        ∈ t.fields.map Field.name
      ∧ Name.exitCheck ((Definition.edition (some "Ship")).loopNames l)
        ∈ t.checks.map ExitCheck.name
      ∧ ∀ tr ∈ t.transitions, ∀ a ∈ tr.body,
        (Definition.edition (some "Ship")).control l ∉ a.controls) (by
      simp only [Definition.compile, Definition.checkClaims, Definition.claims,
        Definition.transitions, Definition.phases, Definition.messages, Definition.plan,
        Definition.mainLine, Definition.mainPhase, Definition.enclosingLoops_eq_insertionSort,
        Definition.loopsEndingAt_eq_insertionSort]
      decide +kernel)
  exact ⟨t, l, compiles, List.mem_cons_self, of_decide_eq_true computed⟩

end Workflow
