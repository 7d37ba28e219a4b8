import Workflow.Proofs.Definition.LoopNames

/-!
Bodies of loops.

The body of a loop is a range of main-line positions. Nesting is told twice over, by parents and by
bodies, and a well-formed definition tells it the same way: a loop around another has the larger body,
and two bodies that meet belong to loops of which one is around the other. Loops that end at one step
therefore lie in one another, innermost first. The nesting path of a loop extends that of any loop around
it, so it is spelt with more letters.
-/

set_option autoImplicit false

namespace Workflow.Definition

variable {d : Definition}

/-- The main-line position of a step, or zero if it is not on the main line. -/
def positionOf (d : Definition) (step : String) : Nat :=
  (d.indexOf? step).getD 0

/-- Where the body of a loop begins. -/
def bodyFirst (d : Definition) (l : Loop) : Nat :=
  d.positionOf l.firstStep

/-- Where it ends. -/
def bodyLast (d : Definition) (l : Loop) : Nat :=
  d.positionOf l.lastStep

/-- A main-line step in the body of a loop. -/
def InBody (d : Definition) (l : Loop) (step : String) : Prop :=
  d.bodyFirst l ≤ d.positionOf step ∧ d.positionOf step ≤ d.bodyLast l

instance (d : Definition) (l : Loop) (step : String) : Decidable (d.InBody l step) :=
  inferInstanceAs (Decidable (d.bodyFirst l ≤ d.positionOf step ∧ d.positionOf step ≤ d.bodyLast l))

theorem indexOf?_eq_positionOf {x : String} (known : x ∈ d.stepNames) :
    d.indexOf? x = some (d.positionOf x) := by
  obtain ⟨i, found⟩ := exists_indexOf?_of_mem known
  rw [positionOf, found, Option.getD_some]

/-- What holds along every step to a parent, and of two loops if of those between, holds along a
climb. -/
theorem climb_induction {R : Loop → Loop → Prop}
    (parent : ∀ l ∈ d.loops, ∀ p, d.parent? l = some p → R p l)
    (trans : ∀ a p l, R a p → R p l → R a l) {n : Nat} {l a : Loop} (hl : l ∈ d.loops)
    (met : a ∈ d.climb n l) : R a l := by
  induction n generalizing l with
  | zero => cases met
  | succ n ih =>
    cases hp : d.parent? l with
    | none => simp [climb, hp] at met
    | some p =>
      simp only [climb, hp, List.mem_cons] at met
      rcases met with rfl | further
      · exact parent l hl _ hp
      · exact trans a p l (ih (mem_loops_of_parent? hp) further) (parent l hl p hp)

namespace WellFormed

variable (hw : d.WellFormed)

include hw

theorem positionOf_eq {k : Nat} {y : Step} (at? : d.steps[k]? = some y) :
    d.positionOf y.identifier = k := by
  obtain ⟨inside, rfl⟩ := List.getElem?_eq_some_iff.mp at?
  have size : d.stepNames.length = d.steps.length := List.length_map _
  have found : d.indexOf? d.steps[k].identifier = some k := by
    rw [indexOf?, List.findIdx?_eq_some_iff_getElem]
    refine ⟨inside, by simp, fun j before same => ?_⟩
    have here : k < d.stepNames.length := by omega
    have there : j < d.stepNames.length := by omega
    have one : d.stepNames[j] = d.stepNames[k] := by simpa [stepNames] using same
    exact absurd (hw.steps_distinct.getElem_inj_iff.mp one) before.ne
  rw [positionOf, found, Option.getD_some]

theorem positionOf_inj {x y : String} (hx : x ∈ d.stepNames) (hy : y ∈ d.stepNames)
    (same : d.positionOf x = d.positionOf y) : x = y := by
  obtain ⟨k, a, here, rfl⟩ := exists_step_of_mem_stepNames hx
  obtain ⟨k', b, there, rfl⟩ := exists_step_of_mem_stepNames hy
  rw [hw.positionOf_eq here, hw.positionOf_eq there] at same
  subst same
  rw [Option.some.inj (here.symm.trans there)]

/-- The step after a position is the one after its step. -/
theorem successor?_eq {k : Nat} {y : Step} (at? : d.steps[k]? = some y) :
    d.successor? y.identifier = d.steps[k + 1]? := by
  have known : y.identifier ∈ d.stepNames := List.mem_map_of_mem (List.mem_of_getElem? at?)
  rw [successor?, indexOf?_eq_positionOf known, hw.positionOf_eq at?, Option.bind_some]

theorem loopRange?_eq {l : Loop} (hl : l ∈ d.loops) :
    d.loopRange? l = some (d.bodyFirst l, d.bodyLast l) := by
  simp [loopRange?, indexOf?_eq_positionOf (hw.loop_first l hl),
    indexOf?_eq_positionOf (hw.loop_last l hl), bodyFirst, bodyLast]

theorem bodyFirst_le_bodyLast {l : Loop} (hl : l ∈ d.loops) : d.bodyFirst l ≤ d.bodyLast l :=
  hw.loop_order l hl _ (hw.loopRange?_eq hl)

theorem covers_iff {l : Loop} (hl : l ∈ d.loops) {i : Nat} :
    d.covers i l = true ↔ d.bodyFirst l ≤ i ∧ i ≤ d.bodyLast l := by
  simp [covers, hw.loopRange?_eq hl]

/-- A loop around another has the larger body. -/
theorem body_within {a l : Loop} (hl : l ∈ d.loops) (above : d.isAncestor a l = true) :
    d.bodyFirst a ≤ d.bodyFirst l ∧ d.bodyLast l ≤ d.bodyLast a := by
  refine climb_induction
    (R := fun a l => d.bodyFirst a ≤ d.bodyFirst l ∧ d.bodyLast l ≤ d.bodyLast a)
    (fun l hl p parent => ?_) (fun a p l outer inner => ?_) hl (of_decide_eq_true above)
  · obtain ⟨r, range, within⟩ := hw.loop_within l hl p parent _ (hw.loopRange?_eq hl)
    rw [hw.loopRange?_eq (mem_loops_of_parent? parent)] at range
    cases range
    exact within
  · exact ⟨outer.1.trans inner.1, inner.2.trans outer.2⟩

/-- Of two loops with bodies that meet one is around the other. -/
theorem nested_of_meet {a b : Loop} (ha : a ∈ d.loops) (hb : b ∈ d.loops) (different : a ≠ b)
    (meet : d.bodyFirst a ≤ d.bodyLast b ∧ d.bodyFirst b ≤ d.bodyLast a) :
    d.isAncestor a b = true ∨ d.isAncestor b a = true := by
  have symmetric : Std.Symm fun x y : Loop =>
      d.bodyFirst x ≤ d.bodyLast y ∧ d.bodyFirst y ≤ d.bodyLast x →
        d.isAncestor x y = true ∨ d.isAncestor y x = true :=
    ⟨fun _ _ h meet => (h meet.symm).symm⟩
  have apart := hw.loop_apart.imp_of_mem (S := fun x y : Loop =>
      d.bodyFirst x ≤ d.bodyLast y ∧ d.bodyFirst y ≤ d.bodyLast x →
        d.isAncestor x y = true ∨ d.isAncestor y x = true) fun hx hy h meet =>
    h (by simpa [rangesMeet, hw.loopRange?_eq hx, hw.loopRange?_eq hy] using meet)
  exact apart.forall ha hb different meet

/-- It is the one that is less deep. -/
theorem isAncestor_of_meet {a b : Loop} (ha : a ∈ d.loops) (hb : b ∈ d.loops) (different : a ≠ b)
    (meet : d.bodyFirst a ≤ d.bodyLast b ∧ d.bodyFirst b ≤ d.bodyLast a)
    (order : d.loopDepth a ≤ d.loopDepth b) : d.isAncestor a b = true := by
  rcases hw.nested_of_meet ha hb different meet with above | below
  · exact above
  · exact absurd (hw.loopDepth_lt_of_isAncestor ha below) order.not_gt

/-- Loops with bodies that meet are told apart by how deep they are. -/
theorem eq_of_meet {a b : Loop} (ha : a ∈ d.loops) (hb : b ∈ d.loops)
    (meet : d.bodyFirst a ≤ d.bodyLast b ∧ d.bodyFirst b ≤ d.bodyLast a)
    (depth : d.loopDepth a = d.loopDepth b) : a = b := by
  by_contra different
  have above := hw.isAncestor_of_meet ha hb different meet depth.le
  exact absurd depth (hw.loopDepth_lt_of_isAncestor hb above).ne

/-- No loop is around itself. -/
theorem not_isAncestor_of_isAncestor {a b : Loop} (ha : a ∈ d.loops) (hb : b ∈ d.loops)
    (above : d.isAncestor a b = true) : d.isAncestor b a = false := by
  by_contra below
  have down := hw.loopDepth_lt_of_isAncestor hb above
  have up := hw.loopDepth_lt_of_isAncestor ha (by simpa using below)
  omega

/-! ## Paths -/

/-- The chain of a loop extends that of its parent. -/
theorem loopChain_of_parent? {l p : Loop} (hl : l ∈ d.loops) (parent : d.parent? l = some p) :
    d.loopChain l = d.loopChain p ++ [l] := by
  have short := hw.length_climb_lt (mem_loops_of_parent? parent)
  obtain ⟨n, size⟩ : ∃ n, d.loops.length = n + 1 :=
    ⟨_, (Nat.succ_pred_eq_of_pos (List.length_pos_of_mem hl)).symm⟩
  have whole := hw.length_climb_lt hl
  simp only [size, climb, parent, List.length_cons, Nat.add_lt_add_iff_right] at whole
  simp only [loopChain, size, climb, parent, List.reverse_cons,
    climb_eq_of_length_lt whole (n + 1) (Nat.le_succ n)]

/-- The path of a loop is spelt with more letters than that of a loop around it. -/
theorem length_loopPath_lt {a l : Loop} (hl : l ∈ d.loops) (above : d.isAncestor a l = true) :
    (Name.loopPath (d.loopNames a)).length < (Name.loopPath (d.loopNames l)).length := by
  refine climb_induction (R := fun a l => (Name.loopPath (d.loopNames a)).length
      < (Name.loopPath (d.loopNames l)).length) (fun l hl p parent => ?_)
    (fun _ _ _ => Nat.lt_trans) hl (of_decide_eq_true above)
  have named : 0 < l.name.length := by
    rw [Nat.pos_iff_ne_zero, ne_eq, String.length_eq_zero_iff]
    exact hw.loop_name l hl
  simp only [loopNames, hw.loopChain_of_parent? hl parent, List.map_append, List.map_singleton,
    Name.loopPath, String.join_append, String.length_append, String.join_cons, String.join_nil,
    String.append_empty]
  exact Nat.lt_add_of_pos_right named

theorem iterationCounter_ne_of_isAncestor {a l : Loop} (hl : l ∈ d.loops)
    (above : d.isAncestor a l = true) :
    Name.iterationCounter (d.loopNames a) ≠ Name.iterationCounter (d.loopNames l) := by
  intro same
  have shorter := hw.length_loopPath_lt hl above
  rw [Name.iterationCounter_inj.mp same] at shorter
  exact Nat.lt_irrefl _ shorter

/-! ## Stacked loops -/

/-- The loops that end at a step lie in one another, the innermost first. -/
theorem pairwise_loopsEndingAt (step : String) :
    (d.loopsEndingAt step).Pairwise fun inner outer => d.isAncestor outer inner = true := by
  have sorted := List.pairwise_mergeSort' (Order.Preimage d.loopDepth (· ≥ ·))
    (d.loops.filter (·.lastStep = step))
  refine (sorted.and (hw.loopsEndingAt_nodup step)).imp_of_mem fun {a b} ha hb order => ?_
  obtain ⟨hla, rfl⟩ := mem_loopsEndingAt_iff.mp ha
  obtain ⟨hlb, shared⟩ := mem_loopsEndingAt_iff.mp hb
  have same : d.bodyLast b = d.bodyLast a := by rw [bodyLast, bodyLast, shared]
  have bodies := And.intro (hw.bodyFirst_le_bodyLast hla) (hw.bodyFirst_le_bodyLast hlb)
  exact hw.isAncestor_of_meet hlb hla order.2.symm (by omega) order.1

/-! ## Steps in a body -/

section InBody

variable {l : Loop} (declared : l ∈ d.loops)

include declared

theorem inBody_iff_covers {k : Nat} {x : Step} (at? : d.steps[k]? = some x) :
    d.InBody l x.identifier ↔ d.covers k l = true := by
  rw [InBody, hw.positionOf_eq at?, hw.covers_iff declared]

theorem inBody_firstStep : d.InBody l l.firstStep :=
  ⟨Nat.le_refl _, hw.bodyFirst_le_bodyLast declared⟩

omit declared in
/-- The body of a loop holds the bodies of the loops inside. -/
theorem inBody_of_isAncestor {inner : Loop} (declared' : inner ∈ d.loops)
    (above : d.isAncestor l inner = true) : d.InBody l inner.firstStep := by
  obtain ⟨before, after⟩ := hw.body_within declared' above
  exact ⟨before, (hw.bodyFirst_le_bodyLast declared').trans after⟩

/-- The body goes on until its last step. -/
theorem inBody_next {k : Nat} {x y : Step} (at? : d.steps[k]? = some x)
    (next? : d.steps[k + 1]? = some y) (inside : d.InBody l x.identifier)
    (before : x.identifier ≠ l.lastStep) : d.InBody l y.identifier := by
  obtain ⟨first, last⟩ := inside
  have known : x.identifier ∈ d.stepNames := List.mem_map_of_mem (List.mem_of_getElem? at?)
  have apart : d.positionOf x.identifier ≠ d.bodyLast l := fun same =>
    before (hw.positionOf_inj known (hw.loop_last l declared) same)
  rw [hw.positionOf_eq at?] at first last apart
  rw [InBody, hw.positionOf_eq next?]
  omega

theorem inBody_successor? {x : String} {y : Step} (next? : d.successor? x = some y)
    (inside : d.InBody l x) (before : x ≠ l.lastStep) : d.InBody l y.identifier := by
  obtain ⟨k, found, after⟩ := Option.bind_eq_some_iff.mp next?
  obtain ⟨present, same, _⟩ := List.findIdx?_eq_some_iff_getElem.mp found
  have same : d.steps[k].identifier = x := by simpa using same
  subst same
  exact hw.inBody_next declared (List.getElem?_eq_getElem present) after inside before

/-- The loops that end in the body lie inside, unless they end where the body does. -/
theorem mem_or_inside {x : String} (known : x ∈ d.stepNames) (inside : d.InBody l x) :
    l ∈ d.loopsEndingAt x ∨ ∀ l' ∈ d.loopsEndingAt x, d.isAncestor l l' = true := by
  by_cases last : l.lastStep = x
  · exact .inl (mem_loopsEndingAt_iff.mpr ⟨declared, last⟩)
  · refine .inr fun l' among => ?_
    obtain ⟨declared', rfl⟩ := mem_loopsEndingAt_iff.mp among
    have order := hw.bodyFirst_le_bodyLast declared'
    have place : d.positionOf l'.lastStep = d.bodyLast l' := rfl
    obtain ⟨first, end'⟩ := inside
    rw [place] at first end'
    have different : l ≠ l' := fun same => last (by rw [same])
    rcases hw.nested_of_meet declared declared' different (by omega) with above | below
    · exact above
    · -- a loop around it would end where it does
      obtain ⟨_, later⟩ := hw.body_within declared below
      exact absurd (hw.positionOf_inj (hw.loop_last l declared) known (Nat.le_antisymm later end')) last

end InBody

end WellFormed

end Workflow.Definition
