import Mathlib.Data.List.Pairwise
import Mathlib.Data.List.Perm.Subperm
import Mathlib.Data.List.Sort
import Workflow.Proofs.Definition.WellFormed

/-!
Stacked loops of a well-formed definition.

A climb through parents stays among the loops and meets none twice, so the bound on its length is
never what ends it. Loops with the same last step therefore differ in depth, and sorting them by
depth leaves one order only: the loops that end at a step, innermost first, are the loops around the
step, read from the inside, less those that end elsewhere.
-/

set_option autoImplicit false

namespace Workflow.Definition

variable {d : Definition}

theorem mem_loops_of_parent? {l p : Loop} (h : d.parent? l = some p) : p ∈ d.loops := by
  obtain ⟨_, _, found⟩ := Option.bind_eq_some_iff.mp h
  exact List.mem_of_find?_eq_some found

theorem mem_loops_of_mem_climb {n : Nat} {l a : Loop} (h : a ∈ d.climb n l) : a ∈ d.loops := by
  induction n generalizing l with
  | zero => cases h
  | succ n ih =>
    cases hp : d.parent? l with
    | none => simp [climb, hp] at h
    | some p =>
      simp only [climb, hp, List.mem_cons] at h
      rcases h with rfl | h
      · exact mem_loops_of_parent? hp
      · exact ih h

/-- A climb that ended before its bound does not change with a larger one. -/
theorem climb_eq_of_length_lt {n : Nat} {l : Loop} (h : (d.climb n l).length < n) (m : Nat)
    (hm : n ≤ m) : d.climb m l = d.climb n l := by
  induction n generalizing l m with
  | zero => simp at h
  | succ n ih =>
    cases m with
    | zero => omega
    | succ m =>
      cases hp : d.parent? l with
      | none => simp only [climb, hp]
      | some p =>
        simp only [climb, hp, List.length_cons, Nat.add_lt_add_iff_right] at h
        simp only [climb, hp, ih h m (by omega)]

/-- The climb from a loop that is met on the way goes on as a climb of its own. -/
theorem length_climb_of_mem {n : Nat} {l a : Loop} (h : a ∈ d.climb n l) :
    ∃ k, k < n ∧ (d.climb n l).length = n - k + (d.climb k a).length := by
  induction n generalizing l with
  | zero => cases h
  | succ n ih =>
    cases hp : d.parent? l with
    | none => simp [climb, hp] at h
    | some p =>
      simp only [climb, hp, List.mem_cons, List.length_cons] at h ⊢
      rcases h with rfl | h
      · exact ⟨n, Nat.lt_succ_self n, by omega⟩
      · obtain ⟨k, hk, hlen⟩ := ih h
        exact ⟨k, by omega, by omega⟩

theorem mem_loopsEndingAt_iff {x : String} {l : Loop} :
    l ∈ d.loopsEndingAt x ↔ l ∈ d.loops ∧ l.lastStep = x := by
  rw [loopsEndingAt, List.mem_mergeSort, List.mem_filter, decide_eq_true_eq]

theorem mem_loops_of_mem_loopsEndingAt {x : String} {l : Loop} (member : l ∈ d.loopsEndingAt x) :
    l ∈ d.loops :=
  (mem_loopsEndingAt_iff.mp member).1

namespace WellFormed

theorem loopsEndingAt_nodup (hw : d.WellFormed) (x : String) : (d.loopsEndingAt x).Nodup :=
  (List.mergeSort_perm _ _).nodup_iff.mpr (hw.loop_paths.of_map.filter _)

/-- The bound on a climb is never reached. -/
theorem length_climb_lt (hw : d.WellFormed) {l : Loop} (hl : l ∈ d.loops) :
    (d.climb d.loops.length l).length < d.loops.length := by
  have back := hw.loop_acyclic l hl
  simp only [climbsBack, decide_eq_false_iff_not, not_or, not_not] at back
  obtain ⟨apart, names⟩ := back
  -- the loop and all it meets are different loops of the definition
  have distinct : (l :: d.climb (d.loops.length + 1) l).Nodup :=
    List.nodup_cons.mpr ⟨apart, List.Nodup.of_map _ names⟩
  have inside : l :: d.climb (d.loops.length + 1) l ⊆ d.loops := by
    intro a ha
    rcases List.mem_cons.mp ha with rfl | ha
    · exact hl
    · exact mem_loops_of_mem_climb ha
  have bound := (List.subperm_of_subset distinct inside).length_le
  rw [List.length_cons] at bound
  by_contra long
  -- a climb cut off at the bound would be longer with one step more
  have cut : (d.climb d.loops.length l).length ≤ (d.climb (d.loops.length + 1) l).length := by
    have mono : ∀ n (a : Loop), (d.climb n a).length ≤ (d.climb (n + 1) a).length := by
      intro n
      induction n with
      | zero => simp [climb]
      | succ n ih =>
        intro a
        rw [climb, climb]
        cases d.parent? a with
        | none => simp
        | some p => simpa using ih p
    exact mono _ _
  omega

/-- A loop lies deeper than the loops around it. -/
theorem loopDepth_lt_of_isAncestor (hw : d.WellFormed) {a b : Loop} (hb : b ∈ d.loops)
    (h : d.isAncestor a b = true) : d.loopDepth a < d.loopDepth b := by
  simp only [isAncestor, decide_eq_true_eq] at h
  have bound := hw.length_climb_lt hb
  obtain ⟨k, hk, hlen⟩ := length_climb_of_mem h
  have ended : (d.climb k a).length < k := by omega
  have same := climb_eq_of_length_lt ended d.loops.length (by omega)
  simp only [loopDepth, loopChain, List.length_reverse, List.length_cons, same]
  omega

/-- Two loops that end at one step and lie equally deep are one loop. -/
theorem loop_eq_of_loopDepth_eq (hw : d.WellFormed) {a b : Loop} (ha : a ∈ d.loops)
    (hb : b ∈ d.loops) (shared : a.lastStep = b.lastStep)
    (depth : d.loopDepth a = d.loopDepth b) : a = b := by
  by_contra different
  have : Std.Symm fun x y : Loop =>
      x.lastStep = y.lastStep → d.isAncestor x y = true ∨ d.isAncestor y x = true :=
    ⟨fun _ _ h same => (h same.symm).symm⟩
  rcases hw.loop_stacked.forall ha hb different shared with above | above
  · exact absurd depth (Nat.ne_of_lt (hw.loopDepth_lt_of_isAncestor hb above))
  · exact absurd depth.symm (Nat.ne_of_lt (hw.loopDepth_lt_of_isAncestor ha above))

theorem covers_of_lastStep (hw : d.WellFormed) {l : Loop} (hl : l ∈ d.loops) {i : Nat}
    (hi : d.indexOf? l.lastStep = some i) : d.covers i l = true := by
  obtain ⟨first, hfirst⟩ := exists_indexOf?_of_mem (hw.loop_first l hl)
  have range : d.loopRange? l = some (first, i) := by simp [loopRange?, hfirst, hi]
  have order := hw.loop_order l hl _ range
  simpa [covers, range] using order

/-- The loops that end at a step, innermost first, are those of the loops around it that end
there. -/
theorem loopsEndingAt_eq (hw : d.WellFormed) (step : String) :
    d.loopsEndingAt step
      = (d.enclosingLoops step).reverse.filter (·.lastStep = step) := by
  cases hi : d.indexOf? step with
  | none =>
    have nowhere : d.loops.filter (·.lastStep = step) = [] := by
      apply List.filter_eq_nil_iff.mpr
      intro l hl
      simp only [decide_eq_true_eq]
      rintro rfl
      obtain ⟨i, found⟩ := exists_indexOf?_of_mem (hw.loop_last l hl)
      rw [hi] at found
      cases found
    simp [loopsEndingAt, enclosingLoops, hi, nowhere]
  | some i =>
    have around : enclosingLoops d step
        = (d.loops.filter (d.covers i)).mergeSort fun a b => d.loopDepth a ≤ d.loopDepth b := by
      simp [enclosingLoops, hi]
    let deeper (a b : Loop) : Prop := d.loopDepth b ≤ d.loopDepth a
    refine @List.Perm.eq_of_pairwise _ deeper _ _ ?_ ?_ ?_ ?_
    · intro a b ha hb deep shallow
      rw [mem_loopsEndingAt_iff] at ha
      simp only [around, List.mem_filter, List.mem_reverse, List.mem_mergeSort,
        decide_eq_true_eq] at hb
      exact hw.loop_eq_of_loopDepth_eq ha.1 hb.1.1 (ha.2.trans hb.2.symm)
        (Nat.le_antisymm shallow deep)
    · exact List.pairwise_mergeSort' (Order.Preimage d.loopDepth (· ≥ ·)) _
    · have sorted := List.pairwise_mergeSort' (Order.Preimage d.loopDepth (· ≤ ·))
        (d.loops.filter (d.covers i))
      rw [around]
      exact (List.pairwise_reverse.mpr sorted).filter _
    · have ending : d.loops.filter (·.lastStep = step)
          = (d.loops.filter (d.covers i)).filter (·.lastStep = step) := by
        rw [List.filter_filter]
        apply List.filter_congr
        intro l hl
        by_cases hend : l.lastStep = step
        · have covered := hw.covers_of_lastStep hl (hend ▸ hi)
          simp [hend, covered]
        · simp [hend]
      rw [around, loopsEndingAt, ending]
      refine (List.mergeSort_perm _ _).trans ?_
      exact (((List.mergeSort_perm _ _).symm.trans (List.reverse_perm _).symm)).filter _

end WellFormed

end Workflow.Definition
