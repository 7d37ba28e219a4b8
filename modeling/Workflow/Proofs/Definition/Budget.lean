import Mathlib.Algebra.Order.BigOperators.Group.Finset
import Mathlib.Tactic.Ring
import Workflow.Proofs.Definition.Bodies

/-!
Budgets: how much may still happen, counted on the definition alone.

A definition is forward when nothing but the turns of its loops leads back: continuations, rejoins and
joins lie ahead of the step that leads to them, and no recovery starts a step again. Then every position
of the main line has a budget, `ahead`, that covers all that can follow it. A loop that starts over goes
back to a larger budget; the difference is the price of one turn, `turnCost`. A loop that is left may be
entered again with all its turns, so every position before its end sets `restartCost` aside. Turns of a
loop cover the restarts of the loops inside it, and these are told by their longer names. A counter that
several loops share has one price, because the price depends on its name alone.
-/

set_option autoImplicit false

namespace Workflow.Definition

/-- Nothing but the turns of loops leads back. -/
structure Forward (d : Definition) : Prop where
  continuation : ∀ l ∈ d.loops, ∀ x, l.continuation = some x →
    d.positionOf l.lastStep < d.positionOf x
  rejoin : ∀ b ∈ d.branches, ∀ x, b.rejoinStep = some x →
    d.positionOf b.previousStep < d.positionOf x
  join : ∀ f ∈ d.forks, d.positionOf f.previousStep < d.positionOf f.joinStep
  terminal : ∀ g ∈ d.handlers, g.isTerminal = true

section Costs

variable (d : Definition)

/-- More than the place of any site on its line. -/
def span : Nat := (d.sites.map Site.index).sum + 1

/-- The start of a recovery, with all that follows it. -/
def recoveryCost : Nat := 3 * d.span + 3

/-- The start of a line beside the main one, but for what follows its end. -/
def detourCost : Nat := d.recoveryCost + 3 * d.span + 2

/-- One step of the main line, with the lines that start after it. -/
def stepCost : Nat := ((d.forks.map fun f => f.paths.length).sum + 1) * (d.detourCost + 1)

/-- The loops with a longer path than one, among them all inside it. -/
def deeper (l : Loop) : Finset Loop :=
  d.loops.toFinset.filter fun l' =>
    (Name.loopPath (d.loopNames l)).length < (Name.loopPath (d.loopNames l')).length

/-- One more turn of a loop. -/
def turnCost (l : Loop) : Nat :=
  (d.stepCost * d.steps.length + d.loops.length * d.loops.length * 2 ^ 32 + 1)
    ^ ((d.deeper l).card + 1)

/-- All turns that the counter of a loop has when it starts over. -/
def restartCost (l : Loop) : Nat :=
  d.loops.length * 2 ^ 32 * d.turnCost l

/-- All that can follow a main-line position before a loop takes another turn. -/
def ahead (p : Nat) : Nat :=
  d.stepCost * (d.steps.length - p)
    + ∑ l ∈ d.loops.toFinset with p ≤ d.bodyLast l, d.restartCost l

end Costs

variable {d : Definition}

theorem index_lt_span {s : Site} (hs : s ∈ d.sites) : s.index < d.span :=
  Nat.lt_succ_of_le (List.single_le_sum (fun _ _ => Nat.zero_le _) _ (List.mem_map_of_mem hs))

theorem detourCost_lt_stepCost : d.detourCost < d.stepCost :=
  Nat.lt_of_succ_le (Nat.le_mul_of_pos_left _ (Nat.succ_pos _))

/-- The paths of a fork cost no more than a step. -/
theorem paths_add_detourCost_lt_stepCost {f : Fork} (declared : f ∈ d.forks) :
    f.paths.length * d.detourCost + d.detourCost < d.stepCost := by
  have among : f.paths.length ≤ (d.forks.map fun f => f.paths.length).sum :=
    List.single_le_sum (fun _ _ => Nat.zero_le _) _ (List.mem_map_of_mem declared)
  calc f.paths.length * d.detourCost + d.detourCost
      = (f.paths.length + 1) * d.detourCost := by ring
    _ ≤ ((d.forks.map fun f => f.paths.length).sum + 1) * d.detourCost :=
        Nat.mul_le_mul_right _ (Nat.succ_le_succ among)
    _ < d.stepCost := Nat.mul_lt_mul_of_pos_left (Nat.lt_succ_self _) (Nat.succ_pos _)

/-! ## Loops by the length of their names -/

theorem mem_deeper_iff {l l' : Loop} : l' ∈ d.deeper l ↔ l' ∈ d.loops
    ∧ (Name.loopPath (d.loopNames l)).length < (Name.loopPath (d.loopNames l')).length := by
  simp [deeper]

theorem card_deeper_lt {l l' : Loop} (below : l' ∈ d.deeper l) :
    (d.deeper l').card < (d.deeper l).card := by
  refine Finset.card_lt_card ⟨fun m hm => ?_, fun all => ?_⟩
  · rw [mem_deeper_iff] at hm below ⊢
    exact ⟨hm.1, below.2.trans hm.2⟩
  · exact Nat.lt_irrefl _ (mem_deeper_iff.mp (all below)).2

/-- Loops that share a counter have one price. -/
theorem turnCost_eq {l l' : Loop} (shared : Name.iterationCounter (d.loopNames l')
    = Name.iterationCounter (d.loopNames l)) : d.turnCost l' = d.turnCost l := by
  have same : d.deeper l' = d.deeper l := by
    rw [deeper, deeper, Name.iterationCounter_inj.mp shared]
  rw [turnCost, turnCost, same]

/-- A turn covers the main line once, and every loop with a longer name starting over. -/
theorem restarts_le_turnCost (l : Loop) :
    d.stepCost * d.steps.length + ∑ l' ∈ d.deeper l, d.restartCost l' ≤ d.turnCost l := by
  set base := d.stepCost * d.steps.length + d.loops.length * d.loops.length * 2 ^ 32 + 1 with hbase
  have few : (d.deeper l).card ≤ d.loops.length :=
    (Finset.card_filter_le _ _).trans d.loops.toFinset_card_le
  have each : ∀ l' ∈ d.deeper l,
      d.restartCost l' ≤ d.loops.length * 2 ^ 32 * base ^ (d.deeper l).card := fun l' below =>
    Nat.mul_le_mul_left _ (Nat.pow_le_pow_right (Nat.succ_pos _) (card_deeper_lt below))
  calc d.stepCost * d.steps.length + ∑ l' ∈ d.deeper l, d.restartCost l'
      ≤ d.stepCost * d.steps.length
        + (d.deeper l).card * (d.loops.length * 2 ^ 32 * base ^ (d.deeper l).card) := by
        have all := Finset.sum_le_card_nsmul _ _ _ each
        rw [nsmul_eq_mul, Nat.cast_id] at all
        exact Nat.add_le_add_left all _
    _ ≤ d.stepCost * d.steps.length * base ^ (d.deeper l).card
        + d.loops.length * (d.loops.length * 2 ^ 32 * base ^ (d.deeper l).card) :=
        Nat.add_le_add (Nat.le_mul_of_pos_right _ (Nat.pow_pos (Nat.succ_pos _)))
          (Nat.mul_le_mul_right _ few)
    _ = (base - 1) * base ^ (d.deeper l).card := by
        rw [hbase, Nat.add_sub_cancel]
        ring
    _ ≤ base * base ^ (d.deeper l).card := Nat.mul_le_mul_right _ (Nat.sub_le _ _)
    _ = d.turnCost l := by rw [turnCost, ← hbase, pow_succ']

/-! ## Along the main line -/

theorem ahead_anti {p q : Nat} (order : p ≤ q) : d.ahead q ≤ d.ahead p := by
  refine Nat.add_le_add (Nat.mul_le_mul_left _ (by omega)) (Finset.sum_le_sum_of_subset ?_)
  exact Finset.monotone_filter_right _ fun _ _ later => order.trans later

/-- A position pays for one step and for the restarts of loops that end there. -/
theorem ahead_succ {p : Nat} (inside : p < d.steps.length) (stacked : Finset Loop)
    (ending : ∀ l ∈ stacked, l ∈ d.loops ∧ d.bodyLast l = p) :
    d.ahead (p + 1) + ∑ l ∈ stacked, d.restartCost l + d.stepCost ≤ d.ahead p := by
  have apart : Disjoint (d.loops.toFinset.filter fun l => p + 1 ≤ d.bodyLast l) stacked := by
    rw [Finset.disjoint_left]
    intro l later here
    have last := (ending l here).2
    have after := (Finset.mem_filter.mp later).2
    omega
  have loops : ∑ l ∈ d.loops.toFinset with p + 1 ≤ d.bodyLast l, d.restartCost l
      + ∑ l ∈ stacked, d.restartCost l
        ≤ ∑ l ∈ d.loops.toFinset with p ≤ d.bodyLast l, d.restartCost l := by
    rw [← Finset.sum_union apart]
    refine Finset.sum_le_sum_of_subset fun l among => ?_
    rw [Finset.mem_filter, List.mem_toFinset]
    rcases Finset.mem_union.mp among with later | here
    · obtain ⟨declared, after⟩ := Finset.mem_filter.mp later
      exact ⟨List.mem_toFinset.mp declared, by omega⟩
    · exact ⟨(ending l here).1, (ending l here).2.ge⟩
  have onward : d.steps.length - p = d.steps.length - (p + 1) + 1 := by omega
  rw [ahead, ahead, onward, Nat.mul_succ]
  omega

/-- Going back to the beginning of a body costs a turn, next to what leaving would have cost. -/
theorem WellFormed.ahead_bodyFirst_le (hw : d.WellFormed) {l : Loop} (declared : l ∈ d.loops)
    {stacked : Finset Loop} (others : ∀ l' ∈ d.loops, d.bodyLast l' = d.bodyLast l →
      l' ∈ stacked ∨ l' ∈ d.deeper l) :
    d.ahead (d.bodyFirst l)
      ≤ d.turnCost l + d.ahead (d.bodyLast l + 1) + ∑ l' ∈ stacked, d.restartCost l' := by
  -- a body that ends within that of the loop is of a loop inside
  have inside : ∀ l' ∈ d.loops, d.bodyFirst l ≤ d.bodyLast l' → d.bodyLast l' < d.bodyLast l →
      l' ∈ d.deeper l := by
    intro l' declared' after before
    have order := hw.bodyFirst_le_bodyLast declared'
    have different : l' ≠ l := by
      rintro rfl
      exact Nat.lt_irrefl _ before
    rcases hw.nested_of_meet declared' declared different ⟨by omega, after⟩ with above | below
    · have larger := (hw.body_within declared above).2
      omega
    · exact mem_deeper_iff.mpr ⟨declared', hw.length_loopPath_lt declared' below⟩
  have covered : (d.loops.toFinset.filter fun l' => d.bodyFirst l ≤ d.bodyLast l')
      ⊆ (d.loops.toFinset.filter fun l' => d.bodyLast l + 1 ≤ d.bodyLast l') ∪ stacked
        ∪ d.deeper l := by
    intro l' among
    obtain ⟨declared', after⟩ := Finset.mem_filter.mp among
    rw [Finset.mem_union, Finset.mem_union, Finset.mem_filter]
    rw [List.mem_toFinset] at declared' ⊢
    rcases Nat.lt_trichotomy (d.bodyLast l') (d.bodyLast l) with before | same | later
    · exact .inr (inside l' declared' after before)
    · exact (others l' declared' same).imp_left .inr
    · exact .inl (.inl ⟨declared', later⟩)
  have split : ∀ s t : Finset Loop, ∑ l' ∈ s ∪ t, d.restartCost l'
      ≤ ∑ l' ∈ s, d.restartCost l' + ∑ l' ∈ t, d.restartCost l' := fun s t => by
    rw [← Finset.sum_union_inter]
    exact Nat.le_add_right _ _
  have loops := (Finset.sum_le_sum_of_subset (f := d.restartCost) covered).trans (split _ _)
  have parts := split (d.loops.toFinset.filter fun l' => d.bodyLast l + 1 ≤ d.bodyLast l') stacked
  have turn := d.restarts_le_turnCost l
  have line : d.stepCost * (d.steps.length - d.bodyFirst l) ≤ d.stepCost * d.steps.length :=
    Nat.mul_le_mul_left _ (Nat.sub_le _ _)
  rw [ahead, ahead]
  omega

end Workflow.Definition
