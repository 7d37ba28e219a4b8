import Mathlib.Data.List.Chain
import Mathlib.Logic.Relation
import Workflow.Proofs.Definition.Reordering

/-!
The nesting of loops is laminar.

A loop names its parent, and the loops around a step are those whose bodies hold it. Where a definition is
valid the two tell the same: the loops around a step are the nesting path of the innermost of them, and
those that end there are the inner end of that path. So a path is what its names say, from a loop without
a parent down to the loop itself, and the bound on the climb is never met.

Names may also lead round in a circle. `Walk` is the search for one, without a bound; it comes to an end
on every definition, with the answer that the check of a loop gives, and a definition with a circle is
refused.
-/

set_option autoImplicit false

namespace Workflow

/-- Where a property, once it holds, holds of all that follows, the elements that have it come last. -/
theorem filter_isSuffix {α : Type} {p : α → Bool} {l : List α}
    (stays : l.Pairwise fun a b => p a = true → p b = true) : l.filter p <:+ l := by
  induction l with
  | nil => exact List.suffix_refl _
  | cons a rest ih =>
    obtain ⟨here, further⟩ := List.pairwise_cons.mp stays
    by_cases first : p a = true
    · exact ⟨[], List.filter_eq_self.mpr
        (List.forall_mem_cons.mpr ⟨first, fun b hb => here b hb first⟩)⟩
    · rw [List.filter_cons_of_neg first]
      exact (ih further).trans (List.suffix_cons a rest)

namespace Definition

variable {d : Definition}

/-! ## Walks -/

/-- A walk from a loop through parents that keeps the names it has met. It stops where there is no
parent, or where it comes back: to the loop it started from, or to a name a second time. -/
inductive Walk (d : Definition) (l : Loop) : List String → Loop → Bool → Prop
  | top {met : List String} {current : Loop} (none : d.parent? current = none) :
      Walk d l met current false
  | back {met : List String} {current p : Loop} (parent : d.parent? current = some p)
      (again : p = l ∨ p.name ∈ met) : Walk d l met current true
  | on {met : List String} {current p : Loop} {answer : Bool} (parent : d.parent? current = some p)
      (other : p ≠ l) (new : p.name ∉ met) (further : Walk d l (p.name :: met) p answer) :
      Walk d l met current answer

/-- A walk gives one answer at most. -/
theorem Walk.unique {l : Loop} {met : List String} {current : Loop} {answer answer' : Bool}
    (walk : d.Walk l met current answer) (walk' : d.Walk l met current answer') :
    answer = answer' := by
  induction walk with
  | top none =>
    cases walk' with
    | top _ => rfl
    | back parent _ => simp [none] at parent
    | on parent _ _ _ => simp [none] at parent
  | back parent again =>
    cases walk' with
    | top none => simp [none] at parent
    | back _ _ => rfl
    | on parent' other new _ =>
      obtain rfl := Option.some.inj (parent.symm.trans parent')
      exact absurd again (not_or.mpr ⟨other, new⟩)
  | on parent other new _ ih =>
    cases walk' with
    | top none => simp [none] at parent
    | back parent' again =>
      obtain rfl := Option.some.inj (parent.symm.trans parent')
      exact absurd again (not_or.mpr ⟨other, new⟩)
    | on parent' _ _ further =>
      obtain rfl := Option.some.inj (parent.symm.trans parent')
      exact ih further

/-- A walk ends: every step takes a name that was not met before, and there are no more of them than
there are loops. -/
theorem exists_walk (d : Definition) (l : Loop) (n : Nat) (met : List String) (current : Loop)
    (distinct : met.Nodup) (known : met ⊆ d.loops.map Loop.name) (room : d.loops.length < n + met.length) :
    d.Walk l met current (decide (l ∈ d.climb n current
      ∨ ¬ (((d.climb n current).map Loop.name).Nodup
        ∧ ∀ name ∈ met, name ∉ (d.climb n current).map Loop.name))) := by
  induction n generalizing met current with
  | zero =>
    have few := (List.subperm_of_subset distinct known).length_le
    rw [List.length_map] at few
    omega
  | succ n ih =>
    cases parent : d.parent? current with
    | none => simpa [climb, parent] using Walk.top parent
    | some p =>
      simp only [climb, parent, List.map_cons, List.nodup_cons, List.mem_cons]
      by_cases again : p = l ∨ p.name ∈ met
      · have back : d.Walk l met current true := .back parent again
        convert back using 1
        simp only [decide_eq_true_eq]
        rcases again with rfl | again
        · exact .inl (.inl rfl)
        · exact .inr fun apart => apart.2 p.name again (.inl rfl)
      · obtain ⟨other, new⟩ := not_or.mp again
        have inside : p.name ∈ d.loops.map Loop.name :=
          List.mem_map_of_mem (mem_loops_of_parent? parent)
        have further := ih (p.name :: met) p (List.nodup_cons.mpr ⟨new, distinct⟩)
          (List.cons_subset.mpr ⟨inside, known⟩) (by rw [List.length_cons]; omega)
        convert Walk.on parent other new further using 2
        grind

/-- The check of a loop answers as the walk from it does. -/
theorem walk_climbsBack (d : Definition) (l : Loop) : d.Walk l [] l (d.climbsBack l) := by
  have walk := exists_walk d l (d.loops.length + 1) [] l List.nodup_nil (List.nil_subset _) (by simp)
  simpa [climbsBack] using walk

/-! ## Nesting paths -/

/-- The path of parents down to a loop: from a loop without a parent, each loop the declared parent of
the next, and no longer than there are loops. -/
structure NestingPath (d : Definition) (l : Loop) (path : List Loop) : Prop where
  outermost : ∃ top rest, path = top :: rest ∧ top.parent = none
  ends : path.getLast? = some l
  distinct : path.Nodup
  declared : ∀ k ∈ path, k ∈ d.loops
  linked : path.IsChain fun outer inner =>
    inner.parent = some outer.name ∧ d.parent? inner = some outer
  short : path.length ≤ d.loops.length

/-- What a loop of the definition may name as its parent. -/
def Names (d : Definition) (l p : Loop) : Prop :=
  l ∈ d.loops ∧ p ∈ d.loops ∧ l.parent = some p.name

theorem parent_eq_of_parent? {l p : Loop} (parent : d.parent? l = some p) :
    l.parent = some p.name := by
  obtain ⟨name, named, found⟩ := Option.bind_eq_some_iff.mp parent
  have same : p.name = name := by simpa using List.find?_some found
  rw [named, same]

theorem mem_loopChain_iff {l k : Loop} : k ∈ d.loopChain l ↔ k = l ∨ d.isAncestor k l = true := by
  simp [loopChain, isAncestor, or_comm]

namespace WellFormed

variable (hw : d.WellFormed)

include hw

theorem nodup_loopChain {l : Loop} (hl : l ∈ d.loops) : (d.loopChain l).Nodup := by
  have back := hw.loop_acyclic l hl
  simp only [climbsBack, decide_eq_false_iff_not, not_or, not_not] at back
  obtain ⟨apart, names⟩ := back
  rw [climb_eq_of_length_lt (hw.length_climb_lt hl) _ (Nat.le_succ _)] at apart names
  rw [loopChain, List.nodup_reverse]
  exact List.nodup_cons.mpr ⟨apart, names.of_map⟩

/-- A loop on the way to another lies less deep, or is it. -/
theorem loopDepth_le_of_mem_loopChain {l k : Loop} (hl : l ∈ d.loops) (hk : k ∈ d.loopChain l) :
    d.loopDepth k ≤ d.loopDepth l := by
  rcases mem_loopChain_iff.mp hk with rfl | above
  · exact Nat.le_refl _
  · exact (hw.loopDepth_lt_of_isAncestor hl above).le

/-- What holds of loops without a parent, and of every loop if of its parent, holds of all loops. -/
theorem loop_induction {P : Loop → Prop} (top : ∀ l ∈ d.loops, d.parent? l = none → P l)
    (child : ∀ l ∈ d.loops, ∀ p, d.parent? l = some p → P p → P l) {l : Loop} (hl : l ∈ d.loops) :
    P l := by
  induction depth : d.loopDepth l using Nat.strong_induction_on generalizing l with
  | _ n ih =>
    cases parent : d.parent? l with
    | none => exact top l hl parent
    | some p =>
      refine child l hl p parent (ih (d.loopDepth p) ?_ (mem_loops_of_parent? parent) rfl)
      rw [← depth, loopDepth, loopDepth, hw.loopChain_of_parent? hl parent, List.length_append]
      exact Nat.lt_succ_self _

/-- Every loop on a path is the parent of the next. -/
theorem linked_loopChain {l : Loop} (hl : l ∈ d.loops) :
    (d.loopChain l).IsChain fun outer inner =>
      inner.parent = some outer.name ∧ d.parent? inner = some outer := by
  refine hw.loop_induction (P := fun l => (d.loopChain l).IsChain _) (fun l _ top => ?_)
    (fun l hl p parent ih => ?_) hl
  · simp [loopChain, climb_of_parent?_eq_none top]
  · rw [hw.loopChain_of_parent? hl parent]
    refine List.isChain_append.mpr ⟨ih, List.isChain_singleton l, fun outer last inner first => ?_⟩
    obtain rfl : p = outer := by simpa [loopChain] using last
    obtain rfl : l = inner := by simpa using first
    exact ⟨parent_eq_of_parent? parent, parent⟩

/-- Paths go deeper. -/
theorem pairwise_loopChain {l : Loop} (hl : l ∈ d.loops) :
    (d.loopChain l).Pairwise fun outer inner => d.loopDepth outer ≤ d.loopDepth inner := by
  refine hw.loop_induction (P := fun l => (d.loopChain l).Pairwise _) (fun l _ top => ?_)
    (fun l hl p parent ih => ?_) hl
  · simp [loopChain, climb_of_parent?_eq_none top]
  · rw [hw.loopChain_of_parent? hl parent]
    refine List.pairwise_append.mpr ⟨ih, List.pairwise_singleton _ l, fun k hk inner hinner => ?_⟩
    rw [List.mem_singleton.mp hinner]
    refine hw.loopDepth_le_of_mem_loopChain hl ?_
    rw [hw.loopChain_of_parent? hl parent]
    exact List.mem_append_left _ hk

/-! ## The loops around a step -/

/-- The loops around a step are those whose bodies hold it. -/
theorem mem_enclosingLoops_iff {step : String} (known : step ∈ d.stepNames) {l : Loop} :
    l ∈ d.enclosingLoops step ↔ l ∈ d.loops ∧ d.InBody l step := by
  simp only [enclosingLoops, indexOf?_eq_positionOf known, List.mem_mergeSort, List.mem_filter]
  exact and_congr_right fun declared => hw.covers_iff declared

omit hw in
theorem pairwise_enclosingLoops (d : Definition) (step : String) :
    (d.enclosingLoops step).Pairwise fun outer inner => d.loopDepth outer ≤ d.loopDepth inner := by
  unfold enclosingLoops
  cases d.indexOf? step with
  | none => exact List.Pairwise.nil
  | some i => exact List.pairwise_mergeSort' (Order.Preimage d.loopDepth (· ≤ ·)) _

theorem nodup_enclosingLoops (step : String) : (d.enclosingLoops step).Nodup := by
  unfold enclosingLoops
  cases d.indexOf? step with
  | none => exact List.nodup_nil
  | some i => exact (List.mergeSort_perm _ _).nodup_iff.mpr (hw.loop_paths.of_map.filter _)

/-- The path of the innermost loop around a step holds all loops around it, and no other. -/
theorem mem_loopChain_iff_inBody {step : String} {l : Loop} (hl : l ∈ d.loops)
    (inside : d.InBody l step)
    (innermost : ∀ k ∈ d.loops, d.InBody k step → d.loopDepth k ≤ d.loopDepth l) {k : Loop} :
    k ∈ d.loopChain l ↔ k ∈ d.loops ∧ d.InBody k step := by
  rw [mem_loopChain_iff]
  constructor
  · rintro (rfl | above)
    · exact ⟨hl, inside⟩
    · obtain ⟨first, last⟩ := hw.body_within hl above
      exact ⟨mem_loops_of_mem_climb (of_decide_eq_true above),
        first.trans inside.1, inside.2.trans last⟩
  · rintro ⟨hk, around⟩
    by_cases same : k = l
    · exact .inl same
    · exact .inr (hw.isAncestor_of_meet hk hl same
        ⟨around.1.trans inside.2, inside.1.trans around.2⟩ (innermost k hk around))

/-- The loops around a step are the path of the innermost of them. -/
theorem enclosingLoops_eq_loopChain {step : String} (known : step ∈ d.stepNames) {l : Loop}
    (innermost : (d.enclosingLoops step).getLast? = some l) :
    d.enclosingLoops step = d.loopChain l := by
  have among := List.mem_of_getLast? innermost
  obtain ⟨hl, inside⟩ := (hw.mem_enclosingLoops_iff known).mp among
  have deepest : ∀ k ∈ d.loops, d.InBody k step → d.loopDepth k ≤ d.loopDepth l := by
    intro k hk around
    have member := (hw.mem_enclosingLoops_iff known).mpr ⟨hk, around⟩
    obtain ⟨front, whole⟩ := List.getLast?_eq_some_iff.mp innermost
    have sorted := pairwise_enclosingLoops d step
    rw [whole] at member sorted
    rcases List.mem_append.mp member with before | last
    · exact (List.pairwise_append.mp sorted).2.2 k before l (List.mem_singleton_self l)
    · rw [List.mem_singleton.mp last]
  have members : ∀ k, k ∈ d.enclosingLoops step ↔ k ∈ d.loopChain l := fun k => by
    rw [hw.mem_enclosingLoops_iff known, hw.mem_loopChain_iff_inBody hl inside deepest]
  have perm := (List.perm_ext_iff_of_nodup (hw.nodup_enclosingLoops step)
    (hw.nodup_loopChain hl)).mpr members
  refine perm.eq_of_pairwise (fun a b ha hb up down => ?_) (pairwise_enclosingLoops d step)
    (hw.pairwise_loopChain hl)
  obtain ⟨ha, insideA⟩ := (hw.mem_enclosingLoops_iff known).mp ha
  obtain ⟨hb, insideB⟩ := (hw.mem_enclosingLoops_iff known).mp ((members b).mpr hb)
  exact hw.eq_of_meet ha hb ⟨insideA.1.trans insideB.2, insideB.1.trans insideA.2⟩
    (Nat.le_antisymm up down)

/-- The loops that end at a step are the inner end of the path, read from the inside. -/
theorem exists_suffix_loopsEndingAt {step : String} (known : step ∈ d.stepNames) :
    ∃ inner, inner <:+ d.enclosingLoops step ∧ d.loopsEndingAt step = inner.reverse := by
  refine ⟨(d.enclosingLoops step).filter (·.lastStep = step), filter_isSuffix ?_, ?_⟩
  · refine (pairwise_enclosingLoops d step).imp_of_mem fun {a b} ha hb order ends => ?_
    obtain ⟨hla, insideA⟩ := (hw.mem_enclosingLoops_iff known).mp ha
    obtain ⟨hlb, insideB⟩ := (hw.mem_enclosingLoops_iff known).mp hb
    obtain rfl := of_decide_eq_true ends
    rw [decide_eq_true_eq]
    by_cases same : a = b
    · rw [same]
    · -- a loop inside that still reaches the step ends there
      have above := hw.isAncestor_of_meet hla hlb same
        ⟨insideA.1.trans insideB.2, insideB.1.trans insideA.2⟩ order
      have last := (hw.body_within hlb above).2
      exact hw.positionOf_inj (hw.loop_last b hlb) known (Nat.le_antisymm last insideB.2)
  · rw [hw.loopsEndingAt_eq, List.filter_reverse]

end WellFormed

section Valid

variable (valid : d.defect? = none)

include valid

/-- A parent that is named is there. -/
theorem parent_eq_none_of_parent? {l : Loop} (hl : l ∈ d.loops) (top : d.parent? l = none) :
    l.parent = none := by
  cases named : l.parent with
  | none => rfl
  | some p =>
    have one := countP_parent valid hl named
    simp only [parent?, named, Option.bind_some, List.find?_eq_none] at top
    rw [List.countP_eq_zero.mpr top] at one
    cases one

/-- A loop that has the name is the parent. -/
theorem parent?_eq_some_of_names {l p : Loop} (names : d.Names l p) : d.parent? l = some p := by
  obtain ⟨hl, hp, named⟩ := names
  cases found : d.parent? l with
  | none =>
    rw [parent_eq_none_of_parent? valid hl found] at named
    cases named
  | some q =>
    have here := Option.some.inj ((parent_eq_of_parent? found).symm.trans named)
    rw [eq_of_countP_eq_one (countP_parent valid hl named) (mem_loops_of_parent? found) hp
      (decide_eq_true here) (decide_eq_true rfl)]

theorem nestingPath_loopChain {l : Loop} (hl : l ∈ d.loops) : d.NestingPath l (d.loopChain l) := by
  have hw := wellFormed_of_defect?_eq_none valid
  exact {
    outermost := by
      refine hw.loop_induction (P := fun l => ∃ top rest, d.loopChain l = top :: rest ∧ top.parent = none)
        (fun l hl top => ?_) (fun l hl p parent ih => ?_) hl
      · exact ⟨l, [], by simp [loopChain, climb_of_parent?_eq_none top],
          parent_eq_none_of_parent? valid hl top⟩
      · obtain ⟨top, rest, path, root⟩ := ih
        exact ⟨top, rest ++ [l], by rw [hw.loopChain_of_parent? hl parent, path]; rfl, root⟩
    ends := by simp [loopChain]
    distinct := hw.nodup_loopChain hl
    declared := fun k => mem_loops_of_mem_loopChain hl
    linked := hw.linked_loopChain hl
    short := by simpa [loopChain] using Nat.succ_le_of_lt (hw.length_climb_lt hl) }

/-- A parent by name lies less deep. -/
theorem loopDepth_lt_of_names {l p : Loop} (names : d.Names l p) : d.loopDepth p < d.loopDepth l := by
  have parent := parent?_eq_some_of_names valid names
  rw [loopDepth, loopDepth,
    (wellFormed_of_defect?_eq_none valid).loopChain_of_parent? names.1 parent, List.length_append]
  exact Nat.lt_succ_self _

end Valid

end Definition

/-- The nesting of loops is laminar. In a valid definition the chain of a loop is its path of declared
parents, the loops around a step are the chain of the innermost of them, and those that end at the step
are the inner end of it, read from the inside; no climb is cut off. On every definition the walk through parents ends, as the
check of the loop says; and where a loop is above itself by names, the definition is refused. -/
theorem Definition.nesting_laminar (d : Definition) :
    (d.validate = .ok () →
      (∀ l ∈ d.loops, d.NestingPath l (d.loopChain l)
          ∧ ∀ steps, d.loops.length ≤ steps → d.loopChain l = (l :: d.climb steps l).reverse)
        ∧ ∀ step ∈ d.stepNames,
          (d.enclosingLoops step = [] ∨ ∃ l ∈ d.loops, (d.enclosingLoops step).getLast? = some l
            ∧ d.enclosingLoops step = d.loopChain l)
          ∧ (d.loopsEndingAt step).Perm (d.loops.filter (·.lastStep = step))
          ∧ ∃ inner, inner <:+ d.enclosingLoops step ∧ d.loopsEndingAt step = inner.reverse)
      ∧ (∀ l, d.Walk l [] l (d.climbsBack l) ∧ ∀ answer, d.Walk l [] l answer → answer = d.climbsBack l)
      ∧ ((∃ l, Relation.TransGen d.Names l l) → ∃ defect, d.validate = .error defect) := by
  refine ⟨fun accepted => ?_, fun l => ?_, ?_⟩
  · have valid := (validate_eq_ok_iff d).mp accepted
    have hw := wellFormed_of_defect?_eq_none valid
    refine ⟨fun l hl => ⟨nestingPath_loopChain valid hl, fun steps more => ?_⟩, fun step known =>
      ⟨?_, List.mergeSort_perm _ _, hw.exists_suffix_loopsEndingAt known⟩⟩
    · rw [loopChain, climb_eq_of_length_lt (hw.length_climb_lt hl) steps more]
    · cases innermost : (d.enclosingLoops step).getLast? with
      | none => exact .inl (List.getLast?_eq_none_iff.mp innermost)
      | some l =>
        have among := (hw.mem_enclosingLoops_iff known).mp (List.mem_of_getLast? innermost)
        exact .inr ⟨l, among.1, rfl, hw.enclosingLoops_eq_loopChain known innermost⟩
  · exact ⟨walk_climbsBack d l, fun _ walk => walk.unique (walk_climbsBack d l)⟩
  · rintro ⟨l, circle⟩
    cases outcome : d.validate with
    | error defect => exact ⟨defect, rfl⟩
    | ok _ =>
      have valid := (validate_eq_ok_iff d).mp outcome
      have shallower : ∀ {a b}, Relation.TransGen d.Names a b → d.loopDepth b < d.loopDepth a := by
        intro a b above
        induction above with
        | single names => exact loopDepth_lt_of_names valid names
        | tail _ names ih => exact (loopDepth_lt_of_names valid names).trans ih
      exact absurd (shallower circle) (Nat.lt_irrefl _)

/-- A fair: draft rounds within rounds of review that end at the same step, within a season. -/
def Definition.fair : Definition where
  name := "Fair"
  steps := [.ofName "Open", .ofName "Draft", .ofName "Review", .ofName "Close", .ofName "Pack"]
  stateType := none
  loops := [⟨"Polish", "polished", 2, "Review", "Review", none, some "Edition"⟩,
    ⟨"Season", "over", 4, "Open", "Close", some "Pack", none⟩,
    ⟨"Edition", "good", 3, "Draft", "Review", some "Close", some "Season"⟩]
  branches := []
  approvals := []
  forks := []
  handlers := []

/-- The same fair, with the season inside its innermost loop. -/
def Definition.carousel : Definition :=
  { Definition.fair with loops := Definition.fair.loops.map fun l =>
      if l.name = "Season" then { l with parent := some "Polish" } else l }

/-- At a review the fair is three loops deep, and ends two of them; the carousel is refused. -/
theorem nesting_laminar_fair : Definition.fair.validate = .ok ()
    ∧ (Definition.fair.enclosingLoops "Review").map Loop.name = ["Season", "Edition", "Polish"]
    ∧ (∃ l ∈ Definition.fair.loops,
      Definition.fair.enclosingLoops "Review" = Definition.fair.loopChain l
        ∧ Definition.fair.NestingPath l (Definition.fair.loopChain l))
    ∧ (∃ inner, inner <:+ Definition.fair.enclosingLoops "Review"
      ∧ Definition.fair.loopsEndingAt "Review" = inner.reverse ∧ inner.length = 2)
    ∧ (∃ l, Relation.TransGen Definition.carousel.Names l l)
    ∧ ∃ defect, Definition.carousel.validate = .error defect := by
  have valid : Definition.fair.validate = .ok () := by decide +kernel
  have around : (Definition.fair.enclosingLoops "Review").map Loop.name
      = ["Season", "Edition", "Polish"] := by
    rw [Definition.enclosingLoops_eq_insertionSort]
    decide +kernel
  have circle : ∃ l, Relation.TransGen Definition.carousel.Names l l := by
    refine ⟨Definition.carousel.loops[0], ?_⟩
    refine .tail (b := Definition.carousel.loops[1]) (.tail (b := Definition.carousel.loops[2])
      (.single ?_) ?_) ?_ <;> exact ⟨by decide, by decide, by decide⟩
  obtain ⟨laminar, _, refused⟩ := Definition.nesting_laminar .fair
  obtain ⟨paths, steps⟩ := laminar valid
  obtain ⟨nested, ending, inner, suffix, ends⟩ := steps "Review" (by decide)
  obtain ⟨l, hl, _, path⟩ := nested.resolve_left fun empty => by simp [empty] at around
  have two : inner.length = 2 := by
    rw [← List.length_reverse, ← ends, ending.length_eq]
    rfl
  exact ⟨valid, around, ⟨l, hl, path, (paths l hl).1⟩, ⟨inner, suffix, ends, two⟩, circle,
    (Definition.nesting_laminar .carousel).2.2 circle⟩

end Workflow
