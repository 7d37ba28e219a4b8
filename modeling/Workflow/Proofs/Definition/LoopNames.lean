import Mathlib.Data.List.Sort
import Workflow.Proofs.Definition.Nesting
import Workflow.Proofs.Table.Compiled

/-!
The names of loops' counters and exit checks.

Both are built from the nesting path of the loop, spelt without a separator. Different loops have
different paths, but the spelling does not show where one name of a path ends and the next begins: two
paths may read the same, and then the loops share a counter and a check. `loop_identifiers_distinct_iff`
says that this is the only way, and that it takes two loops on the paths of which one name begins with
the other.
-/

set_option autoImplicit false

namespace Workflow

namespace Name

/-- A counter is known by the spelling of its path. -/
theorem iterationCounter_inj {xs ys : List String} :
    iterationCounter xs = iterationCounter ys ↔ loopPath xs = loopPath ys :=
  String.append_left_inj _

/-- So is a check. -/
theorem exitCheck_inj {xs ys : List String} :
    exitCheck xs = exitCheck ys ↔ loopPath xs = loopPath ys := by
  unfold exitCheck
  rw [String.append_left_inj, String.append_right_inj]

/-- Two paths that read the same differ first where one name begins with the other. -/
theorem exists_prefix_of_loopPath_eq {xs ys : List String} (named : "" ∉ xs) (named' : "" ∉ ys)
    (different : xs ≠ ys) (same : loopPath xs = loopPath ys) :
    ∃ x ∈ xs, ∃ y ∈ ys, x ≠ y ∧ (x.toList <+: y.toList ∨ y.toList <+: x.toList) := by
  induction xs generalizing ys with
  | nil =>
    cases ys with
    | nil => exact absurd rfl different
    | cons y ys =>
      -- the first name of the longer path would have to be empty
      have spelt := congrArg String.toList same
      simp only [loopPath, String.join_nil, String.join_cons, String.toList_append] at spelt
      have empty : y = "" := String.toList_eq_nil_iff.mp (List.append_eq_nil_iff.mp spelt.symm).1
      exact absurd List.mem_cons_self (empty ▸ named')
  | cons x xs ih =>
    cases ys with
    | nil =>
      have spelt := congrArg String.toList same
      simp only [loopPath, String.join_nil, String.join_cons, String.toList_append] at spelt
      have empty : x = "" := String.toList_eq_nil_iff.mp (List.append_eq_nil_iff.mp spelt).1
      exact absurd List.mem_cons_self (empty ▸ named)
    | cons y ys =>
      simp only [loopPath, String.join_cons] at same
      by_cases first : x = y
      · subst first
        obtain ⟨x', hx, y', hy, apart⟩ := ih (fun h => named (List.mem_cons_of_mem _ h))
          (fun h => named' (List.mem_cons_of_mem _ h)) (fun h => different (by rw [h]))
          ((String.append_right_inj x).mp same)
        exact ⟨x', List.mem_cons_of_mem _ hx, y', List.mem_cons_of_mem _ hy, apart⟩
      · have spelt := congrArg String.toList same
        simp only [String.toList_append] at spelt
        have short : x.toList <+: y.toList ++ (String.join ys).toList :=
          ⟨_, spelt⟩
        exact ⟨x, List.mem_cons_self, y, List.mem_cons_self, first,
          List.prefix_or_prefix_of_prefix short (List.prefix_append _ _)⟩

end Name

namespace Definition

variable {d : Definition}

theorem mem_loops_of_mem_loopChain {l k : Loop} (hl : l ∈ d.loops) (h : k ∈ d.loopChain l) :
    k ∈ d.loops := by
  rcases List.mem_cons.mp (List.mem_reverse.mp h) with rfl | above
  · exact hl
  · exact mem_loops_of_mem_climb above

/-- The names on the path of a loop are not empty. -/
theorem WellFormed.empty_not_mem_loopNames (hw : d.WellFormed) {l : Loop} (hl : l ∈ d.loops) :
    "" ∉ d.loopNames l := by
  intro mem
  obtain ⟨k, hk, unnamed⟩ := List.mem_map.mp mem
  exact hw.loop_name k (mem_loops_of_mem_loopChain hl hk) unnamed

/-- The names of the fields that are no counters. -/
def plainFieldNames (d : Definition) : List String :=
  ["instance_id", "state", "phase", "is_finished"]
    ++ (if d.approvals.isEmpty then [] else ["pending_approval_id", "last_approval_decision"])
    ++ (if d.handlers.isEmpty then [] else ["failure_context"])

theorem plainFieldNames_nodup (d : Definition) : d.plainFieldNames.Nodup := by
  unfold plainFieldNames
  split <;> split <;> decide

/-- They do not end as counters do. -/
theorem not_suffix_plainFieldNames (d : Definition) :
    ∀ name ∈ d.plainFieldNames, ¬ "IterationCount".toList <:+ name.toList := by
  unfold plainFieldNames
  split <;> split <;> decide

/-- The fields are these and the counters. -/
theorem fields_perm (d : Definition) :
    (d.fields.map Field.name).Perm
      (d.plainFieldNames ++ d.loops.map fun l => Name.iterationCounter (d.loopNames l)) := by
  unfold fields plainFieldNames
  simp only [List.map_append, List.map_map, apply_ite (List.map Field.name), List.append_assoc]
  exact (List.perm_append_comm.append_left _).append_left _

/-- Fields have distinct names when counters do. -/
theorem nodup_fields_iff (d : Definition) :
    (d.fields.map Field.name).Nodup
      ↔ (d.loops.map fun l => Name.iterationCounter (d.loopNames l)).Nodup := by
  rw [d.fields_perm.nodup_iff, List.nodup_append]
  refine ⟨fun distinct => distinct.2.1, fun distinct => ⟨d.plainFieldNames_nodup, distinct, ?_⟩⟩
  rintro name plain _ counter rfl
  obtain ⟨l, _, rfl⟩ := List.mem_map.mp counter
  exact d.not_suffix_plainFieldNames _ plain ⟨_, (String.toList_append ..).symm⟩

end Definition

/-- What is spelt from paths is distinct when the paths are. -/
theorem Definition.nodup_map_loopPath_iff {d : Definition} {name : List String → String}
    (inj : ∀ xs ys, name xs = name ys ↔ Name.loopPath xs = Name.loopPath ys) :
    (d.loops.map fun l => name (d.loopNames l)).Nodup
      ↔ (d.loops.map fun l => Name.loopPath (d.loopNames l)).Nodup := by
  simp only [List.Nodup, List.pairwise_map, ne_eq, inj]

/-- The fields of a compiled process have distinct names, and so have its exit checks, exactly when no
two nesting paths read the same. Two loops whose paths do share their counter and their check, and on
the two paths are loops of different names, of which one begins with the other. -/
theorem Definition.loop_identifiers_distinct_iff {d : Definition} {settings : Settings} {t : Table}
    (compiles : d.compile settings = .ok t) :
    ((t.fields.map Field.name).Nodup
        ↔ (d.loops.map fun l => Name.loopPath (d.loopNames l)).Nodup)
      ∧ ((t.checks.map ExitCheck.name).Nodup
        ↔ (d.loops.map fun l => Name.loopPath (d.loopNames l)).Nodup)
      ∧ ∀ l ∈ d.loops, ∀ l' ∈ d.loops, l ≠ l' →
        (Name.iterationCounter (d.loopNames l) = Name.iterationCounter (d.loopNames l')
            ↔ Name.loopPath (d.loopNames l) = Name.loopPath (d.loopNames l'))
          ∧ (Name.exitCheck (d.loopNames l) = Name.exitCheck (d.loopNames l')
            ↔ Name.loopPath (d.loopNames l) = Name.loopPath (d.loopNames l'))
          ∧ (Name.loopPath (d.loopNames l) = Name.loopPath (d.loopNames l') →
            ∃ k ∈ d.loopChain l, ∃ k' ∈ d.loopChain l', k.name ≠ k'.name
              ∧ (k.name.toList <+: k'.name.toList ∨ k'.name.toList <+: k.name.toList)) := by
  have c := Definition.compiled_of_compile compiles
  refine ⟨?_, ?_, ?_⟩
  · rw [c.fields_eq, nodup_fields_iff]
    exact nodup_map_loopPath_iff fun _ _ => Name.iterationCounter_inj
  · rw [c.checks_eq, checks, List.map_map]
    exact nodup_map_loopPath_iff fun _ _ => Name.exitCheck_inj
  · intro l hl l' hl' different
    refine ⟨Name.iterationCounter_inj, Name.exitCheck_inj, fun same => ?_⟩
    have paths : d.loopNames l ≠ d.loopNames l' := fun path =>
      different (List.inj_on_of_nodup_map c.wellFormed.loop_paths hl hl' path)
    obtain ⟨_, onPath, _, onPath', apart⟩ := Name.exists_prefix_of_loopPath_eq
      (c.wellFormed.empty_not_mem_loopNames hl) (c.wellFormed.empty_not_mem_loopNames hl') paths same
    obtain ⟨k, hk, rfl⟩ := List.mem_map.mp onPath
    obtain ⟨k', hk', rfl⟩ := List.mem_map.mp onPath'
    exact ⟨k, hk, k', hk', apart⟩

/-! ## Nesting that is computed -/

section Sorting

variable {α : Type} (le : α → α → Prop) [DecidableRel le]

/-- An insertion passes what is below and stops before what is above. -/
theorem orderedInsert_append {a : α} {below above : List α} (passed : ∀ b ∈ below, ¬ le a b)
    (sorted : (a :: above).Pairwise le) :
    (below ++ above).orderedInsert le a = below ++ a :: above := by
  induction below with
  | nil =>
    cases above with
    | nil => rfl
    | cons b above =>
      have stops : le a b := List.rel_of_pairwise_cons sorted List.mem_cons_self
      exact List.orderedInsert_cons_of_le le above stops
  | cons b below ih =>
    rw [List.cons_append, List.orderedInsert_of_not_le le _ (passed b List.mem_cons_self),
      ih fun b' hb' => passed b' (List.mem_cons_of_mem _ hb'), List.cons_append]

/-- Both ways of sorting keep the order of what is equally high, so they agree; only one of them
unfolds by itself. -/
theorem mergeSort_eq_insertionSort (trans : ∀ a b c, le a b → le b c → le a c)
    (total : ∀ a b, le a b ∨ le b a) (l : List α) :
    (l.mergeSort fun a b => le a b) = l.insertionSort le := by
  have trans' : ∀ a b c, decide (le a b) = true → decide (le b c) = true →
      decide (le a c) = true := by
    simpa only [decide_eq_true_eq] using trans
  have total' : ∀ a b, (decide (le a b) || decide (le b a)) = true := by
    simpa only [Bool.or_eq_true, decide_eq_true_eq] using total
  induction l with
  | nil => simp
  | cons a rest ih =>
    obtain ⟨below, above, whole, before, passed⟩ := List.mergeSort_cons trans' total' a rest
    have sorted := List.pairwise_mergeSort trans' total' (a :: rest)
    rw [whole] at sorted
    rw [List.insertionSort_cons, ← ih, before, whole]
    refine (orderedInsert_append le (fun b hb => by simpa using passed b hb) ?_).symm
    exact (List.pairwise_append.mp sorted).2.1.imp of_decide_eq_true

end Sorting

namespace Definition

theorem enclosingLoops_eq_insertionSort (d : Definition) (step : String) :
    d.enclosingLoops step = match d.indexOf? step with
      | none => []
      | some index => (d.loops.filter (d.covers index)).insertionSort
        fun a b => d.loopDepth a ≤ d.loopDepth b := by
  unfold enclosingLoops
  cases d.indexOf? step with
  | none => rfl
  | some index => exact mergeSort_eq_insertionSort _ (by omega) (by omega) _

theorem loopsEndingAt_eq_insertionSort (d : Definition) (step : String) :
    d.loopsEndingAt step = (d.loops.filter (·.lastStep = step)).insertionSort
      fun a b => d.loopDepth b ≤ d.loopDepth a :=
  mergeSort_eq_insertionSort (fun a b => d.loopDepth b ≤ d.loopDepth a) (by omega) (by omega) _

end Definition

/-- A shift: meals by day and meals by night. -/
def Definition.shift : Definition where
  name := "Shift"
  steps := [.ofName "Toast", .ofName "Work", .ofName "Fry", .ofName "Rest"]
  stateType := none
  loops := [⟨"Day", "dusk", 2, "Toast", "Work", some "Fry", none⟩,
    ⟨"Meal", "full", 3, "Toast", "Toast", some "Work", some "Day"⟩,
    ⟨"Night", "dawn", 2, "Fry", "Rest", none, none⟩,
    ⟨"Meal", "sated", 5, "Fry", "Fry", some "Rest", some "Night"⟩]
  branches := []
  approvals := []
  forks := []
  handlers := []

/-- Both are counted, each by a counter of its own. -/
theorem loop_identifiers_distinct_shift : ∃ t, Definition.shift.compile .default = .ok t
    ∧ (Definition.shift.loops.map Loop.name).count "Meal" = 2
    ∧ (t.fields.map Field.name).Nodup ∧ (t.checks.map ExitCheck.name).Nodup := by
  obtain ⟨t, compiles, _⟩ := Definition.exists_table .shift .default (fun _ => true) (by
      simp only [Definition.compile, Definition.checkClaims, Definition.claims,
        Definition.transitions, Definition.phases, Definition.messages, Definition.plan,
        Definition.mainLine, Definition.mainPhase, Definition.enclosingLoops_eq_insertionSort,
        Definition.loopsEndingAt_eq_insertionSort]
      decide +kernel)
  obtain ⟨fields, checks, _⟩ := Definition.loop_identifiers_distinct_iff compiles
  have distinct : (Definition.shift.loops.map fun l =>
      Name.loopPath (Definition.shift.loopNames l)).Nodup := by decide +kernel
  exact ⟨t, compiles, by decide, fields.mpr distinct, checks.mpr distinct⟩

/-- Meals in the breaks of a day, and meals at daybreak. -/
def Definition.meals : Definition where
  name := "Meals"
  steps := [.ofName "Toast", .ofName "Eat", .ofName "Rest", .ofName "Fry", .ofName "Dine"]
  stateType := none
  loops := [⟨"Day", "over", 2, "Toast", "Rest", some "Fry", none⟩,
    ⟨"Break", "rested", 2, "Toast", "Eat", some "Rest", some "Day"⟩,
    ⟨"Meal", "full", 3, "Toast", "Toast", some "Eat", some "Break"⟩,
    ⟨"DayBreak", "light", 2, "Fry", "Dine", none, none⟩,
    ⟨"Meal", "sated", 5, "Fry", "Fry", some "Dine", some "DayBreak"⟩]
  branches := []
  approvals := []
  forks := []
  handlers := []

/-- They are counted by one counter and ended by one check. -/
theorem not_loop_identifiers_distinct_meals : ∃ t, Definition.meals.compile .default = .ok t
    ∧ (∃ l ∈ Definition.meals.loops, ∃ l' ∈ Definition.meals.loops, l ≠ l' ∧ l.name = l'.name
      ∧ Name.iterationCounter (Definition.meals.loopNames l)
        = Name.iterationCounter (Definition.meals.loopNames l')
      ∧ Name.exitCheck (Definition.meals.loopNames l)
        = Name.exitCheck (Definition.meals.loopNames l'))
    ∧ ¬ (t.fields.map Field.name).Nodup ∧ ¬ (t.checks.map ExitCheck.name).Nodup := by
  obtain ⟨t, compiles, computed⟩ := Definition.exists_table .meals .default
    (fun t => ¬ (t.fields.map Field.name).Nodup ∧ ¬ (t.checks.map ExitCheck.name).Nodup) (by
      simp only [Definition.compile, Definition.checkClaims, Definition.claims,
        Definition.transitions, Definition.phases, Definition.messages, Definition.plan,
        Definition.mainLine, Definition.mainPhase, Definition.enclosingLoops_eq_insertionSort,
        Definition.loopsEndingAt_eq_insertionSort]
      decide +kernel)
  obtain ⟨fields, checks⟩ := of_decide_eq_true computed
  exact ⟨t, compiles, ⟨_, List.mem_of_getElem? (i := 2) rfl, _, List.mem_of_getElem? (i := 4) rfl,
    by decide +kernel⟩, fields, checks⟩

end Workflow
