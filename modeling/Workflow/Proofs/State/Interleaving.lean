import Mathlib.Data.List.GetD
import Mathlib.Data.List.Induction
import Mathlib.Data.List.Perm.Basic
import Workflow.State.Merge

/-!
Updates of parallel paths.

Every path of a fork hands in its updates in order, and the host merges them as they come. `Merged` says
what a state holds after one such interleaving. A field that overwrites belongs to one path, so it holds
what that path wrote last; a field that accumulates gathers every contribution, in the order in which they
came. Hence the order in which paths take turns shows in one place only: the order of gathered items.

What a value counts as where values are gathered is said by cases (`CountsAs`), and so is which fields gather
(`Accumulates`); `gathers_iff` and `of_eq_accumulate_iff` show that merging does what they say. The merge is
read field by field: `get?_reduceAll` turns the fold over objects into a fold over the values written under
one field. Updates that are no objects replace the whole state and are left out.
-/

set_option autoImplicit false

namespace Workflow.State

/-! ## One field -/

/-- Whether an update changes single fields only. -/
def isFieldwise : Value → Bool
  | .null => true
  | .object _ => true
  | _ => false

/-- The fields that updates write to. -/
def touched (updates : List Value) : List String :=
  updates.flatMap fun
    | .object fields => fields.map Prod.fst
    | _ => []

/-- The values that updates write under a field, in order. -/
def wrote (field : String) (updates : List Value) : List Value :=
  updates.flatMap fun
    | .object fields => fields.filterMap fun f => if f.1 = field then some f.2 else none
    | _ => []

/-- What a field holds after one more write. -/
def afterWrite (policy : Policy) (held : Option Value) (v : Value) : Option Value :=
  match policy with
  | .overwrite => some v
  | .accumulate => some (.array (gathered held ++ contributed v))

theorem wrote_append (field : String) (front back : List Value) :
    wrote field (front ++ back) = wrote field front ++ wrote field back :=
  List.flatMap_append

theorem wrote_cons (field : String) (u : Value) (rest : List Value) :
    wrote field (u :: rest) = wrote field [u] ++ wrote field rest :=
  wrote_append field [u] rest

theorem wrote_perm {updates updates' : List Value} (perm : updates.Perm updates') (field : String) :
    (wrote field updates).Perm (wrote field updates') :=
  perm.flatMap_right _

/-- A field is touched where something is written under it. -/
theorem mem_touched_iff {field : String} {updates : List Value} :
    field ∈ touched updates ↔ wrote field updates ≠ [] := by
  simp only [touched, wrote, ne_eq, List.flatMap_eq_nil_iff, not_forall, List.mem_flatMap, exists_prop]
  refine exists_congr fun u => and_congr_right fun _ => ?_
  cases u with
  | object fields => simp
  | _ => simp

/-- A write changes its own field, as the policy says. -/
theorem get?_mergeField (p : Policies) (fields : List (String × Value)) (update : String × Value)
    (field : String) :
    Keyed.get? field (mergeField p fields update)
      = if update.1 = field then afterWrite (p.of field) (Keyed.get? field fields) update.2
        else Keyed.get? field fields := by
  unfold mergeField
  by_cases same : update.1 = field
  · subst same
    cases p.of update.1 <;> simp [afterWrite]
  · cases p.of update.1 <;> simp [Keyed.get?_insert, same]

/-- After an object of updates, a field holds what the writes to it make of it. -/
theorem get?_foldl_mergeField (p : Policies) (field : String) (updates : List (String × Value))
    (fields : List (String × Value)) :
    Keyed.get? field (updates.foldl (mergeField p) fields)
      = (updates.filterMap fun f => if f.1 = field then some f.2 else none).foldl
        (afterWrite (p.of field)) (Keyed.get? field fields) := by
  induction updates generalizing fields with
  | nil => rfl
  | cons update rest ih =>
    rw [List.foldl_cons, ih, get?_mergeField]
    by_cases same : update.1 = field <;> simp [same]

/-- The state after a sequence of updates. -/
def reduceAll (p : Policies) (state : Value) (updates : List Value) : Value :=
  updates.foldl (reduce p) state

/-- After a sequence of updates, an object is an object, and a field of it holds what the writes to it
make of it. -/
theorem get?_reduceAll (p : Policies) {updates : List Value}
    (fieldwise : ∀ u ∈ updates, isFieldwise u = true) (fields : List (String × Value)) :
    ∃ merged, reduceAll p (.object fields) updates = .object merged
      ∧ ∀ field, Keyed.get? field merged
        = (wrote field updates).foldl (afterWrite (p.of field)) (Keyed.get? field fields) := by
  induction updates generalizing fields with
  | nil => exact ⟨fields, rfl, fun _ => rfl⟩
  | cons update rest ih =>
    obtain ⟨here, further⟩ := List.forall_mem_cons.mp fieldwise
    cases update with
    | null => exact ih further fields
    | object written =>
      obtain ⟨merged, whole, held⟩ := ih further (written.foldl (mergeField p) fields)
      refine ⟨merged, whole, fun field => ?_⟩
      rw [held, get?_foldl_mergeField, ← List.foldl_append]
      rfl
    | _ => cases here

/-- The last write stays. -/
theorem foldl_overwrite (held : Option Value) (values : List Value) :
    values.foldl (afterWrite .overwrite) held = values.getLast?.or held := by
  induction values using List.reverseRecOn with
  | nil => rfl
  | append_singleton front v _ => simp [afterWrite]

/-- Writes are gathered behind what was there, which becomes a list. -/
theorem foldl_accumulate (held : Option Value) {values : List Value} (some? : values ≠ []) :
    values.foldl (afterWrite .accumulate) held
      = some (.array (gathered held ++ values.flatMap contributed)) := by
  induction values using List.reverseRecOn with
  | nil => exact absurd rfl some?
  | append_singleton front v ih =>
    rw [List.foldl_append, List.foldl_cons, List.foldl_nil, List.flatMap_append]
    by_cases first : front = []
    · simp [first, afterWrite]
    · simp [ih first, afterWrite, gathered]

/-! ## What is gathered -/

/-- The list that a value counts as where values are gathered: no value and null are empty, an array is its
items, and anything else stands alone. -/
inductive CountsAs : Option Value → List Value → Prop
  | missing : CountsAs none []
  | null : CountsAs (some .null) []
  | array (items : List Value) : CountsAs (some (.array items)) items
  | alone (v : Value) (present : v ≠ .null) (single : ∀ items, v ≠ .array items) : CountsAs (some v) [v]

/-- What is gathered where something was held and values came after it: what was held, as a list, and behind
it, value by value, what each of them counts as. -/
def Gathers (held : Option Value) (values items : List Value) : Prop :=
  ∃ start parts, CountsAs held start ∧ List.Forall₂ (fun v part => CountsAs (some v) part) values parts
    ∧ items = start ++ parts.flatten

/-- A write takes what a field held as the list it counts as. -/
theorem countsAs_iff_gathered {held : Option Value} {items : List Value} :
    CountsAs held items ↔ gathered held = items := by
  constructor
  · intro counts
    cases counts with
    | alone v present single =>
      cases v with
      | null => exact absurd rfl present
      | array items => exact absurd rfl (single items)
      | _ => rfl
    | _ => rfl
  · intro same
    subst same
    cases held with
    | none => exact .missing
    | some v =>
      cases v with
      | null => exact .null
      | array items => exact .array items
      | _ => exact .alone _ (fun same => by cases same) (fun _ same => by cases same)

/-- A write adds the list that its value counts as. -/
theorem countsAs_iff_contributed {v : Value} {items : List Value} :
    CountsAs (some v) items ↔ contributed v = items := by
  rw [countsAs_iff_gathered]
  cases v <;> exact Iff.rfl

/-- A run of writes gathers as it should. -/
theorem gathers_iff {held : Option Value} {values items : List Value} :
    Gathers held values items ↔ items = gathered held ++ values.flatMap contributed := by
  have parts_iff (parts : List (List Value)) :
      List.Forall₂ (fun v part => CountsAs (some v) part) values parts ↔ values.map contributed = parts := by
    simp only [countsAs_iff_contributed]
    rw [← List.forall₂_map_left_iff (R := Eq), List.forall₂_eq_eq_eq]
  constructor
  · rintro ⟨start, parts, counts, each, rfl⟩
    rw [← countsAs_iff_gathered.mp counts, ← (parts_iff parts).mp each, List.flatMap_def]
  · intro same
    refine ⟨gathered held, values.map contributed, countsAs_iff_gathered.mpr rfl, (parts_iff _).mpr rfl, ?_⟩
    rw [same, List.flatMap_def]

instance (held : Option Value) (values items : List Value) : Decidable (Gathers held values items) :=
  decidable_of_iff _ gathers_iff.symm

/-- Gathering the same values in another order gathers the same items. -/
theorem Gathers.perm {held : Option Value} {values values' items items' : List Value}
    (gathers : Gathers held values items) (gathers' : Gathers held values' items')
    (perm : values.Perm values') : items.Perm items' := by
  rw [gathers_iff.mp gathers, gathers_iff.mp gathers']
  exact (perm.flatMap_right _).append_left _

/-- The fields that gather what is written to them: those that the policies list so. -/
def Accumulates (p : Policies) (field : String) : Prop :=
  p.lookup field = some .accumulate

instance (p : Policies) (field : String) : Decidable (Accumulates p field) :=
  inferInstanceAs (Decidable (p.lookup field = some .accumulate))

/-- Merging looks up the policy of a field in the list. -/
theorem of_eq_getD_lookup (p : Policies) (field : String) : p.of field = (p.lookup field).getD .overwrite := by
  have lookup : Keyed.get? field p = p.lookup field := by
    induction p with
    | nil => rfl
    | cons entry rest ih =>
      obtain ⟨k, policy⟩ := entry
      by_cases here : k = field
      · simp [Keyed.get?, here]
      · have elsewhere : (field == k) = false := by simpa using Ne.symm here
        simp [Keyed.get?, List.lookup_cons, here, elsewhere, ih]
  rw [Policies.of, lookup]

theorem of_eq_accumulate_iff {p : Policies} {field : String} :
    p.of field = .accumulate ↔ Accumulates p field := by
  rw [of_eq_getD_lookup, Accumulates]
  cases p.lookup field <;> simp

theorem of_eq_overwrite_iff {p : Policies} {field : String} :
    p.of field = .overwrite ↔ ¬ Accumulates p field := by
  rw [← of_eq_accumulate_iff]
  cases p.of field <;> simp

/-! ## Interleavings -/

/-- Updates of several paths in the order in which they come, each with the number of its path. The
updates of one path keep their order, and none is left out. -/
def Interleaves (paths : List (List Value)) (run : List (Nat × Value)) : Prop :=
  ∀ path, (run.filter (·.1 = path)).map Prod.snd = paths.getD path []

/-- What comes is the updates of all paths. -/
theorem perm_flatMap_filter {n : Nat} {run : List (Nat × Value)} (below : ∀ u ∈ run, u.1 < n) :
    run.Perm ((List.range n).flatMap fun path => run.filter (·.1 = path)) := by
  induction n generalizing run with
  | zero =>
    rw [List.eq_nil_iff_forall_not_mem.mpr fun u hu => Nat.not_lt_zero _ (below u hu)]
    rfl
  | succ n ih =>
    have others : ∀ u ∈ run.filter (fun u => !decide (u.1 = n)), u.1 < n := by
      intro u hu
      have bound := below u (List.mem_filter.mp hu).1
      have apart : u.1 ≠ n := by simpa using (List.mem_filter.mp hu).2
      omega
    have same : ∀ path ∈ List.range n,
        (run.filter fun u => !decide (u.1 = n)).filter (·.1 = path) = run.filter (·.1 = path) := by
      intro path hpath
      rw [List.filter_filter]
      refine List.filter_congr fun u _ => ?_
      have bound := List.mem_range.mp hpath
      by_cases here : u.1 = path
      · simp [here, Nat.ne_of_lt bound]
      · simp [here]
    calc run
      _ |>.Perm (run.filter (fun u => decide (u.1 = n)) ++ run.filter fun u => !decide (u.1 = n)) :=
        (List.filter_append_perm _ run).symm
      _ |>.Perm (run.filter (fun u => !decide (u.1 = n)) ++ run.filter fun u => decide (u.1 = n)) :=
        List.perm_append_comm
      _ |>.Perm ((List.range (n + 1)).flatMap fun path => run.filter (·.1 = path)) := by
        rw [List.range_succ, List.flatMap_append, List.flatMap_singleton, ← List.flatMap_congr same]
        exact (ih others).append_right _

/-- What comes is an update of the path it is numbered with. -/
theorem Interleaves.exists_path {paths : List (List Value)} {run : List (Nat × Value)}
    (interleaves : Interleaves paths run) {u : Nat × Value} (hu : u ∈ run) :
    ∃ path, paths[u.1]? = some path ∧ u.2 ∈ path := by
  have own : u.2 ∈ paths.getD u.1 [] := by
    rw [← interleaves u.1]
    exact List.mem_map_of_mem (List.mem_filter.mpr ⟨hu, by simp⟩)
  rw [List.getD_eq_getElem?_getD] at own
  cases found : paths[u.1]? with
  | none => simp [found] at own
  | some path => exact ⟨path, rfl, by simpa [found] using own⟩

/-- All updates come, and each comes once. -/
theorem Interleaves.perm {paths : List (List Value)} {run : List (Nat × Value)}
    (interleaves : Interleaves paths run) : (run.map Prod.snd).Perm paths.flatten := by
  have below : ∀ u ∈ run, u.1 < paths.length := fun u hu => by
    obtain ⟨_, found, _⟩ := interleaves.exists_path hu
    exact (List.getElem?_eq_some_iff.mp found).1
  have whole := (perm_flatMap_filter below).map Prod.snd
  have inOrder : (List.range paths.length).flatMap (fun path => paths.getD path []) = paths.flatten := by
    rw [List.flatMap_def]
    congr 1
    refine List.ext_getElem (by simp) fun i _ hi => ?_
    simp [hi]
  simp only [List.map_flatMap, interleaves _, inOrder] at whole
  exact whole

/-- What a state holds after the updates of several paths, as they came. -/
structure Merged (p : Policies) (initial : List (String × Value)) (paths : List (List Value))
    (updates : List Value) (state : Value) : Prop where
  isObject : ∃ fields, state = .object fields
  /-- A field that overwrites holds the last value of the path that writes it. -/
  overwritten : ∀ field, ¬ Accumulates p field → ∀ path ∈ paths, field ∈ touched path →
    state.get? field = (wrote field path).getLast?
  /-- A field that accumulates holds what was there, as a list, and every contribution behind it. -/
  accumulated : ∀ field, Accumulates p field → field ∈ touched updates →
    ∃ items, state.get? field = some (.array items)
      ∧ Gathers (Keyed.get? field initial) (wrote field updates) items
  untouched : ∀ field, field ∉ touched updates → state.get? field = Keyed.get? field initial

/-- Whether every field that overwrites is written by one path at most. -/
def OwnedApart (p : Policies) (paths : List (List Value)) : Prop :=
  paths.Pairwise fun path other =>
    ∀ field ∈ touched path, field ∈ touched other → Accumulates p field

instance (p : Policies) (paths : List (List Value)) : Decidable (OwnedApart p paths) :=
  inferInstanceAs (Decidable (paths.Pairwise _))

theorem touched_perm {updates updates' : List Value} (perm : updates.Perm updates') (field : String) :
    field ∈ touched updates ↔ field ∈ touched updates' :=
  (perm.flatMap_right _).mem_iff

/-- Then two paths that write it are one. -/
theorem OwnedApart.index_eq {p : Policies} {paths : List (List Value)} (apart : OwnedApart p paths)
    {field : String} (owned : ¬ Accumulates p field) {i j : Nat} {path other : List Value}
    (hi : paths[i]? = some path) (hj : paths[j]? = some other) (writes : field ∈ touched path)
    (writes' : field ∈ touched other) : i = j := by
  obtain ⟨inside, rfl⟩ := List.getElem?_eq_some_iff.mp hi
  obtain ⟨inside', rfl⟩ := List.getElem?_eq_some_iff.mp hj
  have shared := List.pairwise_iff_getElem.mp apart
  rcases Nat.lt_trichotomy i j with before | same | after
  · exact absurd (shared i j inside inside' before field writes writes') owned
  · exact same
  · exact absurd (shared j i inside' inside after field writes' writes) owned

/-- Updates that leave a field alone may be left out. -/
theorem wrote_filter {field : String} {q : Nat × Value → Bool} {run : List (Nat × Value)}
    (alone : ∀ u ∈ run, q u = false → field ∉ touched [u.2]) :
    wrote field ((run.filter q).map Prod.snd) = wrote field (run.map Prod.snd) := by
  induction run with
  | nil => rfl
  | cons u rest ih =>
    obtain ⟨here, further⟩ := List.forall_mem_cons.mp alone
    rw [List.map_cons, wrote_cons, ← ih further]
    cases kept : q u with
    | true => rw [List.filter_cons_of_pos kept, List.map_cons, wrote_cons]
    | false =>
      have nothing : wrote field [u.2] = [] := by simpa [mem_touched_iff] using here kept
      rw [List.filter_cons_of_neg (by simp [kept]), nothing, List.nil_append]

section Paths

variable {p : Policies} {paths : List (List Value)} (fieldwise : ∀ u ∈ paths.flatten, isFieldwise u = true)
  (apart : OwnedApart p paths)

include apart

/-- A field of one path holds what its path writes, whenever that comes. -/
theorem Interleaves.wrote_eq {run : List (Nat × Value)} (interleaves : Interleaves paths run)
    {field : String} (owned : ¬ Accumulates p field) {path : List Value} (hpath : path ∈ paths)
    (writes : field ∈ touched path) : wrote field (run.map Prod.snd) = wrote field path := by
  obtain ⟨i, hi⟩ := List.mem_iff_getElem?.mp hpath
  have own : paths.getD i [] = path := by simp [hi]
  rw [← own, ← interleaves i]
  refine (wrote_filter fun u hu off => fun touches => ?_).symm
  obtain ⟨other, hj, within⟩ := interleaves.exists_path hu
  have writes' : field ∈ touched other := by
    obtain ⟨v, hv, hfield⟩ := List.mem_flatMap.mp touches
    exact List.mem_flatMap.mpr ⟨u.2, within, List.mem_singleton.mp hv ▸ hfield⟩
  exact of_decide_eq_false off (apart.index_eq owned hj hi writes' writes)

include fieldwise

theorem Interleaves.merged {run : List (Nat × Value)} (interleaves : Interleaves paths run)
    (initial : List (String × Value)) :
    Merged p initial paths (run.map Prod.snd)
      (reduceAll p (.object initial) (run.map Prod.snd)) := by
  obtain ⟨merged, whole, held⟩ := get?_reduceAll p
    (fun u hu => fieldwise u (interleaves.perm.mem_iff.mp hu)) initial
  rw [whole]
  refine ⟨⟨merged, rfl⟩, fun field owned path hpath writes => ?_, fun field gathers writes => ?_,
    fun field alone => ?_⟩
  · have own := interleaves.wrote_eq apart owned hpath writes
    have last : (wrote field path).getLast? ≠ none := by
      simpa [List.getLast?_eq_none_iff] using mem_touched_iff.mp writes
    rw [Value.get?, held, of_eq_overwrite_iff.mpr owned, foldl_overwrite, own]
    cases found : (wrote field path).getLast? with
    | none => exact absurd found last
    | some v => rfl
  · refine ⟨_, ?_, gathers_iff.mpr rfl⟩
    rw [Value.get?, held, of_eq_accumulate_iff.mpr gathers, foldl_accumulate _ (mem_touched_iff.mp writes)]
  · have nothing : wrote field (run.map Prod.snd) = [] := by
      simpa [mem_touched_iff] using alone
    rw [Value.get?, held, nothing]
    rfl

end Paths

/-- The updates of parallel paths that own their overwriting fields merge alike in every interleaving.
Each gives a state in which a field that overwrites holds the last value of its path, and a field that
accumulates what was there and every contribution as it came; so two interleavings agree on the fields
that overwrite, and gather the same items, all contributions of all paths, each once. -/
theorem interleavings_merge_alike {p : Policies} {paths : List (List Value)}
    (fieldwise : ∀ u ∈ paths.flatten, isFieldwise u = true) (apart : OwnedApart p paths)
    (initial : List (String × Value)) :
    (∀ run, Interleaves paths run → Merged p initial paths (run.map Prod.snd)
        (reduceAll p (.object initial) (run.map Prod.snd)))
      ∧ ∀ run run', Interleaves paths run → Interleaves paths run' → ∀ field,
        (¬ Accumulates p field →
          (reduceAll p (.object initial) (run.map Prod.snd)).get? field
            = (reduceAll p (.object initial) (run'.map Prod.snd)).get? field)
        ∧ (Accumulates p field → field ∈ touched paths.flatten → ∃ items items' all,
          (reduceAll p (.object initial) (run.map Prod.snd)).get? field = some (.array items)
            ∧ (reduceAll p (.object initial) (run'.map Prod.snd)).get? field
              = some (.array items')
            ∧ Gathers (Keyed.get? field initial) (wrote field paths.flatten) all
            ∧ items.Perm items' ∧ items.Perm all) := by
  refine ⟨fun run interleaves => interleaves.merged fieldwise apart initial, ?_⟩
  intro run run' interleaves interleaves' field
  have merged := interleaves.merged fieldwise apart initial
  have merged' := interleaves'.merged fieldwise apart initial
  have every := touched_perm interleaves.perm field
  have every' := touched_perm interleaves'.perm field
  constructor
  · intro owned
    by_cases writes : field ∈ touched paths.flatten
    · obtain ⟨u, hu, hfield⟩ := List.mem_flatMap.mp writes
      obtain ⟨path, hpath, within⟩ := List.mem_flatten.mp hu
      have own : field ∈ touched path := List.mem_flatMap.mpr ⟨u, within, hfield⟩
      rw [merged.overwritten field owned path hpath own, merged'.overwritten field owned path hpath own]
    · rw [merged.untouched field (mt every.mp writes), merged'.untouched field (mt every'.mp writes)]
  · intro accumulates writes
    obtain ⟨items, holds, gathers⟩ := merged.accumulated field accumulates (every.mpr writes)
    obtain ⟨items', holds', gathers'⟩ := merged'.accumulated field accumulates (every'.mpr writes)
    have all := gathers_iff.mpr (Eq.refl (gathered (Keyed.get? field initial)
      ++ (wrote field paths.flatten).flatMap contributed))
    have complete := wrote_perm interleaves.perm field
    have complete' := wrote_perm interleaves'.perm field
    exact ⟨items, items', _, holds, holds', all, gathers.perm gathers' (complete.trans complete'.symm),
      gathers.perm all complete⟩

/-- The fields of the record that gather. -/
def recordPolicies : Policies :=
  [("log", .accumulate), ("marks", .accumulate), ("notes", .accumulate), ("seen", .accumulate)]

/-- The record before: a log that is a single text, marks that are a list, and notes that are null. Nothing
has been seen. -/
def recordBefore : List (String × Value) :=
  [("log", .string "open"), ("marks", .array [.int 0]), ("notes", .null)]

/-- A mark that is an object. -/
def deepMark : Value :=
  .object [("depth", .null)]

/-- The updates of two paths to the record: one writes once and then nothing, the other twice. They write an
array, a number, a truth value, an object, a text and null to fields that gather. -/
def recordUpdates : List (List Value) :=
  [[.object [("left", .int 1), ("log", .array [.string "a", .null]), ("marks", .int 7)], .null],
    [.object [("log", .null), ("marks", .bool true), ("right", .bool true), ("seen", .null)],
      .object [("log", .string "b"), ("marks", deepMark), ("notes", .float 0x4004000000000000),
        ("right", .bool false)]]]

/-- The updates in turns. -/
def recordTurns : List (Nat × Value) :=
  [(1, .object [("log", .null), ("marks", .bool true), ("right", .bool true), ("seen", .null)]),
    (0, .object [("left", .int 1), ("log", .array [.string "a", .null]), ("marks", .int 7)]),
    (1, .object [("log", .string "b"), ("marks", deepMark), ("notes", .float 0x4004000000000000),
      ("right", .bool false)]),
    (0, .null)]

/-- The updates path by path, the second path first. -/
def recordBackwards : List (Nat × Value) :=
  [(1, .object [("log", .null), ("marks", .bool true), ("right", .bool true), ("seen", .null)]),
    (1, .object [("log", .string "b"), ("marks", deepMark), ("notes", .float 0x4004000000000000),
      ("right", .bool false)]),
    (0, .object [("left", .int 1), ("log", .array [.string "a", .null]), ("marks", .int 7)]), (0, .null)]

/-- The record after such a run. -/
def recordAfter (run : List (Nat × Value)) : Value :=
  reduceAll recordPolicies (.object recordBefore) (run.map Prod.snd)

/-- Both runs leave the same but for the order of what is gathered, and every mark is there. -/
theorem interleavings_merge_alike_record :
    (∀ u ∈ recordUpdates.flatten, isFieldwise u = true)
      ∧ OwnedApart recordPolicies recordUpdates
      ∧ Interleaves recordUpdates recordTurns ∧ Interleaves recordUpdates recordBackwards
      ∧ Merged recordPolicies recordBefore recordUpdates (recordTurns.map Prod.snd) (recordAfter recordTurns)
      ∧ (recordAfter recordTurns).get? "right" = (recordAfter recordBackwards).get? "right"
      ∧ (recordAfter recordTurns).get? "right" = some (.bool false)
      ∧ (recordAfter recordTurns).get? "log" = some (.array [.string "open", .string "a", .null, .string "b"])
      ∧ (recordAfter recordTurns).get? "notes" = some (.array [.float 0x4004000000000000])
      ∧ (recordAfter recordTurns).get? "seen" = some (.array [])
      ∧ (recordAfter recordTurns).get? "marks" ≠ (recordAfter recordBackwards).get? "marks"
      ∧ ∃ items items', (recordAfter recordTurns).get? "marks" = some (.array items)
        ∧ (recordAfter recordBackwards).get? "marks" = some (.array items')
        ∧ items.Perm items' ∧ items.Perm [.int 0, .int 7, .bool true, deepMark] := by
  have fieldwise : ∀ u ∈ recordUpdates.flatten, isFieldwise u = true := by decide
  have apart : OwnedApart recordPolicies recordUpdates := by decide
  have turns : Interleaves recordUpdates recordTurns
    | 0 => rfl
    | 1 => rfl
    | _ + 2 => rfl
  have backwards : Interleaves recordUpdates recordBackwards
    | 0 => rfl
    | 1 => rfl
    | _ + 2 => rfl
  obtain ⟨merged, alike⟩ := interleavings_merge_alike fieldwise apart recordBefore
  obtain ⟨right, _⟩ := alike _ _ turns backwards "right"
  obtain ⟨_, marks⟩ := alike _ _ turns backwards "marks"
  obtain ⟨items, items', all, holds, holds', gathers, same, complete⟩ := marks (by decide) (by decide)
  have every : all = [.int 0, .int 7, .bool true, deepMark] := gathers_iff.mp gathers
  subst every
  exact ⟨fieldwise, apart, turns, backwards, merged _ turns, right (by decide), by decide, by decide, by decide,
    by decide, by decide, items, items', holds, holds', same, complete⟩

end Workflow.State
