import Mathlib.Data.List.Chain
import Workflow.Text.Identifier

/-!
What snake case leaves of a name.

Putting a name in snake case lowers its capitals and adds underscores, so once the underscores are taken
out the two are the same but for capitals. That is all a name is known by afterwards:
`letters_snakeCase` is what makes names in snake case clash, and what keeps others apart.

Where underscores are added is told by `words`: a name is cut in front of every capital that begins a word,
and in snake case its words are lowered and joined again. `isChain_words` says that no cut is made at an end
of the name or beside an underscore.
-/

set_option autoImplicit false

namespace Workflow.Text

/-- The characters of a name apart from its underscores. -/
def letters (name : String) : List Char :=
  name.toList.filter (· ≠ '_')

theorem letters_append (front back : String) :
    letters (front ++ back) = letters front ++ letters back := by
  rw [letters, String.toList_append, List.filter_append]
  rfl

/-! ## Lowering -/

/-- Lowering a character makes a small letter of a capital and leaves every other character as it is. -/
theorem toLower_cases (c : Char) :
    c.isUpper = true ∧ c.toLower.isLower = true ∨ c.isUpper = false ∧ c.toLower = c := by
  by_cases capital : 'A'.val ≤ c.val ∧ c.val ≤ 'Z'.val
  · have least : 65 ≤ c.val.toNat := UInt32.le_iff_toNat_le.mp capital.1
    have greatest : c.val.toNat ≤ 90 := UInt32.le_iff_toNat_le.mp capital.2
    have fits : c.val.toNat + 32 < UInt32.size :=
      Nat.lt_of_le_of_lt (Nat.add_le_add_right greatest 32) (by decide)
    have lowered : c.toLower.val.toNat = c.val.toNat + 32 := calc
      c.toLower.val.toNat = (c.val + ('a'.val - 'A'.val)).toNat :=
        congrArg (fun d : Char => d.val.toNat) (dif_pos capital)
      _ = (c.val.toNat + 32) % UInt32.size := UInt32.toNat_add _ _
      _ = c.val.toNat + 32 := Nat.mod_eq_of_lt fits
    have above : 'a'.val ≤ c.toLower.val :=
      UInt32.le_iff_toNat_le.mpr (lowered ▸ Nat.add_le_add_right least 32)
    have below : c.toLower.val ≤ 'z'.val :=
      UInt32.le_iff_toNat_le.mpr (lowered ▸ Nat.add_le_add_right greatest 32)
    exact .inl ⟨decide_eq_true capital,
      Bool.and_eq_true_iff.mpr ⟨decide_eq_true above, decide_eq_true below⟩⟩
  · exact .inr ⟨decide_eq_false capital, dif_neg capital⟩

theorem toLower_of_isUpper_eq_false {c : Char} (h : c.isUpper = false) : c.toLower = c := by
  obtain ⟨capital, _⟩ | ⟨_, same⟩ := toLower_cases c
  · rw [h] at capital
    cases capital
  · exact same

/-- No small letter is a capital, so nothing that is lowered is one. -/
theorem isUpper_toLower (c : Char) : c.toLower.isUpper = false := by
  obtain ⟨_, small⟩ | ⟨other, same⟩ := toLower_cases c
  · refine decide_eq_false fun capital => ?_
    have least : 'a'.val ≤ c.toLower.val := of_decide_eq_true (Bool.and_eq_true_iff.mp small).1
    exact absurd (UInt32.le_trans least capital.2) (by decide)
  · rw [same, other]

/-- Underscores come of underscores only. -/
theorem toLower_eq_underscore_iff {c : Char} : c.toLower = '_' ↔ c = '_' := by
  obtain ⟨capital, small⟩ | ⟨_, same⟩ := toLower_cases c
  · refine iff_of_false (fun underscore => ?_) (fun underscore => ?_)
    · rw [underscore] at small
      cases small
    · rw [underscore] at capital
      cases capital
  · rw [same]

/-- Taking the underscores out and lowering may be done in either order. -/
theorem filter_underscore_map_toLower (text : List Char) :
    (text.map Char.toLower).filter (· ≠ '_') = (text.filter (· ≠ '_')).map Char.toLower := by
  rw [List.filter_map]
  exact congrArg _ (List.filter_congr fun c _ => by simp [toLower_eq_underscore_iff])

/-- A character is lowered, and an underscore may come in front of it. -/
theorem snakeChars_cons (before : Option Char) (c : Char) (rest : List Char) :
    snakeChars before (c :: rest) = (if c.isUpper && wordStarts before rest.head? then ['_'] else [])
      ++ c.toLower :: snakeChars (some c) rest := by
  simp only [snakeChars]
  cases capital : c.isUpper with
  | true =>
    rw [if_pos rfl, Bool.true_and]
    split <;> rfl
  | false =>
    rw [toLower_of_isUpper_eq_false capital]
    rfl

/-- Snake case changes nothing but capitals and underscores. -/
theorem filter_snakeChars (before : Option Char) (name : List Char) :
    (snakeChars before name).filter (· ≠ '_')
      = (name.filter (· ≠ '_')).map Char.toLower := by
  induction name generalizing before with
  | nil => rfl
  | cons c rest ih =>
    have dropped : (if c.isUpper && wordStarts before rest.head? then ['_'] else []).filter (· ≠ '_') = [] := by
      split <;> rfl
    rw [snakeChars_cons, List.filter_append, dropped, List.nil_append, ← filter_underscore_map_toLower,
      List.map_cons, List.filter_cons, List.filter_cons, ih, filter_underscore_map_toLower]

/-- Snake case keeps every letter, lowered. -/
theorem letters_snakeCase (name : String) :
    letters (snakeCase name) = (letters name).map Char.toLower := by
  rw [letters, snakeCase, String.toList_ofList, filter_snakeChars]
  rfl

theorem isAlphanum_of_isUpper {c : Char} (h : c.isUpper = true) : c.isAlphanum = true :=
  Bool.or_eq_true_iff.mpr (.inl (Bool.or_eq_true_iff.mpr (.inl h)))

theorem isAlphanum_of_isLower {c : Char} (h : c.isLower = true) : c.isAlphanum = true :=
  Bool.or_eq_true_iff.mpr (.inl (Bool.or_eq_true_iff.mpr (.inr h)))

/-- What may go on an identifier may do so when it is lowered. -/
theorem isPart_toLower {c : Char} (h : isPart c = true) : isPart c.toLower = true := by
  obtain ⟨_, small⟩ | ⟨_, same⟩ := toLower_cases c
  · rw [isPart, isAlphanum_of_isLower small, Bool.true_or]
  · rwa [same]

/-- In snake case, what may go on an identifier may still go on one. -/
theorem all_isPart_snakeCase {name : String} (h : name.toList.all isPart = true) :
    (snakeCase name).toList.all isPart = true := by
  rw [List.all_eq_true] at h ⊢
  intro c hc
  by_cases underscore : c = '_'
  · rw [underscore]
    rfl
  · have letter : c ∈ letters (snakeCase name) := List.mem_filter.mpr ⟨hc, by simpa using underscore⟩
    rw [letters_snakeCase] at letter
    obtain ⟨e, he, rfl⟩ := List.mem_map.mp letter
    exact isPart_toLower (h e (List.mem_of_mem_filter he))

/-! ## Capitals -/

/-- In snake case there are no capitals. -/
theorem isUpper_eq_false_of_mem_snakeChars {before : Option Char} {name : List Char} {c : Char}
    (h : c ∈ snakeChars before name) : c.isUpper = false := by
  induction name generalizing before with
  | nil => cases h
  | cons d rest ih =>
    rw [snakeChars_cons, List.mem_append, List.mem_cons] at h
    rcases h with underscore | rfl | later
    · split at underscore
      · rw [List.mem_singleton.mp underscore]
        rfl
      · cases underscore
    · exact isUpper_toLower d
    · exact ih later

/-- Without capitals a name is in snake case. -/
theorem snakeChars_eq_self {before : Option Char} {name : List Char} (h : ∀ c ∈ name, c.isUpper = false) :
    snakeChars before name = name := by
  induction name generalizing before with
  | nil => rfl
  | cons c rest ih =>
    obtain ⟨here, further⟩ := List.forall_mem_cons.mp h
    simp only [snakeChars, here, Bool.false_eq_true, ↓reduceIte, ih further]

/-! ## Words -/

/-- A name cut in front of every capital that begins a word, given the character before the name. -/
def cutWords : Option Char → List Char → List (List Char)
  | _, [] => [[]]
  | before, c :: rest =>
    let further := (cutWords (some c) rest).modifyHead (c :: ·)
    if c.isUpper && wordStarts before rest.head? then [] :: further else further

theorem cutWords_ne_nil (before : Option Char) (name : List Char) : cutWords before name ≠ [] := by
  induction name generalizing before with
  | nil => exact List.cons_ne_nil _ _
  | cons c rest ih =>
    simp only [cutWords]
    split
    · exact List.cons_ne_nil _ _
    · simpa using ih (some c)

/-- One more character in front belongs to the first word, which it may begin. -/
theorem exists_cutWords_cons (before : Option Char) (c : Char) (rest : List Char) :
    ∃ first more, cutWords (some c) rest = first :: more ∧ cutWords before (c :: rest)
      = (if c.isUpper && wordStarts before rest.head? then [[]] else []) ++ (c :: first) :: more := by
  obtain ⟨first, more, split⟩ := List.exists_cons_of_ne_nil (cutWords_ne_nil (some c) rest)
  refine ⟨first, more, split, ?_⟩
  simp only [cutWords, split, List.modifyHead_cons]
  split <;> rfl

theorem flatten_cutWords (before : Option Char) (name : List Char) : (cutWords before name).flatten = name := by
  induction name generalizing before with
  | nil => rfl
  | cons c rest ih =>
    obtain ⟨first, more, split, cut⟩ := exists_cutWords_cons before c rest
    have rejoined := ih (some c)
    rw [split, List.flatten_cons] at rejoined
    rw [cut]
    split_ifs <;> simp [rejoined]

/-- In snake case, the words of a name are lowered, and an underscore stands between each two of them. -/
theorem snakeChars_eq_intercalate (before : Option Char) (name : List Char) :
    snakeChars before name = ['_'].intercalate ((cutWords before name).map (List.map Char.toLower)) := by
  induction name generalizing before with
  | nil => rfl
  | cons c rest ih =>
    obtain ⟨first, more, split, cut⟩ := exists_cutWords_cons before c rest
    rw [snakeChars_cons, ih (some c), split, cut]
    split_ifs
    · simp only [List.cons_append, List.nil_append, List.map_cons, List.map_nil, List.intercalate_cons_cons_left,
        List.intercalate_cons_of_ne_nil (List.cons_ne_nil (c.toLower :: _) _)]
    · simp only [List.nil_append, List.map_cons, List.intercalate_cons_cons_left]

/-- One text ends and another one begins with an ASCII letter or digit, so with no underscore. -/
def Meet (left right : List Char) : Prop :=
  ∃ before ∈ left.getLast?, ∃ after ∈ right.head?, before.isAlphanum = true ∧ after.isAlphanum = true

/-- A capital begins a word only behind a letter or a digit. -/
theorem isAlphanum_of_wordStarts {before after : Option Char} (h : wordStarts before after = true) :
    ∃ c, before = some c ∧ c.isAlphanum = true := by
  cases before with
  | none => cases h
  | some c =>
    refine ⟨c, rfl, ?_⟩
    simp only [wordStarts] at h
    split at h
    next lead =>
      rcases Bool.or_eq_true_iff.mp lead with lower | digit
      · exact isAlphanum_of_isLower lower
      · exact Bool.or_eq_true_iff.mpr (.inr digit)
    next => exact isAlphanum_of_isUpper (Bool.and_eq_true_iff.mp h).1

/-- More text in front of the first word changes nothing about where words meet. -/
theorem isChain_append_cons {front first : List Char} {more : List (List Char)}
    (h : (first :: more).IsChain Meet) : ((front ++ first) :: more).IsChain Meet := by
  cases more with
  | nil => exact List.isChain_singleton _
  | cons second more =>
    obtain ⟨⟨c, ends, meets⟩, further⟩ := List.isChain_cons_cons.mp h
    refine List.isChain_cons_cons.mpr ⟨⟨c, ?_, meets⟩, further⟩
    simpa using List.mem_getLast?_append_of_mem_getLast? ends

/-- Words meet between letters and digits. -/
theorem isChain_cutWords (before : Option Char) (name : List Char) :
    ((cutWords before name).modifyHead (before.toList ++ ·)).IsChain Meet := by
  -- With the character before it in front, a cut where the name begins is a place where words meet, too.
  induction name generalizing before with
  | nil => exact List.isChain_singleton _
  | cons c rest ih =>
    obtain ⟨first, more, split, cut⟩ := exists_cutWords_cons before c rest
    have further := ih (some c)
    rw [split] at further
    rw [cut]
    split_ifs with starts
    · obtain ⟨capital, boundary⟩ := Bool.and_eq_true_iff.mp starts
      obtain ⟨b, rfl, meets⟩ := isAlphanum_of_wordStarts boundary
      exact List.isChain_cons_cons.mpr ⟨⟨b, rfl, c, rfl, meets, isAlphanum_of_isUpper capital⟩, further⟩
    · exact isChain_append_cons further

/-- The words of a name, underscores included. -/
def words (name : String) : List (List Char) :=
  cutWords none name.toList

theorem isChain_words (name : String) : (words name).IsChain Meet := by
  obtain ⟨first, more, split⟩ := List.exists_cons_of_ne_nil (cutWords_ne_nil none name.toList)
  have chain := isChain_cutWords none name.toList
  rw [words, split] at *
  exact chain

example : words "HTTPRequest_Sent2Go" = ["HTTP".toList, "Request_Sent2".toList, "Go".toList] := by
  decide

/-! ## Underscores -/

theorem count_underscore_map_toLower (text : List Char) :
    (text.map Char.toLower).count '_' = text.count '_' := by
  rw [List.count_eq_countP, List.countP_map, List.count_eq_countP]
  exact List.countP_congr fun c _ => by simp [toLower_eq_underscore_iff]

/-- One member more for each place between two lists. -/
theorem count_intercalate {α : Type} [BEq α] [LawfulBEq α] (a : α) {lists : List (List α)} (filled : lists ≠ []) :
    ([a].intercalate lists).count a + 1 = lists.flatten.count a + lists.length := by
  induction lists with
  | nil => exact absurd rfl filled
  | cons first more ih =>
    cases more with
    | nil => simp
    | cons second more =>
      have further := ih (List.cons_ne_nil _ _)
      rw [List.intercalate_cons_of_ne_nil (List.cons_ne_nil _ _), List.count_append, List.count_append,
        List.count_singleton_self, List.flatten_cons, List.count_append, List.length_cons]
      omega

/-- Snake case lowers the words of a name and puts one underscore between each two of them, and it does nothing else.
Words meet between letters and digits only, so no underscore is added at an end of the name or beside another. -/
theorem snakeCase_joins_words (name : String) :
    (snakeCase name).toList.any Char.isUpper = false
      ∧ (snakeCase name).toList.filter (· ≠ '_') = (name.toList.map Char.toLower).filter (· ≠ '_')
      ∧ (words name).flatten = name.toList ∧ (words name).IsChain Meet
      ∧ (snakeCase name).toList = ['_'].intercalate ((words name).map (List.map Char.toLower))
      ∧ (snakeCase name).toList.count '_' + 1 = name.toList.count '_' + (words name).length
      ∧ snakeCase (snakeCase name) = snakeCase name := by
  have chars : (snakeCase name).toList = snakeChars none name.toList := String.toList_ofList
  have joined : snakeChars none name.toList = ['_'].intercalate ((words name).map (List.map Char.toLower)) :=
    snakeChars_eq_intercalate none name.toList
  have cut : (words name).flatten = name.toList := flatten_cutWords none name.toList
  refine ⟨?_, ?_, cut, isChain_words name, chars.trans joined, ?_, ?_⟩
  · rw [chars, List.any_eq_false]
    exact fun c hc => Bool.eq_false_iff.mp (isUpper_eq_false_of_mem_snakeChars hc)
  · rw [filter_underscore_map_toLower]
    exact letters_snakeCase name
  · have filled : (words name).map (List.map Char.toLower) ≠ [] :=
      mt List.map_eq_nil_iff.mp (cutWords_ne_nil none name.toList)
    rw [chars, joined, count_intercalate '_' filled, ← List.map_flatten, cut, count_underscore_map_toLower,
      List.length_map]
  · rw [snakeCase, chars, snakeChars_eq_self fun _ => isUpper_eq_false_of_mem_snakeChars, snakeCase]

end Workflow.Text
