/-!
Identifiers: which texts may stand verbatim as a generated name, and the two maps that bring other
texts towards one.

`isIdentifier` is the ASCII rule (a letter or underscore, then letters, digits or underscores).
`sanitize` replaces every other character, so `sanitize_isIdentifier` holds of any text whatever.
`snakeCase` lowers capitals and puts underscores at word boundaries, and changes nothing else.
-/

set_option autoImplicit false

namespace Workflow.Text

/-- A letter or an underscore: what an identifier may begin with. -/
def isLead (c : Char) : Bool :=
  c.isAlpha || c == '_'

/-- A letter, a digit or an underscore: what an identifier may go on with. -/
def isPart (c : Char) : Bool :=
  c.isAlphanum || c == '_'

/-- Whether a run of characters spells an identifier. -/
def spellsIdentifier : List Char → Bool
  | [] => false
  | c :: rest => isLead c && rest.all isPart

/-- Whether a text may be used verbatim as a generated name. -/
def isIdentifier (name : String) : Bool :=
  spellsIdentifier name.toList

/-- An underscore in place of every character that cannot stand in an identifier. -/
def maskChars (raw : List Char) : List Char :=
  raw.map fun c => if isPart c then c else '_'

/-- A leading underscore where the text is empty or starts with a digit. -/
def guardLead : List Char → List Char
  | [] => ['_']
  | c :: rest => if c.isDigit then '_' :: c :: rest else c :: rest

/-- The identifier nearest to a text: foreign characters become underscores, and a text that could
not begin an identifier gets one in front. -/
def sanitize (raw : String) : String :=
  String.ofList (guardLead (maskChars raw.toList))

/-- Whether a word begins at a capital, seen from the characters on its two sides: after a lower
case letter or a digit always, after another capital when a lower case letter follows. -/
def wordStarts : Option Char → Option Char → Bool
  | none, _ => false
  | some before, after =>
    if before.isLower || before.isDigit then true
    else before.isUpper && after.any Char.isLower

/-- The characters of a name in snake case, given the character before them. -/
def snakeChars : Option Char → List Char → List Char
  | _, [] => []
  | before, c :: rest =>
    let tail := snakeChars (some c) rest
    if c.isUpper then
      if wordStarts before rest.head? then '_' :: c.toLower :: tail else c.toLower :: tail
    else c :: tail

/-- A name in snake case. Underscores already there act as word boundaries and are not doubled. -/
def snakeCase (name : String) : String :=
  String.ofList (snakeChars none name.toList)

theorem isPart_of_isLead {c : Char} (h : isLead c = true) : isPart c = true := by
  simp only [isLead, isPart, Char.isAlphanum, Bool.or_eq_true] at *
  rcases h with h | h
  · exact .inl (.inl h)
  · exact .inr h

theorem isPart_of_mem_maskChars {raw : List Char} {c : Char} (h : c ∈ maskChars raw) :
    isPart c = true := by
  obtain ⟨d, _, rfl⟩ := List.mem_map.mp h
  split
  next hd => exact hd
  next => rfl

theorem spellsIdentifier_guardLead {cs : List Char} (h : ∀ c ∈ cs, isPart c = true) :
    spellsIdentifier (guardLead cs) = true := by
  cases cs with
  | nil => rfl
  | cons c rest =>
    have hrest : rest.all isPart = true :=
      List.all_eq_true.mpr fun d hd => h d (List.mem_cons_of_mem c hd)
    have hc := h c List.mem_cons_self
    by_cases hd : c.isDigit = true
    · simp [guardLead, hd, spellsIdentifier, hc, isLead]
      exact fun d hd => h d (List.mem_cons_of_mem c hd)
    · have hlead : isLead c = true := by
        simp only [isPart, Char.isAlphanum, Bool.or_eq_true] at hc
        simp only [isLead, Bool.or_eq_true]
        rcases hc with (h | h) | h
        · exact .inl h
        · exact absurd h hd
        · exact .inr h
      simp only [guardLead, hd, Bool.false_eq_true, ↓reduceIte, spellsIdentifier, hlead, hrest,
        Bool.and_self]

/-- Whatever the text, its sanitised form is an identifier. -/
theorem sanitize_isIdentifier (raw : String) : isIdentifier (sanitize raw) = true := by
  simp only [isIdentifier, sanitize, String.toList_ofList]
  exact spellsIdentifier_guardLead fun _ h => isPart_of_mem_maskChars h

/-- Every character of an identifier may go on one. -/
theorem all_isPart_of_isIdentifier {name : String} (h : isIdentifier name = true) :
    name.toList.all isPart = true := by
  unfold isIdentifier at h
  cases chars : name.toList with
  | nil => rfl
  | cons c rest =>
    rw [chars, spellsIdentifier, Bool.and_eq_true] at h
    rw [List.all_cons, isPart_of_isLead h.1, h.2, Bool.and_self]

theorem isIdentifier_append {front back : String} (starts : isIdentifier front = true)
    (goes : back.toList.all isPart = true) : isIdentifier (front ++ back) = true := by
  unfold isIdentifier at starts ⊢
  rw [String.toList_append]
  cases chars : front.toList with
  | nil => simp [chars, spellsIdentifier] at starts
  | cons c rest =>
    rw [chars, spellsIdentifier, Bool.and_eq_true] at starts
    rw [List.cons_append, spellsIdentifier, List.all_append, starts.1, starts.2, goes]
    rfl

/-- Identifiers one after another. -/
theorem isIdentifier_append_isIdentifier {front back : String} (hf : isIdentifier front = true)
    (hb : isIdentifier back = true) : isIdentifier (front ++ back) = true :=
  isIdentifier_append hf (all_isPart_of_isIdentifier hb)

/-- Identifiers between underscores. -/
theorem isIdentifier_intercalate {names : List String} (filled : names ≠ [])
    (each : ∀ n ∈ names, isIdentifier n = true) :
    isIdentifier (String.intercalate "_" names) = true := by
  induction names with
  | nil => exact absurd rfl filled
  | cons first rest ih =>
    obtain ⟨here, further⟩ := List.forall_mem_cons.mp each
    cases rest with
    | nil => simpa using here
    | cons second more =>
      rw [String.intercalate_cons_of_ne_nil (by simp)]
      exact isIdentifier_append_isIdentifier (isIdentifier_append here (by decide))
        (ih (by simp) further)

end Workflow.Text
