import Workflow.Source
import Workflow.Text.Identifier
import Workflow.Text.Quoted

/-!
Literals in source text, and what is left of a text once their contents are erased.

A reader of source stands in code, in a literal, or behind a backslash in a literal. A quoted text takes it
from code through a literal and back to code on the same line, whatever the text, so erasing leaves the two
quotes of it. `bare_write` carries the erasure of a written text down to its pieces, and `bareLines_eq`
relates it to the lines of the text, each of which is read from code.
-/

set_option autoImplicit false

namespace Workflow.Source

/-- Where a reader of source text stands. -/
inductive Place where
  | code
  | literal
  /-- Behind a backslash in a literal: the next character is part of it, also if it is a quote. -/
  | escape
  deriving DecidableEq, Repr

namespace Place

/-- The place after one more character. A line break ends whatever is open, so that every line is read by
itself. -/
def next : Place → Char → Place
  | .code, c => if c = '\x22' then .literal else .code
  | .literal, c => if c = '\x22' ∨ c = '\n' then .code else if c = '\\' then .escape else .literal
  | .escape, c => if c = '\n' then .code else .literal

/-- Whether a character is more than content of a literal. -/
def keeps : Place → Char → Bool
  | .code, _ => true
  | .literal, c => c = '\x22' ∨ c = '\n'
  | .escape, c => c = '\n'

/-- The place after a text. -/
def after (p : Place) (text : List Char) : Place :=
  text.foldl next p

theorem after_append (p : Place) (front back : List Char) :
    p.after (front ++ back) = (p.after front).after back :=
  List.foldl_append

theorem next_newline (p : Place) : p.next '\n' = .code := by
  cases p <;> rfl

theorem keeps_newline (p : Place) : p.keeps '\n' = true := by
  cases p <;> rfl

end Place

/-- A text without the contents of its literals, read from a place on. -/
def erase : Place → List Char → List Char
  | _, [] => []
  | p, c :: rest => if p.keeps c then c :: erase (p.next c) rest else erase (p.next c) rest

/-- A text without the contents of its literals. -/
def bare (text : String) : String :=
  String.ofList (erase .code text.toList)

/-- The lines of a text. -/
def lines (text : String) : List (List Char) :=
  text.toList.splitOn '\n'

/-- The lines of a text, each without the contents of its literals. -/
def bareLines (text : String) : List (List Char) :=
  (lines text).map (erase .code)

theorem erase_append (p : Place) (front back : List Char) :
    erase p (front ++ back) = erase p front ++ erase (p.after front) back := by
  induction front generalizing p with
  | nil => rfl
  | cons c rest ih =>
    simp only [List.cons_append, erase, ih]
    split <;> rfl

/-! ## Lines -/

/-- Erasing leaves the line breaks where they are; only the first line may begin within a literal. -/
theorem splitOn_erase {text first : List Char} {more : List (List Char)}
    (split : text.splitOn '\n' = first :: more) (p : Place) :
    (erase p text).splitOn '\n' = erase p first :: more.map (erase .code) := by
  induction text generalizing p first more with
  | nil =>
    cases split
    rfl
  | cons c rest ih =>
    obtain ⟨first', more', rest'⟩ := List.exists_cons_of_ne_nil (List.splitOn_ne_nil '\n' rest)
    rw [List.splitOn_cons_eq_if_modifyHead, rest'] at split
    by_cases newline : c = '\n'
    · subst newline
      simp only [BEq.rfl, ↓reduceIte, List.cons.injEq] at split
      obtain ⟨rfl, rfl⟩ := split
      simp [erase, p.keeps_newline, p.next_newline, List.splitOn_cons_eq_if_modifyHead, ih rest']
    · simp only [beq_iff_eq, newline, ↓reduceIte, List.modifyHead_cons, List.cons.injEq] at split
      obtain ⟨rfl, rfl⟩ := split
      cases kept : p.keeps c <;>
        simp [erase, kept, newline, List.splitOn_cons_eq_if_modifyHead, ih rest']

/-- The lines of a text can be told from what is left of the whole of it. -/
theorem bareLines_eq (text : String) : bareLines text = (bare text).toList.splitOn '\n' := by
  obtain ⟨first, more, split⟩ := List.exists_cons_of_ne_nil (List.splitOn_ne_nil '\n' text.toList)
  rw [bareLines, lines, bare, String.toList_ofList, splitOn_erase split, split, List.map_cons]

/-! ## Quoted texts -/

/-- A text that begins and ends in code. -/
def Closed (text : String) : Prop :=
  Place.code.after text.toList = .code

theorem Closed.append {front back : String} (hf : Closed front) (hb : Closed back) :
    Closed (front ++ back) := by
  rw [Closed, String.toList_append, Place.after_append, hf, hb]

theorem bare_append {front : String} (hf : Closed front) (back : String) :
    bare (front ++ back) = bare front ++ bare back := by
  rw [bare, String.toList_append, erase_append, hf, String.ofList_append]
  rfl

/-- A text without quotes. -/
def Unquoted (text : String) : Prop :=
  '\x22' ∉ text.toList

instance (text : String) : Decidable (Unquoted text) :=
  inferInstanceAs (Decidable ('\x22' ∉ text.toList))

theorem Unquoted.append {front back : String} (hf : Unquoted front) (hb : Unquoted back) :
    Unquoted (front ++ back) := by
  simpa [Unquoted] using And.intro hf hb

/-- Without a quote a reader stays in code, and nothing is erased. -/
theorem after_erase_of_not_mem {text : List Char} (h : '\x22' ∉ text) :
    Place.code.after text = .code ∧ erase .code text = text := by
  induction text with
  | nil => exact ⟨rfl, rfl⟩
  | cons c rest ih =>
    rw [List.mem_cons, not_or] at h
    obtain ⟨after, erased⟩ := ih h.2
    have stays : Place.code.next c = .code := if_neg fun quote => h.1 quote.symm
    constructor
    · rw [Place.after, List.foldl_cons, stays]
      exact after
    · rw [erase, stays, erased]
      rfl

theorem Unquoted.closed {text : String} (h : Unquoted text) : Closed text :=
  (after_erase_of_not_mem h).1

theorem Unquoted.bare_eq {text : String} (h : Unquoted text) : bare text = text := by
  rw [bare, (after_erase_of_not_mem h).2, String.ofList_toList]

theorem unquoted_of_isIdentifier {name : String} (h : Text.isIdentifier name = true) :
    Unquoted name := by
  intro quote
  have part := List.all_eq_true.mp (Text.all_isPart_of_isIdentifier h) _ quote
  exact absurd part (by decide)

/-- A text that a reader in a literal passes over, and stays in the literal. -/
def Passed (text : List Char) : Prop :=
  Place.literal.after text = .literal ∧ erase .literal text = []

theorem Passed.append {front back : List Char} (hf : Passed front) (hb : Passed back) :
    Passed (front ++ back) := by
  refine ⟨?_, ?_⟩
  · rw [Place.after_append, hf.1, hb.1]
  · rw [erase_append, hf.1, hf.2, hb.2, List.append_nil]

theorem passed_singleton {c : Char} (quote : c ≠ '\x22') (backslash : c ≠ '\\') (newline : c ≠ '\n') :
    Passed [c] := by
  have stays : Place.literal.next c = .literal := by simp [Place.next, quote, backslash, newline]
  have dropped : Place.literal.keeps c = false := by simp [Place.keeps, quote, newline]
  exact ⟨stays, by simp [erase, dropped]⟩

/-- The digits of a number are passed over. -/
theorem passed_hexMinimal (n : Nat) : Passed (Text.hexMinimal n) := by
  have digit : ∀ k < 16, Passed [Nat.digitChar k] := by
    intro k hk
    have plain : ∀ i : Fin 16, Nat.digitChar i ≠ '\x22' ∧ Nat.digitChar i ≠ '\\' ∧ Nat.digitChar i ≠ '\n' := by
      decide
    obtain ⟨quote, backslash, newline⟩ := plain ⟨k, hk⟩
    exact passed_singleton quote backslash newline
  unfold Text.hexMinimal
  induction n using Nat.strongRecOn with
  | ind n ih =>
    rw [Nat.toDigits_eq_if (by decide)]
    split
    next small => exact digit n small
    next large => exact (ih (n / 16) (by omega)).append (digit (n % 16) (by omega))

/-- Whatever the character, it is passed over as it stands between quotes. -/
theorem passed_quoteChar (c : Char) : Passed (Text.quoteChar c) := by
  unfold Text.quoteChar
  by_cases quote : c = '\x22'
  · rw [if_pos quote]
    exact ⟨rfl, rfl⟩
  rw [if_neg quote]
  by_cases backslash : c = '\\'
  · rw [if_pos backslash]
    exact ⟨rfl, rfl⟩
  rw [if_neg backslash]
  by_cases newline : c = '\n'
  · rw [if_pos newline]
    exact ⟨rfl, rfl⟩
  rw [if_neg newline]
  split
  · exact ⟨rfl, rfl⟩
  split
  · exact ⟨rfl, rfl⟩
  split
  · exact ⟨rfl, rfl⟩
  split
  · have lead : Passed ['\\', 'u', '\x7b'] := ⟨rfl, rfl⟩
    exact (lead.append (passed_hexMinimal c.toNat)).append ⟨rfl, rfl⟩
  · exact passed_singleton quote backslash newline

theorem passed_quoteChars (text : List Char) : Passed (Text.quoteChars text) := by
  induction text with
  | nil => exact ⟨rfl, rfl⟩
  | cons c rest ih =>
    rw [Text.quoteChars, List.flatMap_cons]
    exact (passed_quoteChar c).append ih

theorem closed_quoted (text : String) : Closed (Text.quoted text) := by
  unfold Closed Text.quoted
  rw [String.toList_ofList, List.cons_append, Place.after, List.foldl_cons]
  change Place.literal.after _ = _
  rw [Place.after_append, (passed_quoteChars _).1]
  rfl

/-- What is left of a quoted text is its quotes. -/
theorem bare_quoted (text : String) : bare (Text.quoted text) = "\x22\x22" := by
  unfold bare Text.quoted
  rw [String.toList_ofList, List.cons_append]
  change String.ofList ('\x22' :: erase .literal _) = _
  rw [erase_append, (passed_quoteChars _).1, (passed_quoteChars _).2]
  rfl

example : bare "f(\x22a \\\x22 b\x22, c)" = "f(\x22\x22, c)" := by decide

/-- Texts that begin and end in code and are the same but for the contents of literals. -/
structure Alike (text text' : String) : Prop where
  closed : Closed text
  closed' : Closed text'
  bare_eq : bare text = bare text'

namespace Alike

theorem of_unquoted {text : String} (h : Unquoted text) : Alike text text :=
  ⟨h.closed, h.closed, rfl⟩

theorem quoted (text text' : String) : Alike (Text.quoted text) (Text.quoted text') :=
  ⟨closed_quoted text, closed_quoted text', by rw [bare_quoted, bare_quoted]⟩

theorem append {front front' back back' : String} (hf : Alike front front') (hb : Alike back back') :
    Alike (front ++ back) (front' ++ back') where
  closed := hf.closed.append hb.closed
  closed' := hf.closed'.append hb.closed'
  bare_eq := by rw [bare_append hf.closed, bare_append hf.closed', hf.bare_eq, hb.bare_eq]

/-- The texts between them may be anything the same. -/
theorem around {front back text text' : String} (h : Alike text text') (hf : Unquoted front)
    (hb : Unquoted back) : Alike (front ++ text ++ back) (front ++ text' ++ back) :=
  ((of_unquoted hf).append h).append (of_unquoted hb)

end Alike

/-! ## Pieces -/

/-- A piece without the contents of its literals. -/
def Piece.bare : Piece → Piece
  | .line text => .line (Source.bare text)
  | .blank => .blank
  | .opening text => .opening (Source.bare text)
  | .closing rest => .closing (Source.bare rest)

/-- The first character of a text stays. -/
theorem bare_eq_empty_iff {text : String} : bare text = "" ↔ text = "" := by
  rw [← String.toList_eq_nil_iff, ← String.toList_eq_nil_iff, bare, String.toList_ofList]
  cases text.toList with
  | nil => exact Iff.rfl
  | cons c rest => simp [erase, Place.keeps]

/-- A line break ends whatever is open. -/
theorem closed_newline (text : String) : Closed (text ++ "\n") := by
  rw [Closed, String.toList_append, Place.after_append]
  exact Place.next_newline _

theorem bare_newline (text : String) : bare (text ++ "\n") = bare text ++ "\n" := by
  have kept : erase (Place.code.after text.toList) "\n".toList = "\n".toList := by
    simp [erase, Place.keeps_newline]
  rw [bare, String.toList_append, erase_append, kept, String.ofList_append, String.ofList_toList]
  rfl

theorem bare_indented (width depth : Nat) (text : String) :
    bare (indented width depth text) = indented width depth (bare text) := by
  have indent : Unquoted (String.ofList (List.replicate (depth * width) ' ')) := by simp [Unquoted]
  unfold indented
  by_cases empty : text = ""
  · rw [if_pos empty, if_pos (bare_eq_empty_iff.mpr empty)]
    rfl
  · rw [if_neg empty, if_neg (mt bare_eq_empty_iff.mp empty), bare_newline,
      bare_append indent.closed, indent.bare_eq]

theorem closed_indented (width depth : Nat) (text : String) : Closed (indented width depth text) := by
  unfold indented
  split
  · exact closed_newline ""
  · exact closed_newline _

theorem bare_lay (width depth : Nat) (pieces : List Piece) :
    (lay width depth pieces).map bare = lay width depth (pieces.map Piece.bare) := by
  fun_induction lay width depth pieces with
  | case1 => rfl
  | case2 depth text rest ih => simp only [lay, List.map_cons, Piece.bare, bare_indented, ih]
  | case3 depth rest ih =>
    simp only [lay, List.map_cons, Piece.bare, ih]
    rfl
  | case4 depth text rest ih => simp only [lay, List.map_cons, Piece.bare, bare_indented, ih]
  | case5 depth behind rest ih =>
    have brace : bare ("\x7d" ++ behind) = "\x7d" ++ bare behind :=
      bare_append (show Closed "\x7d" from rfl) behind
    simp only [lay, List.map_cons, Piece.bare, bare_indented, brace, ih]

theorem closed_of_mem_lay (width depth : Nat) (pieces : List Piece) :
    ∀ text ∈ lay width depth pieces, Closed text := by
  fun_induction lay width depth pieces with
  | case1 => simp
  | case3 depth rest ih => exact List.forall_mem_cons.mpr ⟨closed_newline "", ih⟩
  | case2 depth text rest ih => exact List.forall_mem_cons.mpr ⟨closed_indented .., ih⟩
  | case4 depth text rest ih => exact List.forall_mem_cons.mpr ⟨closed_indented .., ih⟩
  | case5 depth behind rest ih => exact List.forall_mem_cons.mpr ⟨closed_indented .., ih⟩

theorem bare_join {texts : List String} (closed : ∀ t ∈ texts, Closed t) :
    bare (String.join texts) = String.join (texts.map bare) := by
  induction texts with
  | nil => rfl
  | cons first rest ih =>
    obtain ⟨here, further⟩ := List.forall_mem_cons.mp closed
    rw [String.join_cons, bare_append here, ih further, List.map_cons, String.join_cons]

/-- Erasing what is written is writing what is erased. -/
theorem bare_write (width : Nat) (pieces : List Piece) :
    bare (write width pieces) = write width (pieces.map Piece.bare) := by
  rw [write, bare_join (closed_of_mem_lay width 0 pieces), bare_lay, write]

end Workflow.Source
