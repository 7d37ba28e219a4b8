import Workflow.Decimal.Rounding
import Workflow.Value

/-!
Reading a value from text.

Two machines in a row, each one step per symbol: the first cuts characters into tokens, the second
builds a value from tokens with a stack of the arrays and objects still open. A later field replaces
an earlier one of the same key. Whole numbers outside the signed and unsigned 64-bit ranges, and the
negative zero, are read as floating point numbers; a number too large for those is refused. Of a
floating point number the digits that fit an unsigned 64-bit word count, the further ones only by
their number, and the coefficient so found is scaled by a rounded power of ten.
-/

set_option autoImplicit false

namespace Workflow.Value

/-- A symbol of the text form. -/
inductive Token where
  | openObject
  | closeObject
  | openArray
  | closeArray
  | comma
  | colon
  | scalar (v : Value)
  deriving Repr

/-- A run of decimal digits as a number. -/
def digitsNat (digits : List Char) : Nat :=
  digits.foldl (fun n c => n * 10 + (c.toNat - 48)) 0

/-- Digits joined to a number as long as it stays within the unsigned 64-bit range, and the digits
left over. -/
def takeDigits (n : Nat) : List Char → Nat × List Char
  | [] => (n, [])
  | c :: rest =>
    let next := n * 10 + (c.toNat - 48)
    if isUnsignedWord next then takeDigits next rest else (n, c :: rest)

/-- The decimal that counts for the digits before and after the point. Left-over digits before the
point raise the exponent; those after it are dropped. -/
def decimalOf (whole part : List Char) (exponent : Int) : Decimal :=
  let (front, further) := takeDigits 0 whole
  let (coefficient, dropped) := takeDigits front part
  ⟨coefficient, exponent + further.length - (part.length - dropped.length : Nat)⟩

/-- A floating point number from its sign, its digits and its exponent, unless it is infinite. -/
def floatOf? (negative : Bool) (whole part : List Char) (exponent : Int) : Option Value :=
  (Decimal.scaled? (decimalOf whole part exponent)).map fun magnitude =>
    .float (if negative then magnitude + negativeZero else magnitude)

/-- A whole number, in the widest form that holds it exactly. -/
def wholeOf? (negative : Bool) (digits : List Char) : Option Value :=
  let n := digitsNat digits
  if negative then
    if 0 < n ∧ isSignedWord (-n) then some (.int (-n)) else floatOf? true digits [] 0
  else if isUnsignedWord n then some (.int n)
  else floatOf? false digits [] 0

/-- The exponent part of a number. -/
def readExponent? : List Char → Option Int
  | [] => none
  | c :: rest =>
    let (sign, digits) := if c = '-' then (-1, rest) else if c = '+' then (1, rest) else (1, c :: rest)
    if digits ≠ [] ∧ digits.all Char.isDigit then some (sign * (digitsNat digits : Int)) else none

/-- Whether digits may stand before the point: at least one, and no leading zero. -/
def isWhole : List Char → Bool
  | [] => false
  | ['0'] => true
  | c :: _ => c ≠ '0'

/-- A number, from all of its characters. -/
def readNumber? (chars : List Char) : Option Value :=
  let negative := chars.head? = some '-'
  let body := if negative then chars.tail else chars
  let whole := body.takeWhile Char.isDigit
  let rest := body.dropWhile Char.isDigit
  if !isWhole whole then none
  else
    match rest with
    | [] => wholeOf? negative whole
    | c :: rest =>
      if c = '.' then
        let part := rest.takeWhile Char.isDigit
        let after := rest.dropWhile Char.isDigit
        if part = [] then none
        else
          match after with
          | [] => floatOf? negative whole part 0
          | e :: tail =>
            if e = 'e' ∨ e = 'E' then (readExponent? tail).bind (floatOf? negative whole part)
            else none
      else if c = 'e' ∨ c = 'E' then (readExponent? rest).bind (floatOf? negative whole [])
      else none

/-- A bare word: one of the three names or a number. -/
def readWord? (chars : List Char) : Option Value :=
  if chars = ['n', 'u', 'l', 'l'] then some .null
  else if chars = ['t', 'r', 'u', 'e'] then some (.bool true)
  else if chars = ['f', 'a', 'l', 's', 'e'] then some (.bool false)
  else readNumber? chars

/-- Where the first machine stands; the characters of a word or text so far are reversed. -/
inductive Scan where
  | between
  | word (chars : List Char)
  | text (chars : List Char)
  /-- After a backslash. -/
  | escape (chars : List Char)
  /-- Within a numbered escape: the digits still due and the number so far; `high` is the first half
  of a pair whose second half this is. -/
  | numbered (chars : List Char) (high : Option Nat) (due value : Nat)
  /-- After the first half of a pair; the second half must follow. -/
  | paired (chars : List Char) (high : Nat)
  /-- The same, after its backslash. -/
  | pairedEscape (chars : List Char) (high : Nat)

/-- The value of a hexadecimal digit. -/
def hexValue? (c : Char) : Option Nat :=
  if c.isDigit then some (c.toNat - 48)
  else if 'a' ≤ c ∧ c ≤ 'f' then some (c.toNat - 87)
  else if 'A' ≤ c ∧ c ≤ 'F' then some (c.toNat - 55)
  else none

/-- The character a one-letter escape stands for. -/
def escaped? (c : Char) : Option Char :=
  if c = '\x22' ∨ c = '\\' ∨ c = '/' then some c
  else if c = 'b' then some '\x08'
  else if c = 'f' then some '\x0c'
  else if c = 'n' then some '\n'
  else if c = 'r' then some '\r'
  else if c = 't' then some '\t'
  else none

/-- Where a numbered escape leads once its last digit is read. -/
def closeNumbered (chars : List Char) (high : Option Nat) (n : Nat) : Option Scan :=
  match high with
  | some h =>
    if 0xdc00 ≤ n ∧ n ≤ 0xdfff then
      some (.text (Char.ofNat (0x10000 + (h - 0xd800) * 0x400 + (n - 0xdc00)) :: chars))
    else none
  | none =>
    if 0xd800 ≤ n ∧ n ≤ 0xdbff then some (.paired chars n)
    else if 0xdc00 ≤ n ∧ n ≤ 0xdfff then none
    else some (.text (Char.ofNat n :: chars))

/-- Whether a character may be skipped between tokens. -/
def isGap (c : Char) : Bool :=
  c = ' ' ∨ c = '\n' ∨ c = '\t' ∨ c = '\r'

/-- The token a single character makes. -/
def punctuation? (c : Char) : Option Token :=
  if c = '\x7b' then some .openObject
  else if c = '\x7d' then some .closeObject
  else if c = '[' then some .openArray
  else if c = ']' then some .closeArray
  else if c = ',' then some .comma
  else if c = ':' then some .colon
  else none

/-- A character between tokens, with the tokens it completes. -/
def scanBetween (done : List Token) (c : Char) : Scan × List Token :=
  if isGap c then (.between, done)
  else if c = '\x22' then (.text [], done)
  else
    match punctuation? c with
    | some t => (.between, t :: done)
    | none => (.word [c], done)

/-- One character: the next state and the tokens so far, last first. -/
def scanStep : Scan × List Token → Char → Option (Scan × List Token)
  | (.between, done), c => some (scanBetween done c)
  | (.word chars, done), c =>
    if isGap c ∨ c = '\x22' ∨ (punctuation? c).isSome then
      (readWord? chars.reverse).map fun v => scanBetween (.scalar v :: done) c
    else some (.word (c :: chars), done)
  | (.text chars, done), c =>
    if c = '\x22' then some (.between, .scalar (.string (String.ofList chars.reverse)) :: done)
    else if c = '\\' then some (.escape chars, done)
    else if c.toNat < 0x20 then none
    else some (.text (c :: chars), done)
  | (.escape chars, done), c =>
    if c = 'u' then some (.numbered chars none 4 0, done)
    else (escaped? c).map fun e => (.text (e :: chars), done)
  | (.numbered chars high due value, done), c =>
    (hexValue? c).bind fun d =>
      if due ≤ 1 then (closeNumbered chars high (value * 16 + d)).map (·, done)
      else some (.numbered chars high (due - 1) (value * 16 + d), done)
  | (.paired chars high, done), c =>
    if c = '\\' then some (.pairedEscape chars high, done) else none
  | (.pairedEscape chars high, done), c =>
    if c = 'u' then some (.numbered chars (some high) 4 0, done) else none

/-- The tokens of a text. -/
def tokens? (text : List Char) : Option (List Token) :=
  (text.foldlM scanStep (.between, [])).bind fun (scan, done) =>
    match scan with
    | .between => some done.reverse
    | .word chars => (readWord? chars.reverse).map fun v => (.scalar v :: done).reverse
    | _ => none

/-- An array or object still open: its parts so far, and the key whose value is awaited. -/
inductive Frame where
  | array (items : List Value)
  | object (fields : List (String × Value)) (key : String)

/-- What may come next. -/
inductive Awaits where
  | value
  | valueOrClose
  | key
  | keyOrClose
  | colon
  | commaOrClose
  | nothing
  deriving DecidableEq

/-- Where the second machine stands. -/
structure Assembly where
  frames : List Frame
  awaits : Awaits
  result : Option Value

/-- A finished value goes into the innermost open frame, or is the result. -/
def Assembly.place (v : Value) : List Frame → Assembly
  | [] => ⟨[], .nothing, some v⟩
  | .array items :: rest => ⟨.array (v :: items) :: rest, .commaOrClose, none⟩
  | .object fields key :: rest =>
    ⟨.object (Keyed.insert key v fields) key :: rest, .commaOrClose, none⟩

/-- How many arrays and objects may be open at once. -/
def depthLimit : Nat := 127

/-- Open a frame unless too many are open. -/
def Assembly.push (frame : Frame) (awaits : Awaits) (a : Assembly) : Option Assembly :=
  if a.frames.length < depthLimit then some ⟨frame :: a.frames, awaits, none⟩ else none

/-- One token. -/
def Assembly.step (a : Assembly) (t : Token) : Option Assembly :=
  match t with
  | .scalar v =>
    if a.awaits = .value ∨ a.awaits = .valueOrClose then some (place v a.frames)
    else if a.awaits = .key ∨ a.awaits = .keyOrClose then
      match v, a.frames with
      | .string key, .object fields _ :: rest => some ⟨.object fields key :: rest, .colon, none⟩
      | _, _ => none
    else none
  | .openArray =>
    if a.awaits = .value ∨ a.awaits = .valueOrClose then a.push (.array []) .valueOrClose else none
  | .openObject =>
    if a.awaits = .value ∨ a.awaits = .valueOrClose then a.push (.object [] "") .keyOrClose else none
  | .closeArray =>
    match a.frames with
    | .array items :: rest =>
      if a.awaits = .valueOrClose ∨ a.awaits = .commaOrClose then
        some (place (.array items.reverse) rest)
      else none
    | _ => none
  | .closeObject =>
    match a.frames with
    | .object fields _ :: rest =>
      if a.awaits = .keyOrClose ∨ a.awaits = .commaOrClose then some (place (.object fields) rest)
      else none
    | _ => none
  | .comma =>
    if a.awaits = .commaOrClose then
      match a.frames with
      | .array _ :: _ => some { a with awaits := .value }
      | .object _ _ :: _ => some { a with awaits := .key }
      | [] => none
    else none
  | .colon => if a.awaits = .colon then some { a with awaits := .value } else none

/-- The value a text spells, if it spells one. -/
def read? (text : String) : Option Value := do
  let tokens ← tokens? text.toList
  let a ← tokens.foldlM Assembly.step ⟨[], .value, none⟩
  a.result

end Workflow.Value
