import Workflow.Value.Reader

/-!
Numbers and truth values in a settings document. Underscores may stand between digits; whole numbers
are in base ten, or without a sign in base sixteen, eight or two, and fit the signed 64-bit range;
floating point numbers are rounded to the nearest, and one too large is refused unless it is
negative.
-/

set_option autoImplicit false

namespace Workflow.Settings.Document

/-- Digits with single underscores between them, which are dropped. -/
def digits? (isDigit : Char → Bool) : List Char → Option (List Char)
  | [] => none
  | [c] => if isDigit c then some [c] else none
  | c :: '_' :: rest => if isDigit c then (digits? isDigit rest).map (c :: ·) else none
  | c :: rest => if isDigit c then (digits? isDigit rest).map (c :: ·) else none

/-- A number in another base than ten. -/
def based? (base : Nat) (cs : List Char) : Option Nat :=
  let isDigit (c : Char) : Bool := (Value.hexValue? c).any (· < base)
  (digits? isDigit cs).map fun ds => ds.foldl (fun n c => n * base + (Value.hexValue? c).getD 0) 0

/-- A whole number within the signed 64-bit range. -/
def whole? (negative : Bool) (n : Nat) : Option Value :=
  let signed : Int := if negative then -n else n
  if Value.isSignedWord signed then some (.int signed) else none

/-- The number nearest to a decimal with a sign. One too large is refused, unless it is negative. -/
def float? (negative : Bool) (d : Decimal) : Option Value :=
  let magnitude := d.nearest
  if negative then some (.float (magnitude + Value.negativeZero))
  else if Decimal.biased magnitude = 2047 then none
  else some (.float magnitude)

/-- A floating point number without its sign. -/
def fraction? (negative : Bool) (whole rest : List Char) : Option Value := do
  let (part, after) ←
    match rest with
    | '.' :: more => do
      let run := more.takeWhile fun c => c.isDigit ∨ c = '_'
      let part ← digits? Char.isDigit run
      some (part, more.drop run.length)
    | more => some ([], more)
  let exponent : Int ←
    match after with
    | [] => some 0
    | e :: more =>
      if e = 'e' ∨ e = 'E' then
        let (sign, ds) : Int × List Char :=
          match more with
          | '-' :: ds => (-1, ds)
          | '+' :: ds => (1, ds)
          | ds => (1, ds)
        (digits? Char.isDigit ds).map fun ds => sign * (Value.digitsNat ds : Int)
      else none
  float? negative ⟨Value.digitsNat (whole ++ part), exponent - part.length⟩

/-- A number in base ten without its sign. -/
def decimal? (negative : Bool) (cs : List Char) : Option Value := do
  let run := cs.takeWhile fun c => c.isDigit ∨ c = '_'
  let whole ← digits? Char.isDigit run
  if !Value.isWhole whole then none
  else if run.length = cs.length then whole? negative (Value.digitsNat whole)
  else fraction? negative whole (cs.drop run.length)

/-- The bits of positive infinity and of the number that is none. -/
def special? (negative : Bool) (cs : List Char) : Option Value :=
  let signBits : UInt64 := if negative then Value.negativeZero else 0
  if cs = ['i', 'n', 'f'] then some (.float (0x7ff0000000000000 + signBits))
  else if cs = ['n', 'a', 'n'] then some (.float (0x7ff8000000000000 + signBits))
  else none

/-- A value written without quotes. -/
def word? : List Char → Option Value
  | ['t', 'r', 'u', 'e'] => some (.bool true)
  | ['f', 'a', 'l', 's', 'e'] => some (.bool false)
  | '0' :: 'x' :: rest => (based? 16 rest).bind (whole? false)
  | '0' :: 'o' :: rest => (based? 8 rest).bind (whole? false)
  | '0' :: 'b' :: rest => (based? 2 rest).bind (whole? false)
  | '-' :: rest => (special? true rest).or (decimal? true rest)
  | '+' :: rest => (special? false rest).or (decimal? false rest)
  | cs => (special? false cs).or (decimal? false cs)

end Workflow.Settings.Document
