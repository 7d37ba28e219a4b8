/-!
Decimal forms of floating point numbers: the fewest digits that read back as the same 64-bit
number, and among those the nearest to it, of two equally near the one with the even last digit.

A finite number is `m * 2 ^ q`. The reals that round to it form an interval, ends included exactly
when `m` is even. `shortest` tries decimal grids from coarse to fine and takes the first grid that
has a point in the interval; only the number's two neighbours on a grid need a look.
-/

set_option autoImplicit false

namespace Workflow

/-- The number `coefficient * 10 ^ exponent`. -/
structure Decimal where
  coefficient : Nat
  exponent : Int
  deriving DecidableEq, Repr

namespace Decimal

/-- The interval of reals that round to a number, in units of `unit / scale`. -/
structure Interval where
  low : Nat
  middle : Nat
  high : Nat
  unit : Nat
  scale : Nat
  /-- Whether the two ends round to the number as well. -/
  closed : Bool

/-- The weight of the bit above the fraction bits. -/
def leadingBit : Nat := 0x10000000000000

/-- The fraction bits of a floating point number. -/
def fraction (bits : UInt64) : Nat := bits.toNat % leadingBit

/-- The biased exponent of a floating point number. -/
def biased (bits : UInt64) : Nat := bits.toNat / leadingBit % 2048

/-- Whether the sign bit is set. -/
def isNegative (bits : UInt64) : Bool := 2048 ≤ bits.toNat / leadingBit

/-- The significand `m` of the number's magnitude `m * 2 ^ q`. -/
def significand (bits : UInt64) : Nat :=
  if biased bits = 0 then fraction bits else fraction bits + leadingBit

/-- `q + 1074` for a number of magnitude `m * 2 ^ q`. -/
def shift (bits : UInt64) : Nat := biased bits - 1

/-- The rounding interval of a finite number. Below a power of two the neighbour is half as far. -/
def interval (bits : UInt64) : Interval :=
  let m := significand bits
  { low := if fraction bits = 0 ∧ 1 < biased bits then 4 * m - 1 else 4 * m - 2
    middle := 4 * m
    high := 4 * m + 2
    unit := Nat.pow 2 (shift bits - 1076)
    scale := Nat.pow 2 (1076 - shift bits)
    closed := m % 2 = 0 }

/-- Whether `x * num / den` lies in the interval. -/
def Interval.holds (i : Interval) (x num den : Nat) : Bool :=
  let point := x * num * i.scale
  let low := i.low * i.unit * den
  let high := i.high * i.unit * den
  if i.closed then low ≤ point ∧ point ≤ high else low < point ∧ point < high

/-- The place of the decimal point: the least `k` with the number below `10 ^ k`. -/
def pointPlace (i : Interval) : Int :=
  let whole := i.middle * i.unit / i.scale
  if 0 < whole then (Nat.toDigits 10 whole).length
  else
    match (List.range 330).find? fun j => i.scale ≤ i.middle * i.unit * Nat.pow 10 (j + 1) with
    | some j => -(j : Int)
    | none => 0

/-- The better of the number's two neighbours on the grid of multiples of `10 ^ e`, where one lies
in the interval. -/
def onGrid (i : Interval) (e : Int) : Option Nat :=
  let num := Nat.pow 10 e.toNat
  let den := Nat.pow 10 (-e).toNat
  let value := i.middle * i.unit * den
  let step := num * i.scale
  let below := value / step
  let above := below + 1
  match i.holds below num den, i.holds above num den with
  | true, true =>
    let rest := 2 * (value % step)
    if rest < step ∨ (rest = step ∧ below % 2 = 0) then some below else some above
  | true, false => some below
  | false, true => some above
  | false, false => none

/-- The first hit among the grids of 1, 2, … digits. -/
def search (i : Interval) (place : Int) : List Nat → Decimal
  | [] => ⟨0, 0⟩
  | digits :: rest =>
    let e := place - digits
    match onGrid i e with
    | some coefficient => ⟨coefficient, e⟩
    | none => search i place rest

/-- Trailing zeros of the coefficient, moved into the exponent; `fuel` bounds their number. -/
def trim : Nat → Decimal → Decimal
  | 0, d => d
  | fuel + 1, d =>
    if d.coefficient ≠ 0 ∧ d.coefficient % 10 = 0 then
      trim fuel ⟨d.coefficient / 10, d.exponent + 1⟩
    else d

/-- The shortest decimal that reads back as a finite number's magnitude. -/
def shortest (bits : UInt64) : Decimal :=
  if significand bits = 0 then ⟨0, 0⟩
  else
    let i := interval bits
    trim 20 (search i (pointPlace i) ((List.range 18).map (· + 1)))

end Decimal

end Workflow
