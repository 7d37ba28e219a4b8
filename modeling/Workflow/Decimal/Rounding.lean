import Workflow.Decimal

/-!
Floating point numbers from decimals, in exact arithmetic.

Magnitudes are counted in the least unit of the format, `2 ^ -1074`, so a number is a natural number
of units and its bits are found by rounding once: to the nearest, and a tie to the even neighbour.
Two readings of a decimal stand on it. `Decimal.nearest` rounds the decimal itself.
`Decimal.scaled?` rounds the coefficient, then scales it by a rounded power of ten and rounds again,
which may end one unit beside the nearest number.
-/

set_option autoImplicit false

namespace Workflow.Decimal

/-- The bits of positive infinity. -/
def infinity : Nat := 0x7ff0000000000000

/-- How many units of `2 ^ -1074` one is. -/
def unitsPerOne : Nat := Nat.pow 2 1074

/-- The quotient of two numbers, rounded to the nearest and a tie to the even one. -/
def divideToEven (num den : Nat) : Nat :=
  let below := num / den
  let rest := 2 * (num % den)
  if den < rest ∨ (rest = den ∧ below % 2 = 1) then below + 1 else below

/-- The bits of `num / den` units. Binary places beyond the leading 53 are rounded away; what is too
large for the format is infinite. -/
def bitsOfUnits (num den : Nat) : UInt64 :=
  let dropped := (num / den).log2 - 52
  let kept := divideToEven num (den * Nat.pow 2 dropped)
  UInt64.ofNat (min infinity (dropped * leadingBit + kept))

/-- The units of a finite number's magnitude. -/
def units (bits : UInt64) : Nat :=
  significand bits * Nat.pow 2 (shift bits)

/-- The rounded product of two magnitudes. -/
def times (a b : UInt64) : UInt64 :=
  bitsOfUnits (units a * units b) unitsPerOne

/-- The rounded quotient of two magnitudes. -/
def dividedBy (a b : UInt64) : UInt64 :=
  bitsOfUnits (units a * unitsPerOne) (units b)

/-- A natural number, rounded. -/
def bitsOfNat (n : Nat) : UInt64 :=
  bitsOfUnits (n * unitsPerOne) 1

/-- The magnitude nearest to a decimal, infinite when the decimal is too large. Decimals that lie
far outside the format's range are told by the place of their point. -/
def nearest (d : Decimal) : UInt64 :=
  let place := (Nat.toDigits 10 d.coefficient).length + d.exponent
  if d.coefficient = 0 ∨ place < -400 then 0
  else if 400 < place then UInt64.ofNat infinity
  else
    bitsOfUnits (d.coefficient * Nat.pow 10 d.exponent.toNat * unitsPerOne)
      (Nat.pow 10 (-d.exponent).toNat)

/-- The largest power of ten that a finite number is near to. -/
def greatestPower : Nat := 308

/-- A magnitude divided by `10 ^ places`, by at most `10 ^ 308` at a time. -/
def scaledDown (bits : UInt64) (places : Nat) : UInt64 :=
  if places ≤ greatestPower then dividedBy bits (bitsOfNat (Nat.pow 10 places))
  else if bits = 0 then 0
  else scaledDown (dividedBy bits (bitsOfNat (Nat.pow 10 greatestPower))) (places - greatestPower)
termination_by places
decreasing_by simp only [greatestPower] at *; omega

/-- A magnitude multiplied by `10 ^ places`, unless the product is infinite. -/
def scaledUp? (bits : UInt64) (places : Nat) : Option UInt64 :=
  if bits = 0 then some 0
  else if greatestPower < places then none
  else
    let product := times bits (bitsOfNat (Nat.pow 10 places))
    if biased product = 2047 then none else some product

/-- The magnitude of a decimal by way of its rounded coefficient, unless it is infinite. -/
def scaled? (d : Decimal) : Option UInt64 :=
  let start := bitsOfNat d.coefficient
  if 0 ≤ d.exponent then scaledUp? start d.exponent.toNat
  else some (scaledDown start (-d.exponent).toNat)

end Workflow.Decimal
