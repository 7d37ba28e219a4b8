import Workflow.Value
import Workflow.Decimal
import Workflow.Text.Fingerprint

/-!
Values as compact text: no blanks, fields in the order they stand, every character raw that does
not have to be escaped. Floating point numbers in positional notation show at least one digit after
the point, and exponents always show their sign.
-/

set_option autoImplicit false

namespace Workflow.Value

/-- One character of a text between quotes. -/
def escapeChar (c : Char) : List Char :=
  if c = '\x22' then ['\\', '\x22']
  else if c = '\\' then ['\\', '\\']
  else if c = '\x08' then ['\\', 'b']
  else if c = '\x0c' then ['\\', 'f']
  else if c = '\n' then ['\\', 'n']
  else if c = '\r' then ['\\', 'r']
  else if c = '\t' then ['\\', 't']
  else if c.toNat < 0x20 then ['\\', 'u'] ++ Text.hexDigits 4 c.toNat
  else [c]

/-- A text between quotes. -/
def printString (text : String) : String :=
  String.ofList ('\x22' :: text.toList.flatMap escapeChar ++ ['\x22'])

/-- Where positional notation ends: the decimal point stands at most five places before the first
digit and at most sixteen behind it. -/
def isPositional (place : Int) : Bool :=
  -5 < place ∧ place ≤ 16

/-- An exponent with its sign, which is always written. -/
def signedExponent (n : Int) : List Char :=
  (if n < 0 then '-' else '+') :: Nat.toDigits 10 n.natAbs

/-- The digits of a decimal laid out as text, with at least one digit after the point. -/
def layDecimal (d : Decimal) : List Char :=
  let digits := Nat.toDigits 10 d.coefficient
  let place : Int := digits.length + d.exponent
  if isPositional place then
    if 0 ≤ d.exponent then digits ++ List.replicate d.exponent.toNat '0' ++ ['.', '0']
    else if 0 < place then digits.take place.toNat ++ ['.'] ++ digits.drop place.toNat
    else ['0', '.'] ++ List.replicate (-place).toNat '0' ++ digits
  else
    let exponent := 'e' :: signedExponent (place - 1)
    match digits with
    | [] => exponent
    | [single] => single :: exponent
    | first :: more => first :: '.' :: more ++ exponent

/-- A floating point number in its shortest form. -/
def printFloat (bits : UInt64) : String :=
  let digits := layDecimal (Decimal.shortest bits)
  String.ofList (if Decimal.isNegative bits then '-' :: digits else digits)

mutual
/-- A value as compact text. -/
def print : Value → String
  | .null => "null"
  | .bool true => "true"
  | .bool false => "false"
  | .int n => toString n
  | .float bits => printFloat bits
  | .string text => printString text
  | .array items => "[" ++ String.intercalate "," (printItems items) ++ "]"
  | .object fields => "\x7b" ++ String.intercalate "," (printFields fields) ++ "\x7d"

/-- The items of an array, each as text. -/
def printItems : List Value → List String
  | [] => []
  | v :: rest => print v :: printItems rest

/-- The fields of an object, each as text. -/
def printFields : List (String × Value) → List String
  | [] => []
  | (k, v) :: rest => (printString k ++ ":" ++ print v) :: printFields rest
end

end Workflow.Value
