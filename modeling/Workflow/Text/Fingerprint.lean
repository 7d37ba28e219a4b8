/-!
Fingerprints: the 64-bit FNV-1a digest of a text, written as sixteen hexadecimal digits. Two
generated sources are compared by it, so it depends on the bytes of the text alone.
-/

set_option autoImplicit false

namespace Workflow.Text

/-- The digest of the empty text. -/
def fingerprintBasis : UInt64 := 0xcbf29ce484222325

/-- The odd factor of every round. -/
def fingerprintPrime : UInt64 := 0x100000001b3

/-- One round: mix in a byte, then multiply modulo 2^64. -/
def fingerprintRound (hash : UInt64) (byte : UInt8) : UInt64 :=
  (hash ^^^ byte.toUInt64) * fingerprintPrime

/-- The digest of a run of bytes, continued from an earlier digest. -/
def fingerprintBytes (hash : UInt64) (bytes : List UInt8) : UInt64 :=
  bytes.foldl fingerprintRound hash

/-- The digit of a number below sixteen. -/
def hexDigit (n : Nat) : Char :=
  if n < 10 then Char.ofNat (48 + n) else Char.ofNat (87 + n)

/-- The lowest `width` hexadecimal digits of a number, most significant first. -/
def hexDigits : Nat → Nat → List Char
  | 0, _ => []
  | width + 1, n => hexDigits width (n / 16) ++ [hexDigit (n % 16)]

/-- A number in exactly `width` lower case hexadecimal digits. -/
def hexText (width n : Nat) : String :=
  String.ofList (hexDigits width n)

/-- The digest of a text's UTF-8 bytes. -/
def fingerprintWord (text : String) : UInt64 :=
  fingerprintBytes fingerprintBasis text.toByteArray.data.toList

/-- The digest of a text, as sixteen digits. -/
def fingerprint (text : String) : String :=
  hexText 16 (fingerprintWord text).toNat

@[simp] theorem length_hexDigits (width n : Nat) : (hexDigits width n).length = width := by
  induction width generalizing n with
  | zero => rfl
  | succ width ih => simp [hexDigits, ih]

theorem fingerprintBytes_append (hash : UInt64) (front back : List UInt8) :
    fingerprintBytes hash (front ++ back) = fingerprintBytes (fingerprintBytes hash front) back :=
  List.foldl_append

end Workflow.Text
