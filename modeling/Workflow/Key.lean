import Workflow.Text.Fingerprint
import Workflow.Value

/-!
Keys of instances and of approval requests. A key from outside is a number and reads as a hyphenated
text of thirty-two hexadecimal digits; the keys a host makes up are counted, so a new one differs
from all before it.
-/

set_option autoImplicit false

namespace Workflow

/-- The identity of an instance or of a request. -/
inductive Key where
  /-- A key from outside. -/
  | number (n : Nat)
  /-- The instance of the host's n-th start without a key. -/
  | auto (n : Nat)
  /-- The host's n-th approval request. -/
  | request (n : Nat)
  deriving DecidableEq, Repr

namespace Key

/-- The digits of a number in groups of eight, four, four, four and twelve. -/
def hyphenated (n : Nat) : String :=
  let digits := Text.hexDigits 32 n
  let group (start size : Nat) : String := String.ofList ((digits.drop start).take size)
  String.intercalate "-" [group 0 8, group 8 4, group 12 4, group 16 4, group 20 12]

/-- A key as text. -/
def text (k : Key) : String :=
  match k with
  | .number n => hyphenated n
  | .auto n => s!"auto{n}"
  | .request n => s!"request{n}"

/-- A key as a value. -/
def toValue (k : Key) : Value :=
  match k with
  | .number n => .int n
  | .auto n => .string s!"auto{n}"
  | .request n => .string s!"request{n}"

/-- A key from a value, where a host has made up so many keys of either sort. -/
def ofValue? (autos requests : Nat) : Value → Option Key
  | .int n => if Value.isUnsignedWord n then some (.number n.toNat) else none
  | .string label =>
    let made := (List.range autos).map (fun k => Key.auto (k + 1))
      ++ (List.range requests).map fun k => Key.request (k + 1)
    made.find? fun k => k.text = label
  | _ => none

end Key

end Workflow
