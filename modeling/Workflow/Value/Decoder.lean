import Workflow.Value

/-!
Typed reading of values. A decoder turns a value into data of another type or refuses it; unknown
fields of an object are ignored. A choice between alternatives is written as the alternative's name,
or as an object whose one field is named for it and holds its payload.
-/

set_option autoImplicit false

namespace Workflow.Value

variable {α : Type}

/-- A text. -/
def asString? : Value → Option String
  | .string text => some text
  | _ => none

/-- A truth value. -/
def asBool? : Value → Option Bool
  | .bool b => some b
  | _ => none

/-- A whole number that is not negative. -/
def asNat? : Value → Option Nat
  | .int n => if 0 ≤ n then some n.toNat else none
  | _ => none

/-- A 32-bit number. -/
def asUInt32? (v : Value) : Option UInt32 :=
  v.asNat?.bind fun n => if n < UInt32.size then some (UInt32.ofNat n) else none

/-- The items of an array. -/
def asItems? : Value → Option (List Value)
  | .array items => some items
  | _ => none

/-- The fields of an object. -/
def asFields? : Value → Option (List (String × Value))
  | .object fields => some fields
  | _ => none

/-- An array whose items all decode. -/
def asList? (decode : Value → Option α) (v : Value) : Option (List α) :=
  v.asItems?.bind fun items => items.mapM decode

/-- A field that must be there. -/
def required? (decode : Value → Option α) (key : String) (fields : List (String × Value)) :
    Option α :=
  (Keyed.get? key fields).bind decode

/-- A field that may be missing or null. -/
def optional? (decode : Value → Option α) (key : String) (fields : List (String × Value)) :
    Option (Option α) :=
  match Keyed.get? key fields with
  | none => some none
  | some .null => some none
  | some v => (decode v).map some

/-- A list that may be missing, which is the empty one. -/
def listed? (decode : Value → Option α) (key : String) (fields : List (String × Value)) :
    Option (List α) :=
  match Keyed.get? key fields with
  | none => some []
  | some v => v.asList? decode

/-- A field with a default for when it is missing. -/
def defaulted? (decode : Value → Option α) (default : α) (key : String)
    (fields : List (String × Value)) : Option α :=
  match Keyed.get? key fields with
  | none => some default
  | some v => decode v

/-- The name of an alternative and its payload; a bare name has the payload null. -/
def variant? : Value → Option (String × Value)
  | .string name => some (name, .null)
  | .object [(name, payload)] => some (name, payload)
  | _ => none

/-- One of several alternatives without payload. -/
def oneOf? (names : List (String × α)) (v : Value) : Option α :=
  match v.variant? with
  | some (name, .null) => Keyed.get? name names
  | _ => none

/-- An alternative without payload. -/
def bare (name : String) : Value :=
  .string name

/-- An alternative with a payload. -/
def tagged (name : String) (payload : Value) : Value :=
  .object [(name, payload)]

/-- A text, or null. -/
def ofStringOption : Option String → Value
  | none => .null
  | some text => .string text

/-- A list of texts. -/
def ofStrings (texts : List String) : Value :=
  .array (texts.map .string)

/-- A natural number. -/
def ofNat (n : Nat) : Value :=
  .int n

/-- A 32-bit number. -/
def ofUInt32 (n : UInt32) : Value :=
  .int n.toNat

/-- A field that is left out when there is nothing to say. -/
def present (key : String) : Option Value → List (String × Value)
  | none => []
  | some v => [(key, v)]

/-- A list that is left out when it is empty. -/
def nonempty (key : String) : List Value → List (String × Value)
  | [] => []
  | items => [(key, .array items)]

theorem sizeOf_get?_lt {key : String} {fields : List (String × Value)} {v : Value}
    (h : Keyed.get? key fields = some v) : sizeOf v < sizeOf (Value.object fields) := by
  have hmem := Keyed.mem_of_get? h
  have hlt := List.sizeOf_lt_of_mem hmem
  simp only [Prod.mk.sizeOf_spec, Value.object.sizeOf_spec] at *
  omega

end Workflow.Value
