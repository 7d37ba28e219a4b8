import Workflow.Keyed

/-!
Values: the tree-shaped data that process state, updates and persisted tables are made of.

Whole numbers and floating point numbers are different values, `1` and `1.0` too; a floating point
number is held as the 64 bits of its format, so that equality of values is decidable. The fields of
an object stand in increasing key order.
-/

set_option autoImplicit false

namespace Workflow

/-- A piece of data. -/
inductive Value where
  | null
  | bool (b : Bool)
  /-- A whole number. -/
  | int (n : Int)
  /-- A floating point number, by its bits. -/
  | float (bits : UInt64)
  | string (text : String)
  | array (items : List Value)
  | object (fields : List (String × Value))
  deriving Inhabited, Repr

namespace Value

mutual
/-- Equality of values is decided part by part. -/
def decEq : (a b : Value) → Decidable (a = b)
  | .null, b => by cases b <;> first | exact isTrue rfl | exact isFalse nofun
  | .bool x, b => by
    cases b with
    | bool y => exact if h : x = y then isTrue (h ▸ rfl) else isFalse fun e => h (by injection e)
    | _ => exact isFalse nofun
  | .int x, b => by
    cases b with
    | int y => exact if h : x = y then isTrue (h ▸ rfl) else isFalse fun e => h (by injection e)
    | _ => exact isFalse nofun
  | .float x, b => by
    cases b with
    | float y => exact if h : x = y then isTrue (h ▸ rfl) else isFalse fun e => h (by injection e)
    | _ => exact isFalse nofun
  | .string x, b => by
    cases b with
    | string y => exact if h : x = y then isTrue (h ▸ rfl) else isFalse fun e => h (by injection e)
    | _ => exact isFalse nofun
  | .array xs, b =>
    match b with
    | .array ys =>
      match decEqItems xs ys with
      | isTrue h => isTrue (h ▸ rfl)
      | isFalse h => isFalse fun e => h (by injection e)
    | .null => isFalse nofun
    | .bool _ => isFalse nofun
    | .int _ => isFalse nofun
    | .float _ => isFalse nofun
    | .string _ => isFalse nofun
    | .object _ => isFalse nofun
  | .object xs, b =>
    match b with
    | .object ys =>
      match decEqFields xs ys with
      | isTrue h => isTrue (h ▸ rfl)
      | isFalse h => isFalse fun e => h (by injection e)
    | .null => isFalse nofun
    | .bool _ => isFalse nofun
    | .int _ => isFalse nofun
    | .float _ => isFalse nofun
    | .string _ => isFalse nofun
    | .array _ => isFalse nofun

/-- Equality of the items of two arrays. -/
def decEqItems : (a b : List Value) → Decidable (a = b)
  | [], [] => isTrue rfl
  | [], _ :: _ => isFalse nofun
  | _ :: _, [] => isFalse nofun
  | x :: xs, y :: ys =>
    match decEq x y, decEqItems xs ys with
    | isTrue h, isTrue hs => isTrue (h ▸ hs ▸ rfl)
    | isFalse h, _ => isFalse fun e => h (List.cons.inj e).1
    | _, isFalse hs => isFalse fun e => hs (List.cons.inj e).2

/-- Equality of the fields of two objects. -/
def decEqFields : (a b : List (String × Value)) → Decidable (a = b)
  | [], [] => isTrue rfl
  | [], _ :: _ => isFalse nofun
  | _ :: _, [] => isFalse nofun
  | (k, x) :: xs, (j, y) :: ys =>
    if hk : k = j then
      match decEq x y, decEqFields xs ys with
      | isTrue h, isTrue hs => isTrue (hk ▸ h ▸ hs ▸ rfl)
      | isFalse h, _ => isFalse fun e => h (Prod.mk.inj (List.cons.inj e).1).2
      | _, isFalse hs => isFalse fun e => hs (List.cons.inj e).2
    else isFalse fun e => hk (Prod.mk.inj (List.cons.inj e).1).1
end

instance : DecidableEq Value := decEq

/-- The field of an object under a key; other values have no fields. -/
def get? (key : String) : Value → Option Value
  | .object fields => Keyed.get? key fields
  | _ => none

/-- Whether a whole number is within the signed 64-bit range. -/
def isSignedWord (n : Int) : Bool :=
  -0x8000000000000000 ≤ n ∧ n < 0x8000000000000000

/-- Whether a whole number is within the unsigned 64-bit range. -/
def isUnsignedWord (n : Int) : Bool :=
  0 ≤ n ∧ n < 0x10000000000000000

/-- The bits of the negative zero. -/
def negativeZero : UInt64 := 0x8000000000000000

mutual
/-- The same value with every negative zero written as the positive one. -/
def unsigned : Value → Value
  | .float bits => .float (if bits = negativeZero then 0 else bits)
  | .array items => .array (unsignedItems items)
  | .object fields => .object (unsignedFields fields)
  | other => other

/-- The same for the items of an array. -/
def unsignedItems : List Value → List Value
  | [] => []
  | v :: rest => unsigned v :: unsignedItems rest

/-- The same for the fields of an object. -/
def unsignedFields : List (String × Value) → List (String × Value)
  | [] => []
  | (k, v) :: rest => (k, unsigned v) :: unsignedFields rest
end

/-- Whether two values hold equal data: the two floating point zeros are equal numbers. -/
def sameData (a b : Value) : Bool :=
  a.unsigned = b.unsigned

end Value

end Workflow
