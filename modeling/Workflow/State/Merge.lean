import Workflow.Value

/-!
Merging updates into the state. Every top-level field has a policy: the last write wins, or writes
are gathered in a list. A null update changes nothing, and an update that is no object replaces the
state as a whole.
-/

set_option autoImplicit false

namespace Workflow.State

/-- How a field merges updates. -/
inductive Policy where
  | overwrite
  | accumulate
  deriving DecidableEq, Repr

/-- Policies by field; a field that is not listed overwrites. -/
abbrev Policies := List (String × Policy)

/-- The policy of a field. -/
def Policies.of (p : Policies) (field : String) : Policy :=
  (Keyed.get? field p).getD .overwrite

/-- What a field holds so far, as a list: nothing and null are empty, an array is itself, and any
other value stands alone. -/
def gathered : Option Value → List Value
  | none => []
  | some .null => []
  | some (.array items) => items
  | some v => [v]

/-- What an update adds to a list: the items of an array, nothing for null, any other value itself. -/
def contributed : Value → List Value
  | .null => []
  | .array items => items
  | v => [v]

/-- Merge one field. -/
def mergeField (p : Policies) (fields : List (String × Value)) (update : String × Value) :
    List (String × Value) :=
  match p.of update.1 with
  | .overwrite => Keyed.insert update.1 update.2 fields
  | .accumulate =>
    let items := gathered (Keyed.get? update.1 fields) ++ contributed update.2
    Keyed.insert update.1 (.array items) fields

/-- The fields of a state that has some. -/
def fieldsOf : Value → List (String × Value)
  | .object fields => fields
  | _ => []

/-- The state after an update. -/
def reduce (p : Policies) (current update : Value) : Value :=
  match update with
  | .null => current
  | .object fields => .object (fields.foldl (mergeField p) (fieldsOf current))
  | other => other

end Workflow.State
