import Workflow.Message
import Workflow.Name
import Workflow.Table

/-!
Instances: the record of one run of a process.
-/

set_option autoImplicit false

namespace Workflow

/-- One run of a process. -/
structure Instance where
  id : Key
  process : String
  state : Value
  phase : String
  isFinished : Bool
  /-- The outstanding approval request. -/
  pendingApproval : Option Key
  lastDecision : Option Decision
  /-- Iteration counters by name. -/
  counters : List (String × UInt32)
  failureContext : Option FailureContext
  deriving DecidableEq, Repr

namespace Instance

/-- The counters of a table, all at zero. -/
def zeroCounters (fields : List Field) : List (String × UInt32) :=
  Keyed.ofList <| fields.filterMap fun f =>
    match f.kind with
    | .iterationCounter _ => some (f.name, 0)
    | _ => none

/-- An instance that has been created and nothing more. -/
def fresh (t : Table) (id : Key) (state : Value) : Instance where
  id := id
  process := t.process
  state := state
  phase := Name.notStarted
  isFinished := false
  pendingApproval := none
  lastDecision := none
  counters := zeroCounters t.fields
  failureContext := none

/-- The count of a counter; one that is not there counts as zero. -/
def counter (i : Instance) (name : String) : UInt32 :=
  (Keyed.get? name i.counters).getD 0

end Instance

end Workflow
