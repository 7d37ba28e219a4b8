import Workflow.Compile
import Workflow.Machine

/-!
Why a host refuses an operation, and what it says then.
-/

set_option autoImplicit false

namespace Workflow

/-- Why a host refuses an operation. -/
inductive HostError where
  | compile (error : CompileError)
  | process (fault : Fault)
  | unknownInstance (id : Key)
  | noApprovalRequest (id : Key) (approval : String)
  | unexpectedBody (message expected : String)
  | deliveryLimit (limit : Nat)
  deriving DecidableEq, Repr

/-- The wording of a refusal. -/
def HostError.message : HostError → String
  | .compile error => s!"Compilation failed: {error.message}"
  | .process fault => s!"Transition failed: {fault.message}"
  | .unknownInstance id => s!"Unknown instance: {id.text}"
  | .noApprovalRequest id approval => s!"Instance {id.text} has no request for approval '{approval}'"
  | .unexpectedBody message expected =>
    s!"Message '{message}' carries the wrong payload, expected {expected}"
  | .deliveryLimit limit => s!"Delivery limit of {limit} messages reached"

end Workflow
