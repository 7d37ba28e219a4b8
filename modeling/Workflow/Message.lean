import Workflow.Key

/-!
Messages: named commands and events addressed to one instance, each with a payload of one of ten
shapes. A failure travels in a completion; a failure context is what a recovery chain knows of it.
-/

set_option autoImplicit false

namespace Workflow

/-- An answer to an approval request. -/
inductive Decision where
  | approved
  | rejected
  /-- Recorded, while the request stays open. -/
  | deferred
  deriving DecidableEq, Repr

/-- The decision as text. -/
def Decision.label : Decision → String
  | .approved => "approved"
  | .rejected => "rejected"
  | .deferred => "deferred"

/-- What went wrong in a step. -/
structure StepFailure where
  message : String
  errorType : String
  stackTrace : Option String
  deriving DecidableEq, Repr

/-- A failure and the phase of the step it happened in. -/
structure FailureContext where
  failedStep : String
  message : String
  errorType : String
  stackTrace : Option String
  deriving DecidableEq, Repr

/-- Keep a failure for recovery. -/
def FailureContext.capture (step : String) (f : StepFailure) : FailureContext :=
  ⟨step, f.message, f.errorType, f.stackTrace⟩

/-- The payload of a message. -/
inductive Body where
  | empty
  | start (state : Value)
  | work (workType : String) (state : Value)
  | completed (update : Value) (failure : Option StepFailure)
  | validationFailed (step message : String)
  | approvalRequested (approval approverType : String)
  | approvalPending (correlation : Key)
  | approvalDecided (correlation : Key) (decision : Decision)
  | approvalTimedOut (correlation : Key)
  | failureTrigger (failure : FailureContext)
  deriving DecidableEq, Repr

/-- A command or event addressed to one instance. -/
structure Message where
  name : String
  instanceId : Key
  body : Body
  deriving DecidableEq, Repr

namespace Message

/-- A command with no payload. -/
def command (name : String) (instanceId : Key) : Message :=
  ⟨name, instanceId, .empty⟩

/-- The correlation id of an approval signal. -/
def correlation? (m : Message) : Option Key :=
  match m.body with
  | .approvalPending c => some c
  | .approvalDecided c _ => some c
  | .approvalTimedOut c => some c
  | _ => none

/-- The failure a completion carries. -/
def failure? (m : Message) : Option StepFailure :=
  match m.body with
  | .completed _ failure => failure
  | _ => none

/-- The message as text. -/
def text (m : Message) : String :=
  s!"{m.name}[{m.instanceId.text}]"

end Message

end Workflow
