import Workflow.Instance
import Workflow.State.Merge
import Workflow.Value.Decoder

/-!
Messages and instances as values. How a key is written is for the reader to say, since only a host
knows which keys it has made up.
-/

set_option autoImplicit false

namespace Workflow

open Value

/-- The decisions by name. -/
def Decision.names : List (String × Decision) :=
  [("Approved", .approved), ("Rejected", .rejected), ("Deferred", .deferred)]

/-- A decision as its bare name. -/
def Decision.toValue : Decision → Value
  | .approved => bare "Approved"
  | .rejected => bare "Rejected"
  | .deferred => bare "Deferred"

def Decision.ofValue? : Value → Option Decision :=
  oneOf? Decision.names

/-- A policy as its bare name. -/
def State.Policy.toValue : State.Policy → Value
  | .overwrite => bare "Overwrite"
  | .accumulate => bare "Accumulate"

/-- A policy by its name. -/
def State.Policy.ofValue? : Value → Option State.Policy :=
  oneOf? [("Overwrite", .overwrite), ("Accumulate", .accumulate)]

/-- Policies from an object. -/
def State.Policies.ofValue? (v : Value) : Option State.Policies := do
  let fields ← v.asFields?
  fields.mapM fun (key, p) => (State.Policy.ofValue? p).map (key, ·)

/-- The failure of a step as a value. A stack trace is left out where there is none. -/
def StepFailure.toValue (f : StepFailure) : Value :=
  .object ([("error_type", .string f.errorType), ("message", .string f.message)]
    ++ present "stack_trace" (f.stackTrace.map .string))

/-- The failure of a step from a value. -/
def StepFailure.ofValue? (v : Value) : Option StepFailure := do
  let fields ← v.asFields?
  let message ← required? asString? "message" fields
  let errorType ← required? asString? "error_type" fields
  let stackTrace ← optional? asString? "stack_trace" fields
  return { message, errorType, stackTrace }

/-- A recorded failure as a value, with the step that failed. -/
def FailureContext.toValue (f : FailureContext) : Value :=
  .object ([("error_type", .string f.errorType), ("failed_step", .string f.failedStep),
      ("message", .string f.message)]
    ++ present "stack_trace" (f.stackTrace.map .string))

/-- A recorded failure from a value. -/
def FailureContext.ofValue? (v : Value) : Option FailureContext := do
  let fields ← v.asFields?
  let failedStep ← required? asString? "failed_step" fields
  let message ← required? asString? "message" fields
  let errorType ← required? asString? "error_type" fields
  let stackTrace ← optional? asString? "stack_trace" fields
  return { failedStep, message, errorType, stackTrace }

/-- What a message carries, as a value that is named for it. -/
def Body.toValue : Body → Value
  | .empty => bare "Empty"
  | .start state => tagged "Start" (.object [("state", state)])
  | .work workType state =>
    tagged "Work" (.object [("state", state), ("step", .string workType)])
  | .completed update failure =>
    tagged "Completed" (.object [("failure", (failure.map StepFailure.toValue).getD .null),
      ("update", update)])
  | .validationFailed step message =>
    tagged "ValidationFailed" (.object [("message", .string message), ("step", .string step)])
  | .approvalRequested approval approverType =>
    tagged "ApprovalRequested"
      (.object [("approval", .string approval), ("approver_type", .string approverType)])
  | .approvalPending c => tagged "ApprovalPending" (.object [("correlation_id", c.toValue)])
  | .approvalDecided c decision =>
    tagged "ApprovalDecided"
      (.object [("correlation_id", c.toValue), ("decision", decision.toValue)])
  | .approvalTimedOut c => tagged "ApprovalTimedOut" (.object [("correlation_id", c.toValue)])
  | .failureTrigger failure => tagged "FailureTrigger" (.object [("failure", failure.toValue)])

/-- The payload of a name, from its fields. -/
def Body.ofFields? (key? : Value → Option Key) (name : String) (fields : List (String × Value)) :
    Option Body :=
  match name with
  | "Start" => (required? some "state" fields).map .start
  | "Work" => do
    let workType ← required? asString? "step" fields
    let state ← required? some "state" fields
    return .work workType state
  | "Completed" => do
    let update ← required? some "update" fields
    let failure ← optional? StepFailure.ofValue? "failure" fields
    return .completed update failure
  | "ValidationFailed" => do
    let step ← required? asString? "step" fields
    let message ← required? asString? "message" fields
    return .validationFailed step message
  | "ApprovalRequested" => do
    let approval ← required? asString? "approval" fields
    let approverType ← required? asString? "approver_type" fields
    return .approvalRequested approval approverType
  | "ApprovalPending" => (required? key? "correlation_id" fields).map .approvalPending
  | "ApprovalDecided" => do
    let correlation ← required? key? "correlation_id" fields
    let decision ← required? Decision.ofValue? "decision" fields
    return .approvalDecided correlation decision
  | "ApprovalTimedOut" => (required? key? "correlation_id" fields).map .approvalTimedOut
  | "FailureTrigger" => (required? FailureContext.ofValue? "failure" fields).map .failureTrigger
  | _ => none

/-- What a message carries, from a value. Only the empty body has no payload. -/
def Body.ofValue? (key? : Value → Option Key) (v : Value) : Option Body := do
  let (name, payload) ← v.variant?
  if name = "Empty" ∧ payload = .null then some .empty
  else payload.asFields?.bind (Body.ofFields? key? name)

def Message.toValue (m : Message) : Value :=
  .object [("body", m.body.toValue), ("instance_id", m.instanceId.toValue),
    ("name", .string m.name)]

/-- A message from a value. -/
def Message.ofValue? (key? : Value → Option Key) (v : Value) : Option Message := do
  let fields ← v.asFields?
  let name ← required? asString? "name" fields
  let instanceId ← required? key? "instance_id" fields
  let body ← required? (Body.ofValue? key?) "body" fields
  return { name, instanceId, body }

/-- An instance as a value, with null for what is not there. -/
def Instance.toValue (i : Instance) : Value :=
  .object [("counters", .object (i.counters.map fun (name, n) => (name, ofUInt32 n))),
    ("failure_context", (i.failureContext.map FailureContext.toValue).getD .null),
    ("id", i.id.toValue), ("is_finished", .bool i.isFinished),
    ("last_approval_decision", (i.lastDecision.map Decision.toValue).getD .null),
    ("pending_approval_id", (i.pendingApproval.map Key.toValue).getD .null),
    ("phase", .string i.phase), ("process", .string i.process), ("state", i.state)]

/-- Counters from an object. -/
def Instance.countersOfValue? (v : Value) : Option (List (String × UInt32)) := do
  let fields ← v.asFields?
  fields.mapM fun (name, n) => (asUInt32? n).map (name, ·)

/-- An instance from a value. -/
def Instance.ofValue? (key? : Value → Option Key) (v : Value) : Option Instance := do
  let fields ← v.asFields?
  let id ← required? key? "id" fields
  let process ← required? asString? "process" fields
  let state ← required? some "state" fields
  let phase ← required? asString? "phase" fields
  let isFinished ← required? asBool? "is_finished" fields
  let pendingApproval ← optional? key? "pending_approval_id" fields
  let lastDecision ← optional? Decision.ofValue? "last_approval_decision" fields
  let counters ← required? Instance.countersOfValue? "counters" fields
  let failureContext ← optional? FailureContext.ofValue? "failure_context" fields
  return { id, process, state, phase, isFinished, pendingApproval, lastDecision, counters,
           failureContext }

end Workflow
