import Workflow.Table
import Workflow.Value.Decoder

/-!
Tables as values. Every field is written, an absent option as null; every field must be there when
reading, options apart. Loop exits nest to any depth, and so do the values.
-/

set_option autoImplicit false

namespace Workflow

open Value

/-- What a field holds, as a bare name. Only a counter says more: the path of its loop. -/
def FieldKind.toValue : FieldKind → Value
  | .instanceId => bare "InstanceId"
  | .state => bare "State"
  | .phase => bare "Phase"
  | .finished => bare "Finished"
  | .pendingApproval => bare "PendingApproval"
  | .approvalDecision => bare "ApprovalDecision"
  | .iterationCounter loopPath =>
    tagged "IterationCounter" (.object [("loop_path", .string loopPath)])
  | .failureContext => bare "FailureContext"

/-- What a field holds, from a value. A counter is looked for first, since it alone has a payload. -/
def FieldKind.ofValue? (v : Value) : Option FieldKind := do
  let (name, payload) ← v.variant?
  if name = "IterationCounter" then
    (payload.asFields?.bind (required? asString? "loop_path")).map .iterationCounter
  else
    oneOf? [("InstanceId", .instanceId), ("State", .state), ("Phase", .phase),
      ("Finished", .finished), ("PendingApproval", .pendingApproval),
      ("ApprovalDecision", .approvalDecision), ("FailureContext", .failureContext)] v

/-- A field of instances as a value. -/
def Field.toValue (f : Field) : Value :=
  .object [("kind", f.kind.toValue), ("name", .string f.name)]

/-- A field of instances from a value. -/
def Field.ofValue? (v : Value) : Option Field := do
  let fields ← v.asFields?
  let name ← required? asString? "name" fields
  let kind ← required? FieldKind.ofValue? "kind" fields
  return { name, kind }

/-- The check of a loop as a value, with the condition that it asks. -/
def ExitCheck.toValue (c : ExitCheck) : Value :=
  .object [("condition_id", .string c.conditionId), ("loop_path", .string c.loopPath),
    ("name", .string c.name)]

/-- The check of a loop from a value. -/
def ExitCheck.ofValue? (v : Value) : Option ExitCheck := do
  let fields ← v.asFields?
  let name ← required? asString? "name" fields
  let conditionId ← required? asString? "condition_id" fields
  let loopPath ← required? asString? "loop_path" fields
  return { name, conditionId, loopPath }

/-- The kinds of messages by name. -/
def MessageKind.names : List (String × MessageKind) :=
  [("StartProcess", .startProcess), ("StartStep", .startStep), ("ExecuteWorker", .executeWorker),
    ("StepCompleted", .stepCompleted), ("ValidationFailed", .validationFailed),
    ("ApprovalRequested", .approvalRequested), ("ApprovalPending", .approvalPending),
    ("ApprovalDecided", .approvalDecided), ("ApprovalTimedOut", .approvalTimedOut),
    ("FailureTrigger", .failureTrigger)]

/-- The kind of a message as its bare name. -/
def MessageKind.toValue : MessageKind → Value
  | .startProcess => bare "StartProcess"
  | .startStep => bare "StartStep"
  | .executeWorker => bare "ExecuteWorker"
  | .stepCompleted => bare "StepCompleted"
  | .validationFailed => bare "ValidationFailed"
  | .approvalRequested => bare "ApprovalRequested"
  | .approvalPending => bare "ApprovalPending"
  | .approvalDecided => bare "ApprovalDecided"
  | .approvalTimedOut => bare "ApprovalTimedOut"
  | .failureTrigger => bare "FailureTrigger"

/-- The kind of a message by its name. -/
def MessageKind.ofValue? : Value → Option MessageKind :=
  oneOf? MessageKind.names

/-- A declared message as a value, with the phase or approval that it concerns. -/
def MessageEntry.toValue (m : MessageEntry) : Value :=
  .object [("kind", m.kind.toValue), ("name", .string m.name), ("subject", .string m.subject)]

/-- A declared message from a value. -/
def MessageEntry.ofValue? (v : Value) : Option MessageEntry := do
  let fields ← v.asFields?
  let name ← required? asString? "name" fields
  let kind ← required? MessageKind.ofValue? "kind" fields
  let subject ← required? asString? "subject" fields
  return { name, kind, subject }

/-- The phases and messages of one path of a fork, as a value. -/
def PathLayout.toValue (p : PathLayout) : Value :=
  .object [("messages", ofStrings p.messages), ("phases", ofStrings p.phases)]

/-- The phases and messages of one path of a fork, from a value. -/
def PathLayout.ofValue? (v : Value) : Option PathLayout := do
  let fields ← v.asFields?
  let phases ← required? (asList? asString?) "phases" fields
  let messages ← required? (asList? asString?) "messages" fields
  return { phases, messages }

/-- What a host has to know about a fork, as a value. The place of a path in the list is its number. -/
def ForkLayout.toValue (f : ForkLayout) : Value :=
  .object [("fail_fast", .bool f.failFast), ("id", .string f.id),
    ("join_command", .string f.joinCommand), ("paths", .array (f.paths.map PathLayout.toValue)),
    ("trigger", .string f.trigger)]

/-- What a host has to know about a fork, from a value. -/
def ForkLayout.ofValue? (v : Value) : Option ForkLayout := do
  let fields ← v.asFields?
  let id ← required? asString? "id" fields
  let trigger ← required? asString? "trigger" fields
  let joinCommand ← required? asString? "join_command" fields
  let failFast ← required? asBool? "fail_fast" fields
  let paths ← required? (asList? PathLayout.ofValue?) "paths" fields
  return { id, trigger, joinCommand, failFast, paths }

/-- The join that a path reports to, as a value. The number of paths goes by the name `of`. -/
def JoinTarget.toValue (j : JoinTarget) : Value :=
  .object [("command", .string j.command), ("fork", .string j.fork), ("of", ofNat j.total),
    ("path", ofNat j.path)]

/-- The join that a path reports to, from a value. Neither number may be negative; that the path is one
of those counted is not checked. -/
def JoinTarget.ofValue? (v : Value) : Option JoinTarget := do
  let fields ← v.asFields?
  let fork ← required? asString? "fork" fields
  let path ← required? asNat? "path" fields
  let total ← required? asNat? "of" fields
  let command ← required? asString? "command" fields
  return { fork, path, total, command }

/-- The fields of a loop control, around the one of its exit. -/
def LoopControl.toFields (c : LoopControl) (exit : Value) : List (String × Value) :=
  [("check", .string c.check), ("condition_id", .string c.conditionId),
    ("counter", .string c.counter), ("exit", exit), ("loop_path", .string c.loopPath),
    ("max_iterations", ofUInt32 c.maxIterations), ("repeat", .string c.again)]

/-- The control of a loop from its fields, whatever they say about the exit. -/
def LoopControl.ofFields? (fields : List (String × Value)) : Option LoopControl := do
  let loopPath ← required? asString? "loop_path" fields
  let counter ← required? asString? "counter" fields
  let check ← required? asString? "check" fields
  let conditionId ← required? asString? "condition_id" fields
  let maxIterations ← required? asUInt32? "max_iterations" fields
  let again ← required? asString? "repeat" fields
  return { loopPath, counter, check, conditionId, maxIterations, again }

/-- The request for an approval as a value: the phase to wait in, and the event that is published. -/
def ApprovalRequest.toValue (r : ApprovalRequest) : Value :=
  .object [("approval", .string r.approval), ("approver_type", .string r.approverType),
    ("event", .string r.event), ("phase", .string r.phase)]

/-- The request for an approval from a value. -/
def ApprovalRequest.ofValue? (v : Value) : Option ApprovalRequest := do
  let fields ← v.asFields?
  let approval ← required? asString? "approval" fields
  let approverType ← required? asString? "approver_type" fields
  let event ← required? asString? "event" fields
  let phase ← required? asString? "phase" fields
  return { approval, approverType, event, phase }

/-- What happens next, as a value. The exit of a loop is a continuation itself and stands among the
fields of its control. -/
def Continuation.toValue : Continuation → Value
  | .send command => tagged "Send" (.string command)
  | .complete => bare "Complete"
  | .fail => bare "Fail"
  | .loop control exit => tagged "Loop" (.object (control.toFields exit.toValue))
  | .requestApproval request => tagged "RequestApproval" request.toValue

/-- The continuations that hold no other. -/
def Continuation.simpleOfValue? (v : Value) : Option Continuation := do
  let (name, payload) ← v.variant?
  if name = "Send" then payload.asString?.map .send
  else if name = "RequestApproval" then (ApprovalRequest.ofValue? payload).map .requestApproval
  else if payload = .null then
    if name = "Complete" then some .complete else if name = "Fail" then some .fail else none
  else none

/-- What happens next, from a value. It is read along the exits of loops, each of which is a part of the
value of the one before it; a loop without an exit is refused. -/
def Continuation.ofValue? (v : Value) : Option Continuation :=
  match v with
  | .object [(name, .object fields)] =>
    if name = "Loop" then
      match _hexit : Keyed.get? "exit" fields with
      | none => none
      | some exit =>
        (LoopControl.ofFields? fields).bind fun control =>
          (Continuation.ofValue? exit).map (.loop control)
    else simpleOfValue? (.object [(name, .object fields)])
  | other => simpleOfValue? other
termination_by v
decreasing_by
  have hlt := sizeOf_get?_lt _hexit
  simp only [Value.object.sizeOf_spec, List.cons.sizeOf_spec, Prod.mk.sizeOf_spec] at *
  omega

/-- The predicate in front of a step as a value, with the event for when it fails. -/
def ValidationGuard.toValue (g : ValidationGuard) : Value :=
  .object [("condition_id", .string g.conditionId), ("event", .string g.event),
    ("message", .string g.message), ("step", .string g.step)]

/-- The predicate in front of a step from a value. -/
def ValidationGuard.ofValue? (v : Value) : Option ValidationGuard := do
  let fields ← v.asFields?
  let step ← required? asString? "step" fields
  let conditionId ← required? asString? "condition_id" fields
  let message ← required? asString? "message" fields
  let event ← required? asString? "event" fields
  return { step, conditionId, message, event }

/-- What a failure does on a path of a fork, as a value. -/
def ForkFailure.toValue (f : ForkFailure) : Value :=
  .object [("fail_fast", .bool f.failFast), ("fork", .string f.fork), ("join", f.join.toValue)]

/-- What a failure does on a path of a fork, from a value. -/
def ForkFailure.ofValue? (v : Value) : Option ForkFailure := do
  let fields ← v.asFields?
  let fork ← required? asString? "fork" fields
  let failFast ← required? asBool? "fail_fast" fields
  let join ← required? JoinTarget.ofValue? "join" fields
  return { fork, failFast, join }

/-- Where a failure of a step goes, as a value. Null stands for no handler, and for no fork. -/
def FailureRoute.toValue (r : FailureRoute) : Value :=
  .object [("fork", (r.fork.map ForkFailure.toValue).getD .null),
    ("handler", ofStringOption r.handler), ("step", .string r.step)]

/-- Where a failure of a step goes, from a value. A handler or a fork that is missing is none. -/
def FailureRoute.ofValue? (v : Value) : Option FailureRoute := do
  let fields ← v.asFields?
  let step ← required? asString? "step" fields
  let handler ← optional? asString? "handler" fields
  let fork ← optional? ForkFailure.ofValue? "fork" fields
  return { step, handler, fork }

/-- What a route switches on, as a value. -/
def RouteKey.toValue (k : RouteKey) : Value :=
  .object [("enumerated", .bool k.enumerated), ("field_path", .string k.fieldPath),
    ("type_name", .string k.typeName)]

/-- What a route switches on, from a value. -/
def RouteKey.ofValue? (v : Value) : Option RouteKey := do
  let fields ← v.asFields?
  let fieldPath ← required? asString? "field_path" fields
  let typeName ← required? asString? "type_name" fields
  let enumerated ← required? asBool? "enumerated" fields
  return { fieldPath, typeName, enumerated }

/-- One arm of a route as a value. -/
def RouteArm.toValue (a : RouteArm) : Value :=
  .object [("target", a.target.toValue), ("value", .string a.value)]

/-- One arm of a route from a value. -/
def RouteArm.ofValue? (v : Value) : Option RouteArm := do
  let fields ← v.asFields?
  let value ← required? asString? "value" fields
  let target ← required? Continuation.ofValue? "target" fields
  return { value, target }

/-- A route as a value. Null stands for no fallback: a value that has no arm is an error then. -/
def Route.toValue (r : Route) : Value :=
  .object [("arms", .array (r.arms.map RouteArm.toValue)), ("branch", .string r.branch),
    ("discriminator", r.key.toValue),
    ("otherwise", (r.fallback.map Continuation.toValue).getD .null)]

/-- A route from a value. A missing fallback is none. -/
def Route.ofValue? (v : Value) : Option Route := do
  let fields ← v.asFields?
  let branch ← required? asString? "branch" fields
  let key ← required? RouteKey.ofValue? "discriminator" fields
  let arms ← required? (asList? RouteArm.ofValue?) "arms" fields
  let fallback ← optional? Continuation.ofValue? "otherwise" fields
  return { branch, key, arms, fallback }

/-- A step that may be resumed, as a value, with the command that restarts it. -/
def ResumeTarget.toValue (t : ResumeTarget) : Value :=
  .object [("command", .string t.command), ("step", .string t.step)]

/-- A step that may be resumed, from a value. -/
def ResumeTarget.ofValue? (v : Value) : Option ResumeTarget := do
  let fields ← v.asFields?
  let step ← required? asString? "step" fields
  let command ← required? asString? "command" fields
  return { step, command }

/-- An action as a value: its name, with what it needs to be carried out. -/
def Action.toValue : Action → Value
  | .createInstance => bare "InitializeInstance"
  | .setPhase phase => tagged "SetPhase" (.string phase)
  | .validate guard => tagged "Validate" guard.toValue
  | .dispatchWork workType command =>
    tagged "DispatchWork" (.object [("command", .string command), ("step", .string workType)])
  | .applyUpdate => bare "ApplyUpdate"
  | .routeFailure r => tagged "RouteFailure" r.toValue
  | .proceed continuation => tagged "Continue" continuation.toValue
  | .route r => tagged "Route" r.toValue
  | .startPaths fork commands =>
    tagged "Fork" (.object [("commands", ofStrings commands), ("fork", .string fork)])
  | .joinPath target => tagged "JoinPath" target.toValue
  | .recordPendingApproval => bare "RecordPendingApproval"
  | .guardCorrelation approval =>
    tagged "GuardCorrelation" (.object [("approval", .string approval)])
  | .clearPendingApproval => bare "ClearPendingApproval"
  | .recordDecision => bare "RecordDecision"
  | .decide approved rejected =>
    tagged "Decide" (.object [("approved", approved.toValue), ("rejected", rejected.toValue)])
  | .captureFailure => bare "CaptureFailure"
  | .resumeFailedStep targets =>
    tagged "ResumeFailedStep" (.object [("targets", .array (targets.map ResumeTarget.toValue))])

/-- The payload of an action that has one. -/
def Action.ofPayload? (name : String) (payload : Value) : Option Action :=
  match name with
  | "SetPhase" => payload.asString?.map .setPhase
  | "Validate" => (ValidationGuard.ofValue? payload).map .validate
  | "DispatchWork" => do
    let fields ← payload.asFields?
    let workType ← required? asString? "step" fields
    let command ← required? asString? "command" fields
    return .dispatchWork workType command
  | "RouteFailure" => (FailureRoute.ofValue? payload).map .routeFailure
  | "Continue" => (Continuation.ofValue? payload).map .proceed
  | "Route" => (Route.ofValue? payload).map .route
  | "Fork" => do
    let fields ← payload.asFields?
    let fork ← required? asString? "fork" fields
    let commands ← required? (asList? asString?) "commands" fields
    return .startPaths fork commands
  | "JoinPath" => (JoinTarget.ofValue? payload).map .joinPath
  | "GuardCorrelation" =>
    (payload.asFields?.bind (required? asString? "approval")).map .guardCorrelation
  | "Decide" => do
    let fields ← payload.asFields?
    let approved ← required? Continuation.ofValue? "approved" fields
    let rejected ← required? Continuation.ofValue? "rejected" fields
    return .decide approved rejected
  | "ResumeFailedStep" =>
    (payload.asFields?.bind (required? (asList? ResumeTarget.ofValue?) "targets")).map
      .resumeFailedStep
  | _ => none

/-- The actions without payload, by name. -/
def Action.bareNames : List (String × Action) :=
  [("InitializeInstance", .createInstance), ("ApplyUpdate", .applyUpdate),
    ("RecordPendingApproval", .recordPendingApproval),
    ("ClearPendingApproval", .clearPendingApproval), ("RecordDecision", .recordDecision),
    ("CaptureFailure", .captureFailure)]

/-- An action from a value. A name of an action without payload is tried first; null counts as no
payload. -/
def Action.ofValue? (v : Value) : Option Action := do
  let (name, payload) ← v.variant?
  (oneOf? Action.bareNames v).or (Action.ofPayload? name payload)

/-- The kinds of transitions by name. -/
def TransitionKind.names : List (String × TransitionKind) :=
  [("StartFactory", .startFactory), ("StepStart", .stepStart), ("StepCompleted", .stepCompleted),
    ("ApprovalSetPending", .approvalSetPending), ("ApprovalResume", .approvalResume),
    ("ApprovalTimeout", .approvalTimeout), ("FailureTrigger", .failureTrigger)]

/-- The kind of a transition as its bare name. -/
def TransitionKind.toValue : TransitionKind → Value
  | .startFactory => bare "StartFactory"
  | .stepStart => bare "StepStart"
  | .stepCompleted => bare "StepCompleted"
  | .approvalSetPending => bare "ApprovalSetPending"
  | .approvalResume => bare "ApprovalResume"
  | .approvalTimeout => bare "ApprovalTimeout"
  | .failureTrigger => bare "FailureTrigger"

/-- The kind of a transition by its name. -/
def TransitionKind.ofValue? : Value → Option TransitionKind :=
  oneOf? TransitionKind.names

/-- A transition as a value, with its actions in the order in which they are carried out. -/
def Transition.toValue (t : Transition) : Value :=
  .object [("body", .array (t.body.map Action.toValue)), ("kind", t.kind.toValue),
    ("name", .string t.name), ("trigger", .string t.trigger)]

/-- A transition from a value. -/
def Transition.ofValue? (v : Value) : Option Transition := do
  let fields ← v.asFields?
  let name ← required? asString? "name" fields
  let kind ← required? TransitionKind.ofValue? "kind" fields
  let trigger ← required? asString? "trigger" fields
  let body ← required? (asList? Action.ofValue?) "body" fields
  return { name, kind, trigger, body }

/-- The messages of one kind for when their instance cannot be found, as a value. -/
def Fallback.toValue (f : Fallback) : Value :=
  .object [("kind", f.kind.toValue), ("messages", ofStrings f.messages)]

/-- The messages of one kind for when their instance cannot be found, from a value. -/
def Fallback.ofValue? (v : Value) : Option Fallback := do
  let fields ← v.asFields?
  let kind ← required? MessageKind.ofValue? "kind" fields
  let messages ← required? (asList? asString?) "messages" fields
  return { kind, messages }

/-- A table as a value. -/
def Table.toValue (t : Table) : Value :=
  .object [("conditions", .array (t.checks.map ExitCheck.toValue)),
    ("fields", .array (t.fields.map Field.toValue)),
    ("forks", .array (t.forks.map ForkLayout.toValue)),
    ("messages", .array (t.messages.map MessageEntry.toValue)),
    ("not_found", .array (t.fallbacks.map Fallback.toValue)), ("phases", ofStrings t.phases),
    ("process", .string t.process), ("start", t.start.toValue), ("state_type", .string t.stateType),
    ("transitions", .array (t.transitions.map Transition.toValue))]

/-- A table from a value. -/
def Table.ofValue? (v : Value) : Option Table := do
  let fields ← v.asFields?
  let process ← required? asString? "process" fields
  let stateType ← required? asString? "state_type" fields
  let phases ← required? (asList? asString?) "phases" fields
  let declared ← required? (asList? Field.ofValue?) "fields" fields
  let checks ← required? (asList? ExitCheck.ofValue?) "conditions" fields
  let messages ← required? (asList? MessageEntry.ofValue?) "messages" fields
  let forks ← required? (asList? ForkLayout.ofValue?) "forks" fields
  let start ← required? Transition.ofValue? "start" fields
  let transitions ← required? (asList? Transition.ofValue?) "transitions" fields
  let fallbacks ← required? (asList? Fallback.ofValue?) "not_found" fields
  return { process, stateType, phases, fields := declared, checks, messages, forks, start,
           transitions, fallbacks }

end Workflow
