import Workflow.Name
import Workflow.Settings
import Workflow.Source
import Workflow.Table
import Workflow.Text.Fingerprint
import Workflow.Text.Quoted

/-!
The source text of a table: types for its phases, messages and instances, one function per
transition, a dispatcher and the fallback for messages without an instance. The text depends on the
table and the settings alone. Free texts stand in it as quoted texts only.
-/

set_option autoImplicit false

namespace Workflow.Source

/-- What every part of a rendering refers to. -/
structure Style where
  settings : Settings
  /-- The generated type of phases. -/
  phases : String
  /-- The generated type of messages. -/
  messages : String

/-- The style of a table under some settings. -/
def Style.of (settings : Settings) (t : Table) : Style :=
  ⟨settings, Name.phaseType t.process, Name.messageType t.process⟩

namespace Style

/-- A doc comment, where there are to be some. -/
def doc (s : Style) (text : String) : List Piece :=
  if s.settings.docComments then [.line s!"/// {text}"] else []

/-- The traits a type derives. -/
def derives (s : Style) (base : String) : List Piece :=
  if s.settings.deriveCodecs then
    [.line s!"#[derive({base}, serde::Serialize, serde::Deserialize)]"]
  else [.line s!"#[derive({base})]"]

/-- A heading with a rule that fills the line. -/
def heading (title : String) : List Piece :=
  let rule := String.ofList (List.replicate (60 - title.length) '─')
  [.line s!"// ── {title} {rule}", .blank]

/-- Set the phase. -/
def setPhase (s : Style) (phase : String) : Piece :=
  .line s!"self.phase = {s.phases}::{phase};"

/-- Send a message with the payload that follows its instance. -/
def sendWith (s : Style) (receiver message payload : String) : Piece :=
  .line <| s!"out.push(Outbound::Send({s.messages}::{message}({message} \x7b "
    ++ s!"instance_id: {receiver}.instance_id{payload} \x7d)));"

/-- Send a message without payload. -/
def send (s : Style) (receiver command : String) : Piece :=
  s.sendWith receiver command ""

/-- A text that the generated source owns. -/
def owned (text : String) : String :=
  Text.quoted text ++ ".to_string()"

/-- Report the end of a path. -/
def join (s : Style) (j : JoinTarget) : Piece :=
  .line <| s!"out.push(Outbound::Join \x7b fork: {owned j.fork}, path: {j.path}, of: {j.total}, "
    ++ s!"message: {s.messages}::{j.command}({j.command} \x7b instance_id: self.instance_id \x7d) \x7d);"

/-- Where control goes next. -/
def continuation (s : Style) (receiver : String) : Continuation → List Piece
  | .send command => [s.send receiver command]
  | .complete => [s.setPhase Name.completed, .line "self.is_finished = true;"]
  | .fail => [s.setPhase Name.failed, .line "self.is_finished = true;"]
  | .loop c exit =>
    [.line s!"self.{c.counter} += 1;",
      .block s!"if self.{c.counter} >= {c.maxIterations.toNat} || self.{c.check}(cx)",
      .line s!"self.{c.counter} = 0;"]
    ++ s.continuation "self" exit
    ++ [.closing "", .block "else", s.send "self" c.again, .closing ""]
  | .requestApproval r =>
    [s.setPhase r.phase,
      s.sendWith "self" r.event
        s!", approval: {owned r.approval}, approver_type: {owned r.approverType}"]

/-- The choice between the arms of a route. -/
def route (s : Style) (r : Route) : List Piece :=
  let arm (label : String) (target : Continuation) : List Piece :=
    .block s!"{label} =>" :: s.continuation "self" target ++ [.closing ""]
  let path := Text.quoted r.key.fieldPath
  .block s!"match discriminator_value(&self.state, {path}).as_str()"
    :: r.arms.flatMap (fun a => arm (Text.quoted a.value) a.target)
    ++ (match r.fallback with
      | some target => arm "_" target
      | none =>
        [.block "value =>",
          .line <| s!"return Err(ProcessError::UnmatchedBranch \x7b branch: {owned r.branch}, "
            ++ "value: value.to_string() \x7d);",
          .closing ""])
    ++ [.closing ""]

/-- What a failure does once the fork, if any, has been cancelled. -/
def failureTarget (s : Style) (r : FailureRoute) : List Piece :=
  match r.handler, r.fork with
  | some trigger, _ =>
    [s.sendWith "self" trigger
        s!", failure: FailureContext::capture({Text.quoted r.step}, &failure)",
      .line "return Ok(out);"]
  | none, some f =>
    (if f.failFast then [.line "self.is_finished = true;"] else [s.setPhase r.step, s.join f.join])
      ++ [.line "return Ok(out);"]
  | none, none =>
    [.line s!"return Err(ProcessError::StepFailed \x7b step: {owned r.step}, failure \x7d);"]

/-- Where a failure goes. -/
def routeFailure (s : Style) (r : FailureRoute) : List Piece :=
  [.block s!"if self.phase == {s.phases}::{Name.failed}", .block "if let Some(failure) = failure"]
    ++ (match r.fork with
      | some f =>
        if f.failFast then
          [.line s!"out.push(Outbound::CancelFork \x7b fork: {owned f.fork} \x7d);"]
        else []
      | none => [])
    ++ s.failureTarget r
    ++ [.closing "", .closing ""]

/-- The first value of a field. -/
def firstValue (s : Style) : FieldKind → String
  | .instanceId => "message.instance_id"
  | .state => "message.state"
  | .phase => s!"{s.phases}::{Name.notStarted}"
  | .finished => "false"
  | .iterationCounter _ => "0"
  | .pendingApproval => "None"
  | .approvalDecision => "None"
  | .failureContext => "None"

/-- The type of a field. -/
def fieldType (s : Style) : FieldKind → String
  | .instanceId => "InstanceId"
  | .state => "State"
  | .phase => s.phases
  | .finished => "bool"
  | .pendingApproval => "Option<CorrelationId>"
  | .approvalDecision => "Option<ApprovalDecision>"
  | .iterationCounter _ => "u32"
  | .failureContext => "Option<FailureContext>"

/-- Create the instance. -/
def creation (s : Style) (fields : List Field) : List Piece :=
  .block "let process = Self"
    :: fields.map (fun f => .line s!"{f.name}: {s.firstValue f.kind},")
    ++ [.closing ";"]

/-- One action. -/
def action (s : Style) (fields : List Field) : Action → List Piece
  | .createInstance => s.creation fields
  | .setPhase phase => [s.setPhase phase]
  | .validate g =>
    [.block s!"if !cx.conditions.evaluate({Text.quoted g.conditionId}, &self.state)",
      s.setPhase Name.validationFailed,
      s.sendWith "self" g.event s!", step: {owned g.step}, message: {owned g.message}",
      .line "return Ok(out);",
      .closing ""]
  | .dispatchWork workType command =>
    [s.sendWith "self" command s!", step: {owned workType}, state: self.state.clone()"]
  | .applyUpdate =>
    [.line "let failure = message.failure;",
      .line "self.state = cx.reducer.reduce(&self.state, message.update);",
      .block "if failure.is_some()",
      s.setPhase Name.failed,
      .closing ""]
  | .routeFailure r => s.routeFailure r
  | .proceed c => s.continuation "self" c
  | .route r => s.route r
  | .startPaths _ commands => commands.map (s.send "self")
  | .joinPath target => [s.join target]
  | .recordPendingApproval => [.line "self.pending_approval_id = Some(message.correlation_id);"]
  | .guardCorrelation approval =>
    [.line s!"// Stale or duplicate signal for `{approval}`: the request it answers is gone",
      .block "if self.pending_approval_id != Some(message.correlation_id)",
      .line "return Ok(out);",
      .closing ""]
  | .clearPendingApproval => [.line "self.pending_approval_id = None;"]
  | .recordDecision => [.line "self.last_approval_decision = Some(message.decision);"]
  | .decide approved rejected =>
    [.block "match message.decision", .block "ApprovalDecision::Approved =>",
      .line "self.pending_approval_id = None;"]
    ++ s.continuation "self" approved
    ++ [.closing "", .block "ApprovalDecision::Rejected =>",
      .line "self.pending_approval_id = None;"]
    ++ s.continuation "self" rejected
    ++ [.closing "", .line "ApprovalDecision::Deferred => \x7b\x7d", .closing ""]
  | .captureFailure => [.line "self.failure_context = Some(message.failure);"]
  | .resumeFailedStep targets =>
    [.line <| "let failed_step = self.failure_context.as_ref()"
        ++ ".map(|f| f.failed_step.clone()).unwrap_or_default();",
      .block "match failed_step.as_str()"]
    ++ targets.flatMap (fun t =>
      [.block s!"{Text.quoted t.step} =>", s.send "self" t.command, .closing ""])
    ++ [.line <| "other => return Err(ProcessError::InvalidState(format!(\"no step to resume "
        ++ "after failure of '\x7b\x7d'\", other))),",
      .closing ""]

/-- What a transition does, for its doc comment. -/
def summary : TransitionKind → String
  | .startFactory => "Start the process"
  | .stepStart => "Start a step"
  | .stepCompleted => "Merge a step's result and move on"
  | .approvalSetPending => "Record the outstanding approval request"
  | .approvalResume => "Act on an approval decision"
  | .approvalTimeout => "Escalate an approval that timed out"
  | .failureTrigger => "Capture a failure and start recovery"

/-- The function of one transition. -/
def transition (s : Style) (fields : List Field) (t : Transition) : List Piece :=
  s.doc s!"{summary t.kind} (`{t.trigger}`)"
    ++ [.block <| s!"pub fn {t.name}(&mut self, message: {t.trigger}, cx: &Collaborators<'_, State>) "
        ++ s!"-> Result<Vec<Outbound<{s.messages}>>, ProcessError>",
      .line "let mut out = Vec::new();"]
    ++ t.body.flatMap (s.action fields)
    ++ [.line "Ok(out)", .closing "", .blank]

/-- One action of the start; actions on an instance that is not there yet have no place in it. -/
def startAction (s : Style) (fields : List Field) : Action → List Piece
  | .createInstance => s.creation fields
  | .proceed c => s.continuation "process" c
  | _ => []

/-- The function that creates an instance. -/
def startFactory (s : Style) (fields : List Field) (start : Transition) : List Piece :=
  s.doc "Create an instance and dispatch its first step"
    ++ [.block s!"pub fn start(message: {start.trigger}) -> (Self, Vec<Outbound<{s.messages}>>)",
      .line "let mut out = Vec::new();"]
    ++ start.body.flatMap (s.startAction fields)
    ++ [.line "(process, out)", .closing "", .blank]

/-- The head of the text. -/
def header (s : Style) (t : Table) : List Piece :=
  [.line s!"//! State machine for the `{t.process}` process.",
    .line "//!",
    .line "//! @generated by procflow-codegen. Do not edit by hand.",
    .blank,
    .line <| "#![allow(non_snake_case, non_camel_case_types, unused_imports, unused_mut, "
      ++ "unused_variables, unreachable_patterns)]",
    .blank,
    .opening s!"use {s.settings.runtimePath}::\x7b",
    .line <| "discriminator_value, ApprovalDecision, Collaborators, CorrelationId, "
      ++ "FailureContext,",
    .line "InstanceId, NotFound, Outbound, ProcessError, StepFailure,",
    .closing ";",
    .blank]
    ++ s.doc "State carried by every instance"
    ++ [.line s!"pub type State = {t.stateType};", .blank]

/-- The type of phases. -/
def phaseType (s : Style) (t : Table) : List Piece :=
  heading "Phases"
    ++ s.doc s!"Phases of the `{t.process}` process"
    ++ s.derives "Clone, Copy, Debug, PartialEq, Eq, Hash"
    ++ [.block s!"pub enum {s.phases}"]
    ++ t.phases.map (fun p => .line s!"{p},")
    ++ [.closing "", .blank]

/-- The fields of a message beside its instance. -/
def payload : MessageKind → List String
  | .startProcess => ["pub state: State,"]
  | .startStep => []
  | .executeWorker => ["pub step: String,", "pub state: State,"]
  | .stepCompleted => ["pub update: State,", "pub failure: Option<StepFailure>,"]
  | .validationFailed => ["pub step: String,", "pub message: String,"]
  | .approvalRequested => ["pub approval: String,", "pub approver_type: String,"]
  | .approvalPending => ["pub correlation_id: CorrelationId,"]
  | .approvalTimedOut => ["pub correlation_id: CorrelationId,"]
  | .approvalDecided => ["pub correlation_id: CorrelationId,", "pub decision: ApprovalDecision,"]
  | .failureTrigger => ["pub failure: FailureContext,"]

/-- The type of one message. -/
def messageStruct (s : Style) (m : MessageEntry) : List Piece :=
  let role := if m.kind.isCommand then "Command" else "Event"
  s.doc s!"{role} ({m.kind.label}) for `{m.subject}`"
    ++ s.derives "Clone, Debug"
    ++ [.block s!"pub struct {m.name}", .line "pub instance_id: InstanceId,"]
    ++ (payload m.kind).map .line
    ++ [.closing "", .blank]

/-- The types of all messages, and the type that holds any of them. -/
def messageTypes (s : Style) (t : Table) : List Piece :=
  heading "Messages"
    ++ t.messages.flatMap s.messageStruct
    ++ s.doc s!"Every message of the `{t.process}` process"
    ++ s.derives "Clone, Debug"
    ++ [.block s!"pub enum {s.messages}"]
    ++ t.messages.map (fun m => .line s!"{m.name}({m.name}),")
    ++ [.closing "", .blank, .block s!"impl {s.messages}",
      .block "pub fn name(&self) -> &'static str", .block "match self"]
    ++ t.messages.map (fun m => .line s!"Self::{m.name}(_) => {Text.quoted m.name},")
    ++ [.closing "", .closing "", .blank, .block "pub fn instance_id(&self) -> InstanceId",
      .block "match self"]
    ++ t.messages.map (fun m => .line s!"Self::{m.name}(m) => m.instance_id,")
    ++ [.closing "", .closing "", .closing "", .blank]

/-- The type of instances. -/
def processStruct (s : Style) (t : Table) : List Piece :=
  heading "Process"
    ++ s.doc s!"One durable instance of the `{t.process}` process"
    ++ s.derives "Clone, Debug"
    ++ [.block s!"pub struct {Name.processType t.process}"]
    ++ t.fields.map (fun f => .line s!"pub {f.name}: {s.fieldType f.kind},")
    ++ [.closing "", .blank]

/-- The function of one exit check. -/
def exitCheck (s : Style) (c : ExitCheck) : List Piece :=
  s.doc s!"Exit check of the `{c.loopPath}` loop"
    ++ [.block s!"pub fn {c.name}(&self, cx: &Collaborators<'_, State>) -> bool",
      .line s!"cx.conditions.evaluate({Text.quoted c.conditionId}, &self.state)",
      .closing "", .blank]

/-- The function that finds the transition of a message. -/
def dispatcher (s : Style) (t : Table) : List Piece :=
  s.doc "Route a message to its transition"
    ++ [.block <| s!"pub fn handle(&mut self, message: {s.messages}, cx: &Collaborators<'_, State>) "
        ++ s!"-> Result<Vec<Outbound<{s.messages}>>, ProcessError>",
      .block "match message"]
    ++ t.transitions.map (fun x =>
      .line s!"{s.messages}::{x.trigger}(message) => self.{x.name}(message, cx),")
    ++ [.line "other => Err(ProcessError::UnexpectedMessage(other.name().to_string())),",
      .closing "", .closing "", .blank]

/-- The function for messages whose instance is not there. -/
def notFound (s : Style) (t : Table) : List Piece :=
  let arm (f : Fallback) : Piece :=
    let patterns := f.messages.map fun m => s!"{s.messages}::{m}(_)"
    let joined := String.intercalate " | " patterns
    .line s!"{joined} => {Text.quoted f.kind.label},"
  s.doc "Record a message whose instance no longer exists"
    ++ [.block s!"pub fn not_found(message: &{s.messages}) -> Option<NotFound>",
      .block "let kind = match message"]
    ++ t.fallbacks.map arm
    ++ [.line "_ => return None,", .closing ";",
      .line "Some(NotFound::new(kind, message.name(), message.instance_id()))", .closing ""]

/-- The functions of instances. -/
def processImpl (s : Style) (t : Table) : List Piece :=
  [.block s!"impl {Name.processType t.process}"]
    ++ t.checks.flatMap s.exitCheck
    ++ s.startFactory t.fields t.start
    ++ t.transitions.flatMap (s.transition t.fields)
    ++ s.dispatcher t
    ++ s.notFound t
    ++ [.closing ""]

/-- The whole text, piece by piece. -/
def pieces (s : Style) (t : Table) : List Piece :=
  s.header t ++ s.phaseType t ++ s.messageTypes t ++ s.processStruct t ++ s.processImpl t

end Style

/-- The source text of a table. -/
def render (settings : Settings) (t : Table) : String :=
  write settings.indentWidth ((Style.of settings t).pieces t)

/-- Generated source, with a digest of it for the detection of changes. -/
structure Generated where
  process : String
  content : String
  fingerprint : String
  deriving DecidableEq, Repr

/-- The digest is that of the content. -/
def Generated.ofContent (process content : String) : Generated :=
  ⟨process, content, Text.fingerprint content⟩

/-- The length of the content in bytes. -/
def Generated.size (g : Generated) : Nat :=
  g.content.utf8ByteSize

/-- Render a table. -/
def generate (settings : Settings) (t : Table) : Generated :=
  .ofContent t.process (render settings t)

end Workflow.Source
