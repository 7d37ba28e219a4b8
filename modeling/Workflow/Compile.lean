import Workflow.Definition.Defect
import Workflow.Lowering
import Workflow.Settings

/-!
Compilation of a definition into its transition table.

It fails in two ways only on definitions as they come: the definition has a defect, or two parties
claim one generated name. The third failure is for constructs without a step to begin with, which a
valid definition does not have.
-/

set_option autoImplicit false

namespace Workflow

/-- Why a definition does not compile. -/
inductive CompileError where
  | invalid (defect : Defect)
  | duplicateName (name first second : String)
  | nothingToStart (reason : String)
  deriving DecidableEq, Repr

/-- The wording of a compile error. -/
def CompileError.message : CompileError → String
  | .invalid defect => s!"Invalid process model: {defect.message}"
  | .duplicateName name first second =>
    s!"Generated identifier '{name}' is produced by both {first} and {second}"
  | .nothingToStart reason => s!"Code generation failed: {reason}"

/-- The fields of the process's instances: one counter per loop, and the fields of approvals and
failures only where there are some. -/
def Definition.fields (d : Definition) : List Field :=
  [⟨"instance_id", .instanceId⟩, ⟨"state", .state⟩, ⟨"phase", .phase⟩, ⟨"is_finished", .finished⟩]
    ++ (if d.approvals.isEmpty then []
      else [⟨"pending_approval_id", .pendingApproval⟩, ⟨"last_approval_decision", .approvalDecision⟩])
    ++ d.loops.map (fun l =>
      let names := d.loopNames l
      ⟨Name.iterationCounter names, .iterationCounter (Name.loopPath names)⟩)
    ++ (if d.handlers.isEmpty then [] else [⟨"failure_context", .failureContext⟩])

/-- One exit check per loop. -/
def Definition.checks (d : Definition) : List ExitCheck :=
  d.loops.map fun l =>
    let names := d.loopNames l
    ⟨Name.exitCheck names, l.conditionId, Name.loopPath names⟩

/-- The fallbacks of a list of messages: one per inbound kind that occurs, in the order of kinds. -/
def Fallback.ofMessages (messages : List MessageEntry) : List Fallback :=
  MessageKind.all.filterMap fun kind =>
    let names := (messages.filter (·.kind = kind)).map MessageEntry.name
    if kind.isInbound && !names.isEmpty then some ⟨kind, names⟩ else none

/-- The creation of an instance and the start of the first step. -/
def Definition.startFactory (d : Definition) : Except CompileError Transition :=
  match d.steps with
  | [] => .error (.nothingToStart "process has no first step")
  | first :: _ =>
    .ok ⟨"start", .startFactory, Name.startCommand d.name,
      [.createInstance, .proceed (.send (Name.startCommand first.identifier))]⟩

/-- The capture of a failure and the start of the recovery chain. -/
def Handler.trigger (h : Handler) : Except CompileError Transition :=
  match h.steps with
  | [] => .error (.nothingToStart s!"failure handler '{h.id}' has no steps")
  | first :: _ =>
    .ok (.of .failureTrigger (Name.failureTrigger h.id)
      [.captureFailure,
        .proceed (.send (Name.startCommand (Name.recoveryPhase h.id first.identifier)))])

/-- The transitions of one entry. -/
def Definition.entryTransitions (d : Definition) : Entry → Except CompileError (List Transition)
  | .step s => .ok [s.startTransition, d.completion s]
  | .approval a approved => .ok (a.transitions approved)
  | .handler h => h.trigger.map fun t => [t]

/-- The transitions of the whole plan, in order. -/
def Definition.transitions (d : Definition) : Except CompileError (List Transition) :=
  (d.plan.mapM d.entryTransitions).map List.flatten

/-- Refuse a list of claims with a clash. -/
def refuseClash (claims : List (String × String)) : Except CompileError Unit :=
  match Claim.clash? claims with
  | some (name, first, second) => .error (.duplicateName name first second)
  | none => .ok ()

/-- Refuse a definition in which a phase or message is claimed twice. -/
def Definition.checkClaims (d : Definition) : Except CompileError Unit :=
  match Claim.clash? d.claims with
  | some ((_, name), first, second) => .error (.duplicateName name first second)
  | none => .ok ()

/-- The names of the handlers with the messages they are for. Distinct messages may have one handler
name, since it is in snake case. -/
def handlerClaims (transitions : List Transition) : List (String × String) :=
  transitions.map fun t => (t.name, s!"message '{t.trigger}'")

/-- The name of the state's type. -/
def Definition.stateTypeIn (d : Definition) (s : Settings) : String :=
  d.stateType.getD s.defaultStateType

/-- The transition table of a definition. -/
def Definition.compile (d : Definition) (s : Settings) : Except CompileError Table := do
  d.validate.mapError .invalid
  d.checkClaims
  let start ← d.startFactory
  let transitions ← d.transitions
  refuseClash (handlerClaims transitions)
  return {
    process := d.name
    stateType := d.stateTypeIn s
    phases := d.phases
    fields := d.fields
    checks := d.checks
    messages := d.messages
    forks := d.forks.map d.forkLayout
    start
    transitions
    fallbacks := Fallback.ofMessages d.messages }

end Workflow
