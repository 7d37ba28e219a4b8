/-!
Transition tables: what a definition compiles to. A table lists the phases, fields and messages of a
process, and for every message an instance consumes the transition it triggers, as a list of actions
done in order. Source generation writes a table out and the machine runs it; both give each action
the same meaning.
-/

set_option autoImplicit false

namespace Workflow

/-- What a field of an instance holds. -/
inductive FieldKind where
  | instanceId
  | state
  | phase
  | finished
  | pendingApproval
  | approvalDecision
  | iterationCounter (loopPath : String)
  | failureContext
  deriving DecidableEq, Repr

/-- A field of an instance. -/
structure Field where
  name : String
  kind : FieldKind
  deriving DecidableEq, Repr

/-- A named check whether a loop should end. -/
structure ExitCheck where
  name : String
  conditionId : String
  loopPath : String
  deriving DecidableEq, Repr

/-- What a message is for. -/
inductive MessageKind where
  | startProcess
  | startStep
  | executeWorker
  | stepCompleted
  | validationFailed
  | approvalRequested
  | approvalPending
  | approvalDecided
  | approvalTimedOut
  | failureTrigger
  deriving DecidableEq, Repr

namespace MessageKind

/-- Every kind, in order. -/
def all : List MessageKind :=
  [.startProcess, .startStep, .executeWorker, .stepCompleted, .validationFailed, .approvalRequested,
    .approvalPending, .approvalDecided, .approvalTimedOut, .failureTrigger]

/-- Whether messages of the kind ask for something; the others report something. -/
def isCommand : MessageKind → Bool
  | .startProcess | .startStep | .executeWorker | .failureTrigger => true
  | _ => false

/-- Whether an instance consumes messages of the kind. -/
def isInbound : MessageKind → Bool
  | .startStep | .stepCompleted | .approvalPending | .approvalDecided | .approvalTimedOut
  | .failureTrigger => true
  | _ => false

/-- The kind as text. -/
def label : MessageKind → String
  | .startProcess => "start_process"
  | .startStep => "start_step"
  | .executeWorker => "execute_worker"
  | .stepCompleted => "step_completed"
  | .validationFailed => "validation_failed"
  | .approvalRequested => "approval_requested"
  | .approvalPending => "approval_pending"
  | .approvalDecided => "approval_decided"
  | .approvalTimedOut => "approval_timed_out"
  | .failureTrigger => "failure_trigger"

theorem mem_all (k : MessageKind) : k ∈ all := by
  cases k <;> simp [all]

end MessageKind

/-- A declared message. -/
structure MessageEntry where
  name : String
  kind : MessageKind
  /-- The phase or approval it concerns. -/
  subject : String
  deriving DecidableEq, Repr

/-- The phases and messages of one path of a fork. -/
structure PathLayout where
  phases : List String
  messages : List String
  deriving DecidableEq, Repr

/-- What a host has to know about a fork. -/
structure ForkLayout where
  id : String
  /-- The event that starts every path. -/
  trigger : String
  /-- The command released once every path has reported. -/
  joinCommand : String
  failFast : Bool
  paths : List PathLayout
  deriving DecidableEq, Repr

/-- Where a path of a fork reports its end. -/
structure JoinTarget where
  fork : String
  path : Nat
  /-- How many paths the fork has. -/
  total : Nat
  command : String
  deriving DecidableEq, Repr

/-- The decision taken at the end of a loop's body, apart from where an exit leads. -/
structure LoopControl where
  loopPath : String
  counter : String
  check : String
  conditionId : String
  maxIterations : UInt32
  /-- The command that starts the body again. -/
  again : String
  deriving DecidableEq, Repr

/-- A request for an approval. -/
structure ApprovalRequest where
  approval : String
  approverType : String
  event : String
  phase : String
  deriving DecidableEq, Repr

/-- Where control goes next. -/
inductive Continuation where
  /-- Start a step. -/
  | send (command : String)
  | complete
  | fail
  /-- Repeat the body, or leave it for `exit`. -/
  | loop (control : LoopControl) (exit : Continuation)
  | requestApproval (request : ApprovalRequest)
  deriving DecidableEq, Repr

/-- The predicate in front of a step. -/
structure ValidationGuard where
  step : String
  conditionId : String
  message : String
  event : String
  deriving DecidableEq, Repr

/-- What a failure does on a path of a fork. -/
structure ForkFailure where
  fork : String
  failFast : Bool
  join : JoinTarget
  deriving DecidableEq, Repr

/-- Where a failure of a step goes. -/
structure FailureRoute where
  /-- The phase of the failing step. -/
  step : String
  /-- The command of the handler, where one applies. -/
  handler : Option String
  fork : Option ForkFailure
  deriving DecidableEq, Repr

/-- What a route switches on. -/
structure RouteKey where
  fieldPath : String
  typeName : String
  enumerated : Bool
  deriving DecidableEq, Repr

/-- The target of one discriminator value. -/
structure RouteArm where
  value : String
  target : Continuation
  deriving DecidableEq, Repr

/-- An exclusive choice; without a fallback an unmatched value is an error. -/
structure Route where
  branch : String
  key : RouteKey
  arms : List RouteArm
  fallback : Option Continuation
  deriving DecidableEq, Repr

/-- A step that recovery may start again. -/
structure ResumeTarget where
  /-- The phase recorded as the failed step. -/
  step : String
  command : String
  deriving DecidableEq, Repr

/-- One effect of a transition. -/
inductive Action where
  /-- Create the instance. -/
  | createInstance
  | setPhase (phase : String)
  /-- Stop unless the predicate holds. -/
  | validate (guard : ValidationGuard)
  /-- Hand work to the executor. -/
  | dispatchWork (workType command : String)
  /-- Merge the update of a completion; a failure in it sets the failed phase. -/
  | applyUpdate
  | routeFailure (route : FailureRoute)
  | proceed (continuation : Continuation)
  | route (route : Route)
  /-- Start every path of a fork. -/
  | startPaths (fork : String) (commands : List String)
  /-- Report the end of a path. -/
  | joinPath (target : JoinTarget)
  | recordPendingApproval
  /-- Stop unless the message carries the outstanding correlation id. -/
  | guardCorrelation (approval : String)
  | clearPendingApproval
  | recordDecision
  /-- Act on a decision; a deferred one keeps the request open. -/
  | decide (approved rejected : Continuation)
  | captureFailure
  /-- Start the step again that the failure context names. -/
  | resumeFailedStep (targets : List ResumeTarget)
  deriving DecidableEq, Repr

/-- What a transition is for. -/
inductive TransitionKind where
  | startFactory
  | stepStart
  | stepCompleted
  | approvalSetPending
  | approvalResume
  | approvalTimeout
  | failureTrigger
  deriving DecidableEq, Repr

/-- The actions a message triggers. -/
structure Transition where
  /-- The name of the generated handler. -/
  name : String
  kind : TransitionKind
  trigger : String
  body : List Action
  deriving DecidableEq, Repr

/-- The messages of one kind, for when their instance cannot be found. -/
structure Fallback where
  kind : MessageKind
  messages : List String
  deriving DecidableEq, Repr

/-- Everything generated for one process. -/
structure Table where
  process : String
  stateType : String
  phases : List String
  fields : List Field
  checks : List ExitCheck
  messages : List MessageEntry
  forks : List ForkLayout
  start : Transition
  transitions : List Transition
  fallbacks : List Fallback
  deriving DecidableEq, Repr

namespace Table

/-- The transition a message triggers. -/
def transitionFor? (t : Table) (message : String) : Option Transition :=
  t.transitions.find? (·.trigger = message)

/-- The declaration of a message. -/
def message? (t : Table) (name : String) : Option MessageEntry :=
  t.messages.find? (·.name = name)

/-- The kind of a declared message. -/
def kindOf? (t : Table) (name : String) : Option MessageKind :=
  (t.message? name).map MessageEntry.kind

/-- The transitions of one kind. -/
def transitionsOf (t : Table) (kind : TransitionKind) : List Transition :=
  t.transitions.filter (·.kind = kind)

/-- Whether a phase is declared. -/
def hasPhase (t : Table) (phase : String) : Bool :=
  phase ∈ t.phases

/-- The fork and the path a message belongs to, where it drives a step on a path. -/
def pathOf? (t : Table) (message : String) : Option (ForkLayout × Nat) :=
  t.forks.findSome? fun f => (f.paths.findIdx? (message ∈ ·.messages)).map (f, ·)

/-- The fork a message belongs to. -/
def forkOf? (t : Table) (message : String) : Option ForkLayout :=
  t.forks.find? fun f => f.paths.any (message ∈ ·.messages)

/-- The fallback of a kind. -/
def fallbackFor? (t : Table) (kind : MessageKind) : Option Fallback :=
  t.fallbacks.find? (·.kind = kind)

end Table

end Workflow
