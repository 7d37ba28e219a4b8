import Workflow.Plan

/-!
From entries of the plan to transitions.

Every site gives the same pair: a start that sets the phase, asks the guard and dispatches the work,
and a completion that merges the update, routes a failure and decides what runs next. The decision
asks the site's attachments in a fixed order: loops, branch, end of a branch path, approval, fork,
next site, end of the sequence. A gate gives three transitions, a handler one.
-/

set_option autoImplicit false

namespace Workflow

/-- The control of the loops that end at one step, innermost first. A loop without a continuation
hands over to the next one around it; the outermost completes the process. -/
def Definition.loopControl (d : Definition) : List Loop → Continuation
  | [] => .complete
  | l :: outer =>
    let names := d.loopNames l
    .loop
      { loopPath := Name.loopPath names, counter := Name.iterationCounter names
        check := Name.exitCheck names, conditionId := l.conditionId
        maxIterations := l.maxIterations, again := Name.startCommand l.firstStep }
      (match l.continuation with
        | some step => .send (Name.startCommand step)
        | none => d.loopControl outer)

/-- Where control goes after the last step of a branch path. -/
def PathEnd.continuation (e : PathEnd) : Continuation :=
  if e.path.isTerminal then .complete
  else
    match e.branch.rejoinStep with
    | some step => .send (Name.startCommand step)
    | none => .complete

/-- The first step of a case; an empty path goes straight to its end. -/
def Branch.entryOf (b : Branch) (c : Case) : Continuation :=
  match c.steps with
  | first :: _ => .send (Name.startCommand (Name.branchPhase b.loopScope c.label first.identifier))
  | [] => PathEnd.continuation ⟨b, c⟩

/-- The choice between the cases of a branch. -/
def Branch.toRoute (b : Branch) : Route where
  branch := b.id
  key := ⟨b.discriminator.fieldPath, b.discriminator.typeName, b.discriminator.isEnumerated⟩
  arms := b.literals.map fun (value, c) => ⟨value, b.entryOf c⟩
  fallback := b.fallback?.map b.entryOf

/-- Ask for an approval, and wait in its phase. -/
def Gate.request (g : Gate) : Continuation :=
  .requestApproval
    ⟨g.name, g.approverType, Name.approvalRequested g.name, Name.awaitPhase g.name⟩

/-- A refusal runs the rejection chain; without one it fails the process. -/
def Gate.rejected (g : Gate) : Continuation :=
  match g.rejectionSteps with
  | first :: _ => .send (Name.startCommand (Name.rejectionPhase g.name first.identifier))
  | [] => .fail

/-- A timeout runs steps or asks further; with nothing to run it fails the process. -/
def Approval.timedOut : Approval → Continuation
  | .failing _ => .fail
  | .running _ [] => .fail
  | .running g (first :: _) =>
    .send (Name.startCommand (Name.escalationPhase g.name first.identifier))
  | .asking _ next => next.gate.request

/-- Start the first step of every path. -/
def Fork.cascade (f : Fork) : Action :=
  .startPaths (Name.forkId f.previousStep)
    (f.paths.filterMap fun steps => steps.head?.map fun s => Name.startCommand s.identifier)

/-- What a host has to know about a fork. -/
def Definition.forkLayout (d : Definition) (f : Fork) : ForkLayout where
  id := Name.forkId f.previousStep
  trigger := Name.completedEvent f.previousStep
  joinCommand := Name.startCommand f.joinStep
  failFast := f.failFast
  paths := f.paths.mapIdx fun i steps =>
    let sites := d.pathSites f i steps
    ⟨sites.map Site.phase, sites.flatMap fun s => s.messages.map MessageEntry.name⟩

/-- Where a failure of the site goes. -/
def Site.failureRoute (s : Site) : FailureRoute :=
  ⟨s.phase, s.handler.map fun h => Name.failureTrigger h.id, s.forkPath⟩

/-- The sites a handler may be triggered from. -/
def Definition.resumeTargets (d : Definition) (h : Handler) : List ResumeTarget :=
  (d.sites.filter fun s => s.origin ≠ .recovery && s.handler = some h).map fun s =>
    ⟨s.phase, s.startCommand⟩

/-- What the last recovery step does: a terminal chain fails the process, any other starts the
failed step again. -/
def Definition.chainEnd (d : Definition) (h : Handler) : Action :=
  if h.isTerminal then .proceed .fail else .resumeFailedStep (d.resumeTargets h)

/-- What follows the end of a sequence. -/
def Definition.sequenceEnd (d : Definition) : SequenceEnd → Action
  | .complete => .proceed .complete
  | .pathEnd e => .proceed e.continuation
  | .join target => .joinPath target
  | .proceed continuation => .proceed continuation
  | .recovery h => d.chainEnd h

/-- What follows a completed site. -/
def Definition.next (d : Definition) (s : Site) : Action :=
  if s.loops ≠ [] then .proceed (d.loopControl s.loops)
  else
    match s.branch, s.pathEnd, s.approval, s.fork, s.next with
    | some b, _, _, _, _ => .route b.toRoute
    | none, some e, _, _, _ => .proceed e.continuation
    | none, none, some a, _, _ => .proceed a.gate.request
    | none, none, none, some f, _ => f.cascade
    | none, none, none, none, some stem => .proceed (.send (Name.startCommand stem))
    | none, none, none, none, none => d.sequenceEnd s.ending

/-- The transition of a message. -/
def Transition.of (kind : TransitionKind) (trigger : String) (body : List Action) : Transition :=
  ⟨Name.handlerName trigger, kind, trigger, body⟩

/-- The guard in front of a site. -/
def Site.guardActions (s : Site) : List Action :=
  match s.step.guard with
  | none => []
  | some g => [.validate ⟨s.phase, g.conditionId, g.message, s.validationFailedEvent⟩]

/-- The start of a site. -/
def Site.startTransition (s : Site) : Transition :=
  .of .stepStart s.startCommand
    (.setPhase s.phase :: s.guardActions ++ [.dispatchWork s.step.workType s.workerCommand])

/-- The completion of a site. -/
def Definition.completion (d : Definition) (s : Site) : Transition :=
  .of .stepCompleted s.completedEvent [.applyUpdate, .routeFailure s.failureRoute, d.next s]

/-- The acknowledgement, the decision and the timeout of a gate. -/
def Approval.transitions (a : Approval) (approved : Continuation) : List Transition :=
  let name := a.gate.name
  [.of .approvalSetPending (Name.approvalPending name) [.recordPendingApproval],
    .of .approvalResume (Name.approvalDecided name)
      [.guardCorrelation name, .recordDecision, .decide approved a.gate.rejected],
    .of .approvalTimeout (Name.approvalTimedOut name)
      [.guardCorrelation name, .clearPendingApproval, .proceed a.timedOut]]

end Workflow
