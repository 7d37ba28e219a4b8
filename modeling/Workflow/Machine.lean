import Workflow.Collaborators
import Workflow.Instance
import Workflow.State.Routing

/-!
The machine: it runs the actions of a transition on an instance, one after another. An action goes
on, stops the transition, or raises a fault. A fault leaves what the actions before it have changed;
whoever wants all or nothing keeps the instance from before.
-/

set_option autoImplicit false

namespace Workflow

/-- What a transition hands to the host, in order. -/
inductive Effect where
  | send (message : Message)
  /-- A path of a fork has ended; once all have, the message is released. -/
  | join (fork : String) (path total : Nat) (message : Message)
  /-- The other paths of a fork are to stop. -/
  | cancelFork (fork : String)
  deriving DecidableEq, Repr

/-- An error a transition raises. -/
inductive Fault where
  | stepFailed (step : String) (failure : StepFailure)
  | unmatchedBranch (branch value : String)
  | invalidState (reason : String)
  | unexpectedMessage (name : String)
  deriving DecidableEq, Repr

/-- The wording of a fault. -/
def Fault.message : Fault → String
  | .stepFailed step failure => s!"Step '{step}' failed: {failure.message}"
  | .unmatchedBranch branch value => s!"Branch '{branch}' has no case for value '{value}'"
  | .invalidState reason => s!"Invalid state: {reason}"
  | .unexpectedMessage name => s!"No transition handles message '{name}'"

/-- A transition under way. -/
structure Run where
  inst : Instance
  /-- The failure of the completion at hand, until it is routed. -/
  failure : Option StepFailure
  effects : List Effect
  calls : List Call

/-- How an action ends. -/
inductive Flow where
  | next (run : Run)
  | stop (run : Run)
  | fault (run : Run) (fault : Fault)

namespace Run

/-- Hand something to the host. -/
def emit (r : Run) (e : Effect) : Run :=
  { r with effects := r.effects ++ [e] }

/-- Send a message with a payload. -/
def sendBody (r : Run) (name : String) (body : Body) : Run :=
  r.emit (.send ⟨name, r.inst.id, body⟩)

/-- Send a command. -/
def send (r : Run) (command : String) : Run :=
  r.sendBody command .empty

/-- Report the end of a path. -/
def report (r : Run) (j : JoinTarget) : Run :=
  r.emit (.join j.fork j.path j.total (.command j.command r.inst.id))

/-- Enter a phase. -/
def enter (r : Run) (phase : String) : Run :=
  { r with inst := { r.inst with phase } }

/-- Finish in a phase. -/
def finish (r : Run) (phase : String) : Run :=
  { r with inst := { r.inst with phase, isFinished := true } }

/-- Set a counter. -/
def setCounter (r : Run) (name : String) (n : UInt32) : Run :=
  { r with inst := { r.inst with counters := Keyed.insert name n r.inst.counters } }

/-- Set the outstanding approval request. -/
def setPending (r : Run) (pending : Option Key) : Run :=
  { r with inst := { r.inst with pendingApproval := pending } }

/-- Evaluate a condition on the state. -/
def ask (cx : Collaborators) (r : Run) (id : String) : Bool × Run :=
  let (holds, calls) := cx.conditions.ask r.calls id r.inst.state
  (holds, { r with calls })

/-- Go where a continuation leads. A loop counts first; it exits at its bound without asking its
condition. -/
def follow (cx : Collaborators) (r : Run) : Continuation → Run
  | .send command => r.send command
  | .complete => r.finish Name.completed
  | .fail => r.finish Name.failed
  | .requestApproval q =>
    (r.enter q.phase).sendBody q.event (.approvalRequested q.approval q.approverType)
  | .loop c exit =>
    let count := r.inst.counter c.counter + 1
    let counted := r.setCounter c.counter count
    if c.maxIterations ≤ count then (counted.setCounter c.counter 0).follow cx exit
    else
      let (leaves, asked) := counted.ask cx c.conditionId
      if leaves then (asked.setCounter c.counter 0).follow cx exit else asked.send c.again

/-- The fault of a message without the payload that is needed. -/
def lacks (r : Run) (m : Message) (expected : String) : Flow :=
  .fault r (.invalidState s!"message '{m.name}' does not carry {expected}")

/-- Stop the other paths of a fail-fast fork. -/
def cancel (r : Run) : Option ForkFailure → Run
  | some f => if f.failFast then r.emit (.cancelFork f.fork) else r
  | none => r

/-- Route the failure of a completion: to a handler; else, on a fork, to its end or its join; else
it is a fault. -/
def routeFailure (r : Run) (route : FailureRoute) : Flow :=
  match r.failure with
  | none => .next r
  | some failure =>
    if r.inst.phase ≠ Name.failed then .next r
    else
      let r := ({ r with failure := none }).cancel route.fork
      match route.handler, route.fork with
      | some trigger, _ =>
        .stop (r.sendBody trigger (.failureTrigger (.capture route.step failure)))
      | none, some f =>
        if f.failFast then .stop { r with inst := { r.inst with isFinished := true } }
        else .stop ((r.enter route.step).report f.join)
      | none, none => .fault r (.stepFailed route.step failure)

/-- Take the arm of the state's routing text, or the fallback. -/
def choose (cx : Collaborators) (r : Run) (route : Route) : Flow :=
  let value := State.routingText r.inst.state route.key.fieldPath
  match ((route.arms.find? (·.value = value)).map RouteArm.target).or route.fallback with
  | some target => .next (r.follow cx target)
  | none => .fault r (.unmatchedBranch route.branch value)

/-- Merge the update of a completion. -/
def merge (cx : Collaborators) (r : Run) (update : Value) (failure : Option StepFailure) : Run :=
  let merged := { r with inst := { r.inst with state := cx.reduce r.inst.state update }, failure }
  if failure.isSome then merged.enter Name.failed else merged

/-- Act on a decision. -/
def act (cx : Collaborators) (r : Run) (approved rejected : Continuation) : Decision → Run
  | .approved => (r.setPending none).follow cx approved
  | .rejected => (r.setPending none).follow cx rejected
  | .deferred => r

/-- Start the step again that the failure context names. -/
def resume (r : Run) (targets : List ResumeTarget) : Flow :=
  let failedStep := (r.inst.failureContext.map FailureContext.failedStep).getD ""
  match targets.find? (·.step = failedStep) with
  | some t => .next (r.send t.command)
  | none => .fault r (.invalidState s!"no step to resume after failure of '{failedStep}'")

/-- One action. -/
def step (cx : Collaborators) (m : Message) (r : Run) : Action → Flow
  | .createInstance => .next r
  | .setPhase phase => .next (r.enter phase)
  | .validate g =>
    let (holds, asked) := r.ask cx g.conditionId
    if holds then .next asked
    else
      .stop ((asked.enter Name.validationFailed).sendBody g.event
        (.validationFailed g.step g.message))
  | .dispatchWork workType command => .next (r.sendBody command (.work workType r.inst.state))
  | .applyUpdate =>
    match m.body with
    | .completed update failure => .next (r.merge cx update failure)
    | _ => r.lacks m "a step completion"
  | .routeFailure route => r.routeFailure route
  | .proceed continuation => .next (r.follow cx continuation)
  | .route route => r.choose cx route
  | .startPaths _ commands => .next (commands.foldl send r)
  | .joinPath target => .next (r.report target)
  | .recordPendingApproval =>
    match m.correlation? with
    | some c => .next (r.setPending (some c))
    | none => r.lacks m "a correlation id"
  | .guardCorrelation _ =>
    match m.correlation? with
    | some c => if r.inst.pendingApproval = some c then .next r else .stop r
    | none => .stop r
  | .clearPendingApproval => .next (r.setPending none)
  | .recordDecision =>
    match m.body with
    | .approvalDecided _ decision =>
      .next { r with inst := { r.inst with lastDecision := some decision } }
    | _ => r.lacks m "an approval decision"
  | .decide approved rejected =>
    match m.body with
    | .approvalDecided _ decision => .next (r.act cx approved rejected decision)
    | _ => r.lacks m "an approval decision"
  | .captureFailure =>
    match m.body with
    | .failureTrigger failure =>
      .next { r with inst := { r.inst with failureContext := some failure } }
    | _ => r.lacks m "a failure context"
  | .resumeFailedStep targets => r.resume targets

/-- The actions in order, until one stops or faults. -/
def steps (cx : Collaborators) (m : Message) (r : Run) : List Action → Flow
  | [] => .next r
  | a :: rest =>
    match r.step cx m a with
    | .next r => r.steps cx m rest
    | done => done

end Run

/-- What became of a transition: the instance as it was left, the calls so far, and the effects
unless there was a fault. -/
structure Applied where
  inst : Instance
  calls : List Call
  result : Except Fault (List Effect)

/-- The end of a flow. -/
def Flow.applied : Flow → Applied
  | .next r => ⟨r.inst, r.calls, .ok r.effects⟩
  | .stop r => ⟨r.inst, r.calls, .ok r.effects⟩
  | .fault r f => ⟨r.inst, r.calls, .error f⟩

/-- Run a transition on an instance. -/
def Transition.apply (t : Transition) (cx : Collaborators) (calls : List Call) (i : Instance)
    (m : Message) : Applied :=
  (Run.steps cx m ⟨i, none, [], calls⟩ t.body).applied

end Workflow
