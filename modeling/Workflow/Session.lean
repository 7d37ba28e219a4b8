import Workflow.Host.Error

/-!
Sessions: everything that changes while a process runs. A session holds the instances, the queue,
the bookkeeping of forks, and the logs of what has happened. Nothing here asks the transition
table; what a message leads to is for the host to say.
-/

set_option autoImplicit false

namespace Workflow

/-- An approval request that the host has recorded. -/
structure ApprovalRecord where
  instanceId : Key
  approval : String
  approverType : String
  correlation : Key
  deriving DecidableEq, Repr

/-- A message whose instance was not there. -/
structure DeadLetter where
  kind : MessageKind
  message : String
  instanceId : Key
  deriving DecidableEq, Repr

/-- A message that was refused, or whose transition raised a fault. -/
structure FaultRecord where
  instanceId : Key
  message : String
  fault : Fault
  deriving DecidableEq, Repr

/-- The paths of a fork that have reported, and whether the join was released. -/
structure JoinState where
  reported : List Nat
  released : Bool
  deriving DecidableEq, Repr

/-- No path has reported. -/
def JoinState.empty : JoinState := ⟨[], false⟩

/-- What a host holds while its process runs. Logs are in the order things happened. -/
structure Session where
  running : Store Key Instance
  finished : Store Key Instance
  queue : List Message
  joins : Store (Key × String) JoinState
  /-- Cancelled forks, with the path whose failure cancelled them. -/
  cancelled : Store (Key × String) Nat
  approvals : List ApprovalRecord
  /-- Events for the outside. -/
  events : List Message
  delivered : List Message
  /-- Messages of cancelled paths. -/
  dropped : List Message
  deadLetters : List DeadLetter
  faults : List FaultRecord
  calls : List Call
  /-- How many keys of instances the host has made up. -/
  autos : Nat
  deriving DecidableEq, Repr

/-- Nothing has happened yet. -/
def Session.initial : Session :=
  ⟨[], [], [], [], [], [], [], [], [], [], [], [], 0⟩

namespace Session

/-- An instance, running or finished. -/
def inst? (s : Session) (id : Key) : Option Instance :=
  (Store.get? id s.running).or (Store.get? id s.finished)

/-- Whether an instance is running. -/
def isRunning (s : Session) (id : Key) : Bool :=
  Store.contains id s.running

/-- Queue a message. -/
def send (s : Session) (m : Message) : Session :=
  { s with queue := s.queue ++ [m] }

/-- Record a fault. -/
def fault (s : Session) (m : Message) (f : Fault) : Session :=
  { s with faults := s.faults ++ [⟨m.instanceId, m.name, f⟩] }

/-- The latest request of a gate for an instance. -/
def latestRequest (s : Session) (id : Key) (approval : String) : Except HostError Key :=
  if (s.inst? id).isNone then .error (.unknownInstance id)
  else
    match s.approvals.reverse.find? fun r => r.instanceId = id && r.approval = approval with
    | some r => .ok r.correlation
    | none => .error (.noApprovalRequest id approval)

/-- Send a decision with a correlation id, which may be out of date. -/
def decideWith (s : Session) (id : Key) (approval : String) (correlation : Key)
    (decision : Decision) : Session :=
  s.send ⟨Name.approvalDecided approval, id, .approvalDecided correlation decision⟩

/-- Decide the latest request of a gate. -/
def decide (s : Session) (id : Key) (approval : String) (decision : Decision) :
    Except HostError (Key × Session) :=
  (s.latestRequest id approval).map fun c => (c, s.decideWith id approval c decision)

/-- Send a timeout with a correlation id, which may be out of date. -/
def timeOutWith (s : Session) (id : Key) (approval : String) (correlation : Key) : Session :=
  s.send ⟨Name.approvalTimedOut approval, id, .approvalTimedOut correlation⟩

/-- Time out the latest request of a gate. -/
def timeOut (s : Session) (id : Key) (approval : String) : Except HostError (Key × Session) :=
  (s.latestRequest id approval).map fun c => (c, s.timeOutWith id approval c)

/-- Record an approval request, and acknowledge it with its correlation id. -/
def recordRequest (s : Session) (r : ApprovalRecord) : Session :=
  let s := s.send ⟨Name.approvalPending r.approval, r.instanceId, .approvalPending r.correlation⟩
  { s with approvals := s.approvals ++ [r] }

/-- Log an event for the outside. -/
def publish (s : Session) (m : Message) : Session :=
  { s with events := s.events ++ [m] }

/-- A path reports to its join; the report that completes the paths releases the message. -/
def join (s : Session) (fork : String) (path total : Nat) (m : Message) : Session :=
  let key := (m.instanceId, fork)
  let state := (Store.get? key s.joins).getD .empty
  let reported := if path ∈ state.reported then state.reported else path :: state.reported
  if total ≤ reported.length ∧ state.released = false then
    ({ s with joins := Store.insert key ⟨reported, true⟩ s.joins }).send m
  else { s with joins := Store.insert key ⟨reported, state.released⟩ s.joins }

/-- Move a finished instance to where it no longer receives messages. -/
def retire (s : Session) (id : Key) : Session :=
  match Store.get? id s.running with
  | some i =>
    { s with running := Store.erase id s.running, finished := Store.insert id i s.finished }
  | none => s

end Session

end Workflow
