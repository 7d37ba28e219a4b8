import Workflow.Session

/-!
The host of one process: it keeps the instances, delivers queued messages first come first served,
runs work, counts the paths that reach a join, and stands in for the approval service.

A transition runs on a copy of its instance and is committed only when it succeeds. `Host` is what
stays fixed while a process runs, `Session` all that changes.
-/

set_option autoImplicit false

namespace Workflow

/-- Create an instance from a start message and run the start of the table on it. -/
def Table.begin (t : Table) (cx : Collaborators) (calls : List Call) (m : Message) :
    Except HostError (Instance × List Effect) × List Call :=
  match m.body with
  | .start state =>
    let applied := t.start.apply cx calls (.fresh t m.instanceId state) m
    match applied.result with
    | .ok effects => (.ok (applied.inst, effects), applied.calls)
    | .error fault => (.error (.process fault), applied.calls)
  | _ => (.error (.unexpectedBody m.name "an initial state"), calls)

/-- Assigns the correlation id of an instance's new request, in view of the requests before it. -/
abbrev Correlator := List ApprovalRecord → Key → Key

/-- The correlator that counts the requests of the host. -/
def Correlator.counting : Correlator := fun earlier _ => .request (earlier.length + 1)

/-- What a host is made of. -/
structure Host where
  table : Table
  collaborators : Collaborators
  executor : Executor
  correlator : Correlator
  /-- How many messages one drain may deliver. -/
  deliveryLimit : Nat

namespace Host

/-- Whether a message belongs to a path of a fork that another path has cancelled. -/
def isCancelled (h : Host) (s : Session) (m : Message) : Bool :=
  match h.table.pathOf? m.name with
  | some (fork, path) => (Store.get? (m.instanceId, fork.id) s.cancelled).any (· ≠ path)
  | none => false

/-- Cancel the paths of a fork beside the one the cause belongs to, and drop their messages. -/
def cancelFork (h : Host) (s : Session) (cause : Message) (fork : String) : Session :=
  match h.table.pathOf? cause.name with
  | none => s
  | some (_, path) =>
    let s := { s with cancelled := Store.insert (cause.instanceId, fork) path s.cancelled }
    { s with
      queue := s.queue.filter (fun m => !h.isCancelled s m)
      dropped := s.dropped ++ s.queue.filter (h.isCancelled s) }

/-- Pass on a message of a transition: requests go to the approval service and outside, refusals to
run go outside, everything else is queued. -/
def dispatch (h : Host) (s : Session) (m : Message) : Session :=
  match h.table.kindOf? m.name with
  | some .approvalRequested =>
    match m.body with
    | .approvalRequested approval approverType =>
      let correlation := h.correlator s.approvals m.instanceId
      (s.recordRequest ⟨m.instanceId, approval, approverType, correlation⟩).publish m
    | _ => s.publish m
  | some .validationFailed => s.publish m
  | _ => s.send m

/-- One effect of the transition of a message. -/
def effect (h : Host) (cause : Message) (s : Session) : Effect → Session
  | .send m => h.dispatch s m
  | .join fork path total m => s.join fork path total m
  | .cancelFork fork => h.cancelFork s cause fork

/-- The effects of the transition of a message, in order. -/
def effects (h : Host) (cause : Message) (s : Session) (es : List Effect) : Session :=
  es.foldl (h.effect cause) s

/-- A fork starts over each time its trigger completes. -/
def resetForks (h : Host) (s : Session) (m : Message) : Session :=
  h.table.forks.foldl (fun s f =>
    if f.trigger = m.name then
      { s with
        joins := Store.erase (m.instanceId, f.id) s.joins
        cancelled := Store.erase (m.instanceId, f.id) s.cancelled }
    else s) s

/-- Run the work of a message and queue its completion. -/
def work (h : Host) (s : Session) (m : Message) : Session :=
  match m.body with
  | .work workType state =>
    match Name.workerStem? m.name with
    | none => s.fault m (.unexpectedMessage m.name)
    | some stem =>
      let (result, calls) := h.executor.run s.calls workType state
      let body :=
        match result with
        | .ok update => Body.completed update none
        | .error failure => Body.completed .null (some failure)
      ({ s with calls }).send ⟨Name.completedEvent stem, m.instanceId, body⟩
  | _ => s.fault m (.invalidState s!"'{m.name}' carries no work")

/-- Record a message whose instance is not there, where its kind has a fallback. -/
def notFound (h : Host) (s : Session) (kind : MessageKind) (m : Message) : Session :=
  if (h.table.fallbackFor? kind).isSome then
    { s with deadLetters := s.deadLetters ++ [⟨kind, m.name, m.instanceId⟩] }
  else s

/-- Commit a transition that succeeded. -/
def commit (h : Host) (s : Session) (m : Message) (i : Instance) (es : List Effect) : Session :=
  let s := h.resetForks s m
  let s := { s with running := Store.insert m.instanceId i s.running }
  let s := h.effects m s es
  if i.isFinished then s.retire m.instanceId else s

/-- Run the transition of a message on its instance. -/
def transact (h : Host) (s : Session) (m : Message) (i : Instance) (t : Transition) : Session :=
  let applied := t.apply h.collaborators s.calls i m
  let s := { s with calls := applied.calls }
  match applied.result with
  | .ok es => h.commit s m applied.inst es
  | .error f => s.fault m f

/-- Deliver one message. -/
def deliver (h : Host) (s : Session) (m : Message) : Session :=
  if h.isCancelled s m then { s with dropped := s.dropped ++ [m] }
  else
    match h.table.kindOf? m.name with
    | none => s.fault m (.unexpectedMessage m.name)
    | some kind =>
      let s := { s with delivered := s.delivered ++ [m] }
      if kind = .executeWorker then h.work s m
      else
        match Store.get? m.instanceId s.running with
        | none => h.notFound s kind m
        | some i =>
          match h.table.transitionFor? m.name with
          | none => s.fault m (.unexpectedMessage m.name)
          | some t => h.transact s m i t

/-- Deliver the first message of the queue, if there is one. -/
def deliverNext (h : Host) (s : Session) : Bool × Session :=
  match s.queue with
  | [] => (false, s)
  | m :: rest => (true, h.deliver { s with queue := rest } m)

/-- Deliver until the queue is empty or the limit is reached; `fuel` is how many deliveries the limit
still allows, of which there is always one. -/
def drain (h : Host) : Nat → Nat → Session → Except HostError Nat × Session
  | fuel, count, s =>
    match s.queue, fuel with
    | [], _ => (.ok count, s)
    | _ :: _, 0 => (.error (.deliveryLimit h.deliveryLimit), s)
    | m :: rest, fuel + 1 => h.drain fuel (count + 1) (h.deliver { s with queue := rest } m)

/-- Deliver until the queue is empty: how many messages that took, unless it is too many. -/
def run (h : Host) (s : Session) : Except HostError Nat × Session :=
  h.drain (max h.deliveryLimit 1) 0 s

/-- Start an instance under a key. -/
def start (h : Host) (s : Session) (id : Key) (state : Value) : Except HostError Unit × Session :=
  let m : Message := ⟨Name.startCommand h.table.process, id, .start state⟩
  let (result, calls) := h.table.begin h.collaborators s.calls m
  let s := { s with calls }
  match result with
  | .error e => (.error e, s)
  | .ok (i, es) =>
    let s := { s with
      running := Store.insert id i s.running
      delivered := s.delivered ++ [m] }
    (.ok (), h.effects m s es)

/-- Start an instance under a key of the host's own making. -/
def startAuto (h : Host) (s : Session) (state : Value) : Except HostError Key × Session :=
  let id := Key.auto (s.autos + 1)
  match h.start s id state with
  | (.ok (), s) => (.ok id, { s with autos := s.autos + 1 })
  | (.error e, s) => (.error e, s)

/-- The host as text. -/
def describe (h : Host) (s : Session) : String :=
  s!"ProcessHost \x7b process: {Text.quoted h.table.process}, running: {s.running.length}, "
    ++ s!"finished: {s.finished.length}, queued: {s.queue.length} \x7d"

/-- How many messages a drain may deliver when nothing is said. -/
def defaultDeliveryLimit : Nat := 100000

end Host

/-- Compile a definition under the default settings for a host. -/
def Definition.tableForHost (d : Definition) : Except HostError Table :=
  (d.compile .default).mapError .compile

end Workflow
