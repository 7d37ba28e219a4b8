import Mathlib.Logic.Function.Iterate
import Workflow.Proofs.Host.Cancellation
import Workflow.Proofs.Host.Handling

/-!
The books of a host.

Messages come into the queue of a host from five sides: they are sent from outside, a transition hands
them to the host, work is completed, a request is acknowledged, a join is released. `Books` notes each of
them when it is queued, beside the session and without a look at what the session keeps. What is noted
balances with what is kept: every message waits, was dropped, was delivered or was refused, and it is in
one of these places as often as it was queued.

Nothing here depends on how the table of the host came about.
-/

set_option autoImplicit false

namespace Workflow

/-- The operations of a host. -/
inductive Operation where
  | start (id : Key) (state : Value)
  | startAuto (state : Value)
  | send (m : Message)
  | decide (id : Key) (approval : String) (decision : Decision)
  | decideWith (id : Key) (approval : String) (correlation : Key) (decision : Decision)
  | timeOut (id : Key) (approval : String)
  | timeOutWith (id : Key) (approval : String) (correlation : Key)
  | deliverNext
  | run

/-- The session after an operation. -/
def Host.perform (h : Host) (s : Session) : Operation → Session
  | .start id state => (h.start s id state).2
  | .startAuto state => (h.startAuto s state).2
  | .send m => s.send m
  | .decide id approval decision =>
    ((s.decide id approval decision).toOption.map Prod.snd).getD s
  | .decideWith id approval correlation decision => s.decideWith id approval correlation decision
  | .timeOut id approval => ((s.timeOut id approval).toOption.map Prod.snd).getD s
  | .timeOutWith id approval correlation => s.timeOutWith id approval correlation
  | .deliverNext => (h.deliverNext s).2
  | .run => (h.run s).2

/-- The session after a signal to the latest request of a gate, if there is one. -/
def Session.signal (s : Session) (id : Key) (approval : String) (m : Key → Message) : Session :=
  match s.latestRequest id approval with
  | .ok correlation => s.send (m correlation)
  | .error _ => s

theorem Host.perform_decide (h : Host) (s : Session) (id : Key) (approval : String)
    (decision : Decision) :
    h.perform s (.decide id approval decision) = s.signal id approval fun correlation =>
      ⟨Name.approvalDecided approval, id, .approvalDecided correlation decision⟩ := by
  rw [Host.perform, Session.decide, Session.signal]
  cases s.latestRequest id approval <;> rfl

theorem Host.perform_timeOut (h : Host) (s : Session) (id : Key) (approval : String) :
    h.perform s (.timeOut id approval) = s.signal id approval fun correlation =>
      ⟨Name.approvalTimedOut approval, id, .approvalTimedOut correlation⟩ := by
  rw [Host.perform, Session.timeOut, Session.signal]
  cases s.latestRequest id approval <;> rfl

/-- A session, the messages queued since the beginning, the start commands logged, and the deliveries. -/
structure Books where
  session : Session
  queued : List Message
  begun : List Message
  past : List Delivery

namespace Books

/-- Nothing has happened yet. -/
def initial : Books := ⟨.initial, [], [], []⟩

/-- Note a message from outside. -/
def send (b : Books) (m : Message) : Books :=
  { b with session := b.session.send m, queued := b.queued ++ [m] }

/-- Note a start. -/
def start (h : Host) (b : Books) (id : Key) (state : Value) : Books :=
  { b with
    session := (h.start b.session id state).2
    queued := b.queued ++ (h.begun b.session id state).2
    begun := b.begun ++ (h.begun b.session id state).1 }

/-- Note a delivery, if something is to be delivered. -/
def deliverNext (h : Host) (b : Books) : Books :=
  match b.session.queue with
  | [] => b
  | m :: rest =>
    let before := { b.session with queue := rest }
    { b with
      session := h.deliver before m
      queued := b.queued ++ h.posted before m
      past := b.past ++ [⟨before, m⟩] }

/-- Note a signal, if a request is there that it can answer. -/
def signal (b : Books) (id : Key) (approval : String) (m : Key → Message) : Books :=
  match b.session.latestRequest id approval with
  | .ok correlation => b.send (m correlation)
  | .error _ => b

/-- Note an operation. -/
def note (h : Host) (b : Books) : Operation → Books
  | .start id state => b.start h id state
  | .startAuto state =>
    let started := b.start h (.auto (b.session.autos + 1)) state
    { started with session := (h.startAuto b.session state).2 }
  | .send m => b.send m
  | .decide id approval decision => b.signal id approval fun correlation =>
    ⟨Name.approvalDecided approval, id, .approvalDecided correlation decision⟩
  | .decideWith id approval correlation decision =>
    b.send ⟨Name.approvalDecided approval, id, .approvalDecided correlation decision⟩
  | .timeOut id approval => b.signal id approval fun correlation =>
    ⟨Name.approvalTimedOut approval, id, .approvalTimedOut correlation⟩
  | .timeOutWith id approval correlation =>
    b.send ⟨Name.approvalTimedOut approval, id, .approvalTimedOut correlation⟩
  | .deliverNext => b.deliverNext h
  | .run => (deliverNext h)^[max h.deliveryLimit 1] b

end Books

/-- The books after a sequence of operations. -/
def Host.books (h : Host) (operations : List Operation) : Books :=
  operations.foldl (Books.note h) .initial

namespace Host

/-! ## Starts -/

/-- A start logs its command and queues what the start of the table hands on, or does nothing. -/
theorem start_posts (h : Host) (s : Session) (id : Key) (state : Value) :
    ∃ s₀ : Session, s₀.queue = s.queue ∧ s₀.dropped = s.dropped
      ∧ s₀.delivered = s.delivered ++ (h.begun s id state).1
      ∧ s₀.Posts (h.start s id state).2 (h.begun s id state).2
      ∧ (h.start s id state).2.faults = s.faults := by
  unfold start begun
  dsimp only
  cases h.table.begin h.collaborators s.calls ⟨Name.startCommand h.table.process, id, .start state⟩ with
  | mk result calls =>
    cases result with
    | ok begun =>
      obtain ⟨i, es⟩ := begun
      exact ⟨{ s with
          running := Store.insert id i s.running
          delivered := s.delivered ++ [⟨Name.startCommand h.table.process, id, .start state⟩]
          calls }, rfl, rfl, rfl, posts_effects _ _ es, (effects_logs _ _ es).1⟩
    | error e =>
      exact ⟨s, rfl, rfl, (List.append_nil _).symm, .of_eq (List.append_nil _).symm rfl rfl, rfl⟩

/-- A start under a key of the host's own making is a start under that key. -/
theorem startAuto_snd (h : Host) (s : Session) (state : Value) :
    ∃ autos, (h.startAuto s state).2
      = { (h.start s (.auto (s.autos + 1)) state).2 with autos } := by
  unfold startAuto
  dsimp only
  split
  next started => exact ⟨_, by rw [started]⟩
  next e _ started => exact ⟨_, by rw [started]⟩

/-- A drain is a number of deliveries. -/
theorem drain_snd (h : Host) (fuel count : Nat) (s : Session) :
    (h.drain fuel count s).2 = (fun s => (h.deliverNext s).2)^[fuel] s := by
  induction fuel generalizing count s with
  | zero =>
    unfold drain
    cases s.queue <;> rfl
  | succ fuel ih =>
    rw [Function.iterate_succ_apply]
    unfold drain deliverNext
    cases queue : s.queue with
    | nil =>
      have stays : (fun s => (h.deliverNext s).2) s = s := by simp only [deliverNext, queue]
      dsimp only
      rw [Function.iterate_fixed stays]
    | cons m rest => exact ih _ _

end Host

/-! ## The balance -/

namespace Books

variable {h : Host} {b : Books}

/-- The books balance. -/
structure Balanced (h : Host) (b : Books) : Prop where
  /-- Each message waits, was dropped, was delivered or was refused, as often as it was queued. The start
  commands were logged without having been queued. -/
  accounted : (b.queued ++ b.begun).Perm (b.session.queue ++ b.session.dropped ++ b.session.delivered
    ++ (b.past.filter h.refuses).map Delivery.message)
  /-- What waits is in the order in which it was queued. -/
  order : b.session.queue.Sublist b.queued
  delivered : b.session.delivered.Perm (b.begun ++ (b.past.filter h.delivers).map Delivery.message)
  /-- What was refused left a fault, and there is no other fault on a name that is not declared. -/
  refused : b.session.undeclared h.table = ((b.past.filter h.refuses).map Delivery.message).map
    fun m => ⟨m.instanceId, m.name, .unexpectedMessage m.name⟩

/-- The messages of some deliveries, with one delivery more. -/
theorem messages_append (which : Delivery → Bool) (past : List Delivery) (e : Delivery) :
    ((past ++ [e]).filter which).map Delivery.message = (past.filter which).map Delivery.message
      ++ if which e then [e.message] else [] := by
  rw [List.filter_append, List.map_append, List.filter_singleton]
  cases which e <;> rfl

theorem Balanced.initial (h : Host) : Books.initial.Balanced h :=
  ⟨List.Perm.refl _, List.Sublist.refl _, List.Perm.refl _, rfl⟩

theorem Balanced.send (balanced : b.Balanced h) (m : Message) : (b.send m).Balanced h where
  accounted := by
    have counts := List.perm_iff_count.mp balanced.accounted
    rw [List.perm_iff_count]
    intro a
    have now := counts a
    simp only [Books.send, Session.send, List.count_append] at now ⊢
    omega
  order := balanced.order.append_right [m]
  delivered := balanced.delivered
  refused := balanced.refused

theorem Balanced.start (balanced : b.Balanced h) (id : Key) (state : Value) :
    (b.start h id state).Balanced h := by
  obtain ⟨s₀, queue, dropped, delivered, posts, faults⟩ := h.start_posts b.session id state
  have logged := posts.delivered.trans delivered
  refine ⟨?_, ?_, ?_, ?_⟩
  · have counts := List.perm_iff_count.mp balanced.accounted
    have posted := List.perm_iff_count.mp posts.conserved
    rw [List.perm_iff_count]
    intro a
    have now := counts a
    have later := posted a
    simp only [Books.start, queue, dropped, logged, List.count_append] at now later ⊢
    omega
  · exact posts.order.trans (queue ▸ balanced.order.append_right _)
  · simp only [Books.start, logged]
    have counts := List.perm_iff_count.mp balanced.delivered
    rw [List.perm_iff_count]
    intro a
    have now := counts a
    simp only [List.count_append] at now ⊢
    omega
  · simp only [Books.start, Session.undeclared, faults]
    exact balanced.refused

theorem Balanced.deliverNext (balanced : b.Balanced h) : (b.deliverNext h).Balanced h := by
  unfold Books.deliverNext
  split
  · exact balanced
  next m rest queue =>
    have settles := h.settles { b.session with queue := rest } m
    refine ⟨?_, ?_, ?_, ?_⟩
    · have counts := List.perm_iff_count.mp balanced.accounted
      have settled := List.perm_iff_count.mp settles.accounted
      rw [List.perm_iff_count]
      intro a
      have now := counts a
      have later := settled a
      rw [queue] at now
      simp only [messages_append, List.count_append, List.count_cons] at now later ⊢
      omega
    · refine settles.order.trans (List.Sublist.append_right ?_ _)
      exact (List.sublist_cons_self m rest).trans (queue ▸ balanced.order)
    · dsimp only
      rw [settles.delivered, messages_append, ← List.append_assoc]
      exact balanced.delivered.append_right _
    · dsimp only
      rw [settles.undeclared, messages_append, List.map_append, ← balanced.refused]
      cases h.refuses ⟨{ b.session with queue := rest }, m⟩ <;> rfl

theorem Balanced.signal (balanced : b.Balanced h) (id : Key) (approval : String)
    (m : Key → Message) : (b.signal id approval m).Balanced h := by
  unfold Books.signal
  split
  · exact balanced.send _
  · exact balanced

theorem Balanced.note (balanced : b.Balanced h) (operation : Operation) :
    (b.note h operation).Balanced h := by
  cases operation with
  | start id state => exact balanced.start id state
  | startAuto state =>
    have started := balanced.start (.auto (b.session.autos + 1)) state
    obtain ⟨autos, session⟩ := h.startAuto_snd b.session state
    simp only [Books.note, session]
    exact ⟨started.accounted, started.order, started.delivered, started.refused⟩
  | send m => exact balanced.send m
  | decide id approval decision => exact balanced.signal id approval _
  | decideWith id approval correlation decision => exact balanced.send _
  | timeOut id approval => exact balanced.signal id approval _
  | timeOutWith id approval correlation => exact balanced.send _
  | deliverNext => exact balanced.deliverNext
  | run => exact Function.Iterate.rec (fun b => Balanced h b) balanced (fun _ => deliverNext) _

/-- The books are about the session of the host. -/
theorem session_note (operation : Operation) :
    (b.note h operation).session = h.perform b.session operation := by
  have next : ∀ b : Books, (b.deliverNext h).session = (h.deliverNext b.session).2 := by
    intro b
    unfold Books.deliverNext Host.deliverNext
    cases b.session.queue <;> rfl
  have signal : ∀ (id : Key) (approval : String) (m : Key → Message),
      (b.signal id approval m).session = b.session.signal id approval m := by
    intro id approval m
    unfold Books.signal Session.signal
    cases b.session.latestRequest id approval <;> rfl
  cases operation with
  | decide id approval decision =>
    rw [Host.perform_decide]
    exact signal _ _ _
  | timeOut id approval =>
    rw [Host.perform_timeOut]
    exact signal _ _ _
  | deliverNext => exact next b
  | run =>
    rw [Host.perform, Host.run, Host.drain_snd]
    have commute : Function.Semiconj Books.session (Books.deliverNext h)
        fun s => (h.deliverNext s).2 := next
    exact commute.iterate_right _ b
  | _ => rfl

/-- They are about the deliveries of an open run. -/
theorem evolves_note (run : h.Evolves b.past b.session) (operation : Operation) :
    h.Evolves (b.note h operation).past (b.note h operation).session := by
  have next : ∀ b : Books, h.Evolves b.past b.session →
      h.Evolves (b.deliverNext h).past (b.deliverNext h).session := by
    intro b run
    unfold Books.deliverNext
    split
    · exact run
    next m rest queue => exact run.deliver queue
  have signal : ∀ (id : Key) (approval : String) (m : Key → Message),
      h.Evolves (b.signal id approval m).past (b.signal id approval m).session := by
    intro id approval m
    unfold Books.signal
    split
    · exact run.send _
    · exact run
  cases operation with
  | start id state => exact run.start id state
  | startAuto state => exact run.startAuto state
  | send m => exact run.send m
  | decide id approval decision => exact signal _ _ _
  | decideWith id approval correlation decision => exact run.send _
  | timeOut id approval => exact signal _ _ _
  | timeOutWith id approval correlation => exact run.send _
  | deliverNext => exact next b run
  | run => exact Function.Iterate.rec (fun b : Books => h.Evolves b.past b.session) run next _

end Books

/-- The books of every sequence of operations are about the session of the host and its deliveries, and
they balance. Each delivered message ends in one way. -/
theorem Host.messages_accounted (h : Host) (operations : List Operation) :
    (h.books operations).session = operations.foldl h.perform .initial
      ∧ h.Evolves (h.books operations).past (h.books operations).session
      ∧ (h.books operations).Balanced h
      ∧ ∀ e ∈ (h.books operations).past, h.delivers e = true → ∃! ending, h.Ends e ending := by
  refine ⟨?_, ?_, ?_, fun e _ delivers => Host.existsUnique_ends delivers⟩
  · exact (List.foldl_hom Books.session fun b operation => (b.session_note operation).symm).symm
  · have nothing : h.Evolves Books.initial.past Books.initial.session := .initial
    exact List.foldlRecOn operations (Books.note h)
      (motive := fun b => h.Evolves b.past b.session) nothing
      fun b run operation _ => Books.evolves_note run operation
  · exact List.foldlRecOn operations (Books.note h) (Books.Balanced.initial h)
      fun b balanced operation _ => balanced.note operation

/-- A failure of one path of a fork drops a message of the other one, and a message that nobody knows is
refused. -/
theorem messages_accounted_strictRelease : ∃ (h : Host) (operations : List Operation),
    Definition.strictRelease.compile .default = .ok h.table
      ∧ (h.books operations).Balanced h
      ∧ (h.books operations).queued.length = 11 ∧ (h.books operations).begun.length = 1
      ∧ (h.books operations).session.queue.map Message.name
        = [Name.failureTrigger "giveUp"]
      ∧ (h.books operations).session.dropped.map Message.name = [Name.completedEvent "Scan"]
      ∧ (h.books operations).session.delivered.length = 9
      ∧ (h.books operations).session.faults.map FaultRecord.message = ["Hello"] := by
  let operations : List Operation := .start (.number 1) .null
    :: .send ⟨"Hello", .number 1, .empty⟩ :: List.replicate 9 .deliverNext
  let host (t : Table) : Host := Host.faltering t ["Sign"]
  obtain ⟨t, compiles, computed⟩ := Definition.exists_table .strictRelease .default
    (fun t => ((host t).books operations).queued.length = 11
      ∧ ((host t).books operations).begun.length = 1
      ∧ ((host t).books operations).session.queue.map Message.name = [Name.failureTrigger "giveUp"]
      ∧ ((host t).books operations).session.dropped.map Message.name = [Name.completedEvent "Scan"]
      ∧ ((host t).books operations).session.delivered.length = 9
      ∧ ((host t).books operations).session.faults.map FaultRecord.message = ["Hello"])
    (by decide +kernel)
  obtain ⟨_, _, balanced, _⟩ := (host t).messages_accounted operations
  exact ⟨host t, operations, compiles, balanced, of_decide_eq_true computed⟩

end Workflow
