import Workflow.Proofs.Host.Open
import Workflow.Proofs.Machine.Frame

/-!
Signals of gates: acknowledgements, decisions and timeouts, whoever sends them.

An instance awaits a correlation id from the acknowledgement that carries it until something answers.
Nothing else makes it await the id, so of all the answers that carry one id, however many there are and
in whatever order they come, one has an effect at most, and it is the first to find the instance
waiting. `approval_race` says so of every open run.
-/

set_option autoImplicit false

namespace Workflow

/-- Whether the name is one of the definition's gates. -/
def Definition.HasGate (d : Definition) (gate : String) : Prop :=
  ∃ a ∈ d.approvals, ∃ g ∈ a.chain, g.gate.name = gate

/-- Names that end differently are different. -/
theorem Name.append_ne {x y : String}
    (apart : ¬ x.toList <:+ y.toList ∧ ¬ y.toList <:+ x.toList) (a b : String) :
    a ++ x ≠ b ++ y := by
  intro same
  have spelt := congrArg String.toList same
  rw [String.toList_append, String.toList_append] at spelt
  have both : x.toList <:+ b.toList ++ y.toList := ⟨_, spelt⟩
  rcases List.suffix_or_suffix_of_suffix both (List.suffix_append _ _) with shorter | longer
  · exact apart.1 shorter
  · exact apart.2 longer

namespace Message

/-- The acknowledgement of a request of a gate. -/
def IsAcknowledgement (gate : String) (c : Key) (m : Message) : Prop :=
  m.name = Name.approvalPending gate ∧ m.correlation? = some c

/-- A decision of a gate. -/
def IsDecision (gate : String) (c : Key) (decision : Decision) (m : Message) : Prop :=
  m.name = Name.approvalDecided gate ∧ m.body = .approvalDecided c decision

/-- A timeout of a gate. -/
def IsTimeout (gate : String) (c : Key) (m : Message) : Prop :=
  m.name = Name.approvalTimedOut gate ∧ m.correlation? = some c

/-- A decision, whatever was decided, or a timeout. -/
def IsSignal (gate : String) (c : Key) (m : Message) : Prop :=
  (∃ decision, m.IsDecision gate c decision) ∨ m.IsTimeout gate c

/-- A signal that answers the request: a deferral does not. -/
def IsAnswer (gate : String) (c : Key) (m : Message) : Prop :=
  m.IsDecision gate c .approved ∨ m.IsDecision gate c .rejected ∨ m.IsTimeout gate c

theorem IsAnswer.isSignal {gate : String} {c : Key} {m : Message} (answer : m.IsAnswer gate c) :
    m.IsSignal gate c := by
  rcases answer with approved | rejected | timeout
  · exact .inl ⟨_, approved⟩
  · exact .inl ⟨_, rejected⟩
  · exact .inr timeout

theorem IsSignal.correlation? {gate : String} {c : Key} {m : Message} (signal : m.IsSignal gate c) :
    m.correlation? = some c := by
  rcases signal with ⟨decision, _, body⟩ | ⟨_, carried⟩
  · simp only [Message.correlation?, body]
  · exact carried

/-- A signal acknowledges nothing. -/
theorem IsSignal.not_isAcknowledgement {gate gate' : String} {c c' : Key} {m : Message}
    (signal : m.IsSignal gate c) : ¬ m.IsAcknowledgement gate' c' := by
  rintro ⟨name, _⟩
  rcases signal with ⟨decision, decides, _⟩ | ⟨timesOut, _⟩
  · exact Name.append_ne (by decide) _ _ (decides.symm.trans name)
  · exact Name.append_ne (by decide) _ _ (timesOut.symm.trans name)

end Message

/-- Whether an instance is running and waits for a correlation id. -/
def Session.Awaits (s : Session) (id c : Key) : Prop :=
  ∃ i, Store.get? id s.running = some i ∧ i.pendingApproval = some c

/-- The delivery leaves one dead letter at most, and that only where the instance is not running. All
instances are as before, and nothing is sent. -/
def Host.Disregards (h : Host) (e : Delivery) : Prop :=
  ∃ running letters, h.deliver e.before e.message = { e.before with
      running
      delivered := e.before.delivered ++ [e.message]
      deadLetters := e.before.deadLetters ++ letters }
    ∧ (∀ id, Store.get? id running = Store.get? id e.before.running)
    ∧ letters.length ≤ 1 ∧ (letters ≠ [] → Store.get? e.message.instanceId e.before.running = none)

/-- The delivery ends the wait of its instance: it stores the instance without the request, and starts
or finishes something. -/
def Host.Resolves (h : Host) (e : Delivery) : Prop :=
  ∃ j es, h.committed? e = some (j, es) ∧ j.pendingApproval = none
    ∧ (es ≠ [] ∨ j.isFinished = true)
    ∧ (h.deliver e.before e.message).inst? e.message.instanceId = some j

/-- Records of instances are kept. -/
theorem Host.Disregards.inst?_eq {h : Host} {e : Delivery} (disregards : h.Disregards e) (id : Key) :
    (h.deliver e.before e.message).inst? id = e.before.inst? id := by
  obtain ⟨running, letters, result, same, _⟩ := disregards
  rw [result]
  simp only [Session.inst?, same]

/-! ## Transitions of a gate -/

/-- Names of gates are names of tokens that are nowhere on the lines. -/
theorem Approval.exists_token {d : Definition} {a g : Approval} (attached : a ∈ d.approvals)
    (link : g ∈ a.chain) {r : Transition} (member : r ∈ g.transitions (d.approved a)) :
    ∃ tok : Token, tok.In d ∧ tok.spot? = none ∧ tok.kind ≠ .executeWorker
      ∧ ∀ id, (tok.message d id).name = r.trigger := by
  simp only [Approval.transitions, Transition.of, List.mem_cons, List.not_mem_nil, or_false] at member
  rcases member with rfl | rfl | rfl
  · exact ⟨.pending a g (.number 0), ⟨attached, link⟩, rfl, by simp [Token.kind], fun _ => rfl⟩
  · exact ⟨.decided a g (.number 0) .approved, ⟨attached, link⟩, rfl, by simp [Token.kind],
      fun _ => rfl⟩
  · exact ⟨.timedOut a g (.number 0), ⟨attached, link⟩, rfl, by simp [Token.kind], fun _ => rfl⟩

namespace Compiled

variable {d : Definition} {h : Host} (c : Compiled d h.table) {a g : Approval}
  (attached : a ∈ d.approvals) (link : g ∈ a.chain) {r : Transition}
  (member : r ∈ g.transitions (d.approved a)) {e : Delivery} (name : e.message.name = r.trigger)

include c attached link member name

/-- Nothing is in the way of a message of a gate. -/
theorem gate_unhindered : h.isCancelled e.before e.message = false
    ∧ ∃ kind, h.table.kindOf? e.message.name = some kind ∧ kind ≠ .executeWorker := by
  obtain ⟨tok, here, off, consumed, named⟩ := Approval.exists_token attached link member
  have named : (tok.message d e.message.instanceId).name = e.message.name :=
    (named _).trans name.symm
  constructor
  · have free : h.isCancelled e.before (tok.message d e.message.instanceId) = false :=
      c.isCancelled_eq_false here (by rw [off]; rfl)
    rwa [Host.isCancelled, named, Token.message_instanceId] at free
  · refine ⟨tok.kind, ?_, consumed⟩
    rw [← named]
    exact c.kindOf?_message here _

/-- It starts no fork over. -/
theorem resetForks_gate (s : Session) : h.resetForks s e.message = s := by
  obtain ⟨tok, here, off, _, named⟩ := Approval.exists_token attached link member
  have still : h.resetForks s (tok.message d e.message.instanceId) = s :=
    c.resetForks_message here fun x update failure same => by
      rw [same] at off
      cases off
  rwa [Host.resetForks, (named _).trans name.symm, Token.message_instanceId] at still

/-- It commits what its transition does to a running instance. -/
theorem committed?_gate :
    h.committed? e = (Store.get? e.message.instanceId e.before.running).bind fun i =>
      (r.apply h.collaborators e.before.calls i e.message).committed? := by
  obtain ⟨calm, kind, declared, consumed⟩ := c.gate_unhindered attached link member name
  unfold Host.committed?
  rw [if_neg (by simp [calm, declared, consumed]), name,
    c.transitionFor?_gate attached link member]
  rfl

/-- Without its instance it is a dead letter at most. -/
theorem disregards_of_absent
    (absent : Store.get? e.message.instanceId e.before.running = none) : h.Disregards e := by
  obtain ⟨calm, kind, declared, consumed⟩ := c.gate_unhindered attached link member name
  have result : h.deliver e.before e.message
      = h.notFound { e.before with delivered := e.before.delivered ++ [e.message] } kind
        e.message := by
    simp only [Host.deliver, calm, declared, consumed, absent, Bool.false_eq_true, ↓reduceIte]
  rw [Host.Disregards, result, Host.notFound]
  split
  · exact ⟨e.before.running, [_], rfl, fun _ => rfl, Nat.le_refl 1, fun _ => absent⟩
  · exact ⟨e.before.running, [], by simp, fun _ => rfl, Nat.zero_le 1, fun _ => absent⟩

/-- A transition that hands nothing on and asks nobody stores its instance, and that is all. -/
theorem deliver_gate_quiet {i j : Instance}
    (stored : Store.get? e.message.instanceId e.before.running = some i)
    (applied : r.apply h.collaborators e.before.calls i e.message = ⟨j, e.before.calls, .ok []⟩)
    (going : j.isFinished = false) :
    h.deliver e.before e.message = { e.before with
      running := Store.insert e.message.instanceId j e.before.running
      delivered := e.before.delivered ++ [e.message] } := by
  obtain ⟨calm, kind, declared, consumed⟩ := c.gate_unhindered attached link member name
  have found := c.transitionFor?_gate attached link member
  rw [← name] at found
  simp only [Host.deliver, calm, declared, consumed, stored, found, Host.transact, applied,
    Host.commit, c.resetForks_gate attached link member name, Host.effects, List.foldl_nil, going,
    Bool.false_eq_true, ↓reduceIte]

/-- One that leaves the instance as it is might as well not have been delivered. -/
theorem disregards_of_same {i : Instance}
    (stored : Store.get? e.message.instanceId e.before.running = some i)
    (applied : r.apply h.collaborators e.before.calls i e.message = ⟨i, e.before.calls, .ok []⟩)
    (going : i.isFinished = false) : h.Disregards e := by
  have result := c.deliver_gate_quiet attached link member name stored applied going
  refine ⟨_, [], by rw [result, List.append_nil], fun id => ?_, Nat.zero_le 1, by simp⟩
  rw [Store.get?_insert]
  split
  next own => rw [← own, stored]
  next => rfl

end Compiled

/-! ## Answers -/

/-- A transition that ends a wait: the request is gone, and something starts or finishes. -/
def Applied.Resolves (a : Applied) : Prop :=
  ∃ es, a.result = .ok es ∧ a.inst.pendingApproval = none ∧ (es ≠ [] ∨ a.inst.isFinished = true)

section Resolves

variable {i : Instance} (cleared : i.pendingApproval = none) (calls : List Call)

include cleared

theorem Instance.resolves_starting (stem : String) : (i.starting calls stem).Resolves :=
  ⟨_, rfl, cleared, .inl (List.cons_ne_nil _ _)⟩

theorem Instance.resolves_finishing (phase : String) : (i.finishing calls phase).Resolves :=
  ⟨_, rfl, cleared, .inr rfl⟩

theorem Gate.resolves_refused (g : Gate) : (g.refused i calls).Resolves := by
  unfold Gate.refused
  split
  · exact i.resolves_starting cleared calls _
  · exact i.resolves_finishing cleared calls _

theorem Approval.resolves_escalated (g : Approval) : (g.escalated i calls).Resolves := by
  unfold Approval.escalated
  split
  · exact i.resolves_finishing cleared calls _
  · exact i.resolves_finishing cleared calls _
  · exact i.resolves_starting cleared calls _
  · exact ⟨_, rfl, cleared, .inl (List.cons_ne_nil _ _)⟩

theorem Approval.resolves_approved (d : Definition) (a g : Approval) :
    (d.lineEnded (.escalation a g) i calls).Resolves := by
  unfold Definition.lineEnded
  dsimp only
  split
  · exact i.resolves_starting cleared calls _
  · exact i.resolves_finishing cleared calls _

end Resolves

namespace Compiled

variable {d : Definition} {h : Host} (c : Compiled d h.table) {gate : String} (declared : d.HasGate gate)
  {key : Key} {e : Delivery}
  (going : ∀ i, Store.get? e.message.instanceId e.before.running = some i → i.isFinished = false)

include c

/-- What its transition resolves, a delivery does. -/
theorem resolves_of_applied {a g : Approval} (attached : a ∈ d.approvals) (link : g ∈ a.chain)
    {r : Transition} (member : r ∈ g.transitions (d.approved a)) (name : e.message.name = r.trigger)
    {i : Instance} (stored : Store.get? e.message.instanceId e.before.running = some i)
    (applied : (r.apply h.collaborators e.before.calls i e.message).Resolves) : h.Resolves e := by
  obtain ⟨es, ok, cleared, acts⟩ := applied
  generalize inst : (r.apply h.collaborators e.before.calls i e.message).inst = j at cleared acts
  have committed : h.committed? e = some (j, es) := by
    rw [c.committed?_gate attached link member name, stored]
    exact Applied.committed?_eq_some.mpr ⟨inst, ok⟩
  exact ⟨j, es, committed, cleared, acts, Host.inst?_deliver committed⟩

include declared going

/-- A decision is disregarded by an instance that does not wait for it; otherwise a deferral is noted,
and any other decision ends the wait. -/
theorem deliver_decision {decision : Decision} (decides : e.message.IsDecision gate key decision) :
    (¬ e.before.Awaits e.message.instanceId key → h.Disregards e)
      ∧ (e.before.Awaits e.message.instanceId key → decision ≠ .deferred → h.Resolves e)
      ∧ (decision = .deferred →
        ∀ i, Store.get? e.message.instanceId e.before.running = some i →
          i.pendingApproval = some key → h.deliver e.before e.message = { e.before with
            running := Store.insert e.message.instanceId { i with lastDecision := some .deferred }
              e.before.running
            delivered := e.before.delivered ++ [e.message] }) := by
  obtain ⟨a, attached, g, link, rfl⟩ := declared
  obtain ⟨name, body⟩ := decides
  have member : Transition.of .approvalResume (Name.approvalDecided g.gate.name)
      [.guardCorrelation g.gate.name, .recordDecision, .decide (d.approved a) g.gate.rejected]
      ∈ g.transitions (d.approved a) := by simp [Approval.transitions]
  -- the message is that of a token
  have token : e.message = (Token.decided a g key decision).message d e.message.instanceId := by
    rw [Token.message, ← name, ← body]
  have here : (Token.decided a g key decision).In d := ⟨attached, link⟩
  obtain ⟨tr, found, applies⟩ := c.exists_transition here (by simp [Token.kind])
    e.message.instanceId
  rw [← token, name] at found
  rw [← token] at applies
  obtain rfl : tr = _ := Option.some.inj (found.symm.trans
    (c.transitionFor?_gate attached link member))
  refine ⟨fun idle => ?_, ?_, ?_⟩
  · cases stored : Store.get? e.message.instanceId e.before.running with
    | none => exact c.disregards_of_absent attached link member name stored
    | some i =>
      refine c.disregards_of_same attached link member name stored ?_ (going i stored)
      rw [applies]
      exact if_neg fun waiting => idle ⟨i, stored, waiting⟩
  · rintro ⟨i, stored, waiting⟩ settled
    refine c.resolves_of_applied attached link member name stored ?_
    rw [applies, Token.applied, if_pos waiting]
    cases decision with
    | approved => exact Approval.resolves_approved rfl _ d a g
    | rejected => exact Gate.resolves_refused rfl _ g.gate
    | deferred => exact absurd rfl settled
  · rintro rfl i stored waiting
    refine c.deliver_gate_quiet attached link member name stored ?_ (going i stored)
    rw [applies, Token.applied, if_pos waiting]
    rfl

/-- A timeout is disregarded by an instance that does not wait for it, and otherwise ends the wait. -/
theorem deliver_timeout (timesOut : e.message.IsTimeout gate key) :
    (¬ e.before.Awaits e.message.instanceId key → h.Disregards e)
      ∧ (e.before.Awaits e.message.instanceId key → h.Resolves e) := by
  obtain ⟨a, attached, g, link, rfl⟩ := declared
  obtain ⟨name, carried⟩ := timesOut
  have member : Transition.of .approvalTimeout (Name.approvalTimedOut g.gate.name)
      [.guardCorrelation g.gate.name, .clearPendingApproval, .proceed g.timedOut]
      ∈ g.transitions (d.approved a) := by simp [Approval.transitions]
  constructor
  · intro idle
    cases stored : Store.get? e.message.instanceId e.before.running with
    | none => exact c.disregards_of_absent attached link member name stored
    | some i =>
      have apart : i.pendingApproval ≠ some key := fun waiting => idle ⟨i, stored, waiting⟩
      refine c.disregards_of_same attached link member name stored ?_ (going i stored)
      simp only [Transition.of, Transition.apply, Run.steps, Run.step, carried, apart, ↓reduceIte,
        Flow.applied]
  · rintro ⟨i, stored, waiting⟩
    refine c.resolves_of_applied attached link member name stored ?_
    simp only [Transition.of, Transition.apply, Run.steps, Run.step, carried, waiting, ↓reduceIte,
      Run.setPending]
    have escalated : g.timedOut.Means h.collaborators g.escalated := means_timedOut g
    rw [escalated]
    exact Approval.resolves_escalated rfl _ g

end Compiled

/-! ## Waiting -/

/-- What follows a site records no request. -/
theorem Definition.next_ne_recordPendingApproval (d : Definition) (s : Site) :
    d.next s ≠ .recordPendingApproval := by
  have ends : ∀ ending, d.sequenceEnd ending ≠ .recordPendingApproval := by
    intro ending
    cases ending with
    | recovery g =>
      simp only [sequenceEnd, chainEnd]
      split <;> simp
    | _ => simp [sequenceEnd]
  unfold next
  split
  · simp
  · split
    · simp
    · simp
    · simp
    · simp [Fork.cascade]
    · simp
    · exact ends _

namespace Compiled

variable {d : Definition} {h : Host} (c : Compiled d h.table)

include c

/-- Only acknowledgements record requests. -/
theorem exists_gate_of_records {tr : Transition} (listed : tr ∈ h.table.transitions)
    (records : .recordPendingApproval ∈ tr.body) :
    ∃ gate, d.HasGate gate ∧ tr.trigger = Name.approvalPending gate := by
  cases c.transition_cases listed with
  | @start x here =>
    simp only [Site.startTransition, Transition.of, Site.guardActions] at records
    split at records <;> simp at records
  | @completion x here =>
    have last := (d.next_ne_recordPendingApproval (x.site d)).symm
    simp [Definition.completion, Transition.of, last] at records
  | @gate a g _ attached link member =>
    simp only [Approval.transitions, List.mem_cons, List.not_mem_nil, or_false] at member
    rcases member with rfl | rfl | rfl
    · exact ⟨g.gate.name, ⟨a, attached, g, link, rfl⟩, rfl⟩
    · simp [Transition.of] at records
    · simp [Transition.of] at records
  | trigger declared first => simp [Transition.of] at records

/-- A new instance waits for nothing. -/
theorem awaits_of_start {s : Session} {id₀ : Key} {state : Value} {id key : Key}
    (waits : (h.start s id₀ state).2.Awaits id key) : s.Awaits id key := by
  obtain ⟨queue, delivered, result⟩ := Host.Evolves.start_cases c s id₀ state
  obtain ⟨i, stored, waiting⟩ := waits
  rw [result] at stored
  dsimp only at stored
  rw [Store.get?_insert] at stored
  split at stored
  · cases stored
    cases waiting
  · exact ⟨i, stored, waiting⟩

/-- An instance that waits for an id after a delivery waited for it before, unless the delivery
acknowledged it. -/
theorem awaits_of_deliver {e : Delivery} {id key : Key}
    (waits : (h.deliver e.before e.message).Awaits id key) :
    e.before.Awaits id key ∨ e.message.instanceId = id
      ∧ ∃ gate, d.HasGate gate ∧ e.message.IsAcknowledgement gate key := by
  obtain ⟨k, stored, waiting⟩ := waits
  cases committed : h.committed? e with
  | none =>
    rw [(Host.agrees_of_committed? committed).running] at stored
    exact .inl ⟨k, stored, waiting⟩
  | some result =>
    obtain ⟨j, es⟩ := result
    obtain ⟨i, tr, before, found, inst, _⟩ := Host.exists_of_committed? committed
    rw [(Host.get?_deliver committed id).1] at stored
    split at stored
    next own =>
      subst own
      split at stored
      · cases stored
      next =>
        cases stored
        -- what the transition may leave outstanding
        let P (j : Instance) : Prop := j.pendingApproval = some key →
          i.pendingApproval = some key
            ∨ ∃ gate, d.HasGate gate ∧ e.message.IsAcknowledgement gate key
        have framed : Instance.Framed P :=
          ⟨fun pending _ holds waiting => holds (pending ▸ waiting), fun _ waiting => by cases waiting⟩
        have kept : P (tr.apply h.collaborators e.before.calls i e.message).inst := by
          refine Transition.apply_keeps framed ?_ (fun _ _ _ _ _ holds => ⟨holds, fun _ => holds⟩) .inl
          intro records c' carried _ _ waiting
          cases waiting
          obtain ⟨gate, declared, trigger⟩ :=
            c.exists_gate_of_records (List.mem_of_find?_eq_some found) records
          have name : tr.trigger = e.message.name := by simpa using List.find?_some found
          exact .inr ⟨gate, declared, name.symm.trans trigger, carried⟩
        rw [inst] at kept
        rcases kept waiting with old | acknowledged
        · exact .inl ⟨i, before, old⟩
        · exact .inr ⟨rfl, acknowledged⟩
    next => exact .inl ⟨k, stored, waiting⟩

end Compiled

namespace Host.Resolves

variable {h : Host} {e : Delivery} (resolves : h.Resolves e)

include resolves

/-- The end of a wait leaves the instance waiting for nothing. -/
theorem not_awaits (key : Key) :
    ¬ (h.deliver e.before e.message).Awaits e.message.instanceId key := by
  obtain ⟨j, es, committed, cleared, _⟩ := resolves
  rintro ⟨k, stored, waiting⟩
  rw [(Host.get?_deliver committed _).1, if_pos rfl] at stored
  split at stored
  · cases stored
  · cases stored
    rw [cleared] at waiting
    cases waiting

/-- It shows in the record of the instance. -/
theorem inst?_ne {key : Key} (waits : e.before.Awaits e.message.instanceId key) :
    (h.deliver e.before e.message).inst? e.message.instanceId
      ≠ e.before.inst? e.message.instanceId := by
  intro same
  obtain ⟨i, stored, waiting⟩ := waits
  obtain ⟨j, es, _, cleared, _, now⟩ := resolves
  rw [now, Session.inst?, stored, Option.some_or] at same
  rw [Option.some.inj same, waiting] at cleared
  cases cleared

theorem not_disregards {key : Key} (waits : e.before.Awaits e.message.instanceId key) :
    ¬ h.Disregards e :=
  fun disregards => resolves.inst?_ne waits (disregards.inst?_eq _)

end Host.Resolves

namespace Host.Evolves

variable {d : Definition} {h : Host} {s : Session}

/-- Whoever does not wait for an id starts to wait for it with an acknowledgement only. -/
theorem not_awaits_of_ended (c : Compiled d h.table) {past earlier between : List Delivery}
    {e : Delivery} (run : h.Evolves past s) (split : past = earlier ++ e :: between) {id key : Key}
    (ended : ¬ (h.deliver e.before e.message).Awaits id key)
    (unacknowledged : ∀ t ∈ between, t.message.instanceId = id →
      ∀ gate, d.HasGate gate → ¬ t.message.IsAcknowledgement gate key) : ¬ s.Awaits id key := by
  induction run generalizing between with
  | initial => cases earlier <;> cases split
  | start run id' state ih =>
    exact fun waits => ih split unacknowledged (c.awaits_of_start waits)
  | @startAuto _ s _ state ih =>
    rw [c.startAuto_eq]
    exact fun waits => ih split unacknowledged (c.awaits_of_start waits)
  | send run m ih => exact ih split unacknowledged
  | @deliver _ s m rest run queue ih =>
    rcases Delivery.eq_last_or split with ⟨_, rfl, _⟩ | ⟨between', rfl, earlier'⟩
    · exact ended
    · intro waits
      have still := ih earlier' fun t ht => unacknowledged t (List.mem_append_left _ ht)
      rcases c.awaits_of_deliver (e := ⟨_, m⟩) waits with old | ⟨own, gate, declared, acknowledged⟩
      · exact still old
      · exact unacknowledged _ (List.mem_append_right _ (List.mem_singleton_self _)) own gate declared
          acknowledged

/-- Between the end of a wait and the next acknowledgement nobody waits. -/
theorem not_awaits_between (c : Compiled d h.table) {past earlier between later : List Delivery}
    {e e' : Delivery} (run : h.Evolves past s)
    (split : past = earlier ++ e :: (between ++ e' :: later)) {id key : Key}
    (ended : ¬ (h.deliver e.before e.message).Awaits id key)
    (unacknowledged : ∀ t ∈ between, t.message.instanceId = id →
      ∀ gate, d.HasGate gate → ¬ t.message.IsAcknowledgement gate key) :
    ¬ e'.before.Awaits id key := by
  have position : past = (earlier ++ e :: between) ++ e' :: later := by simp [split]
  obtain ⟨s₀, before, _, same⟩ := run.before position
  rw [same]
  exact before.not_awaits_of_ended c rfl ended unacknowledged

/-- What is running when a message is delivered has not finished. -/
theorem unfinished_of_mem (c : Compiled d h.table) {past : List Delivery} (run : h.Evolves past s)
    {e : Delivery} (member : e ∈ past) {id : Key} {i : Instance}
    (stored : Store.get? id e.before.running = some i) : i.isFinished = false := by
  obtain ⟨earlier, later, split⟩ := List.append_of_mem member
  obtain ⟨s₀, before, _, same⟩ := run.before split
  rw [same] at stored
  exact before.unfinished c stored

end Host.Evolves

namespace Compiled

variable {d : Definition} {h : Host} (c : Compiled d h.table) {gate : String} {key : Key} {e : Delivery}
  (declared : d.HasGate gate)
  (going : ∀ i, Store.get? e.message.instanceId e.before.running = some i → i.isFinished = false)

include c declared going

/-- A signal is disregarded by an instance that does not wait for it. -/
theorem disregards_of_signal (signal : e.message.IsSignal gate key)
    (idle : ¬ e.before.Awaits e.message.instanceId key) : h.Disregards e := by
  rcases signal with ⟨decision, decides⟩ | timesOut
  · exact (c.deliver_decision declared going decides).1 idle
  · exact (c.deliver_timeout declared going timesOut).1 idle

/-- An answer ends the wait for it. -/
theorem resolves_of_answer (answer : e.message.IsAnswer gate key)
    (waits : e.before.Awaits e.message.instanceId key) : h.Resolves e := by
  rcases answer with approved | rejected | timesOut
  · exact (c.deliver_decision declared going approved).2.1 waits (by simp)
  · exact (c.deliver_decision declared going rejected).2.1 waits (by simp)
  · exact (c.deliver_timeout declared going timesOut).2 waits

end Compiled

/-- Of the answers that carry a correlation id to an instance, one has an effect at most as long as the
id is not acknowledged again. If the instance is running and waits for the id when the first of them is
delivered, that one ends the wait; in any case those after it are disregarded. A deferral of what the
instance waits for changes its last decision only, and a signal it does not wait for is disregarded. -/
theorem Host.Evolves.approval_race {d : Definition} {settings : Settings} {h : Host}
    (compiles : d.compile settings = .ok h.table) {before after : List Delivery} {s : Session}
    (run : h.Evolves (before ++ after) s) {id key : Key}
    (unacknowledged : ∀ e ∈ after, e.message.instanceId = id →
      ∀ gate, d.HasGate gate → ¬ e.message.IsAcknowledgement gate key) :
    (∀ xs e ys, after = xs ++ e :: ys → e.message.instanceId = id →
        (∃ gate, d.HasGate gate ∧ e.message.IsAnswer gate key) → ¬ h.Disregards e →
          ∀ e' ∈ xs ++ ys, e'.message.instanceId = id →
            (∃ gate, d.HasGate gate ∧ e'.message.IsAnswer gate key) → h.Disregards e')
      ∧ (∀ xs e ys, after = xs ++ e :: ys → e.message.instanceId = id →
        (∃ gate, d.HasGate gate ∧ e.message.IsAnswer gate key) →
        (∀ x ∈ xs, x.message.instanceId = id →
          ¬ ∃ gate, d.HasGate gate ∧ x.message.IsAnswer gate key) →
          (e.before.Awaits id key → h.Resolves e ∧ ¬ h.Disregards e)
            ∧ ∀ e' ∈ ys, e'.message.instanceId = id →
              (∃ gate, d.HasGate gate ∧ e'.message.IsAnswer gate key) → h.Disregards e')
      ∧ ∀ e ∈ before ++ after, ∀ gate, d.HasGate gate → ∀ carried,
        (e.message.IsSignal gate carried → ¬ e.before.Awaits e.message.instanceId carried →
          h.Disregards e)
        ∧ (e.message.IsDecision gate carried .deferred →
          ∀ i, Store.get? e.message.instanceId e.before.running = some i →
            i.pendingApproval = some carried → h.deliver e.before e.message = { e.before with
              running := Store.insert e.message.instanceId { i with lastDecision := some .deferred }
                e.before.running
              delivered := e.before.delivered ++ [e.message] }) := by
  have c := Definition.compiled_of_compile compiles
  have going : ∀ e ∈ before ++ after, ∀ i,
      Store.get? e.message.instanceId e.before.running = some i → i.isFinished = false :=
    fun e he i stored => run.unfinished_of_mem c he stored
  have inside : ∀ {xs e ys}, after = xs ++ e :: ys → e ∈ before ++ after := fun split => by
    simp [split]
  -- whether it was waited for or not, nobody waits for an answer once it is delivered
  have ended : ∀ e ∈ after, e.message.instanceId = id →
      (∃ gate, d.HasGate gate ∧ e.message.IsAnswer gate key) →
        ¬ (h.deliver e.before e.message).Awaits id key := by
    rintro e he rfl ⟨gate, declared, answer⟩ waits
    have mine := going e (List.mem_append_right _ he)
    by_cases waited : e.before.Awaits e.message.instanceId key
    · exact (c.resolves_of_answer declared mine answer waited).not_awaits key waits
    · rcases c.awaits_of_deliver waits with old | ⟨own, gate', declared', acknowledged⟩
      · exact waited old
      · exact unacknowledged e he own gate' declared' acknowledged
  have later : ∀ {xs e ys}, after = xs ++ e :: ys → e.message.instanceId = id →
      (∃ gate, d.HasGate gate ∧ e.message.IsAnswer gate key) → ∀ e' ∈ ys,
        e'.message.instanceId = id → (∃ gate, d.HasGate gate ∧ e'.message.IsAnswer gate key) →
          h.Disregards e' := by
    rintro xs e ys rfl own answers e' he' own' ⟨gate', declared', answer'⟩
    obtain ⟨between, rest, rfl⟩ := List.append_of_mem he'
    have position : before ++ (xs ++ e :: (between ++ e' :: rest))
        = (before ++ xs) ++ e :: (between ++ e' :: rest) := by simp
    have idle : ¬ e'.before.Awaits id key :=
      run.not_awaits_between c position (ended e (by simp) own answers)
        fun t ht => unacknowledged t (by simp [ht])
    exact c.disregards_of_signal declared' (going e' (by simp)) answer'.isSignal (own' ▸ idle)
  refine ⟨?_, ?_, ?_⟩
  · rintro xs e ys rfl own answers acts e' he' own' answers'
    rcases List.mem_append.mp he' with first | second
    · -- an answer that comes after another one is disregarded
      obtain ⟨zs, between, rfl⟩ := List.append_of_mem first
      have split : zs ++ e' :: between ++ e :: ys = zs ++ e' :: (between ++ e :: ys) := by simp
      exact absurd (later split own' answers' e (by simp) own answers) acts
    · exact later rfl own answers e' second own' answers'
  · rintro xs e ys split own answers first
    refine ⟨fun waits => ?_, later split own answers⟩
    obtain ⟨gate, declared, answer⟩ := answers
    subst own
    have resolves := c.resolves_of_answer declared (going e (inside split)) answer waits
    exact ⟨resolves, resolves.not_disregards waits⟩
  · intro e he gate declared carried
    refine ⟨fun signal idle => c.disregards_of_signal declared (going e he) signal idle, ?_⟩
    intro deferral i stored waiting
    exact (c.deliver_decision declared (going e he) deferral).2.2 rfl i stored waiting

/-- A publication: the editor allows the review, and the lawyers allow to publish. -/
def Definition.publication : Definition where
  name := "Publication"
  steps := [.ofName "Draft", .ofName "Review", .ofName "Publish"]
  stateType := none
  loops := []
  branches := []
  approvals := [.failing ⟨"Editor", "editor", "Draft", []⟩, .failing ⟨"Legal", "legal", "Review", []⟩]
  forks := []
  handlers := []

theorem Definition.hasGate_editor : Definition.publication.HasGate "Editor" :=
  ⟨_, List.mem_cons_self, _, Approval.mem_chain_self _, rfl⟩

/-- The editor's approval comes before a timeout and a change of mind, which are disregarded. -/
theorem approval_race_publication : ∃ (h : Host) (before : List Delivery) (e e' e'' : Delivery)
    (s : Session), Definition.publication.compile .default = .ok h.table
      ∧ h.Evolves (before ++ [e, e', e'']) s
      ∧ (∀ t ∈ [e, e', e''], t.message.instanceId = .number 1)
      ∧ e.message.IsDecision "Editor" (.request 1) .approved
      ∧ e'.message.IsTimeout "Editor" (.request 1)
      ∧ e''.message.IsDecision "Editor" (.request 1) .rejected
      ∧ e.before.Awaits (.number 1) (.request 1)
      ∧ h.Resolves e ∧ h.Disregards e' ∧ h.Disregards e'' := by
  let approve : Message :=
    ⟨Name.approvalDecided "Editor", .number 1, .approvalDecided (.request 1) .approved⟩
  let expire : Message :=
    ⟨Name.approvalTimedOut "Editor", .number 1, .approvalTimedOut (.request 1)⟩
  let reject : Message :=
    ⟨Name.approvalDecided "Editor", .number 1, .approvalDecided (.request 1) .rejected⟩
  obtain ⟨h, compiles, computed⟩ := Definition.exists_play (d := .publication)
    (Host.faltering · []) (fun _ => rfl) [([], 4), ([approve, expire, reject], 3)]
    (fun _ past _ => Delivery.passes past 4 fun _ e after => e.message = approve
      ∧ after.map Delivery.message = [expire, reject]
      ∧ (Store.get? (.number 1) e.before.running).any (·.pendingApproval = some (.request 1)))
    (by decide +kernel)
  have run := ((Host.Evolves.initial (h := h)).start (.number 1) .null).play
    [([], 4), ([approve, expire, reject], 3)]
  obtain ⟨before, e, after, split, passes⟩ := Delivery.exists_split computed
  rw [split] at run
  obtain ⟨approves, others, waiting⟩ := of_decide_eq_true passes
  obtain ⟨e', rest, rfl, expires, others⟩ := List.map_eq_cons_iff.mp others
  obtain ⟨e'', rest, rfl, rejects, others⟩ := List.map_eq_cons_iff.mp others
  obtain rfl := List.map_eq_nil_iff.mp others
  obtain ⟨i, stored, waiting⟩ := (Option.any_eq_true _ _).mp waiting
  have first : e.message.IsDecision "Editor" (.request 1) .approved := by rw [approves]; exact ⟨rfl, rfl⟩
  have second : e'.message.IsTimeout "Editor" (.request 1) := by rw [expires]; exact ⟨rfl, rfl⟩
  have third : e''.message.IsDecision "Editor" (.request 1) .rejected := by
    rw [rejects]
    exact ⟨rfl, rfl⟩
  have answers : ∀ t ∈ [e, e', e''], t.message.instanceId = .number 1
      ∧ t.message.IsAnswer "Editor" (.request 1) := by
    simp only [List.forall_mem_cons, List.not_mem_nil, false_implies, implies_true, and_true]
    exact ⟨⟨by rw [approves], .inl first⟩, ⟨by rw [expires], .inr (.inr second)⟩,
      ⟨by rw [rejects], .inr (.inl third)⟩⟩
  have waits : e.before.Awaits (.number 1) (.request 1) := ⟨i, stored, of_decide_eq_true waiting⟩
  have unacknowledged : ∀ t ∈ [e, e', e''], t.message.instanceId = .number 1 → ∀ gate,
      Definition.publication.HasGate gate → ¬ t.message.IsAcknowledgement gate (.request 1) :=
    fun t ht _ gate _ => (answers t ht).2.isSignal.not_isAcknowledgement
  obtain ⟨_, race, _⟩ := run.approval_race compiles unacknowledged
  have gate := Definition.hasGate_editor
  obtain ⟨takes, leaves⟩ := race [] e [e', e''] rfl (answers e (by simp)).1
    ⟨_, gate, (answers e (by simp)).2⟩ (by simp)
  exact ⟨h, before, e, e', e'', _, compiles, run, fun t ht => (answers t ht).1, first, second, third,
    waits, (takes waits).1, leaves e' (by simp) (answers e' (by simp)).1 ⟨_, gate, (answers e' (by simp)).2⟩,
    leaves e'' (by simp) (answers e'' (by simp)).1 ⟨_, gate, (answers e'' (by simp)).2⟩⟩

/-- A publication that is completed from outside keeps the request it waited for; the refusal that
comes after that is a dead letter. -/
theorem not_approval_race_finished : ∃ (h : Host) (before : List Delivery) (e : Delivery) (s : Session)
    (i : Instance), Definition.publication.compile .default = .ok h.table
      ∧ h.Evolves (before ++ [e]) s ∧ e.message.instanceId = .number 1
      ∧ Definition.publication.HasGate "Editor"
      ∧ e.message.IsDecision "Editor" (.request 1) .rejected
      ∧ e.before.inst? (.number 1) = some i ∧ i.pendingApproval = some (.request 1)
      ∧ ¬ h.Resolves e ∧ h.Disregards e
      ∧ (h.deliver e.before e.message).inst? (.number 1) = some i := by
  let complete : Message := ⟨Name.completedEvent "Publish", .number 1, .completed .null none⟩
  let reject : Message :=
    ⟨Name.approvalDecided "Editor", .number 1, .approvalDecided (.request 1) .rejected⟩
  obtain ⟨h, compiles, computed⟩ := Definition.exists_play (d := .publication)
    (Host.faltering · []) (fun _ => rfl) [([], 4), ([complete], 1), ([reject], 1)]
    (fun h past _ => Delivery.passes past 5 fun _ e after => e.message = reject ∧ after.length = 0
      ∧ Store.get? (.number 1) e.before.running = none ∧ h.committed? e = none
      ∧ (e.before.inst? (.number 1)).any (·.pendingApproval = some (.request 1)))
    (by decide +kernel)
  have run := ((Host.Evolves.initial (h := h)).start (.number 1) .null).play
    [([], 4), ([complete], 1), ([reject], 1)]
  obtain ⟨before, e, after, split, passes⟩ := Delivery.exists_split computed
  rw [split] at run
  obtain ⟨rejects, last, gone, idle, waiting⟩ := of_decide_eq_true passes
  obtain rfl := List.length_eq_zero_iff.mp last
  obtain ⟨i, stored, waiting⟩ := (Option.any_eq_true _ _).mp waiting
  have own : e.message.instanceId = .number 1 := by rw [rejects]
  have decides : e.message.IsDecision "Editor" (.request 1) .rejected := by
    rw [rejects]
    exact ⟨rfl, rfl⟩
  have c := Definition.compiled_of_compile compiles
  have disregards : h.Disregards e := by
    refine (c.deliver_decision Definition.hasGate_editor ?_ decides).1 ?_
    · intro j running
      rw [own, gone] at running
      cases running
    · rintro ⟨j, running, _⟩
      rw [own, gone] at running
      cases running
  refine ⟨h, before, e, _, i, compiles, run, own, Definition.hasGate_editor, decides, stored,
    of_decide_eq_true waiting, ?_, disregards, (disregards.inst?_eq _).trans stored⟩
  rintro ⟨j, es, committed, _⟩
  rw [idle] at committed
  cases committed

end Workflow
