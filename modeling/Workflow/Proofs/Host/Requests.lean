import Workflow.Proofs.Host.Signals

/-!
Requests of gates, and the signals that answer them.

A host records every request under the instance, the gate and the correlation id it was issued, and
acknowledges it to the instance. An instance keeps the id it waits for, not the gate. So where nothing
but signals comes from outside, whatever an instance waits for was issued to one of its requests, but a
signal of any gate may answer it: `signal_acts_iff`. A signal that `decide` or `timeOut` sends carries an
id of its own gate.
-/

set_option autoImplicit false

namespace Workflow

/-- The deliveries made and the session reached when nothing but starts and signals comes from outside.
Signals may name any gate and carry any correlation id. -/
inductive Host.Signalled (h : Host) : List Delivery → Session → Prop
  | initial : Host.Signalled h [] .initial
  | start {past : List Delivery} {s : Session} (run : Host.Signalled h past s) (id : Key)
      (state : Value) : Host.Signalled h past (h.start s id state).2
  | startAuto {past : List Delivery} {s : Session} (run : Host.Signalled h past s) (state : Value) :
      Host.Signalled h past (h.startAuto s state).2
  | decideWith {past : List Delivery} {s : Session} (run : Host.Signalled h past s) (id : Key)
      (approval : String) (correlation : Key) (decision : Decision) :
      Host.Signalled h past (s.decideWith id approval correlation decision)
  | timeOutWith {past : List Delivery} {s : Session} (run : Host.Signalled h past s) (id : Key)
      (approval : String) (correlation : Key) :
      Host.Signalled h past (s.timeOutWith id approval correlation)
  | deliver {past : List Delivery} {s : Session} {m : Message} {rest : List Message}
      (run : Host.Signalled h past s) (queue : s.queue = m :: rest) :
      Host.Signalled h (past ++ [⟨{ s with queue := rest }, m⟩])
        (h.deliver { s with queue := rest } m)

/-- Whether a correlation id was issued to a request of a gate for an instance. -/
def Session.Issued (s : Session) (gate : String) (id c : Key) : Prop :=
  ∃ r ∈ s.approvals, r.instanceId = id ∧ r.approval = gate ∧ r.correlation = c

/-- The message that acknowledges a request. -/
def ApprovalRecord.acknowledgement (r : ApprovalRecord) : Message :=
  ⟨Name.approvalPending r.approval, r.instanceId, .approvalPending r.correlation⟩

/-- The delivery changes no instance, and nothing is sent, asked for or published. -/
structure Host.Ignores (h : Host) (e : Delivery) : Prop where
  inst?_eq (id : Key) : (h.deliver e.before e.message).inst? id = e.before.inst? id
  queue_eq : (h.deliver e.before e.message).queue = e.before.queue
  approvals_eq : (h.deliver e.before e.message).approvals = e.before.approvals
  events_eq : (h.deliver e.before e.message).events = e.before.events

theorem Host.Disregards.ignores {h : Host} {e : Delivery} (disregards : h.Disregards e) :
    h.Ignores e := by
  have insts := disregards.inst?_eq
  obtain ⟨running, letters, result, _⟩ := disregards
  refine ⟨insts, ?_, ?_, ?_⟩ <;> rw [result]

/-- A message of a name that is not declared is dropped or refused. -/
theorem Host.ignores_of_unknown {h : Host} {e : Delivery}
    (unknown : h.table.kindOf? e.message.name = none) : h.Ignores e := by
  have result : ∃ dropped faults,
      h.deliver e.before e.message = { e.before with dropped, faults } := by
    unfold Host.deliver
    split
    · exact ⟨_, _, rfl⟩
    · rw [unknown]
      exact ⟨_, _, rfl⟩
  obtain ⟨dropped, faults, result⟩ := result
  refine ⟨fun id => ?_, ?_, ?_, ?_⟩ <;> rw [result]
  rfl

/-! ## What a host puts into its queue -/

/-- Requests stay on record, and what is new in the queue carries no correlation id or acknowledges a
request that is on record. -/
structure Session.Grows (s t : Session) : Prop where
  approvals : s.approvals ⊆ t.approvals
  queue : ∀ m ∈ t.queue, m ∈ s.queue ∨ m.correlation? = none
    ∨ ∃ r ∈ t.approvals, m = r.acknowledgement

namespace Session.Grows

variable {s t u : Session}

/-- The queue may lose messages, and take in some without a correlation id. -/
theorem of_mute (approvals : t.approvals = s.approvals)
    (queue : ∀ m ∈ t.queue, m ∈ s.queue ∨ m.correlation? = none) : s.Grows t where
  approvals := by rw [approvals]; exact List.Subset.refl _
  queue m hm := (queue m hm).imp_right .inl

theorem refl (s : Session) : s.Grows s := of_mute rfl fun _ hm => .inl hm

theorem trans (first : s.Grows t) (second : t.Grows u) : s.Grows u where
  approvals := List.Subset.trans first.approvals second.approvals
  queue m hm := by
    rcases second.queue m hm with old | new
    · rcases first.queue m old with older | mute | ⟨r, hr, same⟩
      · exact .inl older
      · exact .inr (.inl mute)
      · exact .inr (.inr ⟨r, second.approvals hr, same⟩)
    · exact .inr new

theorem send {m : Message} (mute : m.correlation? = none) : s.Grows (s.send m) :=
  of_mute rfl fun m' hm' => (List.mem_append.mp hm').imp_right fun new => by
    rwa [List.mem_singleton.mp new]

theorem issued (grows : s.Grows t) {gate : String} {id c : Key} (issued : s.Issued gate id c) :
    t.Issued gate id c := by
  obtain ⟨r, hr, fits⟩ := issued
  exact ⟨r, grows.approvals hr, fits⟩

end Session.Grows

namespace Host

variable (h : Host) (s : Session)

theorem grows_dispatch {m : Message} (mute : m.correlation? = none) : s.Grows (h.dispatch s m) := by
  unfold dispatch
  split
  · split
    · refine ⟨List.subset_append_left _ _, fun m' hm' => ?_⟩
      rcases List.mem_append.mp hm' with old | new
      · exact .inl old
      · exact .inr (.inr ⟨_, List.mem_append_right _ List.mem_cons_self, List.mem_singleton.mp new⟩)
    · exact .of_mute rfl fun _ hm => .inl hm
  · exact .of_mute rfl fun _ hm => .inl hm
  · exact .send mute

theorem grows_effect (cause : Message) {e : Effect} (mute : e.IsMute) :
    s.Grows (h.effect cause s e) := by
  cases e with
  | send m => exact h.grows_dispatch s mute
  | join fork path total m =>
    have mute : m.correlation? = none := mute
    have counted : ∀ joins, s.Grows { s with joins } := fun _ => .of_mute rfl fun _ hm => .inl hm
    simp only [effect, Session.join]
    split <;> split <;> first | exact (counted _).trans (.send mute) | exact counted _
  | cancelFork fork =>
    simp only [effect, cancelFork]
    split
    · exact .refl s
    · exact .of_mute rfl fun _ hm => .inl (List.mem_filter.mp hm).1

theorem grows_effects (cause : Message) {es : List Effect} (mute : ∀ e ∈ es, e.IsMute) :
    s.Grows (h.effects cause s es) := by
  induction es generalizing s with
  | nil => exact .refl s
  | cons e rest ih =>
    exact (h.grows_effect s cause (mute e List.mem_cons_self)).trans
      (ih _ fun e' he' => mute e' (List.mem_cons_of_mem _ he'))

/-- What a delivery puts into the queue is the host's own. -/
theorem grows_deliver (m : Message) : s.Grows (h.deliver s m) := by
  cases cancelled : h.isCancelled s m with
  | true =>
    rw [deliver_cancelled cancelled]
    exact .of_mute rfl fun _ hm => .inl hm
  | false =>
    cases committed : h.committed? ⟨s, m⟩ with
    | none =>
      obtain ⟨more, _, _, _, _, mute, result⟩ := deliver_idle committed cancelled
      dsimp only at result
      rw [result]
      exact .of_mute rfl fun m' hm' => (List.mem_append.mp hm').imp_right (mute m')
    | some result =>
      obtain ⟨j, es⟩ := result
      obtain ⟨i, t, _, _, _, ok, result⟩ := exists_of_committed? committed
      obtain ⟨_, _, moved⟩ := h.commit_cases { s with
        delivered := s.delivered ++ [m]
        calls := (t.apply h.collaborators s.calls i m).calls } m j es
      dsimp only at result
      rw [result, moved, resetForks_eq]
      have grown := h.grows_effects
        { s with
          delivered := s.delivered ++ [m]
          calls := (t.apply h.collaborators s.calls i m).calls
          joins := h.renewed m s.joins
          cancelled := h.renewed m s.cancelled
          running := Store.insert m.instanceId j s.running } m (Transition.apply_isMute ok)
      exact ⟨grown.approvals, grown.queue⟩

end Host

/-- So is what a start puts there. -/
theorem Compiled.grows_start {d : Definition} {h : Host} (c : Compiled d h.table) (s : Session)
    (id : Key) (state : Value) : s.Grows (h.start s id state).2 := by
  obtain ⟨x, _, _, _, result, _⟩ := c.start_eq s id state
  rw [result]
  refine .of_mute rfl fun m hm => (List.mem_append.mp hm).imp_right fun new => ?_
  rw [List.mem_singleton.mp new]
  rfl

/-! ## What instances wait for -/

/-- Acknowledgements in the queue and what instances wait for were issued to requests on record. -/
structure Session.Honest (d : Definition) (s : Session) : Prop where
  acknowledged : ∀ m ∈ s.queue, ∀ gate c, m.IsAcknowledgement gate c → s.Issued gate m.instanceId c
  awaited : ∀ id c, s.Awaits id c → ∃ gate, d.HasGate gate ∧ s.Issued gate id c

namespace Session.Honest

variable {d : Definition} {s t : Session}

theorem grow (honest : s.Honest d) (grows : s.Grows t)
    (awaited : ∀ id c, t.Awaits id c → ∃ gate, d.HasGate gate ∧ t.Issued gate id c) :
    t.Honest d where
  acknowledged m hm gate c acknowledges := by
    rcases grows.queue m hm with old | mute | ⟨r, hr, rfl⟩
    · exact grows.issued (honest.acknowledged m old gate c acknowledges)
    · rw [acknowledges.2] at mute
      cases mute
    · obtain ⟨name, carried⟩ := acknowledges
      exact ⟨r, hr, rfl, (String.append_left_inj _).mp name, Option.some.inj carried⟩
  awaited := awaited

/-- Nobody waits for anything new. -/
theorem still (honest : s.Honest d) (grows : s.Grows t) (old : ∀ id c, t.Awaits id c → s.Awaits id c) :
    t.Honest d :=
  honest.grow grows fun id c waits =>
    let ⟨gate, declared, issued⟩ := honest.awaited id c (old id c waits)
    ⟨gate, declared, grows.issued issued⟩

/-- Signals acknowledge nothing. -/
theorem signal (honest : s.Honest d) {m : Message} {gate : String} {c : Key}
    (signal : m.IsSignal gate c) : (s.send m).Honest d where
  acknowledged m' hm' gate' c' acknowledges := by
    rcases List.mem_append.mp hm' with old | new
    · exact honest.acknowledged m' old gate' c' acknowledges
    · rw [List.mem_singleton.mp new] at acknowledges
      exact absurd acknowledges signal.not_isAcknowledgement
  awaited := honest.awaited

end Session.Honest

namespace Host.Signalled

variable {d : Definition} {h : Host} {past : List Delivery} {s : Session}

theorem evolves (run : h.Signalled past s) : h.Evolves past s := by
  induction run with
  | initial => exact .initial
  | start run id state ih => exact ih.start id state
  | startAuto run state ih => exact ih.startAuto state
  | decideWith run id approval correlation decision ih =>
    exact ih.decideWith id approval correlation decision
  | timeOutWith run id approval correlation ih => exact ih.timeOutWith id approval correlation
  | deliver run queue ih => exact ih.deliver queue

/-- In a closed run nothing but starts and signals comes from outside. -/
theorem of_reaches {started : List Key} (run : h.Reaches started past s) : h.Signalled past s := by
  induction run with
  | initial => exact .initial
  | @start _ _ s s' id state run fresh ok ih =>
    have started := ih.start id state
    rwa [ok] at started
  | deliver run queue ih => exact ih.deliver queue
  | decide run ok ih =>
    obtain ⟨_, _, result⟩ := map_eq_ok.mp ok
    cases result
    exact ih.decideWith _ _ _ _
  | timeOut run ok ih =>
    obtain ⟨_, _, result⟩ := map_eq_ok.mp ok
    cases result
    exact ih.timeOutWith _ _ _

theorem honest (c : Compiled d h.table) (run : h.Signalled past s) : s.Honest d := by
  induction run with
  | initial => exact ⟨by simp [Session.initial], by rintro id c ⟨i, stored, _⟩; cases stored⟩
  | @start _ s _ id state ih =>
    exact ih.still (c.grows_start s id state) fun _ _ => c.awaits_of_start
  | @startAuto _ s _ state ih =>
    have started := ih.still (c.grows_start s (.auto (s.autos + 1)) state)
      fun _ _ => c.awaits_of_start
    rw [c.startAuto_eq]
    exact ⟨started.acknowledged, started.awaited⟩
  | decideWith run id approval correlation decision ih =>
    exact ih.signal (.inl ⟨decision, rfl, rfl⟩)
  | timeOutWith run id approval correlation ih => exact ih.signal (.inr ⟨rfl, rfl⟩)
  | @deliver _ s m rest run queue ih =>
    have left : ({ s with queue := rest } : Session).Honest d :=
      ih.still (.of_mute rfl fun m' hm' => .inl (by rw [queue]; exact List.mem_cons_of_mem _ hm'))
        fun _ _ waits => waits
    have grows := h.grows_deliver { s with queue := rest } m
    refine left.grow grows fun id key waits => ?_
    rcases c.awaits_of_deliver (e := ⟨_, m⟩) waits with old | ⟨rfl, gate, declared, acknowledges⟩
    · obtain ⟨gate, declared, issued⟩ := left.awaited id key old
      exact ⟨gate, declared, grows.issued issued⟩
    · have issued : s.Issued gate m.instanceId key :=
        ih.acknowledged m (by rw [queue]; exact List.mem_cons_self) gate key acknowledges
      exact ⟨gate, declared, grows.issued issued⟩

/-- Whatever is waited for when a message is delivered was issued. -/
theorem issued_of_awaits (c : Compiled d h.table) (run : h.Signalled past s) {e : Delivery}
    (member : e ∈ past) {id key : Key} (waits : e.before.Awaits id key) :
    ∃ gate, d.HasGate gate ∧ e.before.Issued gate id key := by
  have delivered : ∀ {past s}, h.Signalled past s → ∀ e ∈ past, ∃ s₀ past₀, h.Signalled past₀ s₀
      ∧ e.before = { s₀ with queue := e.before.queue } := by
    intro past s run
    induction run with
    | initial => simp
    | @deliver past s m rest run queue ih =>
      intro e he
      rcases List.mem_append.mp he with old | new
      · exact ih e old
      · rw [List.mem_singleton.mp new]
        exact ⟨s, past, run, rfl⟩
    | _ => assumption
  obtain ⟨s₀, past₀, before, same⟩ := delivered run e member
  rw [same] at waits ⊢
  exact (before.honest c).awaited id key waits

theorem deliverUpTo (run : h.Signalled past s) (n : Nat) :
    h.Signalled (h.deliverUpTo n past s).1 (h.deliverUpTo n past s).2 :=
  Host.deliverUpTo_induction (fun run queue => run.deliver queue) n run

end Host.Signalled

/-- The gate and the id of a signal are in the message. -/
theorem Message.IsSignal.unique {gate gate' : String} {key key' : Key} {m : Message}
    (signal : m.IsSignal gate key) (other : m.IsSignal gate' key') : gate' = gate ∧ key' = key := by
  refine ⟨?_, Option.some.inj (other.correlation?.symm.trans signal.correlation?)⟩
  rcases signal with ⟨_, name, _⟩ | ⟨name, _⟩ <;> rcases other with ⟨_, name', _⟩ | ⟨name', _⟩
  · exact (String.append_left_inj _).mp (name'.symm.trans name)
  · exact absurd (name'.symm.trans name) (Name.append_ne (by decide) _ _)
  · exact absurd (name'.symm.trans name) (Name.append_ne (by decide) _ _)
  · exact (String.append_left_inj _).mp (name'.symm.trans name)

/-- Signals in the queue carry ids that were issued to their own gates. -/
def Session.Faithful (s : Session) : Prop :=
  ∀ m ∈ s.queue, ∀ gate key, m.IsSignal gate key → s.Issued gate m.instanceId key

namespace Session.Faithful

variable {s t : Session}

theorem grow (faithful : s.Faithful) (grows : s.Grows t) : t.Faithful := by
  intro m hm gate key signal
  rcases grows.queue m hm with old | mute | ⟨r, _, rfl⟩
  · exact grows.issued (faithful m old gate key signal)
  · rw [signal.correlation?] at mute
    cases mute
  · have acknowledges : r.acknowledgement.IsAcknowledgement r.approval r.correlation := ⟨rfl, rfl⟩
    exact absurd acknowledges signal.not_isAcknowledgement

theorem send (faithful : s.Faithful) {m : Message} {gate : String} {key : Key}
    (signal : m.IsSignal gate key) (issued : s.Issued gate m.instanceId key) : (s.send m).Faithful := by
  intro m' hm' gate' key' signal'
  rcases List.mem_append.mp hm' with old | new
  · exact faithful m' old gate' key' signal'
  · obtain rfl := List.mem_singleton.mp new
    obtain ⟨rfl, rfl⟩ := signal.unique signal'
    exact issued

end Session.Faithful

namespace Host.Reaches

variable {d : Definition} {h : Host} {started : List Key} {past : List Delivery} {s : Session}

/-- In a closed run signals answer requests on record. -/
theorem faithful (c : Compiled d h.table) (run : h.Reaches started past s) : s.Faithful := by
  induction run with
  | initial => simp [Session.Faithful, Session.initial]
  | @start _ _ s s' id state run fresh ok ih =>
    have grows := c.grows_start s id state
    rw [ok] at grows
    exact ih.grow grows
  | @deliver _ _ s m rest run queue ih =>
    have left : s.Grows { s with queue := rest } :=
      .of_mute rfl fun m' hm' => .inl (by rw [queue]; exact List.mem_cons_of_mem _ hm')
    exact ih.grow (left.trans (h.grows_deliver _ m))
  | decide run ok ih =>
    obtain ⟨_, asked, result⟩ := map_eq_ok.mp ok
    cases result
    exact ih.send (.inl ⟨_, rfl, rfl⟩) (Session.exists_request asked)
  | timeOut run ok ih =>
    obtain ⟨_, asked, result⟩ := map_eq_ok.mp ok
    cases result
    exact ih.send (.inr ⟨rfl, rfl⟩) (Session.exists_request asked)

theorem issued_of_signal (c : Compiled d h.table) (run : h.Reaches started past s) {e : Delivery}
    (member : e ∈ past) {gate : String} {key : Key} (signal : e.message.IsSignal gate key) :
    e.before.Issued gate e.message.instanceId key := by
  obtain ⟨earlier, later, split⟩ := List.append_of_mem member
  obtain ⟨_, s₀, before, queue, same⟩ := run.before split
  have issued := before.faithful c e.message (by rw [queue]; exact List.mem_cons_self) gate key signal
  rw [same]
  exact issued

end Host.Reaches

namespace Compiled

variable {d : Definition} {h : Host} (c : Compiled d h.table)

include c

/-- A signal whose name is declared is one of a gate. -/
theorem hasGate_of_signal {m : Message} {gate : String} {key : Key} (signal : m.IsSignal gate key)
    (known : h.table.kindOf? m.name ≠ none) : d.HasGate gate := by
  obtain ⟨tail, name, which⟩ : ∃ tail, m.name = gate ++ tail
      ∧ (tail = "ApprovalDecided" ∨ tail = "ApprovalTimedOut") := by
    rcases signal with ⟨decision, name, _⟩ | ⟨name, _⟩
    · exact ⟨_, name, .inl rfl⟩
    · exact ⟨_, name, .inr rfl⟩
  -- no other name ends like that
  have apart : ∀ {y : String}, y ∈ ["Command", Name.workerTail, "Completed", "ValidationFailed",
      "ApprovalRequested", "ApprovalPending"] → ∀ x, x ++ y ≠ m.name := by
    intro y hy x
    rw [name]
    refine Name.append_ne ?_ x gate
    rcases which with rfl | rfl <;> revert y <;> decide
  obtain ⟨kind, known⟩ := Option.ne_none_iff_exists'.mp known
  obtain ⟨entry, found, _⟩ := Option.map_eq_some_iff.mp known
  have same : entry.name = m.name := by simpa using List.find?_some found
  have listed := List.mem_of_find?_eq_some found
  rw [c.messages_eq, Definition.messages, List.mem_cons] at listed
  rcases listed with rfl | listed
  · exact absurd same (apart (by simp) _)
  · obtain ⟨introduced, planned, listed⟩ := List.mem_flatMap.mp listed
    cases c.wellFormed.mem_plan_iff.mp planned with
    | step line belongs at? =>
      simp only [Entry.messages, Site.messages, List.mem_append, List.mem_cons, List.not_mem_nil,
        or_false] at listed
      rcases listed with (rfl | rfl | rfl) | guarded
      · exact absurd same (apart (by simp) _)
      · exact absurd same (apart (by simp) _)
      · exact absurd same (apart (by simp) _)
      · split at guarded
        · rw [List.mem_singleton.mp guarded] at same
          exact absurd same (apart (by simp) _)
        · cases guarded
    | @gate a g attached link =>
      have own : ∀ {tail'}, g.gate.name ++ tail' = gate ++ tail → tail' = tail → d.HasGate gate := by
        rintro _ same rfl
        exact ⟨a, attached, g, link, (String.append_left_inj _).mp same⟩
      simp only [Entry.messages, List.mem_cons, List.not_mem_nil, or_false] at listed
      rcases listed with rfl | rfl | rfl | rfl
      · exact absurd same (apart (by simp) _)
      · exact absurd same (apart (by simp) _)
      · rcases which with rfl | rfl
        · exact own (same.trans name) rfl
        · exact absurd (same.trans name) (Name.append_ne (by decide) _ _)
      · rcases which with rfl | rfl
        · exact absurd (same.trans name) (Name.append_ne (by decide) _ _)
        · exact own (same.trans name) rfl
    | handler declared =>
      rw [List.mem_singleton.mp listed] at same
      exact absurd same (apart (by simp) _)

end Compiled

/-- A signal acts only if its gate is declared and its instance waits for the id it carries, which then
was issued to a request of one of the gates; and that is all an answer needs. Whose request it was does
not matter, so the signal acts for its own gate's request only where no other gate shares the id. Signals
of closed runs always carry an id of their own gate. -/
theorem Host.Signalled.signal_acts_iff {d : Definition} {settings : Settings} {h : Host}
    (compiles : d.compile settings = .ok h.table) {past : List Delivery} {s : Session}
    (run : h.Signalled past s) {e : Delivery} (delivered : e ∈ past) {gate : String} {key : Key}
    (signal : e.message.IsSignal gate key) :
    (¬ h.Ignores e → d.HasGate gate ∧ e.before.Awaits e.message.instanceId key
        ∧ ∃ gate', d.HasGate gate' ∧ e.before.Issued gate' e.message.instanceId key)
      ∧ (e.message.IsAnswer gate key → d.HasGate gate →
        e.before.Awaits e.message.instanceId key → ¬ h.Ignores e)
      ∧ ((∀ gate', e.before.Issued gate' e.message.instanceId key → gate' = gate) →
        ¬ h.Ignores e → e.before.Issued gate e.message.instanceId key)
      ∧ ∀ started, h.Reaches started past s →
        e.before.Issued gate e.message.instanceId key := by
  have c := Definition.compiled_of_compile compiles
  have going : ∀ i, Store.get? e.message.instanceId e.before.running = some i →
      i.isFinished = false :=
    fun i stored => run.evolves.unfinished_of_mem c delivered stored
  have acts : ¬ h.Ignores e → d.HasGate gate ∧ e.before.Awaits e.message.instanceId key
      ∧ ∃ gate', d.HasGate gate' ∧ e.before.Issued gate' e.message.instanceId key := by
    intro acts
    have known : h.table.kindOf? e.message.name ≠ none :=
      fun unknown => acts (Host.ignores_of_unknown unknown)
    have declared := c.hasGate_of_signal signal known
    have waits : e.before.Awaits e.message.instanceId key := by
      by_contra idle
      exact acts (c.disregards_of_signal declared going signal idle).ignores
    exact ⟨declared, waits, run.issued_of_awaits c delivered waits⟩
  refine ⟨acts, ?_, ?_, ?_⟩
  · intro answer declared waits ignores
    exact (c.resolves_of_answer declared going answer waits).inst?_ne waits (ignores.inst?_eq _)
  · intro only effective
    obtain ⟨_, _, gate', _, issued⟩ := acts effective
    exact only gate' issued ▸ issued
  · exact fun started closed => closed.issued_of_signal c delivered signal

/-- What is computed of an approval that a publication receives once it waits for its first request is
true of a run. -/
theorem Definition.exists_approved_publication (gate : String) (check : Host → Delivery → Bool)
    (computed : (Definition.publication.compile .default).toOption.any (fun t =>
      let decision : Message :=
        ⟨Name.approvalDecided gate, .number 1, .approvalDecided (.request 1) .approved⟩
      let host := Host.faltering t []
      let reached := host.play [([], 4), ([decision], 1)] [] (host.start .initial (.number 1) .null).2
      Delivery.passes reached.1 4 fun _ e _ => e.message = decision
          ∧ (Store.get? (.number 1) e.before.running).any (·.pendingApproval = some (.request 1))
          ∧ check host e) = true) :
    ∃ (h : Host) (past : List Delivery) (s : Session) (e : Delivery),
      Definition.publication.compile .default = .ok h.table ∧ h.Signalled past s ∧ e ∈ past
        ∧ e.message = ⟨Name.approvalDecided gate, .number 1, .approvalDecided (.request 1) .approved⟩
        ∧ e.before.Awaits (.number 1) (.request 1) ∧ check h e = true := by
  let decision : Message :=
    ⟨Name.approvalDecided gate, .number 1, .approvalDecided (.request 1) .approved⟩
  obtain ⟨h, compiles, computed⟩ := Definition.exists_play (d := .publication)
    (Host.faltering · []) (fun _ => rfl) [([], 4), ([decision], 1)]
    (fun h past _ => Delivery.passes past 4 fun _ e _ => e.message = decision
      ∧ (Store.get? (.number 1) e.before.running).any (·.pendingApproval = some (.request 1))
      ∧ check h e) computed
  have run := ((((Host.Signalled.initial (h := h)).start (.number 1) .null).deliverUpTo 4).decideWith
    (.number 1) gate (.request 1) .approved).deliverUpTo 1
  obtain ⟨before, e, after, split, passes⟩ := Delivery.exists_split computed
  obtain ⟨decides, waiting, checked⟩ := of_decide_eq_true passes
  obtain ⟨i, stored, waiting⟩ := (Option.any_eq_true _ _).mp waiting
  have member : e ∈ before ++ e :: after := List.mem_append_right _ List.mem_cons_self
  rw [← split] at member
  exact ⟨h, _, _, e, compiles, run, member, decides, ⟨i, stored, of_decide_eq_true waiting⟩, checked⟩

/-- The lawyers' approval is taken for the editor's when it carries the id of the editor's request: the
publication starts to publish without a review. -/
theorem not_signal_acts_legal : ∃ (h : Host) (past : List Delivery) (s : Session) (e : Delivery),
    Definition.publication.compile .default = .ok h.table ∧ h.Signalled past s ∧ e ∈ past
      ∧ e.message.IsDecision "Legal" (.request 1) .approved ∧ ¬ h.Ignores e
      ∧ ¬ e.before.Issued "Legal" e.message.instanceId (.request 1)
      ∧ e.before.Issued "Editor" e.message.instanceId (.request 1)
      ∧ (h.deliver e.before e.message).queue = [.command (Name.startCommand "Publish") (.number 1)] := by
  obtain ⟨h, past, s, e, compiles, run, member, decides, _, checked⟩ :=
    Definition.exists_approved_publication "Legal" (fun h e => decide (
      e.before.approvals = [⟨.number 1, "Editor", "editor", .request 1⟩] ∧ e.before.queue = []
      ∧ (h.deliver e.before e.message).queue
        = [.command (Name.startCommand "Publish") (.number 1)])) (by decide +kernel)
  obtain ⟨requests, waiting, sent⟩ := of_decide_eq_true checked
  refine ⟨h, past, s, e, compiles, run, member, by rw [decides]; exact ⟨rfl, rfl⟩, ?_, ?_, ?_, sent⟩
  · intro ignores
    rw [ignores.queue_eq, waiting] at sent
    cases sent
  · simp [Session.Issued, requests]
  · simp [Session.Issued, requests, decides]

/-- The editor's own approval. -/
theorem signal_acts_iff_editor : ∃ (h : Host) (past : List Delivery) (s : Session) (e : Delivery),
    Definition.publication.compile .default = .ok h.table ∧ h.Signalled past s ∧ e ∈ past
      ∧ e.message.IsDecision "Editor" (.request 1) .approved ∧ ¬ h.Ignores e
      ∧ e.before.Issued "Editor" e.message.instanceId (.request 1) := by
  obtain ⟨h, past, s, e, compiles, run, member, decides, waits, checked⟩ :=
    Definition.exists_approved_publication "Editor" (fun _ e => decide (
      e.before.approvals = [⟨.number 1, "Editor", "editor", .request 1⟩])) (by decide +kernel)
  have requests := of_decide_eq_true checked
  have own : e.message.instanceId = .number 1 := by rw [decides]
  have approves : e.message.IsDecision "Editor" (.request 1) .approved := by
    rw [decides]
    exact ⟨rfl, rfl⟩
  obtain ⟨_, acts, issued, _⟩ := run.signal_acts_iff compiles member (.inl ⟨_, approves⟩)
  have effective := acts (.inl approves) Definition.hasGate_editor (own ▸ waits)
  refine ⟨h, past, s, e, compiles, run, member, approves, effective, issued ?_ effective⟩
  rintro gate ⟨r, hr, _, rfl, _⟩
  rw [requests] at hr
  rw [List.mem_singleton.mp hr]

end Workflow
