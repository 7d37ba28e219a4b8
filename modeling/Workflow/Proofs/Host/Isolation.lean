import Workflow.Proofs.Host.Cancellation
import Workflow.Proofs.Host.Ledger
import Workflow.Proofs.Machine.Purity

/-!
Instances side by side.

All instances of a host share one queue, one table of joins, one table of cancelled forks and one log of
approval requests. `Session.view` is what all of these hold of one instance. An operation that is
addressed to another instance leaves it as it is, with one exception: a cancellation of a fork goes
through the whole queue and drops whatever waits on a cancelled path, whoever it is for.

Apart from that, what becomes of an instance depends on the operations addressed to it and on nothing
else, as long as collaborators are pure and the correlation id of a request depends on the earlier
requests of its own instance only.
-/

set_option autoImplicit false

namespace Workflow

/-! ## The view of one instance -/

namespace Session

/-- The session with the requests of one instance only, and without the log of calls. -/
def bare (id : Key) (s : Session) : Session :=
  { s with approvals := s.approvals.filter fun r => r.instanceId = id, calls := [] }

/-- All that a session holds of one instance. -/
def view (s : Session) (id : Key) : Session := (s.only id).bare id

end Session

/-- Whether an effect cancels a fork. -/
def Effect.isCancel : Effect → Bool
  | .cancelFork _ => true
  | _ => false

namespace Host

variable {h : Host} {s : Session} {id : Key}

/-! ## Deliveries to other instances -/

/-- Whether a delivery goes through the queue, to drop what is cancelled. -/
def purges (h : Host) (e : Delivery) : Bool :=
  (h.table.pathOf? e.message.name).isSome
    && (h.committed? e).any fun result => result.2.any Effect.isCancel

theorem sweep_sweep (h : Host) (s : Session) : h.sweep (h.sweep s) = h.sweep s := by
  have calm : h.Calm (h.sweep s) := by
    intro m hm
    have kept := (List.mem_filter.mp hm).2
    simp only [Bool.not_eq_true'] at kept
    exact kept
  exact sweep_of_calm calm

theorem view_sweep (h : Host) (s : Session) (id : Key) : (h.sweep s).view id = h.sweep (s.view id) :=
  congrArg (Session.bare id) (only_sweep h s id)

theorem view_dispatch_of_ne {m : Message} (other : m.instanceId ≠ id) :
    (h.dispatch s m).view id = s.view id := by
  unfold dispatch
  split
  · split <;> simp [Session.view, Session.bare, Session.only, Session.recordRequest, Session.publish,
      Session.send, other]
  · simp [Session.view, Session.bare, Session.only, Session.publish, other]
  · simp [Session.view, Session.bare, Session.only, Session.send, other]

theorem view_cancelFork_of_ne {cause : Message} (other : cause.instanceId ≠ id) (fork : String) :
    (h.cancelFork s cause fork).view id
      = if (h.table.pathOf? cause.name).isSome then h.sweep (s.view id) else s.view id := by
  rw [cancelFork_eq]
  cases h.table.pathOf? cause.name with
  | none => rfl
  | some found =>
    have kept : (Session.view { s with
        cancelled := Store.insert (cause.instanceId, fork) found.2 s.cancelled } id) = s.view id :=
      congrArg (Session.bare id) ((only_cancelled _ _ _).trans (if_neg other))
    exact (view_sweep _ _ _).trans (congrArg h.sweep kept)

/-- Effects on another instance leave the view as it is, or sweep it. -/
theorem view_effects_of_ne {cause : Message} (other : cause.instanceId ≠ id) {es : List Effect}
    (isFor : ∀ e ∈ es, e.IsFor cause.instanceId) :
    (h.effects cause s es).view id
      = if (h.table.pathOf? cause.name).isSome && es.any Effect.isCancel then h.sweep (s.view id)
        else s.view id := by
  induction es generalizing s with
  | nil => simp [effects]
  | cons e rest ih =>
    obtain ⟨there, isFor⟩ := List.forall_mem_cons.mp isFor
    have later := ih (s := h.effect cause s e) isFor
    simp only [effects, List.foldl_cons] at later ⊢
    rw [later]
    cases e with
    | send m =>
      have same : (h.effect cause s (.send m)).view id = s.view id :=
        view_dispatch_of_ne (there.trans_ne other)
      simp [same, Effect.isCancel]
    | join fork path total m =>
      have same : (h.effect cause s (.join fork path total m)).view id = s.view id :=
        congrArg (Session.bare id) ((Session.only_join ..).trans (if_neg (there.trans_ne other)))
      simp [same, Effect.isCancel]
    | cancelFork fork =>
      have swept : (h.effect cause s (.cancelFork fork)).view id = _ :=
        view_cancelFork_of_ne other fork
      rw [swept]
      cases (h.table.pathOf? cause.name).isSome <;> simp [sweep_sweep, Effect.isCancel]

theorem view_commit_of_ne {m : Message} (other : m.instanceId ≠ id) (j : Instance) {es : List Effect}
    (isFor : ∀ e ∈ es, e.IsFor m.instanceId) :
    (h.commit s m j es).view id
      = if (h.table.pathOf? m.name).isSome && es.any Effect.isCancel then h.sweep (s.view id)
        else s.view id := by
  have before : (Session.view { h.resetForks s m with
      running := Store.insert m.instanceId j (h.resetForks s m).running } id) = s.view id := by
    refine congrArg (Session.bare id) ?_
    rw [Session.only_running, if_neg other, only_resetForks, if_neg other]
  have changed := view_effects_of_ne (h := h) (s := { h.resetForks s m with
    running := Store.insert m.instanceId j (h.resetForks s m).running }) other isFor
  rw [before] at changed
  unfold commit
  split
  · refine Eq.trans (congrArg (Session.bare id) ?_) changed
    exact (Session.only_retire _).trans (if_neg other)
  · exact changed

/-- A delivery to another instance leaves the view as it is, or sweeps it. -/
theorem view_deliver_of_ne (home : AtHome s) {m : Message} (other : m.instanceId ≠ id) :
    (h.deliver s m).view id = if h.purges ⟨s, m⟩ then h.sweep (s.view id) else s.view id := by
  have handles := h.deliver_handles s m
  have idle : h.committed? ⟨s, m⟩ = none → h.purges ⟨s, m⟩ = false := fun none => by
    simp [purges, none]
  generalize h.deliver s m = s', h.posted s m = more at handles
  cases handles with
  | drop cancelled =>
    rw [idle (by rw [committed?, if_pos (.inl cancelled)])]
    simp [Session.view, Session.bare, Session.only, other]
  | refuse calm unknown =>
    rw [idle (by rw [committed?, if_pos (.inr (.inl unknown))])]
    simp [Session.view, Session.bare, Session.only, Session.fault, other]
  | work calm kind name =>
    rw [idle (by rw [committed?, if_pos (.inr (.inr kind))])]
    simp [Session.view, Session.bare, Session.only, Session.send, other]
  | fault calm declared none f =>
    rw [idle none]
    simp [Session.view, Session.bare, Session.only, Session.fault, other]
  | absent calm declared consumed none =>
    rw [idle (by simp [committed?, none])]
    unfold notFound
    split <;> simp [Session.view, Session.bare, Session.only, other]
  | @commit calm kind declared j es committed calls s' reset =>
    obtain ⟨i, t, stored, _, _, ok, _⟩ := exists_of_committed? committed
    have isFor := Transition.apply_effects_isFor ok
    rw [home _ _ stored] at isFor
    rw [view_commit_of_ne other j isFor]
    have same : Session.view { s with delivered := s.delivered ++ [m], calls } id = s.view id := by
      simp [Session.view, Session.bare, Session.only, other]
    simp only [same, purges, committed, Option.any_some]

end Host

/-! ## Operations -/

/-- The instance that an operation is addressed to, by its caller or by the message it delivers. -/
def Operation.target? (s : Session) : Operation → Option Key
  | .start id _ => some id
  | .send m => some m.instanceId
  | .decide id _ _ => some id
  | .decideWith id _ _ _ => some id
  | .timeOut id _ => some id
  | .timeOutWith id _ _ => some id
  | .deliverNext => s.queue.head?.map Message.instanceId
  | .startAuto _ => none
  | .run => none

/-- Whether an operation goes through the queue, to drop what is cancelled. -/
def Host.purgesIn (h : Host) (s : Session) : Operation → Bool
  | .deliverNext =>
    match s.queue with
    | [] => false
    | m :: rest => h.purges ⟨{ s with queue := rest }, m⟩
  | _ => false

namespace Host

variable {h : Host} {s : Session} {id : Key}

theorem view_send_of_ne {m : Message} (other : m.instanceId ≠ id) : (s.send m).view id = s.view id :=
  congrArg (Session.bare id) ((Session.only_send m).trans (if_neg other))

theorem view_signal_of_ne {j : Key} (other : j ≠ id) (approval : String) {m : Key → Message}
    (own : ∀ correlation, (m correlation).instanceId = j) :
    (s.signal j approval m).view id = s.view id := by
  unfold Session.signal
  split
  · exact view_send_of_ne ((own _).trans_ne other)
  · rfl

/-- An operation on another instance leaves the view as it is, or sweeps it. -/
theorem view_perform_of_ne {d : Definition} (c : Compiled d h.table) (home : AtHome s) {j : Key}
    {op : Operation} (addressed : op.target? s = some j) (other : j ≠ id) :
    (h.perform s op).view id = if h.purgesIn s op then h.sweep (s.view id) else s.view id := by
  cases op with
  | start id' state =>
    obtain rfl := Option.some.inj addressed
    obtain ⟨x, _, _, logged, started, own⟩ := c.start_eq s id' state
    have inserted : ∀ i, (Store.insert id' i s.running).filter (fun e => e.1 = id)
        = s.running.filter fun e => e.1 = id := by
      intro i
      rw [Store.filter_insert fun key => key = id]
      simp [other]
    simp [perform, started, purgesIn, Session.view, Session.bare, Session.only, inserted, own,
      Token.message_instanceId, other]
  | send m =>
    obtain rfl := Option.some.inj addressed
    exact view_send_of_ne other
  | decide id' approval decision =>
    obtain rfl := Option.some.inj addressed
    rw [perform_decide]
    exact view_signal_of_ne other approval fun _ => rfl
  | decideWith id' approval correlation decision =>
    obtain rfl := Option.some.inj addressed
    exact view_send_of_ne other
  | timeOut id' approval =>
    obtain rfl := Option.some.inj addressed
    rw [perform_timeOut]
    exact view_signal_of_ne other approval fun _ => rfl
  | timeOutWith id' approval correlation =>
    obtain rfl := Option.some.inj addressed
    exact view_send_of_ne other
  | deliverNext =>
    cases queue : s.queue with
    | nil => simp [Operation.target?, queue] at addressed
    | cons m rest =>
      obtain rfl : m.instanceId = j := by simpa [Operation.target?, queue] using addressed
      have same : Session.view { s with queue := rest } id = s.view id := by
        simp [Session.view, Session.bare, Session.only, queue, other]
      have home : AtHome { s with queue := rest } := home
      simp only [perform, Host.deliverNext, purgesIn, queue, view_deliver_of_ne home other, same]
  | startAuto state => cases addressed
  | run => cases addressed

/-- Nothing is swept from a view in which nothing waits on a cancelled path. -/
theorem sweep_view_eq_iff : h.sweep (s.view id) = s.view id
    ↔ ∀ m ∈ s.queue, m.instanceId = id → h.isCancelled s m = false := by
  have waits : ∀ m, m ∈ (s.view id).queue ↔ m ∈ s.queue ∧ m.instanceId = id := by
    simp [Session.view, Session.bare, Session.only]
  constructor
  · intro swept m queued own
    have kept : m ∈ (h.sweep (s.view id)).queue := by
      rw [swept]
      exact (waits m).mpr ⟨queued, own⟩
    have calm := (List.mem_filter.mp kept).2
    rw [Bool.not_eq_true'] at calm
    rw [← isCancelled_only own]
    exact calm
  · intro calm
    refine sweep_of_calm fun m queued => ?_
    obtain ⟨queued, own⟩ := (waits m).mp queued
    exact (isCancelled_only own).trans (calm m queued own)

end Host

/-! ## Operations on the instance itself -/

/-- A correlator that goes by the earlier requests of the instance that asks. -/
def Correlator.IsLocal (c : Correlator) : Prop :=
  ∀ earlier id, c earlier id = c (earlier.filter fun r => r.instanceId = id) id

namespace Session

theorem bare_bare (id : Key) (s : Session) : (s.bare id).bare id = s.bare id := by
  simp [bare]

theorem bare_retire (id key : Key) (s : Session) :
    (s.retire key).bare id = (s.bare id).retire key := by
  have running : (s.bare id).running = s.running := rfl
  unfold retire
  rw [running]
  cases Store.get? key s.running <;> rfl

end Session

/-- A host whose answers do not depend on what other instances have asked. -/
structure Host.IsPure (h : Host) : Prop where
  conditions : h.collaborators.conditions.IsPure
  executor : h.executor.IsPure
  correlator : h.correlator.IsLocal

namespace Host

variable {h : Host} (pure : h.IsPure) {s : Session} {id : Key}

include pure

theorem bare_dispatch {m : Message} (own : m.instanceId = id) :
    (h.dispatch s m).bare id = h.dispatch (s.bare id) m := by
  subst own
  unfold dispatch
  split
  · split
    · have same := pure.correlator s.approvals m.instanceId
      simp [Session.bare, Session.recordRequest, Session.publish, Session.send, same.symm]
    · rfl
  · rfl
  · rfl

theorem bare_effects (cause : Message) {es : List Effect} (isFor : ∀ e ∈ es, e.IsFor id) :
    (h.effects cause s es).bare id = h.effects cause (s.bare id) es := by
  induction es generalizing s with
  | nil => rfl
  | cons e rest ih =>
    obtain ⟨here, isFor⟩ := List.forall_mem_cons.mp isFor
    have one : (h.effect cause s e).bare id = h.effect cause (s.bare id) e := by
      cases e with
      | send m => exact bare_dispatch pure here
      | join fork path total m =>
        simp only [effect, Session.join]
        rw [apply_ite (Session.bare id)]
        rfl
      | cancelFork fork =>
        simp only [effect, cancelFork_eq]
        split <;> rfl
    have rest := ih (s := h.effect cause s e) isFor
    simp only [effects, List.foldl_cons] at rest ⊢
    rw [rest, one]

theorem bare_commit (m : Message) (j : Instance) {es : List Effect} (isFor : ∀ e ∈ es, e.IsFor id) :
    (h.commit s m j es).bare id = h.commit (s.bare id) m j es := by
  have changed := bare_effects (s := { h.resetForks s m with
    running := Store.insert m.instanceId j (h.resetForks s m).running }) pure m isFor
  have reset : h.resetForks (s.bare id) m = (h.resetForks s m).bare id := by
    rw [resetForks_eq, resetForks_eq]
    rfl
  unfold commit
  rw [reset]
  dsimp only
  have before : ({ (h.resetForks s m).bare id with
      running := Store.insert m.instanceId j ((h.resetForks s m).bare id).running } : Session)
      = Session.bare id { h.resetForks s m with
        running := Store.insert m.instanceId j (h.resetForks s m).running } := rfl
  rw [before, ← changed]
  split
  · exact Session.bare_retire _ _ _
  · rfl

theorem bare_work (m : Message) : (h.work s m).bare id = (h.work (s.bare id) m).bare id := by
  have same : ∀ workType state, h.executor s.calls workType state = h.executor [] workType state :=
    fun workType state => pure.executor s.calls workType state
  unfold work
  split
  · split
    · simp [Session.bare, Session.fault]
    · simp [Session.bare, Session.send, Executor.run, same]
  · simp [Session.bare, Session.fault]

/-- Whatever other instances have asked, a delivery does the same. -/
theorem bare_deliver (home : AtHome s) {m : Message} (own : m.instanceId = id) :
    (h.deliver s m).bare id = (h.deliver (s.bare id) m).bare id := by
  have cancelled : h.isCancelled (s.bare id) m = h.isCancelled s m := rfl
  have running : (s.bare id).running = s.running := rfl
  unfold deliver
  rw [cancelled, running]
  split
  · simp [Session.bare]
  · split
    · simp [Session.bare, Session.fault]
    next kind _ =>
      dsimp only
      split
      · exact bare_work pure m
      · cases stored : Store.get? m.instanceId s.running with
        | none =>
          simp only [notFound]
          split <;> simp [Session.bare]
        | some i =>
          cases h.table.transitionFor? m.name with
          | none => simp [Session.bare, Session.fault]
          | some t =>
            obtain ⟨inst, result⟩ := t.apply_pure pure.conditions s.calls [] i m
            have calls : (s.bare id).calls = [] := rfl
            simp only [transact, calls, inst, result]
            cases ok : (t.apply h.collaborators s.calls i m).result with
            | error f => simp [Session.bare, Session.fault]
            | ok es =>
              have isFor := Transition.apply_effects_isFor ok
              rw [home _ _ stored, own] at isFor
              dsimp only
              rw [bare_commit pure m _ isFor, bare_commit pure m _ isFor]
              congr 1
              simp [Session.bare]

omit pure in
theorem only_view (s : Session) (id : Key) : (s.view id).only id = s.view id := by
  simp [Session.view, Session.bare, Session.only]

omit pure in
theorem view_view (s : Session) (id : Key) : (s.view id).view id = s.view id := by
  rw [Session.view, only_view, Session.view, Session.bare_bare]

omit pure in
theorem atHome_view (home : AtHome s) (id : Key) : AtHome (s.view id) := by
  intro key i stored
  have filtered : Store.get? key (s.running.filter fun e => e.1 = id) = some i := stored
  rw [Store.get?_filter fun key => key = id] at filtered
  split at filtered
  · exact home key i filtered
  · cases filtered

/-- A delivery to the instance does the same on the view. -/
theorem view_deliver_self (home : AtHome s) {m : Message} (own : m.instanceId = id) :
    (h.deliver s m).view id = (h.deliver (s.view id) m).view id := by
  have homeOnly : AtHome (s.only id) := atHome_view home id
  calc (h.deliver s m).view id = (h.deliver (s.only id) m).bare id :=
        congrArg (Session.bare id) (only_deliver_self home own)
    _ = (h.deliver (s.view id) m).bare id := bare_deliver pure homeOnly own
    _ = (h.deliver ((s.view id).only id) m).bare id := by rw [only_view]
    _ = (h.deliver (s.view id) m).view id :=
        (congrArg (Session.bare id) (only_deliver_self (atHome_view home id) own)).symm

omit pure in
/-- What a start has put in before its effects. -/
theorem view_begun (s : Session) (id : Key) (i : Instance) {m : Message} (own : m.instanceId = id)
    (calls : List Call) :
    Session.view { s with
        running := Store.insert id i s.running, delivered := s.delivered ++ [m], calls } id
      = { s.view id with
        running := Store.insert id i (s.view id).running
        delivered := (s.view id).delivered ++ [m] } := by
  have inserted := Store.filter_insert (fun key => key = id) id i s.running
  simp only [decide_true, ↓reduceIte] at inserted
  simp [Session.view, Session.bare, Session.only, inserted, own]

omit pure in
theorem start_snd (h : Host) (s : Session) (id : Key) (state : Value) :
    (h.start s id state).2 =
      let m : Message := ⟨Name.startCommand h.table.process, id, .start state⟩
      let a := h.table.start.apply h.collaborators s.calls (.fresh h.table id state) m
      match a.result with
      | .ok es => h.effects m { s with
          running := Store.insert id a.inst s.running
          delivered := s.delivered ++ [m]
          calls := a.calls } es
      | .error _ => { s with calls := a.calls } := by
  dsimp only [start, Table.begin]
  cases (h.table.start.apply h.collaborators s.calls (.fresh h.table id state)
    ⟨Name.startCommand h.table.process, id, .start state⟩).result <;> rfl

/-- A start of the instance does the same on the view. -/
theorem view_start_self (state : Value) :
    (h.start s id state).2.view id = (h.start (s.view id) id state).2.view id := by
  rw [start_snd, start_snd]
  generalize name : (⟨Name.startCommand h.table.process, id, .start state⟩ : Message) = m
  have own : m.instanceId = id := name ▸ rfl
  obtain ⟨inst, result⟩ := h.table.start.apply_pure pure.conditions s.calls (s.view id).calls
    (.fresh h.table id state) m
  dsimp only
  rw [inst, result]
  cases ok : (h.table.start.apply h.collaborators s.calls (.fresh h.table id state) m).result with
  | error f => exact (view_view s id).symm
  | ok es =>
    have isFor : ∀ e ∈ es, e.IsFor id := Transition.apply_effects_isFor ok
    have along : ∀ s : Session, (h.effects m s es).view id = h.effects m (s.view id) es := fun s =>
      (congrArg (Session.bare id) (only_effects_self own isFor)).trans (bare_effects pure m isFor)
    dsimp only
    rw [along, along, view_begun _ id _ own, view_begun _ id _ own, view_view]

omit pure in
/-- Which request is the latest one can be seen in the view. -/
theorem latestRequest_view (s : Session) (id : Key) (approval : String) :
    (s.view id).latestRequest id approval = s.latestRequest id approval := by
  have stored : (s.view id).inst? id = s.inst? id := by
    have running : Store.get? id (s.view id).running = _ := s.get?_running_only id
    have finished : Store.get? id (s.view id).finished = _ := s.get?_finished_only id
    rw [Session.inst?, running, finished, Session.inst?]
  have asked : (s.view id).approvals.reverse.find? (fun r => r.instanceId = id && r.approval = approval)
      = s.approvals.reverse.find? fun r => r.instanceId = id && r.approval = approval := by
    change ((s.approvals.filter fun r => r.instanceId = id).reverse).find? _ = _
    rw [← List.filter_reverse, List.find?_filter]
    congr 1
    funext r
    by_cases own : r.instanceId = id <;> simp [own]
  rw [Session.latestRequest, stored, asked, Session.latestRequest]

omit pure in
theorem view_send_self {m : Message} (own : m.instanceId = id) :
    (s.send m).view id = ((s.view id).send m).view id := by
  have queued : ∀ s : Session, (s.send m).view id = (s.view id).send m := fun s =>
    congrArg (Session.bare id) ((Session.only_send m).trans (if_pos own))
  rw [queued, queued, view_view]

omit pure in
theorem view_signal_self (approval : String) {m : Key → Message}
    (own : ∀ correlation, (m correlation).instanceId = id) :
    (s.signal id approval m).view id = ((s.view id).signal id approval m).view id := by
  unfold Session.signal
  rw [latestRequest_view]
  split
  · exact view_send_self (own _)
  · exact (view_view s id).symm

/-- So does every operation on it. -/
theorem view_perform_self (home : AtHome s) {op : Operation} (addressed : op.target? s = some id) :
    (h.perform s op).view id = (h.perform (s.view id) op).view id := by
  cases op with
  | start id' state =>
    obtain rfl := Option.some.inj addressed
    exact view_start_self pure state
  | send m => exact view_send_self (Option.some.inj addressed)
  | decide id' approval decision =>
    obtain rfl := Option.some.inj addressed
    rw [perform_decide, perform_decide]
    exact view_signal_self approval fun _ => rfl
  | decideWith id' approval correlation decision => exact view_send_self (Option.some.inj addressed)
  | timeOut id' approval =>
    obtain rfl := Option.some.inj addressed
    rw [perform_timeOut, perform_timeOut]
    exact view_signal_self approval fun _ => rfl
  | timeOutWith id' approval correlation => exact view_send_self (Option.some.inj addressed)
  | deliverNext =>
    cases queue : s.queue with
    | nil => simp [Operation.target?, queue] at addressed
    | cons m rest =>
      have own : m.instanceId = id := by simpa [Operation.target?, queue] using addressed
      have home : AtHome { s with queue := rest } := home
      have waiting : (s.view id).queue = m :: rest.filter fun m => m.instanceId = id := by
        simp [Session.view, Session.bare, Session.only, queue, own]
      have popped : Session.view { s with queue := rest } id
          = { s.view id with queue := rest.filter fun m => m.instanceId = id } := rfl
      simp only [perform, Host.deliverNext, queue, waiting, ← popped]
      exact view_deliver_self pure home own
  | startAuto state => cases addressed
  | run => cases addressed

end Host

/-! ## Interleavings -/

/-- Operations with the instances they are addressed to, and the session they lead to. None of them drops
a message of another instance. -/
inductive Host.Interleaves (h : Host) : List (Key × Operation) → Session → Prop
  | initial : Host.Interleaves h [] .initial
  | perform {acts : List (Key × Operation)} {s : Session} (run : Host.Interleaves h acts s)
      {op : Operation} {id : Key} (addressed : op.target? s = some id)
      (spares : h.purgesIn s op = true → ∀ m ∈ s.queue, m.instanceId ≠ id → h.isCancelled s m = false) :
      Host.Interleaves h (acts ++ [(id, op)]) (h.perform s op)

/-- The operations addressed to one instance. -/
def operationsOn (id : Key) (acts : List (Key × Operation)) : List Operation :=
  (acts.filter fun a => a.1 = id).map Prod.snd

/-- What becomes of an instance on which some operations are done, in a host of its own. -/
def Host.alone (h : Host) (id : Key) (operations : List Operation) : Session :=
  operations.foldl (fun s op => (h.perform s op).view id) .initial

namespace Host

variable {d : Definition} {h : Host} {s : Session}

/-- Every operation is a part of an open run. -/
theorem Evolves.perform {past : List Delivery} (run : h.Evolves past s) (op : Operation) :
    ∃ past, h.Evolves past (h.perform s op) := by
  have noted := Books.evolves_note (b := ⟨s, [], [], past⟩) run op
  rw [Books.session_note] at noted
  exact ⟨_, noted⟩

namespace Interleaves

variable {acts : List (Key × Operation)}

theorem exists_evolves (run : h.Interleaves acts s) : ∃ past, h.Evolves past s := by
  induction run with
  | initial => exact ⟨[], .initial⟩
  | @perform _ _ _ op _ _ _ ih =>
    obtain ⟨past, run⟩ := ih
    exact run.perform op

/-- The view of an instance goes by the operations addressed to it. -/
theorem view_eq (c : Compiled d h.table) (pure : h.IsPure) (run : h.Interleaves acts s) (id : Key) :
    s.view id = h.alone id (operationsOn id acts) := by
  induction run with
  | initial => rfl
  | @perform acts s run op j addressed spares ih =>
    obtain ⟨past, open'⟩ := run.exists_evolves
    have home := open'.atHome c
    by_cases own : j = id
    · subst own
      have more : operationsOn j (acts ++ [(j, op)]) = operationsOn j acts ++ [op] := by
        simp [operationsOn]
      rw [more, alone, List.foldl_append]
      exact (view_perform_self pure home addressed).trans (by rw [ih]; rfl)
    · have same : operationsOn id (acts ++ [(j, op)]) = operationsOn id acts := by
        simp [operationsOn, own]
      rw [same, ← ih, view_perform_of_ne c home addressed own]
      split
      next purges =>
        exact sweep_view_eq_iff.mpr fun m queued mine =>
          spares purges m queued (mine.trans_ne (Ne.symm own))
      next => rfl

end Interleaves

/-- An operation that is addressed to one instance leaves all that the host holds of another one, unless
it cancels a fork while a message of the other one waits on a path that was cancelled before: that is
dropped then. Two sequences of operations that never do so, and in which the same operations are
addressed to every instance in the same order, leave the same of every instance. -/
theorem instances_isolated {d : Definition} {settings : Settings} {h : Host}
    (compiles : d.compile settings = .ok h.table) :
    (∀ past s, h.Evolves past s → ∀ op j i, op.target? s = some j → i ≠ j →
        ((h.perform s op).view i = if h.purgesIn s op then h.sweep (s.view i) else s.view i)
        ∧ ((h.perform s op).view i = s.view i ↔ (h.purgesIn s op = true →
          ∀ m ∈ s.queue, m.instanceId = i → h.isCancelled s m = false)))
      ∧ (h.IsPure → ∀ acts acts' s s', h.Interleaves acts s → h.Interleaves acts' s' →
        (∀ id, operationsOn id acts = operationsOn id acts') → ∀ id, s.view id = s'.view id) := by
  have c := Definition.compiled_of_compile compiles
  refine ⟨fun past s run op j i addressed other => ?_, fun pure acts acts' s s' run run' same id => ?_⟩
  · have result := view_perform_of_ne c (run.atHome c) addressed other.symm
    refine ⟨result, ?_⟩
    rw [result]
    cases h.purgesIn s op with
    | true => simpa using sweep_view_eq_iff
    | false => simp
  · rw [run.view_eq c pure id, run'.view_eq c pure id, same id]

end Host

/-! ## A process -/

/-- The correlator that counts the requests of the instance that asks. -/
def Correlator.countingOwn : Correlator := fun earlier id =>
  .request ((earlier.filter fun r => r.instanceId = id).length + 1)

/-- A host whose work always fails for some steps. -/
def Host.failing (t : Table) (steps : List String) : Host :=
  { Host.faltering t [] with
    executor := fun _ workType state =>
      if workType ∈ steps then .error ⟨"down", "Io", none⟩ else .ok state
    correlator := .countingOwn }

theorem Host.isPure_failing (t : Table) (steps : List String) : (Host.failing t steps).IsPure :=
  ⟨fun _ _ _ => rfl, fun _ _ _ => rfl, fun earlier id => by
    simp [Host.failing, Correlator.countingOwn, List.filter_filter]⟩

/-- The session that operations lead to, if none of them drops a message of another instance. -/
def Host.interleave? (h : Host) : Session → List (Key × Operation) → Option Session
  | s, [] => some s
  | s, (id, op) :: rest =>
    if op.target? s = some id
        ∧ (h.purgesIn s op = true → ∀ m ∈ s.queue, m.instanceId ≠ id → h.isCancelled s m = false) then
      h.interleave? (h.perform s op) rest
    else none

theorem Host.Interleaves.more {h : Host} {acts more : List (Key × Operation)} {s s' : Session}
    (run : h.Interleaves acts s) (computed : h.interleave? s more = some s') :
    h.Interleaves (acts ++ more) s' := by
  induction more generalizing acts s with
  | nil =>
    cases computed
    rwa [List.append_nil]
  | cons a rest ih =>
    obtain ⟨id, op⟩ := a
    rw [interleave?, Option.ite_none_right_eq_some] at computed
    obtain ⟨⟨addressed, spares⟩, computed⟩ := computed
    have later := ih (run.perform addressed spares) computed
    rwa [List.append_assoc] at later

/-- Two releases that cannot be signed, side by side and one after the other: what becomes of each is the
same. When the second one is given up, the path of the first one that goes on is left alone. -/
theorem instances_isolated_strictRelease : ∃ (h : Host) (acts acts' : List (Key × Operation))
    (s s' : Session),
    Definition.strictRelease.compile .default = .ok h.table ∧ h.IsPure
      ∧ h.Interleaves acts s ∧ h.Interleaves acts' s'
      ∧ acts.map Prod.fst ≠ acts'.map Prod.fst
      ∧ (∀ id, operationsOn id acts = operationsOn id acts') ∧ (∀ id, s.view id = s'.view id)
      ∧ s.finished.length = 2
      ∧ ∃ past before, h.Evolves past before ∧ Operation.deliverNext.target? before = some (.number 2)
        ∧ h.purgesIn before .deliverNext = true
        ∧ (h.perform before .deliverNext).view (.number 1) = before.view (.number 1) := by
  let begin (n : Nat) : Key × Operation := (.number n, .start (.number n) .null)
  let next (n : Nat) : Key × Operation := (.number n, .deliverNext)
  let early := [begin 1, begin 2] ++ [1, 2, 1, 2, 1, 2, 1, 1, 2, 2, 1, 1, 2, 2, 1].map next
  let late := [2, 1, 2, 1, 2, 1, 2, 1, 2].map next
  let acts' := (begin 1 :: List.replicate 12 (next 1)) ++ (begin 2 :: List.replicate 12 (next 2))
  let host (t : Table) : Host := Host.failing t ["Sign"]
  obtain ⟨t, compiles, computed⟩ := Definition.exists_table .strictRelease .default
    (fun t => (((host t).interleave? .initial early).any fun before =>
        Operation.deliverNext.target? before = some (.number 2)
          ∧ (host t).purgesIn before .deliverNext
          ∧ (∀ m ∈ before.queue, (host t).isCancelled before m = false)
          ∧ ((host t).interleave? before late).any fun s => s.finished.length = 2)
      && ((host t).interleave? .initial acts').isSome)
    (by decide +kernel)
  obtain ⟨passes, ends'⟩ := Bool.and_eq_true_iff.mp computed
  obtain ⟨before, first, passes⟩ := (Option.any_eq_true _ _).mp passes
  obtain ⟨addressed, purges, calm, passes⟩ := of_decide_eq_true passes
  obtain ⟨s, second, finished⟩ := (Option.any_eq_true _ _).mp passes
  obtain ⟨s', ends'⟩ := Option.isSome_iff_exists.mp ends'
  have halfway := Host.Interleaves.initial.more first
  have run := halfway.more second
  have run' := Host.Interleaves.initial.more ends'
  have same : ∀ id, operationsOn id (early ++ late) = operationsOn id acts' := by
    intro id
    by_cases first : Key.number 1 = id
    · subst first
      rfl
    · by_cases second : Key.number 2 = id
      · subst second
        rfl
      · simp [operationsOn, early, late, acts', begin, next, first, second]
  have pure := Host.isPure_failing t ["Sign"]
  obtain ⟨past, reached⟩ := halfway.exists_evolves
  obtain ⟨apart, alike⟩ := (host t).instances_isolated compiles
  obtain ⟨-, unchanged⟩ := apart past before reached _ _ (.number 1) addressed (by decide)
  exact ⟨host t, early ++ late, acts', s, s', compiles, pure, run, run', by decide, same,
    alike pure _ _ _ _ run run' same, of_decide_eq_true finished, past, before, reached, addressed,
    purges, unchanged.mpr fun _ m queued _ => calm m queued⟩

/-- The build of the first release is reported once more, which starts its fork over, and then a scan.
The scan is dropped when the second release is given up, before that report is delivered. -/
theorem not_instances_isolated_strictRelease : ∃ (h : Host) (past : List Delivery) (s : Session),
    Definition.strictRelease.compile .default = .ok h.table ∧ h.Evolves past s
      ∧ Operation.deliverNext.target? s = some (.number 2)
      ∧ (h.perform s .deliverNext).view (.number 1) ≠ s.view (.number 1) := by
  let begin (n : Nat) : Key × Operation := (.number n, .start (.number n) .null)
  let next (n : Nat) : Key × Operation := (.number n, .deliverNext)
  let acts := [begin 1, begin 2] ++ [1, 2, 1, 2, 1, 2, 1, 1, 2, 2, 1, 1, 2, 2, 1].map next
    ++ ["Build", "Scan"].map fun step =>
      (.number 1, .send ⟨Name.completedEvent step, .number 1, .completed .null none⟩)
  let host (t : Table) : Host := Host.failing t ["Sign"]
  obtain ⟨t, compiles, computed⟩ := Definition.exists_table .strictRelease .default
    (fun t => ((host t).interleave? .initial acts).any fun s =>
      Operation.deliverNext.target? s = some (.number 2)
        ∧ (((host t).perform s .deliverNext).view (.number 1)).dropped.length
          ≠ (s.view (.number 1)).dropped.length)
    (by decide +kernel)
  obtain ⟨s, run, checked⟩ := (Option.any_eq_true _ _).mp computed
  obtain ⟨addressed, fewer⟩ := of_decide_eq_true checked
  obtain ⟨past, reached⟩ := (Host.Interleaves.initial.more run).exists_evolves
  exact ⟨host t, past, s, compiles, reached, addressed, fun same => fewer (by rw [same])⟩

end Workflow
