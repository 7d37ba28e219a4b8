import Workflow.Host
import Workflow.Proofs.Machine.Home

/-!
What a session holds of one instance.

`Session.only` keeps the entries of one key and drops all others. Two logs stay whole, since answers
may depend on them: the calls of collaborators and the approval requests. A delivery to the instance
of the key may be done before or after, with the same result; a delivery to another instance changes
nothing but these two logs. So what a host does to one instance can be studied in sessions that hold
nothing else.

The second statement needs that no message of the instance waits on a cancelled path: a cancellation
goes through the whole queue and drops what it finds there, whoever it is addressed to.
-/

set_option autoImplicit false

namespace Workflow

/-! ## Stores -/

namespace Store

variable {κ α : Type} [DecidableEq κ]

/-- A look-up under a key that is kept finds what it found, under any other it finds nothing. -/
theorem get?_filter (keep : κ → Bool) (key : κ) (store : Store κ α) :
    get? key (store.filter fun e => keep e.1) = if keep key then get? key store else none := by
  induction store with
  | nil => simp [get?]
  | cons e rest ih =>
    obtain ⟨k, v⟩ := e
    by_cases same : k = key
    · subst same
      cases kept : keep k <;> simp [get?, kept, ih]
    · cases kept : keep k <;> simp [get?, kept, same, ih]

/-- It does not matter whether a key is erased before the others are dropped or after. -/
theorem filter_erase (keep : κ → Bool) (key : κ) (store : Store κ α) :
    (erase key store).filter (fun e => keep e.1) = erase key (store.filter fun e => keep e.1) := by
  simp only [erase, List.filter_filter, Bool.and_comm]

/-- A filter keeps an insertion under a key it keeps, and forgets any other. -/
theorem filter_insert (keep : κ → Bool) (key : κ) (value : α) (store : Store κ α) :
    (insert key value store).filter (fun e => keep e.1)
      = if keep key then insert key value (store.filter fun e => keep e.1)
        else store.filter fun e => keep e.1 := by
  simp only [insert, List.filter_cons, filter_erase]
  split
  next => rfl
  next dropped =>
    rw [erase, List.filter_filter]
    apply List.filter_congr
    intro e _
    by_cases same : e.1 = key
    · simp only [same, dropped]
      simp
    · simp [same]

/-- Erasing a key that is dropped anyway leaves no trace. -/
theorem filter_erase_of_dropped (keep : κ → Bool) {k : κ} (dropped : keep k = false)
    (store : Store κ α) :
    (erase k store).filter (fun e => keep e.1) = store.filter fun e => keep e.1 := by
  rw [filter_erase, erase, List.filter_filter]
  apply List.filter_congr
  intro e _
  by_cases same : e.1 = k
  · simp [same, dropped]
  · simp [same]

end Store

/-! ## The projection -/

namespace Session

/-- What the session holds of one instance, beside the logs that all instances share. -/
def only (s : Session) (id : Key) : Session where
  running := s.running.filter fun e => e.1 = id
  finished := s.finished.filter fun e => e.1 = id
  queue := s.queue.filter fun m => m.instanceId = id
  joins := s.joins.filter fun e => e.1.1 = id
  cancelled := s.cancelled.filter fun e => e.1.1 = id
  approvals := s.approvals
  events := s.events.filter fun m => m.instanceId = id
  delivered := s.delivered.filter fun m => m.instanceId = id
  dropped := s.dropped.filter fun m => m.instanceId = id
  deadLetters := s.deadLetters.filter fun l => l.instanceId = id
  faults := s.faults.filter fun f => f.instanceId = id
  calls := s.calls
  autos := 0

/-- The session, with the shared logs of another one. -/
def beside (s t : Session) : Session :=
  { s with approvals := t.approvals, calls := t.calls }

@[simp] theorem beside_beside (s t u : Session) : (s.beside t).beside u = s.beside u := rfl

variable (s : Session) (id : Key)

/-- What the session holds of an instance answers look-ups of the instance as the session does. So it is
with each of the stores. -/
@[simp] theorem get?_running_only : Store.get? id (s.only id).running = Store.get? id s.running := by
  simp only [only]
  rw [Store.get?_filter fun key => key = id]
  simp

@[simp] theorem get?_finished_only :
    Store.get? id (s.only id).finished = Store.get? id s.finished := by
  simp only [only]
  rw [Store.get?_filter fun key => key = id]
  simp

@[simp] theorem get?_joins_only (fork : String) :
    Store.get? (id, fork) (s.only id).joins = Store.get? (id, fork) s.joins := by
  simp only [only]
  rw [Store.get?_filter fun key : Key × String => key.1 = id]
  simp

@[simp] theorem get?_cancelled_only (fork : String) :
    Store.get? (id, fork) (s.only id).cancelled = Store.get? (id, fork) s.cancelled := by
  simp only [only]
  rw [Store.get?_filter fun key : Key × String => key.1 = id]
  simp

variable {s id}

theorem mem_faults_only {f : FaultRecord} :
    f ∈ (s.only id).faults ↔ f ∈ s.faults ∧ f.instanceId = id := by
  simp [only]

theorem mem_events_only {m : Message} :
    m ∈ (s.only id).events ↔ m ∈ s.events ∧ m.instanceId = id := by
  simp [only]

/-! ## Changes to the session, on its own instance and on others -/

/-- A message is sent to one instance and concerns no other. The lemmas below say the same of each
change to a session. -/
theorem only_send (m : Message) :
    (s.send m).only id = if m.instanceId = id then (s.only id).send m else s.only id := by
  by_cases h : m.instanceId = id <;> simp [send, only, h]

theorem only_publish (m : Message) :
    (s.publish m).only id = if m.instanceId = id then (s.only id).publish m else s.only id := by
  by_cases h : m.instanceId = id <;> simp [publish, only, h]

theorem only_fault (m : Message) (f : Fault) :
    (s.fault m f).only id = if m.instanceId = id then (s.only id).fault m f else s.only id := by
  by_cases h : m.instanceId = id <;> simp [fault, only, h]

/-- A request is logged for all to see, but the event that goes with it is one of its own instance. -/
theorem only_recordRequest (r : ApprovalRecord) :
    (s.recordRequest r).only id = if r.instanceId = id then (s.only id).recordRequest r
      else (s.only id).beside (s.recordRequest r) := by
  by_cases h : r.instanceId = id <;> simp [recordRequest, send, only, beside, h]

/-- A report changes the join of its own instance. The joins of others are kept apart by their keys. -/
theorem only_join (fork : String) (path total : Nat) (m : Message) :
    (s.join fork path total m).only id
      = if m.instanceId = id then (s.only id).join fork path total m else s.only id := by
  have entry : ∀ state : JoinState,
      (Store.insert (m.instanceId, fork) state s.joins).filter (fun e => e.1.1 = id)
        = if m.instanceId = id then
            Store.insert (m.instanceId, fork) state (s.joins.filter fun e => e.1.1 = id)
          else s.joins.filter fun e => e.1.1 = id := by
    intro state
    rw [Store.filter_insert fun key : Key × String => key.1 = id]
    simp
  by_cases h : m.instanceId = id
  · subst h
    simp only [join, get?_joins_only, ↓reduceIte]
    rw [apply_ite fun t : Session => t.only m.instanceId]
    congr 1 <;> simp [send, only, entry]
  · simp only [join, h, ↓reduceIte]
    rw [apply_ite fun t : Session => t.only id]
    simp [send, only, entry, h]

/-- An instance that has finished moves from one store to the other, and no other instance does. -/
theorem only_retire (key : Key) :
    (s.retire key).only id = if key = id then (s.only id).retire key else s.only id := by
  by_cases h : key = id
  · subst h
    simp only [retire, get?_running_only, ↓reduceIte]
    split
    · have gone := Store.filter_erase (fun k => k = key) key s.running
      have kept := fun i : Instance =>
        Store.filter_insert (fun k => k = key) key i s.finished
      simp only [decide_true, ↓reduceIte] at kept
      simp only [only, gone, kept]
    · rfl
  · simp only [retire, h, ↓reduceIte]
    split
    · have gone := Store.filter_erase_of_dropped (fun k => k = id) (k := key) (by simp [h])
        s.running
      have kept := fun i : Instance =>
        Store.filter_insert (fun k => k = id) key i s.finished
      simp only [h, decide_false, Bool.false_eq_true, ↓reduceIte] at kept
      simp only [only, gone, kept]
    · rfl

theorem only_running (key : Key) (i : Instance) :
    ({ s with running := Store.insert key i s.running }).only id
      = if key = id then { s.only id with running := Store.insert key i (s.only id).running }
        else s.only id := by
  have kept := Store.filter_insert (fun k => k = id) key i s.running
  by_cases h : key = id
  · simp only [h, decide_true, ↓reduceIte] at kept
    simp only [only, h, kept, ↓reduceIte]
  · simp only [h, decide_false, Bool.false_eq_true, ↓reduceIte] at kept
    simp only [only, h, kept, ↓reduceIte]

end Session

/-! ## Deliveries -/

namespace Host

variable {h : Host} {s : Session} {id : Key}

/-- No message waits on a cancelled path. -/
def Calm (h : Host) (s : Session) : Prop :=
  ∀ m ∈ s.queue, h.isCancelled s m = false

/-- Whether a message waits on a cancelled path is seen from what is held of its own instance. -/
theorem isCancelled_only {m : Message} (own : m.instanceId = id) :
    h.isCancelled (s.only id) m = h.isCancelled s m := by
  subst own
  simp only [isCancelled]
  split
  · rw [Session.get?_cancelled_only]
  · rfl

/-- The cancelled forks of an instance are cancelled by its own messages. -/
theorem only_cancelled (key : Key) (fork : String) (path : Nat) :
    ({ s with cancelled := Store.insert (key, fork) path s.cancelled }).only id
      = if key = id then
          { s.only id with cancelled := Store.insert (key, fork) path (s.only id).cancelled }
        else s.only id := by
  have kept := Store.filter_insert (fun k : Key × String => k.1 = id) (key, fork) path s.cancelled
  by_cases same : key = id
  · simp only [same, decide_true, ↓reduceIte] at kept
    simp only [Session.only, same, kept, ↓reduceIte]
  · simp only [same, decide_false, Bool.false_eq_true, ↓reduceIte] at kept
    simp only [Session.only, same, kept, ↓reduceIte]

/-- Drop what waits on cancelled paths. -/
def sweep (h : Host) (s : Session) : Session :=
  { s with
    queue := s.queue.filter fun m => !h.isCancelled s m
    dropped := s.dropped ++ s.queue.filter (h.isCancelled s) }

/-- A cancellation marks the path that caused it and then sweeps the queue. -/
theorem cancelFork_eq (h : Host) (s : Session) (cause : Message) (fork : String) :
    h.cancelFork s cause fork
      = match h.table.pathOf? cause.name with
        | none => s
        | some (_, path) => h.sweep { s with
            cancelled := Store.insert (cause.instanceId, fork) path s.cancelled } := rfl

/-- Nothing is swept where nothing waits on a cancelled path. -/
theorem sweep_of_calm (calm : h.Calm s) : h.sweep s = s := by
  have kept : s.queue.filter (fun m => !h.isCancelled s m) = s.queue :=
    List.filter_eq_self.mpr fun m hm => by simp [calm m hm]
  have none : s.queue.filter (h.isCancelled s) = [] :=
    List.filter_eq_nil_iff.mpr fun m hm => by simp [calm m hm]
  simp only [sweep, kept, none, List.append_nil]

/-- A sweep may be done before or after the others are dropped, since each message is judged by marks of
its own instance. -/
theorem only_sweep (h : Host) (s : Session) (id : Key) :
    (h.sweep s).only id = h.sweep (s.only id) := by
  have kept : (s.queue.filter fun m => !h.isCancelled s m).filter (fun m => m.instanceId = id)
      = (s.only id).queue.filter fun m => !h.isCancelled (s.only id) m := by
    simp only [Session.only, List.filter_filter]
    apply List.filter_congr
    intro m _
    by_cases own : m.instanceId = id
    · simp [own, ← isCancelled_only own, Session.only]
    · simp [own]
  have gone : (s.queue.filter (h.isCancelled s)).filter (fun m => m.instanceId = id)
      = (s.only id).queue.filter (h.isCancelled (s.only id)) := by
    simp only [Session.only, List.filter_filter]
    apply List.filter_congr
    intro m _
    by_cases own : m.instanceId = id
    · simp [own, ← isCancelled_only own, Session.only]
    · simp [own]
  simp only [sweep]
  rw [← kept, ← gone]
  simp only [Session.only, List.filter_append]

/-- A cancellation by another instance changes nothing here, provided that nothing is left here to
sweep. -/
theorem only_cancelFork (cause : Message) (fork : String)
    (calm : cause.instanceId ≠ id → h.Calm (s.only id)) :
    (h.cancelFork s cause fork).only id
      = if cause.instanceId = id then h.cancelFork (s.only id) cause fork else s.only id := by
  rw [cancelFork_eq, cancelFork_eq]
  split
  · simp
  · rw [only_sweep, only_cancelled]
    by_cases own : cause.instanceId = id
    · simp only [own, ↓reduceIte]
    · simp only [own, ↓reduceIte, sweep_of_calm (calm own)]

/-- What goes to another instance leaves at most a request in the log. -/
theorem only_dispatch (m : Message) :
    (h.dispatch s m).only id = if m.instanceId = id then h.dispatch (s.only id) m
      else (s.only id).beside (h.dispatch s m) := by
  unfold dispatch
  split
  · split
    · rw [Session.only_publish, Session.only_recordRequest]
      split <;> rfl
    · rw [Session.only_publish]
      split <;> rfl
  · rw [Session.only_publish]
    split <;> rfl
  · rw [Session.only_send]
    split <;> rfl

/-- Effects on an instance are the same on what the session holds of it. -/
theorem only_effects_self {cause : Message} (own : cause.instanceId = id) {es : List Effect}
    (isFor : ∀ e ∈ es, e.IsFor id) :
    (h.effects cause s es).only id = h.effects cause (s.only id) es := by
  subst own
  induction es generalizing s with
  | nil => rfl
  | cons e rest ih =>
    have one : (h.effect cause s e).only cause.instanceId
        = h.effect cause (s.only cause.instanceId) e := by
      have here := isFor e List.mem_cons_self
      cases e with
      | send m => exact (only_dispatch m).trans (if_pos here)
      | join fork path total m => exact (Session.only_join fork path total m).trans (if_pos here)
      | cancelFork fork => exact (only_cancelFork cause fork (absurd rfl)).trans (if_pos rfl)
    have rest := ih (s := h.effect cause s e) fun e he => isFor e (List.mem_cons_of_mem _ he)
    simp only [effects, List.foldl_cons] at rest ⊢
    rw [rest, one]

/-- Effects on another instance change the shared logs only. -/
theorem only_effects_other {cause : Message} {es : List Effect} (other : cause.instanceId ≠ id)
    (isFor : ∀ e ∈ es, e.IsFor cause.instanceId) (calm : h.Calm (s.only id)) :
    (h.effects cause s es).only id = (s.only id).beside (h.effects cause s es) := by
  induction es generalizing s with
  | nil => rfl
  | cons e rest ih =>
    have one : (h.effect cause s e).only id = (s.only id).beside (h.effect cause s e) := by
      have there := isFor e List.mem_cons_self
      cases e with
      | send m =>
        rw [Effect.IsFor] at there
        exact (only_dispatch m).trans (if_neg (there ▸ other))
      | join fork path total m =>
        rw [Effect.IsFor] at there
        refine (Session.only_join fork path total m).trans ((if_neg (there ▸ other)).trans ?_)
        simp only [effect, Session.join]
        split <;> split <;> rfl
      | cancelFork fork =>
        refine (only_cancelFork cause fork fun _ => calm).trans ((if_neg other).trans ?_)
        simp only [effect, cancelFork_eq]
        split <;> rfl
    have rest := ih (s := h.effect cause s e)
      (fun e he => isFor e (List.mem_cons_of_mem _ he)) (one ▸ calm)
    simp only [effects, List.foldl_cons] at rest ⊢
    rw [rest, one, Session.beside_beside]

/-- The forks that a message triggers anew are those of its own instance. -/
theorem only_resetForks (m : Message) :
    (h.resetForks s m).only id
      = if m.instanceId = id then h.resetForks (s.only id) m else s.only id := by
  have one : ∀ (s : Session) (f : ForkLayout),
      ({ s with
        joins := Store.erase (m.instanceId, f.id) s.joins
        cancelled := Store.erase (m.instanceId, f.id) s.cancelled }).only id
        = if m.instanceId = id then
            { s.only id with
              joins := Store.erase (m.instanceId, f.id) (s.only id).joins
              cancelled := Store.erase (m.instanceId, f.id) (s.only id).cancelled }
          else s.only id := by
    intro s f
    by_cases own : m.instanceId = id
    · have joins := Store.filter_erase (fun k : Key × String => k.1 = id) (id, f.id) s.joins
      have cancelled := Store.filter_erase (fun k : Key × String => k.1 = id) (id, f.id) s.cancelled
      simp only [Session.only, own, ↓reduceIte, joins, cancelled]
    · have joins := Store.filter_erase_of_dropped (fun k : Key × String => k.1 = id)
        (k := (m.instanceId, f.id)) (by simp [own]) s.joins
      have cancelled := Store.filter_erase_of_dropped (fun k : Key × String => k.1 = id)
        (k := (m.instanceId, f.id)) (by simp [own]) s.cancelled
      simp only [Session.only, own, ↓reduceIte, joins, cancelled]
  unfold resetForks
  induction h.table.forks generalizing s with
  | nil => simp
  | cons f rest ih =>
    simp only [List.foldl_cons]
    rw [ih]
    by_cases hit : f.trigger = m.name
    · simp only [hit, ↓reduceIte, one]
      split <;> rfl
    · simp only [hit, ↓reduceIte]

/-- What a transition of the instance leaves may be stored before or after the others are dropped. -/
theorem only_commit_self {m : Message} (own : m.instanceId = id) (i : Instance) {es : List Effect}
    (isFor : ∀ e ∈ es, e.IsFor id) :
    (h.commit s m i es).only id = h.commit (s.only id) m i es := by
  have changed := only_effects_self (h := h) (s := { h.resetForks s m with
    running := Store.insert m.instanceId i (h.resetForks s m).running }) own isFor
  rw [Session.only_running, only_resetForks, if_pos own, if_pos own] at changed
  unfold commit
  split
  · rw [Session.only_retire, if_pos own, changed]
  · exact changed

/-- What a transition of another instance leaves touches the shared logs only. -/
theorem only_commit_other {m : Message} (other : m.instanceId ≠ id) (i : Instance)
    {es : List Effect} (isFor : ∀ e ∈ es, e.IsFor m.instanceId) (calm : h.Calm (s.only id)) :
    (h.commit s m i es).only id = (s.only id).beside (h.commit s m i es) := by
  have before : ({ h.resetForks s m with
      running := Store.insert m.instanceId i (h.resetForks s m).running }).only id = s.only id := by
    rw [Session.only_running, if_neg other, only_resetForks, if_neg other]
  have changed := only_effects_other (h := h) (s := { h.resetForks s m with
    running := Store.insert m.instanceId i (h.resetForks s m).running }) other isFor
    (by rwa [before])
  rw [before] at changed
  unfold commit
  split
  · rw [Session.only_retire, if_neg other, changed]
    simp only [Session.retire]
    split <;> rfl
  · exact changed

/-- Work of another instance touches the shared log of calls only. -/
theorem only_work (m : Message) :
    (h.work s m).only id = if m.instanceId = id then h.work (s.only id) m
      else (s.only id).beside (h.work s m) := by
  unfold work
  split
  · split
    · rw [Session.only_fault]
      split <;> rfl
    · dsimp only
      rw [Session.only_send]
      by_cases own : m.instanceId = id
      · rw [if_pos own, if_pos own]
        rfl
      · rw [if_neg own, if_neg own]
        rfl
  · rw [Session.only_fault]
    split <;> rfl

theorem only_notFound (kind : MessageKind) (m : Message) :
    (h.notFound s kind m).only id
      = if m.instanceId = id then h.notFound (s.only id) kind m else s.only id := by
  unfold notFound
  split
  · by_cases own : m.instanceId = id <;> simp [Session.only, own]
  · split <;> rfl

/-- The running instances are stored under their own keys. -/
def AtHome (s : Session) : Prop :=
  ∀ key i, Store.get? key s.running = some i → i.id = key

/-- A delivery to the instance of a key is the same on what the session holds of it. -/
theorem only_deliver_self (home : AtHome s) {m : Message} (own : m.instanceId = id) :
    (h.deliver s m).only id = h.deliver (s.only id) m := by
  have logged : ({ s with delivered := s.delivered ++ [m] }).only id
      = { s.only id with delivered := (s.only id).delivered ++ [m] } := by
    simp [Session.only, own]
  have found : Store.get? m.instanceId (s.only id).running = Store.get? m.instanceId s.running := by
    rw [own, Session.get?_running_only]
  unfold deliver
  rw [isCancelled_only own]
  split
  · simp [Session.only, own]
  · split
    · rw [Session.only_fault, if_pos own]
    · dsimp only
      split
      · rw [only_work, if_pos own, logged]
      · rw [found]
        split
        · rw [only_notFound, if_pos own, logged]
        next i hi =>
          split
          · rw [Session.only_fault, if_pos own, logged]
          next t _ =>
            unfold transact
            dsimp only
            have same : (s.only id).calls = s.calls := rfl
            rw [same]
            split
            next es hes =>
              have isFor := Transition.apply_effects_isFor hes
              rw [home _ _ hi, own] at isFor
              rw [only_commit_self own _ isFor]
              congr 1
              simp [Session.only, own]
            next f _ =>
              rw [Session.only_fault, if_pos own]
              congr 1
              simp [Session.only, own]

/-- A delivery to another instance changes the shared logs only. -/
theorem only_deliver_other (home : AtHome s) {m : Message} (other : m.instanceId ≠ id)
    (calm : h.Calm (s.only id)) :
    (h.deliver s m).only id = (s.only id).beside (h.deliver s m) := by
  have logged : ({ s with delivered := s.delivered ++ [m] }).only id = s.only id := by
    simp [Session.only, other]
  unfold deliver
  split
  · simp [Session.only, other, Session.beside]
  · split
    · rw [Session.only_fault, if_neg other]
      rfl
    · dsimp only
      split
      · rw [only_work, if_neg other, logged]
      · split
        · rw [only_notFound, if_neg other, logged]
          unfold notFound
          split <;> rfl
        next i hi =>
          split
          · rw [Session.only_fault, if_neg other, logged]
            rfl
          next t _ =>
            unfold transact
            dsimp only
            split
            next es hes =>
              have isFor := Transition.apply_effects_isFor hes
              rw [home _ _ hi] at isFor
              have called : ({ s with
                  delivered := s.delivered ++ [m]
                  calls := (t.apply h.collaborators s.calls i m).calls }).only id
                  = { s.only id with calls := (t.apply h.collaborators s.calls i m).calls } := by
                simp [Session.only, other]
              rw [only_commit_other other _ isFor (by rw [called]; exact calm), called]
              rfl
            next f _ =>
              rw [Session.only_fault, if_neg other]
              simp [Session.only, Session.beside, Session.fault, other]

end Host

end Workflow
