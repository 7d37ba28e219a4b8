import Workflow.Proofs.Host.Commit

/-!
Open runs.

An open run is any sequence of operations of a host: instances are started under any key, also one
that is in use, messages of any name and payload are sent to anybody and delivered in the order in
which they were queued. Nothing can be said of what waits in the queue, only of what a delivery does.
`Host.Evolves` has one case for each thing that can happen to a session; the other operations of a
host are sequences of these.
-/

set_option autoImplicit false

namespace Workflow

/-- The deliveries made and the session reached in an open run. -/
inductive Host.Evolves (h : Host) : List Delivery → Session → Prop
  | initial : Host.Evolves h [] .initial
  | start {past : List Delivery} {s : Session} (run : Host.Evolves h past s) (id : Key)
      (state : Value) : Host.Evolves h past (h.start s id state).2
  | startAuto {past : List Delivery} {s : Session} (run : Host.Evolves h past s) (state : Value) :
      Host.Evolves h past (h.startAuto s state).2
  | send {past : List Delivery} {s : Session} (run : Host.Evolves h past s) (m : Message) :
      Host.Evolves h past (s.send m)
  | deliver {past : List Delivery} {s : Session} {m : Message} {rest : List Message}
      (run : Host.Evolves h past s) (queue : s.queue = m :: rest) :
      Host.Evolves h (past ++ [⟨{ s with queue := rest }, m⟩])
        (h.deliver { s with queue := rest } m)

namespace Host.Evolves

variable {h : Host} {past : List Delivery} {s : Session}

/-! ## All other operations -/

theorem decideWith (run : h.Evolves past s) (id : Key) (approval : String) (correlation : Key)
    (decision : Decision) : h.Evolves past (s.decideWith id approval correlation decision) :=
  run.send _

theorem decide (run : h.Evolves past s) {id correlation : Key} {approval : String}
    {decision : Decision} {s' : Session}
    (ok : s.decide id approval decision = .ok (correlation, s')) : h.Evolves past s' := by
  obtain ⟨_, _, result⟩ := map_eq_ok.mp ok
  cases result
  exact run.send _

theorem timeOutWith (run : h.Evolves past s) (id : Key) (approval : String) (correlation : Key) :
    h.Evolves past (s.timeOutWith id approval correlation) :=
  run.send _

theorem timeOut (run : h.Evolves past s) {id correlation : Key} {approval : String} {s' : Session}
    (ok : s.timeOut id approval = .ok (correlation, s')) : h.Evolves past s' := by
  obtain ⟨_, _, result⟩ := map_eq_ok.mp ok
  cases result
  exact run.send _

/-- A drain is a sequence of deliveries. -/
theorem drain (run : h.Evolves past s) (fuel count : Nat) :
    ∃ more, h.Evolves (past ++ more) (h.drain fuel count s).2 := by
  induction fuel generalizing past s count with
  | zero =>
    refine ⟨[], ?_⟩
    unfold Host.drain
    rw [List.append_nil]
    split <;> first | exact run | contradiction
  | succ fuel ih =>
    unfold Host.drain
    split
    · exact ⟨[], by rwa [List.append_nil]⟩
    · contradiction
    next m rest fuel' queue same =>
      cases same
      obtain ⟨more, later⟩ := ih (run.deliver queue) (count + 1)
      rw [List.append_assoc] at later
      exact ⟨_, later⟩

theorem deliverUpTo (run : h.Evolves past s) (n : Nat) :
    h.Evolves (h.deliverUpTo n past s).1 (h.deliverUpTo n past s).2 :=
  Host.deliverUpTo_induction (fun run queue => run.deliver queue) n run

theorem sendAll (run : h.Evolves past s) (sent : List Message) :
    h.Evolves past (sent.foldl Session.send s) := by
  induction sent generalizing s with
  | nil => exact run
  | cons m rest ih => exact ih (run.send m)

/-- A closed run is an open one. -/
theorem of_reaches {started : List Key} (run : h.Reaches started past s) : h.Evolves past s := by
  induction run with
  | initial => exact .initial
  | @start _ _ s s' id state run fresh ok ih =>
    have started := ih.start id state
    rwa [ok] at started
  | deliver run queue ih => exact ih.deliver queue
  | decide run ok ih => exact ih.decide ok
  | timeOut run ok ih => exact ih.timeOut ok

/-! ## What open runs keep up -/

/-- A start puts an instance in and queues a message. -/
theorem start_cases {d : Definition} (c : Compiled d h.table) (s : Session) (id : Key)
    (state : Value) : ∃ queue delivered, (h.start s id state).2
      = { s with running := Store.insert id (.fresh h.table id state) s.running, queue, delivered } := by
  obtain ⟨_, _, _, _, result, _⟩ := c.start_eq s id state
  rw [result]
  exact ⟨_, _, rfl⟩

/-- So does a start under a key of the host's own making. -/
theorem startAuto_cases {d : Definition} (c : Compiled d h.table) (s : Session) (state : Value) :
    ∃ id queue delivered autos, (h.startAuto s state).2
      = { s with
          running := Store.insert id (.fresh h.table id state) s.running
          queue, delivered, autos } := by
  obtain ⟨_, _, result⟩ := start_cases c s (Key.auto (s.autos + 1)) state
  rw [c.startAuto_eq, result]
  exact ⟨_, _, _, _, rfl⟩

/-- Instances are under their own keys. -/
theorem atHome {d : Definition} (c : Compiled d h.table) (run : h.Evolves past s) : AtHome s := by
  have begun : ∀ {s : Session}, AtHome s → ∀ (id : Key) (state : Value) (key : Key) (i : Instance),
      Store.get? key (Store.insert id (.fresh h.table id state) s.running) = some i → i.id = key := by
    intro s home id state key i stored
    rw [Store.get?_insert] at stored
    split at stored
    next same =>
      cases stored
      exact same
    next => exact home key i stored
  induction run with
  | initial =>
    intro key i stored
    cases stored
  | @start _ s _ id state ih =>
    obtain ⟨queue, delivered, result⟩ := start_cases c s id state
    rw [result]
    exact begun ih id state
  | @startAuto _ s _ state ih =>
    obtain ⟨id, queue, delivered, autos, result⟩ := startAuto_cases c s state
    rw [result]
    exact begun ih id state
  | send run m ih => exact ih
  | @deliver _ s m rest run queue ih => exact AtHome.deliver (s := { s with queue := rest }) ih m

/-- The session before a delivery was reached by the deliveries before. -/
theorem before (run : h.Evolves past s) {earlier later : List Delivery} {e : Delivery}
    (split : past = earlier ++ e :: later) :
    ∃ s₀, h.Evolves earlier s₀ ∧ s₀.queue = e.message :: e.before.queue
      ∧ e.before = { s₀ with queue := e.before.queue } := by
  induction run generalizing later with
  | initial => cases earlier <;> cases split
  | start run id state ih => exact ih split
  | startAuto run state ih => exact ih split
  | send run m ih => exact ih split
  | @deliver past s m rest run queue ih =>
    rcases Delivery.eq_last_or split with ⟨rfl, rfl, _⟩ | ⟨later', _, earlier'⟩
    · exact ⟨s, run, queue, rfl⟩
    · exact ih earlier'

/-- Whenever a message is delivered, its instance is under its own key. -/
theorem atHome_of_mem {d : Definition} (c : Compiled d h.table) (run : h.Evolves past s) {e : Delivery}
    (member : e ∈ past) : e.AtHome := by
  obtain ⟨earlier, later, split⟩ := List.append_of_mem member
  obtain ⟨s₀, first, _, same⟩ := run.before split
  intro i stored
  rw [same] at stored
  exact first.atHome c _ i stored

/-- What a property of instances has to satisfy to hold of all that are running: new instances have it,
and what is committed has it if the instance before had it. -/
theorem running_induction {d : Definition} (c : Compiled d h.table) {P : Key → Instance → Prop}
    (fresh : ∀ id state, P id (.fresh h.table id state))
    (commit : ∀ e i j es, Store.get? e.message.instanceId e.before.running = some i →
      P e.message.instanceId i → h.committed? e = some (j, es) → j.isFinished = false →
        P e.message.instanceId j)
    (run : h.Evolves past s) :
    ∀ id i, Store.get? id s.running = some i → P id i := by
  have begun : ∀ {s : Session} (id : Key) (state : Value),
      (∀ key i, Store.get? key s.running = some i → P key i) →
      ∀ key i, Store.get? key (Store.insert id (.fresh h.table id state) s.running) = some i →
        P key i := by
    intro s id state ih key i stored
    rw [Store.get?_insert] at stored
    split at stored
    next same =>
      cases stored
      exact same ▸ fresh id state
    next => exact ih key i stored
  induction run with
  | initial =>
    intro id i stored
    cases stored
  | @start _ s _ id state ih =>
    obtain ⟨queue, delivered, result⟩ := start_cases c s id state
    rw [result]
    exact begun id state ih
  | @startAuto _ s _ state ih =>
    obtain ⟨id, queue, delivered, autos, result⟩ := startAuto_cases c s state
    rw [result]
    exact begun id state ih
  | send run m ih => exact ih
  | @deliver _ s m rest run queue ih =>
    intro id k stored
    cases committed : h.committed? ⟨{ s with queue := rest }, m⟩ with
    | none =>
      rw [(Host.agrees_of_committed? committed).running] at stored
      exact ih id k stored
    | some result =>
      obtain ⟨j, es⟩ := result
      obtain ⟨i, _, before, _⟩ := Host.exists_of_committed? committed
      rw [(Host.get?_deliver committed id).1] at stored
      split at stored
      next own =>
        subst own
        split at stored
        · cases stored
        next going =>
          cases stored
          exact commit _ i k es before (ih _ i before) committed (by simpa using going)
      next => exact ih id k stored

/-- What every commit leaves holds of all instances in store, running or finished. -/
theorem stored_induction {d : Definition} (c : Compiled d h.table) {P : Key → Instance → Prop}
    (fresh : ∀ id state, P id (.fresh h.table id state))
    (commit : ∀ e i j es, Store.get? e.message.instanceId e.before.running = some i →
      P e.message.instanceId i → h.committed? e = some (j, es) → P e.message.instanceId j)
    (run : h.Evolves past s) {id : Key} {i : Instance}
    (stored : Store.get? id s.running = some i ∨ Store.get? id s.finished = some i) : P id i := by
  have running : ∀ {past s}, h.Evolves past s → ∀ id i, Store.get? id s.running = some i → P id i :=
    running_induction c fresh fun e i j es stored holds committed _ =>
      commit e i j es stored holds committed
  have finished : ∀ id i, Store.get? id s.finished = some i → P id i := by
    clear stored
    induction run with
    | initial =>
      intro id i stored
      cases stored
    | @start _ s _ id' state ih =>
      obtain ⟨_, _, result⟩ := start_cases c s id' state
      rw [result]
      exact ih
    | @startAuto _ s _ state ih =>
      obtain ⟨_, _, _, _, result⟩ := startAuto_cases c s state
      rw [result]
      exact ih
    | send run m ih => exact ih
    | @deliver _ s m rest run queue ih =>
      intro id k stored
      cases committed : h.committed? ⟨{ s with queue := rest }, m⟩ with
      | none =>
        rw [(Host.agrees_of_committed? committed).finished] at stored
        exact ih id k stored
      | some result =>
        obtain ⟨j, es⟩ := result
        obtain ⟨i, _, before, _⟩ := Host.exists_of_committed? committed
        rw [(Host.get?_deliver committed id).2] at stored
        split at stored
        next own =>
          obtain ⟨rfl, _⟩ := own
          cases stored
          exact commit _ i k es before (running run _ i before) committed
        next => exact ih id k stored
  exact stored.elim (running run id i) (finished id i)

/-- What is running has not finished. -/
theorem unfinished {d : Definition} (c : Compiled d h.table) (run : h.Evolves past s) {id : Key}
    {i : Instance} (stored : Store.get? id s.running = some i) : i.isFinished = false :=
  running_induction c (P := fun _ i => i.isFinished = false) (fun _ _ => rfl)
    (fun _ _ _ _ _ _ _ going => going) run id i stored

end Host.Evolves

/-- What is computed of the first instance of a process and of messages from outside is true of an
open run. -/
theorem Definition.exists_open_run {d : Definition} (host : Table → Host)
    (table : ∀ t, (host t).table = t) (sent : List Message) (n : Nat)
    (check : Host → List Delivery → Session → Bool)
    (computed : (d.firstRun? host sent n).any (fun r => check r.1 r.2.1 r.2.2) = true) :
    ∃ (h : Host) (past : List Delivery) (s : Session), d.compile .default = .ok h.table
      ∧ h.Evolves past s ∧ check h past s = true := by
  unfold Definition.firstRun? at computed
  cases compiles : d.compile .default with
  | error e =>
    rw [compiles] at computed
    cases computed
  | ok t =>
    rw [compiles] at computed
    have run := ((Host.Evolves.initial (h := host t)).start (.number 1) .null).sendAll sent
    exact ⟨host t, _, _, by rw [table], run.deliverUpTo n, computed⟩

/-- Messages from outside and deliveries, round by round. -/
def Host.play (h : Host) : List (List Message × Nat) → List Delivery → Session →
    List Delivery × Session
  | [], past, s => (past, s)
  | (sent, n) :: rounds, past, s =>
    let reached := h.deliverUpTo n past (sent.foldl Session.send s)
    h.play rounds reached.1 reached.2

theorem Host.Evolves.play {h : Host} {past : List Delivery} {s : Session} (run : h.Evolves past s)
    (rounds : List (List Message × Nat)) :
    h.Evolves (h.play rounds past s).1 (h.play rounds past s).2 := by
  induction rounds generalizing past s with
  | nil => exact run
  | cons round rounds ih => exact ih ((run.sendAll round.1).deliverUpTo round.2)

/-- What is computed of the rounds that follow the start of the first instance is true of a host of
the table. -/
theorem Definition.exists_play {d : Definition} (host : Table → Host)
    (table : ∀ t, (host t).table = t) (rounds : List (List Message × Nat))
    (check : Host → List Delivery → Session → Bool)
    (computed : (d.compile .default).toOption.any (fun t =>
      let reached := (host t).play rounds [] ((host t).start .initial (.number 1) .null).2
      check (host t) reached.1 reached.2) = true) :
    ∃ h : Host, d.compile .default = .ok h.table ∧
      check h (h.play rounds [] (h.start .initial (.number 1) .null).2).1
        (h.play rounds [] (h.start .initial (.number 1) .null).2).2 = true := by
  cases compiles : d.compile .default with
  | error e =>
    rw [compiles] at computed
    cases computed
  | ok t =>
    rw [compiles] at computed
    exact ⟨host t, by rw [table], computed⟩

end Workflow
