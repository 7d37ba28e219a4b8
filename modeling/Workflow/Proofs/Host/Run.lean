import Workflow.Proofs.Host.Tracked

/-!
Runs of a host, and what one instance goes through in them.

A closed run starts instances under new keys, delivers what is queued, and decides or times out
approval requests; no message comes from elsewhere. `Kept` is what a property of one instance has to
satisfy: it holds once the instance has been started, and is kept by the moves of its own messages, by
signals from outside and by whatever other instances do. `Host.Reaches.kept` is the one induction over
runs; every invariant of runs goes through it.
-/

set_option autoImplicit false

namespace Workflow

/-- A message that was delivered, and the session it was delivered in. -/
structure Delivery where
  before : Session
  message : Message

/-- What the delivery was to one instance. -/
def Delivery.only (e : Delivery) (id : Key) : Delivery := ⟨e.before.only id, e.message⟩

/-- The deliveries to one instance. -/
def Delivery.own (id : Key) (past : List Delivery) : List Delivery :=
  (past.filter fun e => e.message.instanceId = id).map (Delivery.only · id)

/-- The keys that were started, the deliveries made and the session reached in a closed run. -/
inductive Host.Reaches (h : Host) : List Key → List Delivery → Session → Prop
  | initial : Host.Reaches h [] [] .initial
  | start {started : List Key} {past : List Delivery} {s s' : Session} {id : Key} {state : Value}
      (run : Host.Reaches h started past s) (fresh : id ∉ started)
      (ok : h.start s id state = (.ok (), s')) : Host.Reaches h (id :: started) past s'
  | deliver {started : List Key} {past : List Delivery} {s : Session} {m : Message}
      {rest : List Message} (run : Host.Reaches h started past s) (queue : s.queue = m :: rest) :
      Host.Reaches h started (past ++ [⟨{ s with queue := rest }, m⟩])
        (h.deliver { s with queue := rest } m)
  | decide {started : List Key} {past : List Delivery} {s s' : Session} {id correlation : Key}
      {approval : String} {decision : Decision} (run : Host.Reaches h started past s)
      (ok : s.decide id approval decision = .ok (correlation, s')) : Host.Reaches h started past s'
  | timeOut {started : List Key} {past : List Delivery} {s s' : Session} {id correlation : Key}
      {approval : String} (run : Host.Reaches h started past s)
      (ok : s.timeOut id approval = .ok (correlation, s')) : Host.Reaches h started past s'

/-- Deliver the first messages of the queue, and keep the deliveries. -/
def Host.deliverUpTo (h : Host) : Nat → List Delivery → Session → List Delivery × Session
  | 0, past, s => (past, s)
  | n + 1, past, s =>
    match s.queue with
    | [] => (past, s)
    | m :: rest =>
      h.deliverUpTo n (past ++ [⟨{ s with queue := rest }, m⟩]) (h.deliver { s with queue := rest } m)

/-- What every delivery keeps up holds after some of them. -/
theorem Host.deliverUpTo_induction {h : Host} {P : List Delivery → Session → Prop}
    (deliver : ∀ {past s m rest}, P past s → s.queue = m :: rest →
      P (past ++ [⟨{ s with queue := rest }, m⟩]) (h.deliver { s with queue := rest } m))
    (n : Nat) {past : List Delivery} {s : Session} (holds : P past s) :
    P (h.deliverUpTo n past s).1 (h.deliverUpTo n past s).2 := by
  induction n generalizing past s with
  | zero => exact holds
  | succ n ih =>
    simp only [Host.deliverUpTo]
    split
    · exact holds
    next m rest queue => exact ih (deliver holds queue)

theorem Host.Reaches.deliverUpTo {h : Host} {started : List Key} {past : List Delivery} {s : Session}
    (run : h.Reaches started past s) (n : Nat) :
    h.Reaches started (h.deliverUpTo n past s).1 (h.deliverUpTo n past s).2 :=
  Host.deliverUpTo_induction (fun run queue => run.deliver queue) n run

/-! ## Starts -/

/-- A start creates an instance and queues the start of the first step. -/
theorem Compiled.start_eq {d : Definition} {h : Host} (c : Compiled d h.table) (s : Session) (id : Key)
    (state : Value) :
    ∃ x : Spot, x.In d ∧ x.line = .main ∧ ∃ delivered, h.start s id state = (.ok (), { s with
      running := Store.insert id (.fresh h.table id state) s.running
      queue := s.queue ++ [(Token.start x).message d id]
      delivered := s.delivered ++ [delivered] }) ∧ delivered.instanceId = id := by
  obtain ⟨first, at?, start⟩ := c.exists_start
  have here : (Token.start ⟨.main, 0, first⟩).In d := ⟨trivial, at?⟩
  have sent : ∀ s, h.dispatch s ((Token.start ⟨.main, 0, first⟩).message d id)
      = s.send ((Token.start ⟨.main, 0, first⟩).message d id) := fun s => c.dispatch_token here
  have applied : ∀ calls m, h.table.start.apply h.collaborators calls (.fresh h.table id state) m
      = ⟨.fresh h.table id state, calls,
        .ok [.send ((Token.start ⟨.main, 0, first⟩).message d id)]⟩ := by
    intro calls m
    rw [start]
    rfl
  refine ⟨⟨.main, 0, first⟩, here, rfl, ⟨Name.startCommand h.table.process, id, .start state⟩, ?_, rfl⟩
  simp only [Host.start, Table.begin, applied, Host.effects, List.foldl_cons, List.foldl_nil,
    Host.effect, sent]
  rfl

/-- A start under a key of the host's own making is a start under the next such key. -/
theorem Compiled.startAuto_eq {d : Definition} {h : Host} (c : Compiled d h.table) (s : Session)
    (state : Value) : (h.startAuto s state).2
      = { (h.start s (Key.auto (s.autos + 1)) state).2 with autos := s.autos + 1 } := by
  obtain ⟨_, _, _, _, result, _⟩ := c.start_eq s (Key.auto (s.autos + 1)) state
  rw [Host.startAuto, result]

/-- An instance that is started first, and the deliveries that follow. -/
theorem Compiled.reaches_first {d : Definition} {h : Host} (c : Compiled d h.table) (id : Key)
    (state : Value) (n : Nat) :
    h.Reaches [id] (h.deliverUpTo n [] (h.start .initial id state).2).1
      (h.deliverUpTo n [] (h.start .initial id state).2).2 := by
  obtain ⟨_, _, _, _, result, _⟩ := c.start_eq .initial id state
  have ok : h.start .initial id state = (.ok (), (h.start .initial id state).2) := by rw [result]
  exact (Host.Reaches.initial.start List.not_mem_nil ok).deliverUpTo n

/-! ## Runs that are computed -/

/-- The first deliveries to the first instance of a process, with messages sent from outside before
them, if the process compiles. -/
def Definition.firstRun? (d : Definition) (host : Table → Host) (sent : List Message) (n : Nat) :
    Option (Host × List Delivery × Session) :=
  match d.compile .default with
  | .ok t => some (host t, (host t).deliverUpTo n []
      (sent.foldl Session.send ((host t).start .initial (.number 1) .null).2))
  | .error _ => none

/-- What is computed of such a run, with nothing from outside, is true of a closed run. -/
theorem Definition.exists_first {d : Definition} (host : Table → Host)
    (table : ∀ t, (host t).table = t) (n : Nat) (check : Host → List Delivery → Session → Bool)
    (computed : (d.firstRun? host [] n).any (fun r => check r.1 r.2.1 r.2.2) = true) :
    ∃ (t : Table) (past : List Delivery) (s : Session), d.compile .default = .ok t
      ∧ (host t).Reaches [.number 1] past s ∧ check (host t) past s = true := by
  unfold Definition.firstRun? at computed
  cases compiles : d.compile .default with
  | error e =>
    rw [compiles] at computed
    cases computed
  | ok t =>
    rw [compiles] at computed
    have c : Compiled d (host t).table := by
      rw [table]
      exact Definition.compiled_of_compile compiles
    exact ⟨t, _, _, rfl, c.reaches_first (.number 1) .null n, computed⟩

theorem Definition.exists_run {d : Definition} (host : Table → Host)
    (table : ∀ t, (host t).table = t) (n : Nat) (check : Host → List Delivery → Session → Bool)
    (computed : (d.firstRun? host [] n).any (fun r => check r.1 r.2.1 r.2.2) = true) :
    ∃ (h : Host) (past : List Delivery) (s : Session), d.compile .default = .ok h.table
      ∧ h.Reaches [.number 1] past s ∧ check h past s = true := by
  obtain ⟨t, past, s, compiles, run, checked⟩ := Definition.exists_first host table n check computed
  exact ⟨host t, past, s, by rw [table, compiles], run, checked⟩

/-- Whether one of the deliveries, by its place, and those before and after it pass a check. -/
def Delivery.passes (past : List Delivery) (place : Nat)
    (check : List Delivery → Delivery → List Delivery → Bool) : Bool :=
  past[place]?.any fun e => check (past.take place) e (past.drop (place + 1))

theorem Delivery.exists_split {past : List Delivery} {place : Nat}
    {check : List Delivery → Delivery → List Delivery → Bool}
    (passes : Delivery.passes past place check = true) :
    ∃ before e after, past = before ++ e :: after ∧ check before e after = true := by
  obtain ⟨e, here, checked⟩ := (Option.any_eq_true _ _).mp passes
  obtain ⟨inside, rfl⟩ := List.getElem?_eq_some_iff.mp here
  refine ⟨past.take place, past[place], past.drop (place + 1), ?_, checked⟩
  rw [List.getElem_cons_drop, List.take_append_drop]

/-- The handler of a release: it waits, and then starts the failed step again. -/
def Handler.retry : Handler := ⟨"retry", .workflow, [.ofName "Wait"], false⟩

/-- A release: signed and scanned side by side before it is published. -/
def Definition.release : Definition where
  name := "Release"
  steps := [.ofName "Build", .ofName "Publish"]
  stateType := none
  loops := []
  branches := []
  approvals := []
  forks := [⟨"Build", [[.ofName "Sign"], [.ofName "Scan"]], false, "Publish"⟩]
  handlers := [.retry]

/-- A host whose work fails the first time it is tried, for some steps. -/
def Host.faltering (t : Table) (steps : List String) : Host where
  table := t
  collaborators := ⟨fun _ update => update, fun _ _ _ => true⟩
  executor := fun calls workType state =>
    if workType ∈ steps ∧ .execute workType false ∉ calls then .error ⟨"down", "Io", none⟩
    else .ok state
  correlator := .counting
  deliveryLimit := Host.defaultDeliveryLimit

/-- A host whose conditions never hold. -/
def Host.tireless (t : Table) : Host :=
  { Host.faltering t [] with collaborators := ⟨fun _ update => update, fun _ _ _ => false⟩ }

/-! ## Requests -/

/-- The requests of a move are for its own instance. -/
theorem Move.approvals {d : Definition} {h : Host} {id : Key} {s s' : Session} {toks left : List Token}
    {tok : Token} (move : Move d h id s toks tok s' left) :
    ∃ more, s'.approvals = s.approvals ++ more ∧ ∀ r ∈ more, r.instanceId = id := by
  have settled : ∀ {s s' : Session} {left : List Token} {i : Instance},
      Settles d id s toks i s' left →
        ∃ more, s'.approvals = s.approvals ++ more ∧ ∀ r ∈ more, r.instanceId = id := by
    intro s s' left i settles
    cases settles with
    | request a g attached link alike phase going correlation m =>
      exact ⟨[⟨id, g.gate.name, g.gate.approverType, correlation⟩], rfl, by simp⟩
    | _ => exact ⟨[], by simp, by simp⟩
  cases move with
  | settle x update failure plain i i' stored alike joins cancelled fewer delivered calls s' left
      settles =>
    obtain ⟨more, grown, own⟩ := settled settles
    exact ⟨more, grown, own⟩
  | answer tok signal i i' stored asked key cleared delivered calls s' left settles =>
    obtain ⟨more, grown, own⟩ := settled settles
    exact ⟨more, grown, own⟩
  | _ => exact ⟨[], by simp [Host.sweep, Session.send], by simp⟩

/-- What a start leaves of one instance. -/
theorem Session.only_begun (s : Session) (id id₀ : Key) (i : Instance) {m letter : Message}
    (own : m.instanceId = id₀) (own' : letter.instanceId = id₀) :
    ({ s with
      running := Store.insert id₀ i s.running
      queue := s.queue ++ [m]
      delivered := s.delivered ++ [letter] }).only id
      = if id₀ = id then { s.only id with
          running := Store.insert id₀ i (s.only id).running
          queue := (s.only id).queue ++ [m]
          delivered := (s.only id).delivered ++ [letter] }
        else s.only id := by
  have kept := Store.filter_insert (fun k => k = id) id₀ i s.running
  by_cases same : id₀ = id
  · simp only [same, decide_true, ↓reduceIte] at kept
    simp [only, own, own', same, kept]
  · simp only [same, decide_false, Bool.false_eq_true, ↓reduceIte] at kept
    simp [only, own, own', same, kept]

/-- What is decided or timed out is a recorded request. -/
theorem Session.exists_request {s : Session} {id correlation : Key} {approval : String}
    (ok : s.latestRequest id approval = .ok correlation) :
    ∃ r ∈ s.approvals, r.instanceId = id ∧ r.approval = approval ∧ r.correlation = correlation := by
  unfold latestRequest at ok
  split at ok
  · cases ok
  · split at ok
    next r found =>
      have fits := List.find?_some found
      simp only [Bool.and_eq_true, decide_eq_true_eq] at fits
      cases ok
      exact ⟨r, List.mem_reverse.mp (List.mem_of_find?_eq_some found), fits.1, fits.2, rfl⟩
    · cases ok

/-! ## Properties of one instance -/

/-- A property of the deliveries to one instance, of what the session holds of it and of the tokens
that wait for it, which every run keeps up. -/
structure Kept (d : Definition) (h : Host) (id : Key)
    (P : List Delivery → Session → List Token → Prop) : Prop where
  start {s : Session} {state : Value} {x : Spot} (here : x.In d) (main : x.line = .main)
    (running : Store.get? id s.running = some (.fresh h.table id state)) (finished : s.finished = [])
    (joins : s.joins = []) (cancelled : s.cancelled = []) (events : s.events = [])
    (faults : s.faults = []) (approvals : ∀ r ∈ s.approvals, r.instanceId ≠ id) :
    P [] s [.start x]
  move {past : List Delivery} {s s' : Session} {toks left : List Token} {tok : Token}
    (tracked : Tracked d h id s toks) (here : tok.In d) (holds : P past s (tok :: toks))
    (move : Move d h id s toks tok s' left) (after : Tracked d h id s' left)
    (result : h.deliver s (tok.message d id) = s') : P (past ++ [⟨s, tok.message d id⟩]) s' left
  signal {past : List Delivery} {s : Session} {toks : List Token} {tok : Token}
    (signal : tok.kind = .approvalDecided ∨ tok.kind = .approvalTimedOut) (holds : P past s toks) :
    P past s (toks ++ [tok])
  /-- The queue is known by its tokens. -/
  queue {past : List Delivery} {s : Session} {toks : List Token} (queue : List Message)
    (holds : P past s toks) : P past { s with queue } toks
  /-- Other instances leave their requests and calls. -/
  beside {past : List Delivery} {s t : Session} {toks : List Token} {more : List ApprovalRecord}
    (grown : t.approvals = s.approvals ++ more) (others : ∀ r ∈ more, r.instanceId ≠ id)
    (holds : P past s toks) : P past (s.beside t) toks

/-- Runs are tracked also where nothing else is asked of them. -/
theorem Kept.trivially {d : Definition} {h : Host} (id : Key) : Kept d h id fun _ _ _ => True :=
  ⟨fun _ _ _ _ _ _ _ _ _ => trivial, fun _ _ _ _ _ _ => trivial, fun _ _ => trivial,
    fun _ _ => trivial, fun _ _ _ => trivial⟩

/-- Where a run has an instance: started and tracked, with a property, or not there at all. -/
inductive Host.Follows (d : Definition) (h : Host) (P : List Delivery → Session → List Token → Prop)
    (started : List Key) (past : List Delivery) (s : Session) (id : Key) : Prop
  | started (toks : List Token) (member : id ∈ started) (tracked : Tracked d h id (s.only id) toks)
      (holds : P (Delivery.own id past) (s.only id) toks)
  | absent (none : id ∉ started) (empty : s.only id = Session.initial.beside s)
      (approvals : ∀ r ∈ s.approvals, r.instanceId ≠ id) (own : Delivery.own id past = [])

namespace Host.Follows

variable {d : Definition} {h : Host} (c : Compiled d h.table)
  {P : Key → List Delivery → Session → List Token → Prop} (kept : ∀ id, Kept d h id (P id))
  {started : List Key} {past : List Delivery} {s : Session}
  (follows : ∀ id, h.Follows d (P id) started past s id)

include follows

theorem atHome : AtHome s := by
  intro key i stored
  rw [← Session.get?_running_only] at stored
  cases follows key with
  | started toks member tracked holds => exact (tracked.fits i stored).1
  | absent none empty approvals own =>
    rw [empty] at stored
    cases stored

theorem calm (id : Key) : h.Calm (s.only id) := by
  intro m hm
  cases follows id with
  | started toks member tracked holds =>
    rw [tracked.queue] at hm
    obtain ⟨tok, htok, rfl⟩ := List.mem_map.mp hm
    exact tracked.calm tok htok
  | absent none empty approvals own =>
    rw [empty] at hm
    cases hm

include c kept

/-- A start. -/
theorem start {id₀ : Key} {state : Value} (fresh : id₀ ∉ started) {s' : Session}
    (ok : h.start s id₀ state = (.ok (), s')) (id : Key) :
    h.Follows d (P id) (id₀ :: started) past s' id := by
  obtain ⟨x, here, main, letter, result, own⟩ := c.start_eq s id₀ state
  rw [ok] at result
  cases result
  have now := Session.only_begun s id id₀ (.fresh h.table id₀ state)
    (Token.message_instanceId d id₀ (.start x)) own
  by_cases same : id₀ = id
  · subst same
    rw [if_pos rfl] at now
    cases follows id₀ with
    | started toks member tracked holds => exact absurd member fresh
    | absent none empty approvals past =>
      rw [empty] at now
      have here' : (Token.start x).In d := here
      refine .started [.start x] List.mem_cons_self ?_ ?_
      · rw [now]
        exact {
          queue := rfl
          here := by simpa using here'
          calm := by
            intro tok only
            rw [List.mem_singleton.mp only]
            exact c.isCancelled_eq_false here' (by rw [Token.spot?, Option.bind_some, main]; rfl)
          fits := Tracked.fits_insert rfl rfl
          slow := fun _ _ _ => rfl
          gates := fun r hr own => absurd own (approvals r hr) }
      · rw [now, past]
        exact (kept id₀).start here main (Store.get?_insert_self ..) rfl rfl rfl rfl rfl approvals
  · rw [if_neg same] at now
    cases follows id with
    | started toks member tracked holds =>
      exact .started toks (List.mem_cons_of_mem _ member) (now ▸ tracked) (now ▸ holds)
    | absent none empty approvals past =>
      exact .absent (by simp [Ne.symm same, none]) (now.trans empty) approvals past

/-- A signal from outside. -/
theorem send {tok : Token} (signal : tok.kind = .approvalDecided ∨ tok.kind = .approvalTimedOut)
    {id₀ : Key} (here : tok.In d) (there : id₀ ∈ started) (id : Key) :
    h.Follows d (P id) started past (s.send (tok.message d id₀)) id := by
  have now : (s.send (tok.message d id₀)).only id
      = if id₀ = id then (s.only id).send (tok.message d id₀) else s.only id := by
    rw [Session.only_send, Token.message_instanceId]
  by_cases same : id₀ = id
  · subst same
    rw [if_pos rfl] at now
    cases follows id₀ with
    | absent none empty approvals past => exact absurd there none
    | started toks member tracked holds =>
      refine .started (toks ++ [tok]) member ?_ ?_
      · rw [now]
        refine tracked.send c rfl here (.refl _) ?_ tracked.fits fun r hr => .inl hr
        intro lane onLane
        cases tok <;> simp [Token.kind] at signal <;> cases onLane
      · rw [now]
        exact (kept id₀).queue _ ((kept id₀).signal signal holds)
  · rw [if_neg same] at now
    cases follows id with
    | started toks member tracked holds =>
      exact .started toks member (now ▸ tracked) (now ▸ holds)
    | absent none empty approvals past => exact .absent none (now.trans empty) approvals past

/-- The first message of the queue is a token of a started instance, and its delivery a move. -/
theorem exists_move {m : Message} {rest : List Message} (queue : s.queue = m :: rest) :
    m.instanceId ∈ started ∧ ∃ tok toks left, tok.In d ∧ tok.message d m.instanceId = m
      ∧ Tracked d h m.instanceId ({ s with queue := rest }.only m.instanceId) toks
      ∧ P m.instanceId (Delivery.own m.instanceId past) ({ s with queue := rest }.only m.instanceId)
        (tok :: toks)
      ∧ Move d h m.instanceId ({ s with queue := rest }.only m.instanceId) toks tok
        (h.deliver ({ s with queue := rest }.only m.instanceId) m) left
      ∧ Tracked d h m.instanceId (h.deliver ({ s with queue := rest }.only m.instanceId) m) left := by
  generalize id_eq : m.instanceId = id
  have waiting : (s.only id).queue = m :: rest.filter fun m => m.instanceId = id := by
    simp [Session.only, queue, id_eq]
  cases follows id with
  | absent none empty approvals own =>
    rw [empty] at waiting
    cases waiting
  | started toks member tracked holds =>
    rw [tracked.queue] at waiting
    cases toks with
    | nil => cases waiting
    | cons tok toks =>
      obtain ⟨rfl, others⟩ := List.cons.inj waiting
      have here := tracked.here tok List.mem_cons_self
      have calm : h.isCancelled ({ s with queue := rest }.only id) (tok.message d id) = false :=
        tracked.calm tok List.mem_cons_self
      have popped : Tracked d h id ({ s with queue := rest }.only id) toks := {
        queue := others.symm
        here := fun tok' later => tracked.here tok' (List.mem_cons_of_mem _ later)
        calm := fun tok' later => tracked.calm tok' (List.mem_cons_of_mem _ later)
        fits := tracked.fits
        slow := tracked.slow
        gates := tracked.gates }
      obtain ⟨left, move⟩ := c.deliver_move here calm popped.fits
      exact ⟨member, tok, toks, left, here, rfl, popped, (kept id).queue _ holds, move,
        popped.move c here calm move⟩

/-- A delivery. -/
theorem deliver {m : Message} {rest : List Message} (queue : s.queue = m :: rest) (id : Key) :
    h.Follows d (P id) started (past ++ [⟨{ s with queue := rest }, m⟩])
      (h.deliver { s with queue := rest } m) id := by
  have home : AtHome { s with queue := rest } := fun key i stored => atHome follows key i stored
  obtain ⟨member, tok, toks, left, here, name, tracked, holds, move, after⟩ :=
    exists_move c kept follows queue
  by_cases own : m.instanceId = id
  · subst own
    have now := Host.only_deliver_self (h := h) home (m := m) rfl
    have line : Delivery.own m.instanceId (past ++ [⟨{ s with queue := rest }, m⟩])
        = Delivery.own m.instanceId past ++ [⟨{ s with queue := rest }.only m.instanceId, m⟩] := by
      simp [Delivery.own, Delivery.only]
    have moved := (kept m.instanceId).move tracked here holds move after (by rw [name])
    rw [name] at moved
    exact .started left member (now ▸ after) (by rw [now, line]; exact moved)
  · have same : Session.only { s with queue := rest } id = s.only id := by
      simp [Session.only, queue, own]
    have now := Host.only_deliver_other (h := h) home own (by rw [same]; exact calm follows id)
    rw [same] at now
    have line : Delivery.own id (past ++ [⟨{ s with queue := rest }, m⟩]) = Delivery.own id past := by
      simp [Delivery.own, own]
    -- requests come from the instance of the message
    obtain ⟨more, grown, theirs⟩ := move.approvals
    have grown : (h.deliver { s with queue := rest } m).approvals = s.approvals ++ more := by
      rw [← Host.only_deliver_self home rfl] at grown
      exact grown
    have others : ∀ r ∈ more, r.instanceId ≠ id := fun r hr => theirs r hr ▸ own
    cases follows id with
    | started toks member tracked holds =>
      refine .started toks member ?_ ?_
      · rw [now]
        refine tracked.still rfl (.refl _) tracked.fits fun r hr => ?_
        rw [Session.beside, grown] at hr
        exact (List.mem_append.mp hr).imp_right (others r)
      · rw [now, line]
        exact (kept id).beside grown others holds
    | absent none empty approvals past =>
      refine .absent none (by rw [now, empty, Session.beside_beside]) ?_ (line.trans past)
      intro r hr
      rw [grown] at hr
      exact (List.mem_append.mp hr).elim (approvals r) (others r)

omit c kept in
/-- What is decided or timed out is a request of a started instance at a gate. -/
theorem exists_gate {id correlation : Key} {approval : String}
    (ok : s.latestRequest id approval = .ok correlation) :
    id ∈ started ∧ ∃ a ∈ d.approvals, ∃ g ∈ a.chain, approval = g.gate.name := by
  obtain ⟨r, hr, own, name, _⟩ := Session.exists_request ok
  cases follows id with
  | started toks member tracked holds =>
    obtain ⟨a, attached, g, link, gate⟩ := tracked.gates r hr own
    exact ⟨member, a, attached, g, link, name.symm.trans gate⟩
  | absent none empty approvals past => exact absurd own (approvals r hr)

end Host.Follows

/-- Every run keeps up what moves, signals and other instances keep up. -/
theorem Host.Reaches.follows {d : Definition} {h : Host} (c : Compiled d h.table)
    {P : Key → List Delivery → Session → List Token → Prop} (kept : ∀ id, Kept d h id (P id))
    {started : List Key} {past : List Delivery} {s : Session} (run : h.Reaches started past s)
    (id : Key) : h.Follows d (P id) started past s id := by
  induction run generalizing id with
  | initial => exact .absent (by simp) rfl (by simp [Session.initial]) rfl
  | start run fresh ok ih => exact Follows.start c kept ih fresh ok id
  | deliver run queue ih => exact Follows.deliver c kept ih queue id
  | @decide _ _ s _ id₀ correlation _ decision run ok ih =>
    obtain ⟨_, asked, result⟩ := map_eq_ok.mp ok
    cases result
    obtain ⟨member, a, attached, g, link, rfl⟩ := Follows.exists_gate ih asked
    have here : (Token.decided a g correlation decision).In d := ⟨attached, link⟩
    exact Follows.send c kept ih (.inl rfl) here member id
  | @timeOut _ _ s _ id₀ correlation _ run ok ih =>
    obtain ⟨_, asked, result⟩ := map_eq_ok.mp ok
    cases result
    obtain ⟨member, a, attached, g, link, rfl⟩ := Follows.exists_gate ih asked
    have here : (Token.timedOut a g correlation).In d := ⟨attached, link⟩
    exact Follows.send c kept ih (.inr rfl) here member id

/-- A delivery is the last one of a run, or one of those before. -/
theorem Delivery.eq_last_or {past earlier later : List Delivery} {e last : Delivery}
    (split : past ++ [last] = earlier ++ e :: later) :
    (past = earlier ∧ last = e ∧ later = [])
      ∨ ∃ later', later = later' ++ [last] ∧ past = earlier ++ e :: later' := by
  rcases List.eq_nil_or_concat later with rfl | ⟨later', other, rfl⟩
  · obtain ⟨same, one⟩ := List.append_inj' split rfl
    exact .inl ⟨same, (List.cons.inj one).1, rfl⟩
  · have grouped : past ++ [last] = (earlier ++ e :: later') ++ [other] := by simpa using split
    obtain ⟨same, one⟩ := List.append_inj' grouped rfl
    exact .inr ⟨later', by rw [(List.cons.inj one).1, List.concat_eq_append], same⟩

/-- The session before a delivery was reached by the deliveries before. -/
theorem Host.Reaches.before {h : Host} {started : List Key} {past : List Delivery} {s : Session}
    (run : h.Reaches started past s) {earlier later : List Delivery} {e : Delivery}
    (split : past = earlier ++ e :: later) :
    ∃ started s₀, h.Reaches started earlier s₀ ∧ s₀.queue = e.message :: e.before.queue
      ∧ e.before = { s₀ with queue := e.before.queue } := by
  induction run generalizing later with
  | initial => cases earlier <;> cases split
  | start run fresh ok ih => exact ih split
  | @deliver started _ s m rest run queue ih =>
    rcases Delivery.eq_last_or split with ⟨rfl, rfl, _⟩ | ⟨later', _, earlier'⟩
    · exact ⟨started, s, run, queue, rfl⟩
    · exact ih earlier'
  | decide run ok ih => exact ih split
  | timeOut run ok ih => exact ih split

/-- What was delivered in a run was a token of its instance, and the delivery a move. -/
theorem Host.Reaches.exists_move {d : Definition} {h : Host} (c : Compiled d h.table)
    {P : Key → List Delivery → Session → List Token → Prop} (kept : ∀ id, Kept d h id (P id))
    {started : List Key} {past : List Delivery} {s : Session} (run : h.Reaches started past s)
    {earlier later : List Delivery} {e : Delivery} (split : past = earlier ++ e :: later) {id : Key}
    (own : e.message.instanceId = id) :
    ∃ tok toks left, tok.In d ∧ tok.message d id = e.message
      ∧ Tracked d h id (e.before.only id) toks
      ∧ P id (Delivery.own id earlier) (e.before.only id) (tok :: toks)
      ∧ Move d h id (e.before.only id) toks tok (h.deliver (e.before.only id) e.message) left := by
  obtain ⟨started₀, s₀, before, queue, same⟩ := run.before split
  obtain ⟨_, tok, toks, left, here, message, tracked, holds, move, _⟩ :=
    Follows.exists_move c kept (before.follows c kept) queue
  rw [← same, own] at tracked holds move
  exact ⟨tok, toks, left, here, own ▸ message, tracked, holds, move⟩

/-- What waits in a run is for a started instance, and is one of its tokens. -/
theorem Host.Reaches.exists_token {d : Definition} {h : Host} (c : Compiled d h.table)
    {started : List Key} {past : List Delivery} {s : Session} (run : h.Reaches started past s)
    {m : Message} {rest : List Message} (queue : s.queue = m :: rest) :
    m.instanceId ∈ started ∧ ∃ tok : Token, tok.In d ∧ tok.message d m.instanceId = m := by
  obtain ⟨member, tok, _, _, here, message, _⟩ :=
    Follows.exists_move c Kept.trivially (run.follows c Kept.trivially) queue
  exact ⟨member, tok, here, message⟩

/-- What is delivered in a run is on no cancelled path: what waited on one was dropped before. -/
theorem Host.Reaches.isCancelled_eq_false {d : Definition} {h : Host} (c : Compiled d h.table)
    {started : List Key} {past : List Delivery} {s : Session} (run : h.Reaches started past s)
    {e : Delivery} (delivered : e ∈ past) : h.isCancelled e.before e.message = false := by
  obtain ⟨earlier, later, split⟩ := List.append_of_mem delivered
  obtain ⟨started₀, s₀, before, queue, same⟩ := run.before split
  have calm := Follows.calm (before.follows c Kept.trivially) e.message.instanceId e.message
    (by simp [Session.only, queue])
  rw [Host.isCancelled_only rfl] at calm
  rw [same]
  exact calm

/-- Instances are under their own keys whenever a message is delivered. -/
theorem Host.Reaches.atHome {d : Definition} {h : Host} (c : Compiled d h.table) {started : List Key}
    {past : List Delivery} {s : Session} (run : h.Reaches started past s) :
    ∀ e ∈ past, AtHome e.before := by
  induction run with
  | initial => simp
  | start run fresh ok ih => exact ih
  | deliver run queue ih =>
    intro e he
    rcases List.mem_append.mp he with old | new
    · exact ih e old
    · rw [List.mem_singleton.mp new]
      exact fun key i stored => Follows.atHome (run.follows c Kept.trivially) key i stored
  | decide run ok ih => exact ih
  | timeOut run ok ih => exact ih

/-- So does every started instance. -/
theorem Host.Reaches.kept {d : Definition} {h : Host} (c : Compiled d h.table)
    {P : Key → List Delivery → Session → List Token → Prop} (kept : ∀ id, Kept d h id (P id))
    {started : List Key} {past : List Delivery} {s : Session} (run : h.Reaches started past s)
    {id : Key} (member : id ∈ started) :
    ∃ toks, Tracked d h id (s.only id) toks ∧ P id (Delivery.own id past) (s.only id) toks := by
  cases run.follows c kept id with
  | started toks _ tracked holds => exact ⟨toks, tracked, holds⟩
  | absent none => exact absurd member none

end Workflow
