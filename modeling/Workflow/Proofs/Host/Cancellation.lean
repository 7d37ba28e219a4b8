import Workflow.Proofs.Host.Fate
import Workflow.Proofs.Host.Join

/-!
Cancelled forks.

A failure on a path of a fail-fast fork cancels the other paths. `Host.cancelledBy?` reads off the
deliveries of a run which path has cancelled a fork since it last started, without looking at what
the host keeps. In open runs that decides what is dropped: messages of the other paths, at once from
the queue and later on arrival, and nothing else. In closed runs a cancelled instance is `Doomed`:
what control is left is with a handler that fails the process, so that the join is never released.
-/

set_option autoImplicit false

namespace Workflow

/-- Whether a message is for an instance and drives a path of a fork beside the given one. -/
def Message.IsBeside (d : Definition) (f : Fork) (p : Nat) (id : Key) (m : Message) : Prop :=
  m.instanceId = id ∧ ∃ q, q ≠ p ∧ f.Drives d q m.name

namespace Host

/-! ## What is read off a delivery -/

/-- The path of a fork whose failure, in this delivery, cancels the other ones. -/
def cancels? (h : Host) (f : Fork) (e : Delivery) : Option Nat :=
  (h.committed? e).bind fun r =>
    if .cancelFork (Name.forkId f.previousStep) ∈ r.2 then
      (h.table.pathOf? e.message.name).map Prod.snd
    else none

/-- The path that has cancelled the other ones since the fork last started. -/
def cancelledBy? (h : Host) (f : Fork) (id : Key) (past : List Delivery) : Option Nat :=
  ((h.since f id past).filterMap (h.cancels? f)).getLast?

theorem cancelledBy?_append (h : Host) (f : Fork) (id : Key) (past : List Delivery) (e : Delivery) :
    h.cancelledBy? f id (past ++ [e])
      = if e.message.instanceId = id then
          if h.triggers f e then none else (h.cancels? f e).or (h.cancelledBy? f id past)
        else h.cancelledBy? f id past := by
  unfold cancelledBy?
  rw [since_append]
  split
  · split
    · rfl
    · cases cancels : h.cancels? f e <;> simp [cancels]
  · rfl

variable {h : Host} {e : Delivery} {j : Instance} {es : List Effect} {f : Fork}

theorem cancels?_of_isSend (committed : h.committed? e = some (j, es)) (sends : ∀ e ∈ es, e.IsSend)
    (f : Fork) : h.cancels? f e = none := by
  have off : .cancelFork (Name.forkId f.previousStep) ∉ es := fun cancels => sends _ cancels
  rw [cancels?, committed, Option.bind_some, if_neg off]

theorem cancels?_of_join {fork : String} {p n : Nat} {m : Message}
    (committed : h.committed? e = some (j, [.join fork p n m])) (f : Fork) :
    h.cancels? f e = none := by
  rw [cancels?, committed, Option.bind_some, if_neg (by simp)]

end Host

namespace Compiled

variable {d : Definition} {h : Host} (c : Compiled d h.table) {e : Delivery} {f : Fork} {p : Nat}

include c

/-- A completion drives the path that it is on. -/
theorem pathOf?_completed {x : Spot} (here : x.In d) (line : x.line = .fork f p)
    (name : e.message.name = Name.completedEvent (x.stem d)) :
    h.table.pathOf? e.message.name = some (d.forkLayout f, p) := by
  have there : (Token.done x .null none).In d := here
  refine c.pathOf?_eq_some_iff.mpr ⟨f, Spot.fork_mem here line, rfl, ?_⟩
  rw [name]
  exact drives_message there rfl line (.number 0)

/-- A cancellation comes from a failure on a path, and is not kept from happening by an earlier one. -/
theorem exists_of_cancels? (home : e.AtHome) (declared : f ∈ d.forks)
    (cancels : h.cancels? f e = some p) :
    ∃ (j : Instance) (x : Spot) (toks : List Token), x.In d ∧ x.line = .fork f p
      ∧ e.message.name = Name.completedEvent (x.stem d)
      ∧ (∀ tok ∈ toks, tok.In d ∧ tok.spot? = none)
      ∧ h.committed? e = some (j, .cancelFork (Name.forkId f.previousStep)
        :: toks.map fun tok => .send (tok.message d e.message.instanceId)) := by
  obtain ⟨⟨j, es⟩, committed, _⟩ := Option.bind_eq_some_iff.mp cancels
  cases c.reaction home committed with
  | quiet sends =>
    rw [Host.cancels?_of_isSend committed sends] at cancels
    cases cancels
  | report here line name =>
    rw [Host.cancels?_of_join committed] at cancels
    cases cancels
  | @cancel f' p' x toks here line failFast name triggers =>
    rw [Host.cancels?, committed, Option.bind_some] at cancels
    split at cancels
    next member =>
      have same : Name.forkId f.previousStep = Name.forkId f'.previousStep := by
        simpa using member
      rw [c.pathOf?_completed here line name] at cancels
      cases cancels
      cases c.eq_of_forkId declared (Spot.fork_mem here line) same.symm
      exact ⟨j, x, toks, here, line, name, triggers, committed⟩
    next => cases cancels

/-- The cancellation of a fork is entered by a failure on it, and goes when the fork starts over. -/
theorem get?_cancelled_deliver (home : e.AtHome) (declared : f ∈ d.forks) (id : Key) :
    Store.get? (id, Name.forkId f.previousStep) (h.deliver e.before e.message).cancelled
      = if e.message.instanceId = id then
          if h.triggers f e then none
          else (h.cancels? f e).or
            (Store.get? (id, Name.forkId f.previousStep) e.before.cancelled)
        else Store.get? (id, Name.forkId f.previousStep) e.before.cancelled := by
  cases committed : h.committed? e with
  | none =>
    have cancelled := (Host.agrees_of_committed? committed).cancelled
    simp [Host.triggers, Host.cancels?, committed, cancelled]
  | some result =>
    obtain ⟨j, es⟩ := result
    cases c.reaction home committed with
    | quiet sends =>
      obtain ⟨_, _, _, _, _, _, _, result⟩ := deliver_quiet committed sends
      rw [result, Host.cancels?_of_isSend committed sends]
      simp only [c.get?_renewed_fork declared, Host.triggers, committed, Option.isSome_some,
        Bool.true_and, decide_eq_true_eq, Option.none_or]
      by_cases own : e.message.instanceId = id
      · by_cases name : e.message.name = Name.completedEvent f.previousStep <;> simp [own, name]
      · simp [own]
    | report here line name =>
      obtain ⟨_, _, _, _, result⟩ := c.deliver_report here line name committed
      rw [result, c.not_triggers here line name declared, Host.cancels?_of_join committed,
        Session.join_eq]
      split <;> simp [Session.send]
    | @cancel f' p' x toks here line failFast name triggers =>
      obtain ⟨_, _, _, _, result⟩ := c.deliver_cancel here line name triggers committed
      have path := c.pathOf?_completed here line name
      rw [result, c.not_triggers here line name declared]
      simp only [Host.sweep, Host.cancels?, committed, Option.bind_some, path, Option.map_some,
        Store.get?_insert, Bool.false_eq_true, ↓reduceIte]
      by_cases own : e.message.instanceId = id
      · by_cases same : Name.forkId f'.previousStep = Name.forkId f.previousStep
        · simp [own, same]
        · simp [own, same, Ne.symm same]
      · simp [own]

end Compiled

/-! ## What is dropped -/

namespace Compiled

variable {d : Definition} {h : Host} (c : Compiled d h.table) {e : Delivery} {m : Message}

include c

/-- A message is cancelled if it drives a path of a fork that another path has cancelled. -/
theorem isCancelled_iff {s : Session} : h.isCancelled s m = true ↔ ∃ f ∈ d.forks, ∃ p,
    Store.get? (m.instanceId, Name.forkId f.previousStep) s.cancelled = some p
      ∧ m.IsBeside d f p m.instanceId := by
  unfold Host.isCancelled
  constructor
  · intro cancelled
    split at cancelled
    next layout q found =>
      obtain ⟨f, declared, rfl, drives⟩ := c.pathOf?_eq_some_iff.mp found
      obtain ⟨p, entered, other⟩ := (Option.any_eq_true _ _).mp cancelled
      exact ⟨f, declared, p, entered, rfl, q, Ne.symm (of_decide_eq_true other), drives⟩
    next => cases cancelled
  · rintro ⟨f, declared, p, entered, _, q, other, drives⟩
    rw [c.pathOf?_eq_some_iff.mpr ⟨f, declared, rfl, drives⟩]
    exact (Option.any_eq_true _ _).mpr ⟨p, entered, decide_eq_true (Ne.symm other)⟩

/-- A delivery without a cancellation takes nothing from the queue. -/
theorem deliver_spares (home : e.AtHome)
    (calm : h.isCancelled e.before e.message = false)
    (none : ∀ f ∈ d.forks, h.cancels? f e = none) :
    ∃ more, (h.deliver e.before e.message).queue = e.before.queue ++ more
      ∧ (h.deliver e.before e.message).dropped = e.before.dropped := by
  cases committed : h.committed? e with
  | none =>
    obtain ⟨more, _, _, _, _, _, result⟩ := Host.deliver_idle committed calm
    exact ⟨more, by rw [result], by rw [result]⟩
  | some result =>
    obtain ⟨j, es⟩ := result
    cases c.reaction home committed with
    | quiet sends =>
      obtain ⟨_, _, more, _, _, _, _, result⟩ := deliver_quiet committed sends
      exact ⟨more, by rw [result], by rw [result]⟩
    | report here line name =>
      obtain ⟨_, _, _, _, result⟩ := c.deliver_report here line name committed
      rw [result, Session.join_eq]
      split
      · exact ⟨[_], rfl, rfl⟩
      · exact ⟨[], (List.append_nil _).symm, rfl⟩
    | @cancel f p x toks here line failFast name triggers =>
      have cancels := none f (Spot.fork_mem here line)
      rw [Host.cancels?, committed, Option.bind_some, if_pos List.mem_cons_self,
        c.pathOf?_completed here line name] at cancels
      cases cancels

/-- A cancellation takes what it cancels from the queue, and adds nothing of that kind. -/
theorem deliver_sweeps (home : e.AtHome) {f : Fork} (declared : f ∈ d.forks) {p : Nat}
    (cancels : h.cancels? f e = some p) :
    ∃ more, (h.deliver e.before e.message).queue
        = e.before.queue.filter (fun m => !h.isCancelled (h.deliver e.before e.message) m) ++ more
      ∧ (h.deliver e.before e.message).dropped
        = e.before.dropped ++ e.before.queue.filter (h.isCancelled (h.deliver e.before e.message))
      ∧ ∀ m ∈ more, h.isCancelled (h.deliver e.before e.message) m = false := by
  obtain ⟨j, x, toks, here, line, name, triggers, committed⟩ :=
    c.exists_of_cancels? home declared cancels
  obtain ⟨_, _, _, _, result⟩ := c.deliver_cancel here line name triggers committed
  refine ⟨toks.map (Token.message d e.message.instanceId), ?_, ?_, ?_⟩
  · rw [result]
    rfl
  · rw [result]
    rfl
  · intro m hm
    obtain ⟨tok, htok, rfl⟩ := List.mem_map.mp hm
    obtain ⟨there, off⟩ := triggers tok htok
    exact c.isCancelled_eq_false there (by rw [off]; rfl)

/-- A delivery drops only what is cancelled, and else takes nothing from the queue. -/
theorem deliver_drops (home : e.AtHome) :
    ∃ gone, (h.deliver e.before e.message).dropped = e.before.dropped ++ gone
      ∧ (e.before.queue.filter (· ∉ gone)).Sublist (h.deliver e.before e.message).queue
      ∧ ∀ m ∈ gone, h.isCancelled (h.deliver e.before e.message) m = true := by
  by_cases cancelled : h.isCancelled e.before e.message = true
  · refine ⟨[e.message], ?_, ?_, ?_⟩
    · rw [Host.deliver_cancelled cancelled]
    · rw [Host.deliver_cancelled cancelled]
      exact List.filter_sublist
    · intro m only
      rw [List.mem_singleton.mp only, Host.deliver_cancelled cancelled]
      exact cancelled
  · by_cases some : ∃ f ∈ d.forks, ∃ p, h.cancels? f e = some p
    · obtain ⟨f, declared, p, cancels⟩ := some
      obtain ⟨more, queue, dropped, _⟩ := c.deliver_sweeps home declared cancels
      refine ⟨_, dropped, ?_, fun m hm => (List.mem_filter.mp hm).2⟩
      have same : e.before.queue.filter (· ∉ e.before.queue.filter
            (h.isCancelled (h.deliver e.before e.message)))
          = e.before.queue.filter fun m => !h.isCancelled (h.deliver e.before e.message) m := by
        refine List.filter_congr fun m hm => ?_
        cases void : h.isCancelled (h.deliver e.before e.message) m <;> simp [hm, void]
      rw [same, queue]
      exact List.sublist_append_left _ _
    · have none : ∀ f ∈ d.forks, h.cancels? f e = none := fun f declared => by
        rw [Option.eq_none_iff_forall_ne_some]
        exact fun p cancels => some ⟨f, declared, p, cancels⟩
      obtain ⟨more, queue, dropped⟩ := c.deliver_spares home (by simpa using cancelled) none
      refine ⟨[], by rw [dropped, List.append_nil], ?_, fun m hm => by cases hm⟩
      rw [queue]
      exact List.filter_sublist.trans (List.sublist_append_left _ _)

end Compiled

/-! ## Open runs -/

namespace Compiled

variable {d : Definition} {h : Host} (c : Compiled d h.table) {f : Fork} {past : List Delivery}
  {s : Session}

include c

/-- What a host keeps of cancellations is what the deliveries so far say. -/
theorem get?_cancelled (run : h.Evolves past s) (declared : f ∈ d.forks) (id : Key) :
    Store.get? (id, Name.forkId f.previousStep) s.cancelled = h.cancelledBy? f id past := by
  induction run with
  | initial => rfl
  | @start _ s run id' state ih =>
    obtain ⟨queue, delivered, result⟩ := Host.Evolves.start_cases c s id' state
    rw [result]
    exact ih
  | @startAuto _ s run state ih =>
    obtain ⟨id', queue, delivered, autos, result⟩ := Host.Evolves.startAuto_cases c s state
    rw [result]
    exact ih
  | send run m ih => exact ih
  | @deliver past s m rest run queue ih =>
    have home : (Delivery.mk { s with queue := rest } m).AtHome := fun i stored =>
      run.atHome c _ i stored
    rw [Host.cancelledBy?_append, ← ih]
    exact c.get?_cancelled_deliver home declared id

/-- A fork that is cancelled is cancelled by no other path. -/
theorem cancels?_eq {e : Delivery} (home : e.AtHome) (declared : f ∈ d.forks) {p q : Nat}
    (entered : Store.get? (e.message.instanceId, Name.forkId f.previousStep) e.before.cancelled
      = some p) (cancels : h.cancels? f e = some q) : q = p := by
  obtain ⟨j, x, toks, here, line, name, _, committed⟩ :=
    c.exists_of_cancels? home declared cancels
  by_contra other
  have there : (Token.done x .null none).In d := here
  have drives : f.Drives d q e.message.name := by
    rw [name]
    exact drives_message there rfl line (.number 0)
  have dropped : h.isCancelled e.before e.message = true :=
    c.isCancelled_iff.mpr ⟨f, declared, p, entered, rfl, q, other, drives⟩
  rw [Host.committed?, if_pos (.inl dropped)] at committed
  cases committed

/-- A cancellation is in force until the fork starts over. -/
theorem cancelledBy?_between {before between : List Delivery} {e : Delivery}
    (run : h.Evolves (before ++ e :: between) s) (declared : f ∈ d.forks) {p : Nat}
    (cancels : h.cancels? f e = some p)
    (still : ∀ t ∈ between, t.message.instanceId = e.message.instanceId → h.triggers f t = false) :
    h.cancelledBy? f e.message.instanceId (before ++ e :: between) = some p := by
  induction between using List.reverseRecOn generalizing s with
  | nil =>
    have home : e.AtHome := run.atHome_of_mem c (by simp)
    obtain ⟨_, x, _, here, line, name, _⟩ := c.exists_of_cancels? home declared cancels
    rw [Host.cancelledBy?_append, if_pos rfl, c.not_triggers here line name declared, cancels]
    rfl
  | append_singleton between t ih =>
    have split : before ++ e :: (between ++ [t]) = (before ++ e :: between) ++ t :: [] := by simp
    obtain ⟨s₀, earlier, _, same⟩ := run.before split
    have now := ih earlier fun t' ht' => still t' (List.mem_append_left _ ht')
    rw [split, Host.cancelledBy?_append, now]
    split
    next own =>
      rw [still t (by simp) own, if_neg (by simp)]
      cases again : h.cancels? f t with
      | none => rfl
      | some q =>
        have home : t.AtHome := run.atHome_of_mem c (by simp)
        have entered := c.get?_cancelled earlier declared t.message.instanceId
        rw [own, now, ← own] at entered
        have entered : Store.get? (t.message.instanceId, Name.forkId f.previousStep)
            t.before.cancelled = some p := by
          rw [same]
          exact entered
        rw [c.cancels?_eq home declared entered again]
        rfl
    next => rfl

/-- So is no other one by then. -/
theorem eq_of_cancelledBy? {before between : List Delivery} {e e' : Delivery}
    (run : h.Evolves (before ++ e :: (between ++ [e'])) s) (declared : f ∈ d.forks) {p q : Nat}
    (cancels : h.cancels? f e = some p)
    (still : ∀ t ∈ between, t.message.instanceId = e.message.instanceId → h.triggers f t = false)
    (entered : h.cancelledBy? f e.message.instanceId (before ++ e :: (between ++ [e'])) = some q) :
    q = p := by
  have split : before ++ e :: (between ++ [e']) = (before ++ e :: between) ++ [e'] := by simp
  have last : e'.message.instanceId = e.message.instanceId → h.triggers f e' = false := by
    intro own
    by_contra trigger
    rw [split, Host.cancelledBy?_append, if_pos own, if_pos (by simpa using trigger)] at entered
    cases entered
  have now := c.cancelledBy?_between run declared cancels fun t ht own => by
    rcases List.mem_append.mp ht with old | new
    · exact still t old own
    · cases List.mem_singleton.mp new
      exact last own
  exact Option.some.inj (entered.symm.trans now)

end Compiled

/-! ## Closed runs -/

namespace Host.Reaches

variable {d : Definition} {h : Host} {started : List Key} {past before after : List Delivery}
  {e : Delivery} {s : Session} {f : Fork} {p : Nat}

/-- What is delivered to an instance after a cancellation, and before the fork starts over, is a token
of a recovery that fails the process. -/
theorem closing (c : Compiled d h.table) (run : h.Reaches started past s)
    (split : past = before ++ e :: after) (declared : f ∈ d.forks)
    (cancelled : h.cancelledBy? f e.message.instanceId before = some p) :
    ∃ tok : Token, tok.In d ∧ tok.message d e.message.instanceId = e.message
      ∧ ((h.committed? e).isSome = true → tok.isControl = true →
        ∃ g, tok.handler? = some g ∧ g.isTerminal = true) := by
  obtain ⟨tok, toks, _, here, message, _, holds, _⟩ := run.exists_move c (Fated.kept c) split rfl
  refine ⟨tok, here, message, fun commits control => ?_⟩
  obtain ⟨started₀, s₀, earlier, _, same⟩ := run.before split
  have entered := c.get?_cancelled (.of_reaches earlier) declared e.message.instanceId
  rw [cancelled, show s₀.cancelled = e.before.cancelled by rw [same],
    ← Session.get?_cancelled_only] at entered
  rcases holds.fate with free | doomed
  · rw [free] at entered
    cases entered
  · obtain ⟨⟨j, es⟩, committed⟩ := Option.isSome_iff_exists.mp commits
    obtain ⟨i, _, stored, _⟩ := exists_of_committed? committed
    rw [← Session.get?_running_only] at stored
    exact doomed.closing i stored tok List.mem_cons_self control

/-- After a cancellation the fork never starts over. -/
theorem not_triggers (c : Compiled d h.table) (run : h.Reaches started (before ++ e :: after) s)
    (declared : f ∈ d.forks) (cancels : h.cancels? f e = some p) :
    ∀ t ∈ after, t.message.instanceId = e.message.instanceId → h.triggers f t = false := by
  induction after using List.reverseRecOn generalizing started s with
  | nil => simp
  | append_singleton after t ih =>
    have split : before ++ e :: (after ++ [t]) = (before ++ e :: after) ++ t :: [] := by simp
    obtain ⟨started₀, s₀, earlier, _, _⟩ := run.before split
    have still := ih earlier
    intro t' ht' own
    rcases List.mem_append.mp ht' with old | new
    · exact still t' old own
    · cases List.mem_singleton.mp new
      have cancelled := c.cancelledBy?_between (.of_reaches earlier) declared cancels still
      obtain ⟨tok, here, message, closing⟩ := run.closing c split declared (own ▸ cancelled)
      by_contra trigger
      have trigger : h.triggers f t = true := by simpa using trigger
      obtain ⟨x, update, failure, rfl, main, _⟩ := c.eq_done_of_triggers here message declared trigger
      obtain ⟨g, handler, _⟩ := closing (triggers_iff.mp trigger).1 rfl
      have line := Token.line_of_handler? rfl handler
      rw [main] at line
      cases line

/-- After a cancellation the join is never released. -/
theorem not_releases (c : Compiled d h.table) (run : h.Reaches started (before ++ e :: after) s)
    (declared : f ∈ d.forks) (cancels : h.cancels? f e = some p) :
    ∀ t ∈ after, t.message.instanceId = e.message.instanceId → ¬ h.Releases f t := by
  intro t ht own releases
  obtain ⟨between, rest, rfl⟩ := List.append_of_mem ht
  have split : before ++ e :: (between ++ t :: rest) = (before ++ e :: between) ++ t :: rest := by
    simp
  obtain ⟨started₀, s₀, earlier, _, same⟩ := run.before split
  have still := earlier.not_triggers c declared cancels
  have cancelled := c.cancelledBy?_between (.of_reaches earlier) declared cancels still
  obtain ⟨tok, here, message, closing⟩ := run.closing c split declared (own ▸ cancelled)
  obtain ⟨q, report⟩ := Option.isSome_iff_exists.mp releases.1
  have home : t.AtHome := (Host.Evolves.of_reaches run).atHome_of_mem c (by simp)
  obtain ⟨j, x, there, lane, name, committed⟩ := c.exists_of_reports? home declared report
  obtain ⟨x', update, failure, rfl, site⟩ := c.eq_done_of_name here there (by rw [message, name])
  obtain ⟨g, handler, _⟩ := closing (by rw [committed]; rfl) rfl
  rw [Spot.site, lane] at site
  have lane' : x'.line = .fork f q := c.lane?_eq_of_site here declared site
  rw [Token.handler?_of_lane rfl lane'] at handler
  cases handler

/-- An instance that finishes after a cancellation has failed. -/
theorem failed_of_cancels? (c : Compiled d h.table)
    (run : h.Reaches started (before ++ e :: after) s) (declared : f ∈ d.forks)
    (cancels : h.cancels? f e = some p) {j : Instance}
    (finished : Store.get? e.message.instanceId s.finished = some j) : j.phase = Name.failed := by
  have cancelled := c.cancelledBy?_between (.of_reaches run) declared cancels
    (run.not_triggers c declared cancels)
  rw [← c.get?_cancelled (.of_reaches run) declared, ← Session.get?_cancelled_only] at cancelled
  rw [← Session.get?_finished_only] at finished
  cases run.follows c (Fated.kept c) e.message.instanceId with
  | absent none empty =>
    rw [empty] at cancelled
    cases cancelled
  | started toks member tracked holds =>
    rcases holds.fate with free | doomed
    · rw [free] at cancelled
      cases cancelled
    · exact doomed.failed j finished

end Host.Reaches

/-- When the failure of a path cancels the other paths of a fork, nothing of them is left in the queue,
and what arrives for them before the fork starts over is dropped without effect. Whatever else is
dropped meanwhile was cancelled on another fork or for another instance. In a closed run the join is
never released after that, and the process can only end as failed. -/
theorem Host.Evolves.cancellation_isFinal {d : Definition} {settings : Settings} {h : Host}
    (compiles : d.compile settings = .ok h.table) {past : List Delivery} {s : Session}
    (run : h.Evolves past s) {f : Fork} (declared : f ∈ d.forks) {before after : List Delivery}
    {e : Delivery} (split : past = before ++ e :: after) {p : Nat}
    (cancels : h.cancels? f e = some p) :
    (∀ m ∈ (h.deliver e.before e.message).queue, ¬ m.IsBeside d f p e.message.instanceId)
      ∧ (∀ between e' rest, after = between ++ e' :: rest →
        (∀ t ∈ between, t.message.instanceId = e.message.instanceId → h.triggers f t = false) →
        e'.message.IsBeside d f p e.message.instanceId →
          h.deliver e'.before e'.message
            = { e'.before with dropped := e'.before.dropped ++ [e'.message] })
      ∧ (∀ between e' rest, e :: after = between ++ e' :: rest →
        (∀ t ∈ between, t.message.instanceId = e.message.instanceId → h.triggers f t = false) →
          ∃ gone, (h.deliver e'.before e'.message).dropped = e'.before.dropped ++ gone
            ∧ (e'.before.queue.filter (· ∉ gone)).Sublist (h.deliver e'.before e'.message).queue
            ∧ ∀ m ∈ gone, m.IsBeside d f p e.message.instanceId
              ∨ ∃ f' ∈ d.forks, (f', m.instanceId) ≠ (f, e.message.instanceId)
                ∧ ∃ q, h.cancelledBy? f' m.instanceId (before ++ between ++ [e']) = some q
                  ∧ m.IsBeside d f' q m.instanceId)
      ∧ ∀ started, h.Reaches started past s →
        (∀ e' ∈ after, e'.message.instanceId = e.message.instanceId → ¬ h.Releases f e')
          ∧ ∀ j, Store.get? e.message.instanceId s.finished = some j → j.phase = Name.failed := by
  have c := Definition.compiled_of_compile compiles
  subst split
  -- the sessions before and after a delivery
  have around : ∀ {earlier later : List Delivery} {t : Delivery},
      before ++ e :: after = earlier ++ t :: later → t.AtHome
        ∧ (∃ s₀, h.Evolves earlier s₀ ∧ s₀.cancelled = t.before.cancelled)
        ∧ h.Evolves (earlier ++ [t]) (h.deliver t.before t.message) := by
    intro earlier later t split
    obtain ⟨s₀, first, queue, same⟩ := run.before split
    refine ⟨run.atHome_of_mem c (by simp [split]), ⟨s₀, first, by rw [same]⟩, ?_⟩
    have next := first.deliver queue
    rwa [← same] at next
  refine ⟨?_, ?_, ?_, ?_⟩
  · obtain ⟨home, _, next⟩ := around rfl
    obtain ⟨more, queue, _, clean⟩ := c.deliver_sweeps home declared cancels
    rintro m waiting ⟨own, beside⟩
    have entered := c.get?_cancelled next declared e.message.instanceId
    rw [c.cancelledBy?_between next declared cancels (by simp), ← own] at entered
    have void : h.isCancelled (h.deliver e.before e.message) m = true :=
      c.isCancelled_iff.mpr ⟨f, declared, p, entered, rfl, beside⟩
    rw [queue] at waiting
    rcases List.mem_append.mp waiting with old | new
    · have kept := (List.mem_filter.mp old).2
      rw [void] at kept
      cases kept
    · rw [clean m new] at void
      cases void
  · rintro between e' rest rfl still ⟨own, beside⟩
    obtain ⟨_, ⟨s₀, first, same⟩, _⟩ :=
      around (show before ++ e :: (between ++ e' :: rest) = (before ++ e :: between) ++ e' :: rest by
        simp)
    refine deliver_cancelled (c.isCancelled_iff.mpr ⟨f, declared, p, ?_, rfl, beside⟩)
    rw [← same, own, c.get?_cancelled first declared]
    exact c.cancelledBy?_between first declared cancels still
  · intro between e' rest split still
    have position : before ++ e :: after = (before ++ between) ++ e' :: rest := by
      rw [split, List.append_assoc]
    obtain ⟨home, _, next⟩ := around position
    obtain ⟨gone, dropped, kept, void⟩ := c.deliver_drops home
    refine ⟨gone, dropped, kept, fun m hm => ?_⟩
    obtain ⟨f', declared', q, entered, beside⟩ := c.isCancelled_iff.mp (void m hm)
    rw [c.get?_cancelled next declared'] at entered
    by_cases this : (f', m.instanceId) = (f, e.message.instanceId)
    · obtain ⟨rfl, own⟩ := Prod.mk.inj this
      refine .inl ?_
      have same : q = p := by
        rw [own] at entered
        cases between with
        | nil =>
          cases split
          rw [List.append_nil] at entered next
          exact Option.some.inj (entered.symm.trans
            (c.cancelledBy?_between next declared cancels (by simp)))
        | cons first between =>
          obtain ⟨rfl, _⟩ := List.cons.inj split
          simp only [List.append_assoc, List.cons_append] at entered next
          exact c.eq_of_cancelledBy? next declared cancels
            (fun t ht => still t (List.mem_cons_of_mem _ ht)) entered
      rw [own, same] at beside
      exact beside
    · exact .inr ⟨f', declared', this, q, entered, beside⟩
  · intro started closed
    exact ⟨closed.not_releases c declared cancels,
      fun j finished => closed.failed_of_cancels? c declared cancels finished⟩

/-- A release that is given up, with a notice, as soon as one of its checks fails. -/
def Definition.strictRelease : Definition :=
  { Definition.release with
    forks := [⟨"Build", [[.ofName "Sign"], [.ofName "Scan"]], true, "Publish"⟩]
    handlers := [⟨"giveUp", .workflow, [.ofName "Notify"], true⟩] }

/-- When it cannot be signed, the scan that has been made is dropped, and the notice ends it. -/
theorem cancellation_isFinal_strictRelease : ∃ (h : Host) (before : List Delivery) (e : Delivery)
    (after : List Delivery) (s : Session) (f : Fork),
    Definition.strictRelease.compile .default = .ok h.table
      ∧ h.Reaches [.number 1] (before ++ e :: after) s ∧ f ∈ Definition.strictRelease.forks
      ∧ e.message.instanceId = .number 1 ∧ h.cancels? f e = some 0 ∧ after.length = 4
      ∧ s.dropped.map Message.name = [Name.completedEvent "Scan"]
      ∧ (∀ e' ∈ after, e'.message.instanceId = .number 1 → ¬ h.Releases f e')
      ∧ ∃ j, Store.get? (.number 1) s.finished = some j ∧ j.phase = Name.failed := by
  let f : Fork := ⟨"Build", [[.ofName "Sign"], [.ofName "Scan"]], true, "Publish"⟩
  have declared : f ∈ Definition.strictRelease.forks := List.mem_singleton_self _
  obtain ⟨h, past, s, compiles, run, computed⟩ := Definition.exists_run (d := .strictRelease)
    (Host.faltering · ["Sign"]) (fun _ => rfl) 40
    (fun h past s => Delivery.passes past 7 fun _ e after =>
      e.message.instanceId = .number 1 ∧ h.cancels? f e = some 0 ∧ after.length = 4
        ∧ s.dropped.map Message.name = [Name.completedEvent "Scan"]
        ∧ (Store.get? (.number 1) s.finished).isSome = true) (by decide +kernel)
  obtain ⟨before, e, after, rfl, passes⟩ := Delivery.exists_split computed
  obtain ⟨own, cancels, length, dropped, finished⟩ := of_decide_eq_true passes
  obtain ⟨j, finished⟩ := Option.isSome_iff_exists.mp finished
  obtain ⟨_, _, _, final⟩ := (Host.Evolves.of_reaches run).cancellation_isFinal compiles declared rfl
    cancels
  obtain ⟨unreleased, failed⟩ := final _ run
  rw [own] at unreleased failed
  exact ⟨h, before, e, after, s, f, compiles, run, declared, own, cancels, length, dropped,
    unreleased, j, finished, failed j finished⟩

end Workflow
