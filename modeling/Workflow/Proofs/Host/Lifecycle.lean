import Mathlib.Logic.Relation
import Workflow.Proofs.Host.Ledger
import Workflow.Proofs.Machine.Phases

/-!
The life of an instance.

An instance is started, runs, and has ended at most once. As long as no key is used for two starts, an
instance that has ended is found under its key among the finished ones and nowhere else: its record does
not change any more, and what is still sent to it is dropped with a cancelled path or not found.

`Books.Step` has one case for each thing that books note; every operation notes some of them.
-/

set_option autoImplicit false

namespace Workflow

open Relation (ReflTransGen)

namespace Books

/-- The keys under which instances were started. -/
def started (b : Books) : List Key := b.begun.map Message.instanceId

/-- One note: a start, a message from outside, or a delivery. -/
inductive Step (h : Host) (b : Books) : Books → Prop
  | start (id : Key) (state : Value) (autos : Nat) : Step h b { b.start h id state with
      session := { (h.start b.session id state).2 with autos } }
  | send (m : Message) : Step h b (b.send m)
  | deliver {m : Message} {rest : List Message} (queue : b.session.queue = m :: rest) : Step h b { b with
      session := h.deliver { b.session with queue := rest } m
      queued := b.queued ++ h.posted { b.session with queue := rest } m
      past := b.past ++ [⟨{ b.session with queue := rest }, m⟩] }

variable {h : Host} {b : Books}

/-- An operation is a number of notes. -/
theorem note_steps (h : Host) (b : Books) (operation : Operation) :
    ReflTransGen (Step h) b (b.note h operation) := by
  have next : ∀ b : Books, ReflTransGen (Step h) b (b.deliverNext h) := by
    intro b
    unfold deliverNext
    split
    · exact .refl
    next queue => exact .single (.deliver queue)
  have signal : ∀ (id : Key) (approval : String) (m : Key → Message),
      ReflTransGen (Step h) b (b.signal id approval m) := by
    intro id approval m
    unfold Books.signal
    split
    · exact .single (.send _)
    · exact .refl
  cases operation with
  | start id state => exact .single (.start id state (h.start b.session id state).2.autos)
  | startAuto state =>
    obtain ⟨autos, session⟩ := h.startAuto_snd b.session state
    simp only [note, session]
    exact .single (.start _ state autos)
  | send m => exact .single (.send m)
  | decide id approval decision => exact signal _ _ _
  | decideWith id approval correlation decision => exact .single (.send _)
  | timeOut id approval => exact signal _ _ _
  | timeOutWith id approval correlation => exact .single (.send _)
  | deliverNext => exact next b
  | run =>
    exact Function.Iterate.rec (fun b' => ReflTransGen (Step h) b b') .refl
      (fun b' steps => steps.trans (next b')) _

theorem foldl_note_steps (h : Host) (b : Books) (operations : List Operation) :
    ReflTransGen (Step h) b (operations.foldl (note h) b) :=
  List.foldlRecOn operations (note h) (motive := fun b' => ReflTransGen (Step h) b b') .refl
    fun b' steps operation _ => steps.trans (note_steps h b' operation)

end Books

theorem Host.books_append (h : Host) (earlier later : List Operation) :
    h.books (earlier ++ later) = later.foldl (Books.note h) (h.books earlier) :=
  List.foldl_append

theorem Host.evolves_books (h : Host) (operations : List Operation) :
    h.Evolves (h.books operations).past (h.books operations).session :=
  List.foldlRecOn operations (Books.note h) (motive := fun b => h.Evolves b.past b.session)
    Evolves.initial fun _ run operation _ => Books.evolves_note run operation

/-- A start that succeeds logs one command under its key. -/
theorem Compiled.begun_eq {d : Definition} {h : Host} (c : Compiled d h.table) (s : Session) (id : Key)
    (state : Value) : (h.begun s id state).1.map Message.instanceId = [id] := by
  obtain ⟨_, _, _, _, started, _⟩ := c.start_eq s id state
  unfold Host.start at started
  unfold Host.begun
  dsimp only at started ⊢
  cases begins : h.table.begin h.collaborators s.calls
      ⟨Name.startCommand h.table.process, id, .start state⟩ with
  | mk result calls =>
    rw [begins] at started
    cases result with
    | ok begun => rfl
    | error e => cases started

/-- What a commit leaves of an instance under way is under way or has ended, under the same key. -/
theorem Compiled.committed_arrives {d : Definition} {h : Host} (c : Compiled d h.table) {e : Delivery}
    {i j : Instance} {es : List Effect}
    (stored : Store.get? e.message.instanceId e.before.running = some i)
    (going : i.UnderWay h.table.phases) (committed : h.committed? e = some (j, es)) :
    j.id = i.id ∧ (j.UnderWay h.table.phases ∨ j.Ended h.table.phases) := by
  obtain ⟨i', tr, stored', found, rfl, ok, _⟩ := Host.exists_of_committed? committed
  obtain rfl := Option.some.inj (stored.symm.trans stored')
  exact ⟨tr.apply_inst_id _ _ _ _,
    c.apply_arrives (List.mem_of_find?_eq_some found) _ _ going ok⟩

/-! ## Instances in store -/

namespace Books

/-- The instances of a host are as they should be: under their own keys, under way as long as they run,
ended otherwise, and not both unless a key was used for two starts. -/
structure Orderly (t : Table) (b : Books) : Prop where
  running (id : Key) (i : Instance) (stored : Store.get? id b.session.running = some i) :
    i.id = id ∧ i.UnderWay t.phases ∧ id ∈ b.started
  finished (id : Key) (i : Instance) (stored : Store.get? id b.session.finished = some i) :
    i.id = id ∧ i.Ended t.phases ∧ id ∈ b.started
  apart (once : b.started.Nodup) (id : Key) (i : Instance)
    (stored : Store.get? id b.session.finished = some i) : Store.get? id b.session.running = none

variable {d : Definition} {h : Host} (c : Compiled d h.table) {b b' : Books}

include c

theorem started_start (b : Books) (id : Key) (state : Value) :
    (b.start h id state).started = b.started ++ [id] := by
  rw [started, start, List.map_append, c.begun_eq]
  rfl

namespace Orderly

theorem start (orderly : b.Orderly h.table) (id : Key) (state : Value) (autos : Nat) :
    Orderly h.table { b.start h id state with
      session := { (h.start b.session id state).2 with autos } } := by
  obtain ⟨_, _, started⟩ := Host.Evolves.start_cases c b.session id state
  have keys := b.started_start c id state
  have more : ∀ {key : Key}, key ∈ b.started → key ∈ (b.start h id state).started := fun member => by
    rw [keys]
    exact List.mem_append_left _ member
  have mine : id ∈ (b.start h id state).started := by
    rw [keys]
    exact List.mem_append_right _ (List.mem_singleton_self id)
  rw [started]
  refine ⟨fun key i stored => ?_, fun key i stored => ?_, fun once key i stored => ?_⟩
  · rw [Store.get?_insert] at stored
    split at stored
    next same =>
      cases stored
      subst same
      exact ⟨rfl, c.underWay_fresh id state, mine⟩
    next =>
      obtain ⟨own, going, member⟩ := orderly.running key i stored
      exact ⟨own, going, more member⟩
  · obtain ⟨own, ended, member⟩ := orderly.finished key i stored
    exact ⟨own, ended, more member⟩
  · have distinct : (b.started ++ [id]).Nodup := keys ▸ once
    have apart : id ≠ key := by
      rintro rfl
      have twice := List.disjoint_of_nodup_append distinct (orderly.finished id i stored).2.2
      exact twice (List.mem_singleton_self id)
    rw [Store.get?_insert_of_ne apart]
    exact orderly.apart distinct.of_append_left key i stored

theorem deliver (orderly : b.Orderly h.table) {m : Message} {rest : List Message}
    (queued : List Message) : Orderly h.table { b with
      session := h.deliver { b.session with queue := rest } m
      queued
      past := b.past ++ [⟨{ b.session with queue := rest }, m⟩] } := by
  cases committed : h.committed? ⟨{ b.session with queue := rest }, m⟩ with
  | none =>
    have agrees := Host.agrees_of_committed? committed
    refine ⟨fun id i stored => ?_, fun id i stored => ?_, fun once id i stored => ?_⟩
    · rw [agrees.running] at stored
      exact orderly.running id i stored
    · rw [agrees.finished] at stored
      exact orderly.finished id i stored
    · rw [agrees.finished] at stored
      rw [agrees.running]
      exact orderly.apart once id i stored
  | some result =>
    obtain ⟨j, es⟩ := result
    have found := Host.get?_deliver committed
    obtain ⟨i, _, before, _⟩ := Host.exists_of_committed? committed
    obtain ⟨own, going, member⟩ := orderly.running m.instanceId i before
    obtain ⟨kept, arrives⟩ := c.committed_arrives before going committed
    refine ⟨fun id k stored => ?_, fun id k stored => ?_, fun once id k stored => ?_⟩
    · rw [(found id).1] at stored
      split at stored
      next same =>
        subst same
        split at stored
        · cases stored
        next open' =>
          cases stored
          exact ⟨kept.trans own, arrives.resolve_right fun ended => open' ended.finished, member⟩
      next => exact orderly.running id k stored
    · rw [(found id).2] at stored
      split at stored
      next same =>
        obtain ⟨rfl, done⟩ := same
        cases stored
        refine ⟨kept.trans own, arrives.resolve_left fun going => ?_, member⟩
        rw [going.unfinished] at done
        cases done
      next => exact orderly.finished id k stored
    · rw [(found id).2] at stored
      rw [(found id).1]
      by_cases same : m.instanceId = id
      · subst same
        rw [if_pos rfl]
        split
        · rfl
        next open' =>
          -- an instance that goes on was not among the finished ones
          rw [if_neg fun both => open' both.2] at stored
          rw [orderly.apart once _ k stored] at before
          cases before
      · rw [if_neg same]
        rw [if_neg fun both => same both.1] at stored
        exact orderly.apart once id k stored

theorem step (orderly : b.Orderly h.table) (step : Step h b b') : b'.Orderly h.table := by
  cases step with
  | start id state autos => exact orderly.start c id state autos
  | send m => exact ⟨orderly.running, orderly.finished, orderly.apart⟩
  | deliver queue => exact orderly.deliver c _

end Orderly

/-- So they are after any operations. -/
theorem orderly (operations : List Operation) : (h.books operations).Orderly h.table := by
  have kept : ∀ b' : Books, ReflTransGen (Step h) .initial b' → b'.Orderly h.table := by
    intro b' steps
    induction steps with
    | refl => exact ⟨fun _ _ stored => (nomatch stored), fun _ _ stored => (nomatch stored),
        fun _ _ _ stored => (nomatch stored)⟩
    | tail _ step orderly => exact orderly.step c step
  exact kept _ (foldl_note_steps h .initial operations)

end Books

/-! ## After the end -/

/-- An instance that has ended and is not running under the same key. -/
structure Session.Retired (s : Session) (id : Key) (i : Instance) : Prop where
  record : Store.get? id s.finished = some i
  gone : Store.get? id s.running = none

namespace Session.Retired

variable {h : Host} {s : Session} {id : Key} {i : Instance}

/-- No delivery changes it. -/
theorem deliver (retired : s.Retired id i) (m : Message) : (h.deliver s m).Retired id i := by
  cases committed : h.committed? ⟨s, m⟩ with
  | none =>
    have agrees := Host.agrees_of_committed? committed
    exact ⟨agrees.finished ▸ retired.record, agrees.running ▸ retired.gone⟩
  | some result =>
    obtain ⟨j, es⟩ := result
    have found := Host.get?_deliver committed id
    obtain ⟨_, _, before, _⟩ := Host.exists_of_committed? committed
    have apart : m.instanceId ≠ id := by
      rintro rfl
      rw [retired.gone] at before
      cases before
    refine ⟨found.2.trans ?_, found.1.trans ?_⟩
    · rw [if_neg fun both => apart both.1]
      exact retired.record
    · rw [if_neg apart]
      exact retired.gone

/-- A message that an instance would consume is not found, unless it is dropped. -/
theorem deliver_eq {d : Definition} (c : Compiled d h.table) (retired : s.Retired id i) {m : Message}
    (own : m.instanceId = id) (calm : h.isCancelled s m = false) {kind : MessageKind}
    (known : h.table.kindOf? m.name = some kind) (inbound : kind.isInbound = true) :
    h.deliver s m = { s with
      delivered := s.delivered ++ [m]
      deadLetters := s.deadLetters ++ [⟨kind, m.name, id⟩] } := by
  have consumed : kind ≠ .executeWorker := by
    rintro rfl
    cases inbound
  have fallback : (h.table.fallbackFor? kind).isSome = true := by
    obtain ⟨entry, found, same⟩ := Option.map_eq_some_iff.mp known
    have declared : entry ∈ d.messages := c.messages_eq ▸ List.mem_of_find?_eq_some found
    have name : entry.name = m.name := by simpa using List.find?_some found
    obtain ⟨f, listed, kind, _⟩ := Compiled.mem_fallbacks_iff.mpr ⟨inbound, entry, declared, name, same⟩
    rw [Table.fallbackFor?, c.fallbacks_eq, List.find?_isSome]
    exact ⟨f, listed, decide_eq_true kind⟩
  subst own
  unfold Host.deliver
  rw [if_neg (by simp [calm])]
  simp only [known, consumed, ↓reduceIte, retired.gone, Host.notFound, fallback]

end Session.Retired

namespace Books

variable {d : Definition} {h : Host} (c : Compiled d h.table) {b b' b₀ : Books} {id : Key}
  {i : Instance}

/-- From some books on an instance is retired, and is so whenever a message is delivered. -/
structure Since (id : Key) (i : Instance) (b b' : Books) : Prop where
  member : id ∈ b'.started
  now : b'.started.Nodup → b'.session.Retired id i
  later : ∃ more, b'.past = b.past ++ more
    ∧ (b'.started.Nodup → ∀ e ∈ more, e.before.Retired id i)

include c

theorem Since.step (since : Since id i b₀ b) (step : Step h b b') : Since id i b₀ b' := by
  obtain ⟨more, past, retired⟩ := since.later
  cases step with
  | start other state autos =>
    obtain ⟨_, _, started⟩ := Host.Evolves.start_cases c b.session other state
    have keys := b.started_start c other state
    have member : id ∈ (b.start h other state).started := by
      rw [keys]
      exact List.mem_append_left _ since.member
    have before : (b.start h other state).started.Nodup → b.started.Nodup := fun once =>
      (keys ▸ once).of_append_left
    refine ⟨member, fun once => ?_, more, past, fun once => retired (before once)⟩
    have apart : other ≠ id := by
      rintro rfl
      exact List.disjoint_of_nodup_append (keys ▸ once) since.member (List.mem_singleton_self _)
    have still := since.now (before once)
    rw [started]
    exact ⟨still.record, (Store.get?_insert_of_ne apart _ _).trans still.gone⟩
  | send m =>
    have kept : b.started.Nodup → (b.send m).session.Retired id i := fun once =>
      ⟨(since.now once).record, (since.now once).gone⟩
    exact ⟨since.member, kept, more, past, retired⟩
  | @deliver m rest queue =>
    have before : b.started.Nodup → Session.Retired { b.session with queue := rest } id i :=
      fun once => ⟨(since.now once).record, (since.now once).gone⟩
    refine ⟨since.member, fun once => (before once).deliver m,
      more ++ [⟨{ b.session with queue := rest }, m⟩], ?_, fun once e he => ?_⟩
    · rw [← List.append_assoc, ← past]
    · rcases List.mem_append.mp he with old | new
      · exact retired once e old
      · rw [List.mem_singleton.mp new]
        exact before once

/-- An instance that has ended stays retired, whatever operations follow. -/
theorem since (operations later : List Operation)
    (ended : Store.get? id (h.books operations).session.finished = some i) :
    Since id i (h.books operations) (h.books (operations ++ later)) := by
  have orderly := orderly c operations
  have kept : ∀ b' : Books, ReflTransGen (Step h) (h.books operations) b' →
      Since id i (h.books operations) b' := by
    intro b' steps
    induction steps with
    | refl => exact ⟨(orderly.finished id i ended).2.2,
        fun once => ⟨ended, orderly.apart once id i ended⟩, [], (List.append_nil _).symm,
        fun _ e he => nomatch he⟩
    | tail _ step since => exact since.step c step
  rw [h.books_append]
  exact kept _ (foldl_note_steps h (h.books operations) later)

end Books

/-- In every sequence of operations in which no key is used for two starts, each instance in store is
under its own key and in a declared phase. It has not finished and is not completed as long as it runs,
and is not among the finished ones then; it has finished and is completed or failed otherwise. Once it is
there it stays as it is. A message for it that leaves the queue is dropped with a cancelled path or, if it
is of a kind that instances consume, logged as not found and nothing else. -/
theorem Host.instance_lifecycle {d : Definition} {settings : Settings} {h : Host}
    (compiles : d.compile settings = .ok h.table) (operations : List Operation)
    (once : (h.books operations).started.Nodup) :
    (∀ id i, Store.get? id (h.books operations).session.running = some i →
        i.id = id ∧ i.phase ∈ h.table.phases ∧ i.isFinished = false ∧ i.phase ≠ Name.completed
          ∧ Store.get? id (h.books operations).session.finished = none)
      ∧ (∀ id i, Store.get? id (h.books operations).session.finished = some i →
        i.id = id ∧ i.phase ∈ h.table.phases ∧ i.isFinished = true
          ∧ (i.phase = Name.completed ∨ i.phase = Name.failed))
      ∧ ∀ earlier later, operations = earlier ++ later →
        ∀ id i, Store.get? id (h.books earlier).session.finished = some i →
          Store.get? id (h.books operations).session.finished = some i
          ∧ ∃ past, (h.books operations).past = (h.books earlier).past ++ past
            ∧ ∀ e ∈ past,
              (∃ gone, (h.deliver e.before e.message).dropped = e.before.dropped ++ gone
                ∧ (e.before.queue.filter (· ∉ gone)).Sublist (h.deliver e.before e.message).queue
                ∧ ∀ m ∈ gone, h.isCancelled (h.deliver e.before e.message) m = true)
              ∧ (e.message.instanceId = id →
                ∀ kind, h.table.kindOf? e.message.name = some kind → kind.isInbound = true →
                  (h.isCancelled e.before e.message = true
                    ∧ h.deliver e.before e.message
                      = { e.before with dropped := e.before.dropped ++ [e.message] })
                  ∨ (h.isCancelled e.before e.message = false
                    ∧ h.deliver e.before e.message = { e.before with
                      delivered := e.before.delivered ++ [e.message]
                      deadLetters := e.before.deadLetters ++ [⟨kind, e.message.name, id⟩] })) := by
  have c := Definition.compiled_of_compile compiles
  have orderly := Books.orderly c operations
  refine ⟨fun id i stored => ?_, fun id i stored => ?_, ?_⟩
  · obtain ⟨own, going, _⟩ := orderly.running id i stored
    refine ⟨own, going.declared, going.unfinished, going.incomplete, ?_⟩
    by_contra both
    obtain ⟨j, ended⟩ := Option.ne_none_iff_exists'.mp both
    rw [orderly.apart once id j ended] at stored
    cases stored
  · obtain ⟨own, ended, _⟩ := orderly.finished id i stored
    exact ⟨own, ended.declared, ended.finished, ended.closed⟩
  · rintro earlier later rfl id i ended
    have since := Books.since c earlier later ended
    obtain ⟨past, grown, retired⟩ := since.later
    refine ⟨(since.now once).record, past, grown, fun e he => ⟨?_, fun own kind known inbound => ?_⟩⟩
    · have run := h.evolves_books (earlier ++ later)
      exact c.deliver_drops (run.atHome_of_mem c (grown ▸ List.mem_append_right _ he))
    · cases cancelled : h.isCancelled e.before e.message with
      | true => exact .inl ⟨rfl, Host.deliver_cancelled cancelled⟩
      | false => exact .inr ⟨rfl, (retired once e he).deliver_eq c own cancelled known inbound⟩

/-- A release whose build cannot be signed ends as failed. The scan of that build is dropped when it comes
in late, and a second start of the build is not found. -/
theorem instance_lifecycle_strictRelease : ∃ (h : Host) (earlier later : List Operation) (i : Instance)
    (past : List Delivery),
    Definition.strictRelease.compile .default = .ok h.table
      ∧ (h.books (earlier ++ later)).started.Nodup
      ∧ Store.get? (.number 1) (h.books (earlier ++ later)).session.finished = some i
      ∧ i.phase = Name.failed
      ∧ (h.books (earlier ++ later)).past = (h.books earlier).past ++ past
      ∧ past.map (fun e => (h.deliver e.before e.message).deadLetters.length) = [0, 1] := by
  let earlier : List Operation := .start (.number 1) .null :: List.replicate 14 .deliverNext
  let later : List Operation := [.send ⟨Name.completedEvent "Scan", .number 1, .completed .null none⟩,
    .send ⟨Name.startCommand "Build", .number 1, .empty⟩, .deliverNext,
    .deliverNext]
  let host (t : Table) : Host := Host.faltering t ["Sign"]
  obtain ⟨t, compiles, computed⟩ := Definition.exists_table .strictRelease .default
    (fun t => ((host t).books (earlier ++ later)).started = [.number 1]
      ∧ (Store.get? (.number 1) ((host t).books earlier).session.finished).any
        (fun i => i.phase = Name.failed)
      ∧ (((host t).books (earlier ++ later)).past.drop ((host t).books earlier).past.length).map
        (fun e => ((host t).deliver e.before e.message).deadLetters.length) = [0, 1])
    (by decide +kernel)
  obtain ⟨started, failed, letters⟩ := of_decide_eq_true computed
  obtain ⟨i, ended, failed⟩ := (Option.any_eq_true _ _).mp failed
  have once : ((host t).books (earlier ++ later)).started.Nodup := by
    rw [started]
    exact List.nodup_singleton _
  obtain ⟨_, _, after⟩ := (host t).instance_lifecycle compiles (earlier ++ later) once
  obtain ⟨record, past, grown, _⟩ := after earlier later rfl _ _ ended
  rw [grown, List.drop_left] at letters
  exact ⟨host t, earlier, later, i, past, compiles, once, record, of_decide_eq_true failed, grown,
    letters⟩

end Workflow
