import Workflow.Proofs.Host.Activation

/-!
The rounds of a run.

A round is under way until its join is released, and from then on nothing of it releases the join
again. `Rounds` says so of the latest round of an instance, in every closed run. The main statement is
that a round at rest has released the join once, unless a step on a path refused to start, and that no
update of a path is lost on the way.
-/

set_option autoImplicit false

namespace Workflow

/-! ## How a round ends -/

/-- A round that has released its join once, with the updates of the paths in the state. -/
structure Joined (h : Host) (f : Fork) (id : Key) (start : Value) (es : List Delivery) : Prop where
  once : ∃ first r rest, es = first ++ r :: rest ∧ h.Releases f r
    ∧ ∀ t ∈ first ++ rest, ¬ h.Releases f t
  state : ∀ first r rest, es = first ++ r :: rest → h.Releases f r →
    ∃ i, Store.get? id (h.deliver r.before r.message).running = some i
      ∧ i.state = h.merged f (first ++ [r]) start

namespace Joined

variable {h : Host} {f : Fork} {id : Key} {start : Value} {es : List Delivery} {t : Delivery}

/-- The release itself. -/
theorem release (releases : h.Releases f t) (before : ∀ t ∈ es, ¬ h.Releases f t) {j : Instance}
    (stored : Store.get? id (h.deliver t.before t.message).running = some j)
    (state : j.state = h.merged f (es ++ [t]) start) : Joined h f id start (es ++ [t]) where
  once := ⟨es, t, [], rfl, releases, by simpa using before⟩
  state first r rest split releases := by
    rcases Delivery.eq_last_or split with ⟨rfl, rfl, _⟩ | ⟨rest', _, rfl⟩
    · exact ⟨j, stored, state⟩
    · exact absurd releases (before r (by simp))

/-- What follows releases nothing. -/
theorem append (joined : Joined h f id start es) (other : ¬ h.Releases f t) :
    Joined h f id start (es ++ [t]) where
  once := by
    obtain ⟨first, r, rest, rfl, releases, others⟩ := joined.once
    refine ⟨first, r, rest ++ [t], by simp, releases, ?_⟩
    intro t' ht'
    rw [← List.append_assoc] at ht'
    rcases List.mem_append.mp ht' with old | new
    · exact others t' old
    · rwa [List.mem_singleton.mp new]
  state first r rest split releases := by
    rcases Delivery.eq_last_or split with ⟨_, rfl, _⟩ | ⟨rest', _, earlier⟩
    · exact absurd releases other
    · exact joined.state first r rest' earlier releases

end Joined

/-- How far a round has come. -/
inductive Round (d : Definition) (h : Host) (f : Fork) (id : Key) (start : Value)
    (es : List Delivery) (s : Session) (toks : List Token) : Prop
  | underway {i : Instance} (holds : Underway d h f id start es s toks i)
      (unreleased : ∀ t ∈ es, ¬ h.Releases f t)
  | joined (released : (s.joinOf id f).released = true) (joined : Joined h f id start es)

/-- The latest round of an instance, if it has had one. -/
structure Rounds (d : Definition) (h : Host) (f : Fork) (id : Key) (past : List Delivery)
    (s : Session) (toks : List Token) : Prop where
  placed : Placed d id s toks
  latest : ∀ before e es, past = before ++ e :: es → h.triggers f e = true →
    e.message.failure? = none → (∀ t ∈ es, h.triggers f t = false) →
      ∃ i, Store.get? id (h.deliver e.before e.message).running = some i
        ∧ Round d h f id i.state es s toks

namespace Round

variable {d : Definition} {h : Host} {f : Fork} {id : Key} {start : Value} {es : List Delivery}
  {s s' : Session} {toks left : List Token} {tok : Token}

theorem of_control (round : Round d h f id start es s toks)
    (control : left.filter Token.isControl = toks.filter Token.isControl) :
    Round d h f id start es s left := by
  cases round with
  | underway holds unreleased => exact .underway (holds.of_control control) unreleased
  | joined released joined => exact .joined released joined

theorem of_session (round : Round d h f id start es s toks) (running : s'.running = s.running)
    (joins : s'.joins = s.joins) : Round d h f id start es s' toks := by
  cases round with
  | underway holds unreleased => exact .underway (holds.of_session running joins) unreleased
  | joined released joined =>
    refine .joined ?_ joined
    rw [Session.joinOf, joins]
    exact released

/-- A delivery that is part of a round takes it further. -/
theorem move (c : Compiled d h.table) (unhandled : ∀ g ∈ d.handlers, g.scope ≠ .workflow)
    (declared : f ∈ d.forks) (slow : f.failFast = false) (here : tok.In d)
    (home : (Delivery.mk s (tok.message d id)).AtHome)
    (still : h.triggers f ⟨s, tok.message d id⟩ = false)
    (round : Round d h f id start es s (tok :: toks)) (move : Move d h id s toks tok s' left)
    (result : h.deliver s (tok.message d id) = s') :
    Round d h f id start (es ++ [⟨s, tok.message d id⟩]) s' left := by
  have own : (tok.message d id).instanceId = id := Token.message_instanceId d id tok
  cases round with
  | underway holds unreleased =>
    have flips := c.releases_iff_released home declared still
      (by rw [own]; exact holds.forked.unreleased)
    simp only [own, result] at flips
    rcases holds.move unhandled slow here move result with ⟨j, after⟩ | ⟨released, j, stored, state⟩
    · refine .underway after fun t ht => ?_
      rcases List.mem_append.mp ht with old | new
      · exact unreleased t old
      · rw [List.mem_singleton.mp new, flips, after.forked.unreleased]
        simp
    · exact .joined released (.release (flips.mpr released) unreleased (result ▸ stored) state)
  | joined released joined =>
    obtain ⟨other, kept⟩ := c.not_releases_of_released home declared still
      (by rw [own]; exact released)
    simp only [own, result] at kept
    exact .joined kept (joined.append other)

end Round

namespace Rounds

variable {d : Definition} {h : Host} {f : Fork} {id : Key} {past : List Delivery} {s s' : Session}
  {toks left : List Token} {tok : Token}

theorem of_round (holds : Rounds d h f id past s toks) (placed : Placed d id s' left)
    (same : ∀ {start es}, Round d h f id start es s toks → Round d h f id start es s' left) :
    Rounds d h f id past s' left where
  placed := placed
  latest before e es split trigger success still := by
    obtain ⟨i, stored, round⟩ := holds.latest before e es split trigger success still
    exact ⟨i, stored, same round⟩

/-- The step before the fork completes while nothing else is under way. -/
theorem begins (c : Compiled d h.table) (declared : f ∈ d.forks) (tracked : Tracked d h id s toks)
    (here : tok.In d) (placed : Placed d id s (tok :: toks)) (move : Move d h id s toks tok s' left)
    (result : h.deliver s (tok.message d id) = s')
    (trigger : h.triggers f ⟨s, tok.message d id⟩ = true)
    (success : (tok.message d id).failure? = none) :
    ∃ i, Store.get? id s'.running = some i ∧ Round d h f id i.state [] s' left := by
  obtain ⟨x, update, failure, rfl, main, before⟩ := c.eq_done_of_triggers here rfl declared trigger
  obtain ⟨⟨k, es⟩, committed⟩ := Option.isSome_iff_exists.mp (Host.triggers_iff.mp trigger).1
  obtain ⟨i, _, found, _⟩ := Host.exists_of_committed? committed
  have stored : Store.get? id s.running = some i := found
  have calm : h.isCancelled s ((Token.done x update failure).message d id) = false := by
    by_contra dropped
    rw [Host.committed?, if_pos (.inl (by simpa using dropped))] at committed
    cases committed
  cases (show failure = none from success)
  obtain ⟨nothing, unasked⟩ := placed.of_main stored rfl main
  obtain ⟨rfl, unjoined, j, running, alike⟩ := c.cascade_of_activation tracked here main declared
    before calm stored move result
  exact ⟨j, running, .underway (.starts c.wellFormed declared nothing running
    (alike.pendingApproval.trans unasked) unjoined) (by simp)⟩

/-- Every closed run has its rounds. -/
theorem kept (c : Compiled d h.table) (unhandled : ∀ g ∈ d.handlers, g.scope ≠ .workflow)
    (declared : f ∈ d.forks) (slow : f.failFast = false) (id : Key) :
    Kept d h id fun past s toks => Rounds d h f id past s toks where
  start here main running finished joins cancelled events faults approvals := {
    placed := .start main running
    latest := by
      intro before e es split
      simp at split }
  move {past s s' toks left tok} tracked here holds move after result := {
    placed := holds.placed.move c tracked here move
    latest := by
      intro before e es split trigger success still
      rcases Delivery.eq_last_or split with ⟨rfl, rfl, rfl⟩ | ⟨es', rfl, rfl⟩
      · rw [result]
        exact begins c declared tracked here holds.placed move result trigger success
      · obtain ⟨i, stored, round⟩ := holds.latest before e es' rfl trigger success fun t ht =>
          still t (List.mem_append_left _ ht)
        have home : (Delivery.mk s (tok.message d id)).AtHome := by
          intro i stored
          simp only [Token.message_instanceId] at stored ⊢
          exact (tracked.fits i stored).1
        exact ⟨i, stored, round.move c unhandled declared slow here home (still _ (by simp)) move
          result⟩ }
  signal signal holds := holds.of_round (holds.placed.of_signal signal) fun round =>
    round.of_control (Token.control_append signal)
  queue queue holds := holds.of_round (holds.placed.of_session rfl rfl) fun round =>
    round.of_session rfl rfl
  beside grown others holds := holds.of_round (holds.placed.of_session rfl rfl) fun round =>
    round.of_session rfl rfl

end Rounds

/-! ## Rounds of one instance among others -/

theorem Host.merged_only (h : Host) (f : Fork) (id : Key) (es : List Delivery) (start : Value) :
    h.merged f (es.map (Delivery.only · id)) start = h.merged f es start := by
  unfold merged
  rw [List.filterMap_map]
  rfl

/-- What an instance sees of a round is enough to say that it was joined. -/
theorem Joined.of_only {d : Definition} {h : Host} (c : Compiled d h.table) {f : Fork}
    (declared : f ∈ d.forks) {id : Key} {start : Value} {es : List Delivery}
    (own : ∀ t ∈ es, Host.AtHome t.before ∧ t.message.instanceId = id)
    (joined : Joined h f id start (es.map (Delivery.only · id))) : Joined h f id start es where
  once := by
    have seen : ∀ t ∈ es, h.Releases f (t.only id) ↔ h.Releases f t := fun t ht =>
      Host.releases_only c declared (own t ht).1 (own t ht).2
    obtain ⟨first', r', rest', split, releases, others⟩ := joined.once
    obtain ⟨first, tail, rfl, rfl, tail_eq⟩ := List.map_eq_append_iff.mp split
    obtain ⟨r, rest, rfl, rfl, rfl⟩ := List.map_eq_cons_iff.mp tail_eq
    refine ⟨first, r, rest, rfl, (seen r (by simp)).mp releases, fun t ht => ?_⟩
    have inside : t ∈ first ++ r :: rest := by
      rcases List.mem_append.mp ht with early | late
      · exact List.mem_append_left _ early
      · exact List.mem_append_right _ (List.mem_cons_of_mem _ late)
    rw [← seen t inside]
    apply others
    rw [← List.map_append]
    exact List.mem_map_of_mem ht
  state first r rest split releases := by
    subst split
    obtain ⟨home, mine⟩ := own r (by simp)
    obtain ⟨i, stored, state⟩ := joined.state (first.map (Delivery.only · id)) (r.only id)
      (rest.map (Delivery.only · id)) (by simp)
      ((Host.releases_only c declared home mine).mpr releases)
    refine ⟨i, (Host.get?_deliver_only home mine).symm.trans stored, ?_⟩
    have all : first.map (Delivery.only · id) ++ [r.only id]
        = (first ++ [r]).map (Delivery.only · id) := by simp
    rw [state, all, Host.merged_only]

/-- The latest round, among the deliveries to all instances. -/
theorem Rounds.latest_own {d : Definition} {h : Host} {f : Fork} {id : Key} {s : Session}
    {toks : List Token} {before after : List Delivery} {e : Delivery}
    (holds : Rounds d h f id (Delivery.own id (before ++ e :: after)) s toks)
    (home : Host.AtHome e.before) (own : e.message.instanceId = id) (trigger : h.triggers f e = true)
    (success : e.message.failure? = none)
    (still : ∀ t ∈ after, t.message.instanceId = id → h.triggers f t = false) :
    ∃ i, Store.get? id (h.deliver e.before e.message).running = some i
      ∧ Round d h f id i.state (Delivery.own id after) s toks := by
  have split : Delivery.own id (before ++ e :: after)
      = Delivery.own id before ++ e.only id :: Delivery.own id after := by
    simp [Delivery.own, own]
  have quiet : ∀ t ∈ Delivery.own id after, h.triggers f t = false := by
    intro t ht
    obtain ⟨t', ht', rfl⟩ := List.mem_map.mp ht
    obtain ⟨member, mine⟩ := List.mem_filter.mp ht'
    rw [Host.triggers_only (by simpa using mine)]
    exact still t' member (by simpa using mine)
  obtain ⟨i, stored, round⟩ := holds.latest _ _ _ split (by rw [Host.triggers_only own, trigger])
    success quiet
  exact ⟨i, (Host.get?_deliver_only home own).symm.trans stored, round⟩

namespace Host.Reaches

variable {d : Definition} {h : Host} {f : Fork} {started : List Key}
  {past before between after rest : List Delivery} {s : Session} {e t : Delivery} {id : Key}

section Own

variable (c : Compiled d h.table) (unhandled : ∀ g ∈ d.handlers, g.scope ≠ .workflow)
  (declared : f ∈ d.forks) (slow : f.failFast = false) (own : e.message.instanceId = id)
  (trigger : h.triggers f e = true) (success : e.message.failure? = none)

include c unhandled declared slow own trigger success

/-- When the step before the fork completes again, the round has been joined. -/
theorem joined_of_again (run : h.Reaches started (before ++ e :: (between ++ t :: rest)) s)
    (mine : t.message.instanceId = id) (again : h.triggers f t = true)
    (still : ∀ t ∈ between, t.message.instanceId = id → h.triggers f t = false) :
    ∃ i, Store.get? id (h.deliver e.before e.message).running = some i
      ∧ Joined h f id i.state (between.filter (·.message.instanceId = id)) := by
  have home := run.atHome c
  obtain ⟨tok, toks, _, here, message, _, holds, _⟩ := run.exists_move c
    (Rounds.kept c unhandled declared slow)
    (show _ = (before ++ e :: between) ++ t :: rest by simp) mine
  obtain ⟨i, stored, round⟩ := holds.latest_own (home e (by simp)) own trigger success still
  cases round with
  | joined released joined =>
    refine ⟨i, stored, joined.of_only c declared fun t' ht' => ?_⟩
    obtain ⟨member, mine'⟩ := List.mem_filter.mp ht'
    exact ⟨home t' (by simp [member]), by simpa using mine'⟩
  | underway holds unreleased =>
    -- that step is on no path, and all control is on the paths
    obtain ⟨x, update, failure, rfl, main, _⟩ := c.eq_done_of_triggers here message declared again
    obtain ⟨p, _, path⟩ := (holds.forked.along _ List.mem_cons_self rfl).path
    rw [Token.path?_of_spot? rfl, Spot.path?, main] at path
    cases path

/-- A round that is not over has been joined, or it has released nothing and is at rest only if a step
has refused to start. -/
theorem joined_or_refused (run : h.Reaches started (before ++ e :: after) s)
    (still : ∀ t ∈ after, t.message.instanceId = id → h.triggers f t = false) :
    ∃ i, Store.get? id (h.deliver e.before e.message).running = some i
      ∧ (Joined h f id i.state (after.filter (·.message.instanceId = id))
        ∨ (∀ t ∈ after.filter (·.message.instanceId = id), ¬ h.Releases f t)
          ∧ (s.queue = [] → ∃ t ∈ after.filter (·.message.instanceId = id), h.Refuses f t)) := by
  have mine : ∀ t ∈ after.filter (·.message.instanceId = id),
      AtHome t.before ∧ t.message.instanceId = id := by
    intro t ht
    obtain ⟨member, mine⟩ := List.mem_filter.mp ht
    exact ⟨run.atHome c t (by simp [member]), by simpa using mine⟩
  cases run.follows c (Rounds.kept c unhandled declared slow) id with
  | absent none empty approvals past => simp [Delivery.own, own] at past
  | started toks member tracked holds =>
    obtain ⟨i, stored, round⟩ := holds.latest_own (run.atHome c e (by simp)) own trigger success still
    refine ⟨i, stored, ?_⟩
    cases round with
    | joined released joined => exact .inl (joined.of_only c declared mine)
    | underway holds unreleased =>
      refine .inr ⟨fun t ht => ?_, fun empty => ?_⟩
      · rw [← releases_only c declared (mine t ht).1 (mine t ht).2]
        exact unreleased _ (List.mem_map_of_mem ht)
      · have nothing : toks = [] := by
          have queue := tracked.queue
          rw [show (s.only id).queue = [] by simp [Session.only, empty]] at queue
          exact List.map_eq_nil_iff.mp queue.symm
        subst nothing
        obtain ⟨t', ht', refuses⟩ := holds.exists_refusal
        obtain ⟨t, ht, rfl⟩ := List.mem_map.mp ht'
        exact ⟨t, ht, (refuses_only (mine t ht).1 (mine t ht).2).mp refuses⟩

/-- A round at rest has been joined, or a step has refused to start. -/
theorem round_cases (run : h.Reaches started (before ++ e :: after) s) :
    ∃ i, Store.get? id (h.deliver e.before e.message).running = some i
      ∧ (Joined h f id i.state (h.round f id after)
        ∨ (∀ t ∈ h.round f id after, ¬ h.Releases f t)
          ∧ (s.queue = [] → ∃ t ∈ h.round f id after, h.Refuses f t)) := by
  cases found : after.find? fun t => t.message.instanceId = id ∧ h.triggers f t = true with
  | none =>
    have still : ∀ t ∈ after, t.message.instanceId = id → h.triggers f t = false := by
      intro t ht mine
      simpa [mine] using List.find?_eq_none.mp found t ht
    have whole : h.round f id after = after.filter (·.message.instanceId = id) := by
      rw [round, List.takeWhile_eq_self_iff]
      intro t ht
      obtain ⟨member, mine⟩ := List.mem_filter.mp ht
      simp [still t member (by simpa using mine)]
    rw [whole]
    exact run.joined_or_refused c unhandled declared slow own trigger success still
  | some t =>
    obtain ⟨fits, between, rest, rfl, others⟩ := List.find?_eq_some_iff_append.mp found
    obtain ⟨mine, again⟩ := of_decide_eq_true fits
    have still : ∀ t ∈ between, t.message.instanceId = id → h.triggers f t = false := by
      intro t' ht' mine
      simpa [mine] using others t' ht'
    have first : h.round f id (between ++ t :: rest)
        = between.filter (·.message.instanceId = id) := by
      rw [round, List.filter_append, List.filter_cons_of_pos (by simp [mine]),
        List.takeWhile_append_of_pos, List.takeWhile_cons_of_neg (by simp [again]), List.append_nil]
      intro t' ht'
      obtain ⟨member, mine⟩ := List.mem_filter.mp ht'
      simp [still t' member (by simpa using mine)]
    rw [first]
    obtain ⟨i, stored, joined⟩ := run.joined_of_again c unhandled declared slow own trigger success
      mine again still
    exact ⟨i, stored, .inl joined⟩

end Own

end Host.Reaches

/-- A fork that waits for all its paths joins them and loses nothing of what they bring. Where no
handler takes the failures of paths, the round of every activation has, once the queue is empty,
released the join at one delivery and at no other, unless a step on a path refused to start; and at
the release the state is the one that the round began with, with the update of every completion on a
path merged into it once and in the order of delivery, failed steps included. -/
theorem Host.Reaches.round_joins {d : Definition} {settings : Settings} {h : Host}
    (compiles : d.compile settings = .ok h.table)
    (unhandled : ∀ g ∈ d.handlers, g.scope ≠ .workflow) {started : List Key} {past : List Delivery}
    {s : Session} (run : h.Reaches started past s) {f : Fork} (declared : f ∈ d.forks)
    (slow : f.failFast = false) {before after : List Delivery} {e : Delivery}
    (split : past = before ++ e :: after) (trigger : h.triggers f e = true)
    (success : e.message.failure? = none) :
    (s.queue = [] →
        (∃ first r rest, h.round f e.message.instanceId after = first ++ r :: rest
          ∧ h.Releases f r ∧ ∀ t ∈ first ++ rest, ¬ h.Releases f t)
        ∨ ∃ t ∈ h.round f e.message.instanceId after, h.Refuses f t)
      ∧ ∀ first r rest, h.round f e.message.instanceId after = first ++ r :: rest →
        h.Releases f r →
          ∃ i j, Store.get? e.message.instanceId (h.deliver e.before e.message).running = some i
            ∧ Store.get? e.message.instanceId (h.deliver r.before r.message).running = some j
            ∧ j.state = ((first ++ [r]).filterMap fun t => f.update? t.message).foldl
              h.collaborators.reduce i.state := by
  have c := Definition.compiled_of_compile compiles
  subst split
  obtain ⟨i, stored, joined | ⟨unreleased, refused⟩⟩ := run.round_cases c unhandled declared slow
    rfl trigger success
  · refine ⟨fun _ => .inl joined.once, fun first r rest split releases => ?_⟩
    obtain ⟨j, after, state⟩ := joined.state first r rest split releases
    exact ⟨i, j, stored, after, state⟩
  · refine ⟨fun empty => .inr (refused empty), fun first r rest split releases => ?_⟩
    exact absurd releases (unreleased r (by simp [split]))

/-- A release that goes on when one of its checks fails. -/
def Definition.lenientRelease : Definition := { Definition.release with handlers := [] }

/-- A host that lists the updates it is given, and cannot sign. -/
def Host.listing (t : Table) : Host :=
  { Host.faltering t [] with
    collaborators := ⟨fun state update => match state with
      | .array updates => .array (updates ++ [update])
      | _ => .array [update], fun _ _ _ => true⟩
    executor := fun _ workType _ =>
      if workType = "Sign" then .error ⟨"down", "Io", none⟩ else .ok (.string workType) }

/-- It is published with the scan and without a signature. -/
theorem round_joins_lenientRelease : ∃ (h : Host) (before : List Delivery) (e : Delivery)
    (after : List Delivery) (s : Session) (f : Fork),
    Definition.lenientRelease.compile .default = .ok h.table
      ∧ h.Reaches [.number 1] (before ++ e :: after) s ∧ f ∈ Definition.lenientRelease.forks
      ∧ f.failFast = false ∧ h.triggers f e = true ∧ e.message.failure? = none ∧ s.queue = []
      ∧ (h.round f e.message.instanceId after).filterMap (fun t => f.update? t.message)
        = [.null, .string "Scan"]
      ∧ ∃ first r rest i j, h.round f e.message.instanceId after = first ++ r :: rest
        ∧ h.Releases f r ∧ (∀ t ∈ first ++ rest, ¬ h.Releases f t)
        ∧ Store.get? e.message.instanceId (h.deliver e.before e.message).running = some i
        ∧ Store.get? e.message.instanceId (h.deliver r.before r.message).running = some j
        ∧ j.state = ((first ++ [r]).filterMap fun t => f.update? t.message).foldl
          h.collaborators.reduce i.state := by
  let f : Fork := ⟨"Build", [[.ofName "Sign"], [.ofName "Scan"]], false, "Publish"⟩
  have declared : f ∈ Definition.lenientRelease.forks := List.mem_singleton_self _
  obtain ⟨h, past, s, compiles, run, computed⟩ := Definition.exists_run (d := .lenientRelease)
    Host.listing (fun _ => rfl) 40
    (fun h past s => Delivery.passes past 2 fun _ e after =>
      h.triggers f e = true ∧ e.message.failure? = none ∧ s.queue = []
        ∧ (h.round f e.message.instanceId after).filterMap (fun t => f.update? t.message)
          = [.null, .string "Scan"]
        ∧ ∀ t ∈ h.round f e.message.instanceId after,
          (Store.get? t.message.instanceId (h.deliver t.before t.message).running).map
            Instance.phase ≠ some Name.validationFailed) (by decide +kernel)
  obtain ⟨before, e, after, rfl, passes⟩ := Delivery.exists_split computed
  obtain ⟨trigger, success, empty, updates, admitted⟩ := of_decide_eq_true passes
  obtain ⟨released, merged⟩ := run.round_joins compiles nofun declared rfl rfl trigger success
  rcases released empty with ⟨first, r, rest, split, releases, others⟩ | ⟨t, ht, refuses⟩
  · obtain ⟨i, j, stored, reached, state⟩ := merged first r rest split releases
    exact ⟨h, before, e, after, s, f, compiles, run, declared, rfl, trigger, success, empty, updates,
      first, r, rest, i, j, split, releases, others, stored, reached, state⟩
  · exact absurd refuses.2 (admitted t ht)

end Workflow
