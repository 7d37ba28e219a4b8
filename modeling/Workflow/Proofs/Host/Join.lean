import Mathlib.Data.Finset.Card
import Mathlib.Data.List.DropRight
import Workflow.Proofs.Host.Forked
import Workflow.Proofs.Host.Open

/-!
Joins in open runs.

A fork counts the paths that report to its join, from one completion of the step before it to the
next. `Host.reported` reads these reports off the deliveries of a run, repetitions included, without
looking at what the host keeps. The main statement is that the host releases the command of the join
at the report that makes them complete, and at no other one: not at a second report of a path, not for
an instance that never went through the fork, and not twice.
-/

set_option autoImplicit false

namespace Workflow

/-- The path of a fork that an effect reports to the join. -/
def Effect.report? (f : Fork) : Effect → Option Nat
  | .join fork path _ _ => if fork = Name.forkId f.previousStep then some path else none
  | _ => none

namespace Host

/-! ## What is read off a delivery -/

/-- Whether a delivery commits a completion of the step before a fork. -/
def triggers (h : Host) (f : Fork) (e : Delivery) : Bool :=
  (h.committed? e).isSome && e.message.name = Name.completedEvent f.previousStep

theorem triggers_iff {h : Host} {f : Fork} {e : Delivery} : h.triggers f e = true ↔
    (h.committed? e).isSome = true ∧ e.message.name = Name.completedEvent f.previousStep := by
  rw [triggers, Bool.and_eq_true, decide_eq_true_eq]

/-- The path of a fork that a delivery reports to the join. -/
def reports? (h : Host) (f : Fork) (e : Delivery) : Option Nat :=
  (h.committed? e).bind fun r => r.2.findSome? (Effect.report? f)

/-- A delivery reports to the join of a fork, and with that queues the command of the join. -/
def Releases (h : Host) (f : Fork) (e : Delivery) : Prop :=
  (h.reports? f e).isSome = true ∧ (h.deliver e.before e.message).queue
    = e.before.queue ++ [⟨Name.startCommand f.joinStep, e.message.instanceId, .empty⟩]

/-- The deliveries to an instance since the step before a fork last completed. -/
def since (h : Host) (f : Fork) (id : Key) (past : List Delivery) : List Delivery :=
  (past.filter (·.message.instanceId = id)).rtakeWhile fun e => !h.triggers f e

theorem since_append (h : Host) (f : Fork) (id : Key) (past : List Delivery) (e : Delivery) :
    h.since f id (past ++ [e])
      = if e.message.instanceId = id then
          if h.triggers f e then [] else h.since f id past ++ [e]
        else h.since f id past := by
  unfold since
  rw [List.filter_append, List.filter_singleton]
  by_cases own : e.message.instanceId = id
  · cases trigger : h.triggers f e with
    | true => simp [own, trigger]
    | false => simp [own, trigger]
  · simp [own]

/-- The paths of a fork that reported for an instance since the fork last started, in the order of
the reports and with repetitions. -/
def reported (h : Host) (f : Fork) (id : Key) (past : List Delivery) : List Nat :=
  (h.since f id past).filterMap (h.reports? f)

theorem reported_append (h : Host) (f : Fork) (id : Key) (past : List Delivery) (e : Delivery) :
    h.reported f id (past ++ [e])
      = if e.message.instanceId = id then
          if h.triggers f e then [] else h.reported f id past ++ (h.reports? f e).toList
        else h.reported f id past := by
  unfold reported
  rw [since_append]
  split
  · split
    · rfl
    · cases report : h.reports? f e <;> simp [report]
  · rfl

end Host

/-! ## What a delivery does to a join -/

namespace Host

variable {h : Host} {e : Delivery} {j : Instance} {es : List Effect}

theorem findSome?_report? (sends : ∀ e ∈ es, e.IsSend) (f : Fork) :
    es.findSome? (Effect.report? f) = none := by
  rw [List.findSome?_eq_none_iff]
  intro e he
  cases e with
  | send m => rfl
  | join | cancelFork => exact (sends _ he).elim

theorem reports?_of_isSend (committed : h.committed? e = some (j, es)) (sends : ∀ e ∈ es, e.IsSend)
    (f : Fork) : h.reports? f e = none := by
  rw [reports?, committed, Option.bind_some, findSome?_report? sends]

theorem reports?_of_cancel {d : Definition} {fork : String} {id : Key} {toks : List Token}
    (committed : h.committed? e
      = some (j, .cancelFork fork :: toks.map fun tok => .send (tok.message d id))) (f : Fork) :
    h.reports? f e = none := by
  have sends : ∀ e ∈ toks.map (fun tok => Effect.send (tok.message d id)), e.IsSend := by
    simp [Effect.IsSend]
  rw [reports?, committed, Option.bind_some, List.findSome?_cons]
  exact findSome?_report? sends f

theorem reports?_of_join {fork : String} {p n : Nat} {m : Message}
    (committed : h.committed? e = some (j, [.join fork p n m])) (f : Fork) :
    h.reports? f e = if fork = Name.forkId f.previousStep then some p else none := by
  rw [reports?, committed, Option.bind_some, List.findSome?_cons, List.findSome?_nil, Effect.report?]
  by_cases same : fork = Name.forkId f.previousStep
  · rw [if_pos same]
  · rw [if_neg same]

end Host

/-- A join after one more report: the path is added, and the report that completes the paths releases
the join. -/
def JoinState.report (state : JoinState) (path total : Nat) : JoinState :=
  ⟨state.add path, state.released || decide (total ≤ (state.add path).length)⟩

theorem Session.joinOf_join (s : Session) (f : Fork) (p : Nat) (m : Message) :
    (s.join (Name.forkId f.previousStep) p f.paths.length m).joinOf m.instanceId f
      = (s.joinOf m.instanceId f).report p f.paths.length := by
  have stored : ∀ state : JoinState, (Store.get? (m.instanceId, Name.forkId f.previousStep)
      (Store.insert (m.instanceId, Name.forkId f.previousStep) state s.joins)).getD .empty = state := by
    intro state
    rw [Store.get?_insert_self, Option.getD_some]
  rw [Session.join_eq, JoinState.report]
  cases released : (s.joinOf m.instanceId f).released with
  | true =>
    rw [if_neg (by simp), Bool.true_or]
    exact stored _
  | false =>
    by_cases full : f.paths.length ≤ ((s.joinOf m.instanceId f).add p).length
    · rw [if_pos ⟨full, rfl⟩, decide_eq_true full, Bool.or_true]
      exact stored _
    · rw [if_neg fun both => full both.1, decide_eq_false full, Bool.or_false]
      exact stored _

/-- A report to one join changes no other. -/
theorem Session.joinOf_join_of_ne (s : Session) {f : Fork} {fork : String} {id : Key} {m : Message}
    (other : (m.instanceId, fork) ≠ (id, Name.forkId f.previousStep)) (p n : Nat) :
    (s.join fork p n m).joinOf id f = s.joinOf id f := by
  simp only [Session.join]
  split <;> split <;> simp only [Session.joinOf, Session.send, Store.get?_insert_of_ne other]

namespace Compiled

variable {d : Definition} {h : Host} (c : Compiled d h.table) {e : Delivery} {f : Fork} {p : Nat}

include c

theorem eq_of_forkId {f' : Fork} (declared : f ∈ d.forks) (declared' : f' ∈ d.forks)
    (same : Name.forkId f'.previousStep = Name.forkId f.previousStep) : f' = f :=
  List.inj_on_of_nodup_map c.wellFormed.forks_distinct declared' declared
    ((String.append_right_inj _).mp same)

/-- A completion on a path is none of the step before a fork. -/
theorem not_triggers {x : Spot} (here : x.In d) {f' : Fork} (line : x.line = .fork f' p)
    (name : e.message.name = Name.completedEvent (x.stem d)) (declared : f ∈ d.forks) :
    h.triggers f e = false := by
  have other : e.message.name ≠ Name.completedEvent f.previousStep := fun trigger =>
    c.completedEvent_ne_of_lane here line declared (trigger.symm.trans name)
  simp [Host.triggers, other]

/-- A token that starts a fork is a completion on the main line. -/
theorem eq_done_of_triggers {tok : Token} (here : tok.In d) {id : Key}
    (message : tok.message d id = e.message) (declared : f ∈ d.forks)
    (trigger : h.triggers f e = true) :
    ∃ x update failure, tok = .done x update failure ∧ x.line = .main
      ∧ x.step.identifier = f.previousStep := by
  obtain ⟨_, name⟩ := Host.triggers_iff.mp trigger
  exact c.eq_done_of_trigger here declared (by rw [message, name])

/-- A report comes from the end of a path or its failure, and is all that the delivery does. -/
theorem exists_of_reports? (home : e.AtHome) (declared : f ∈ d.forks)
    (report : h.reports? f e = some p) :
    ∃ (j : Instance) (x : Spot), x.In d ∧ x.line = .fork f p
      ∧ e.message.name = Name.completedEvent (x.stem d)
      ∧ h.committed? e = some (j, [.join (Name.forkId f.previousStep) p f.paths.length
        ⟨Name.startCommand f.joinStep, e.message.instanceId, .empty⟩]) := by
  obtain ⟨⟨j, es⟩, committed, found⟩ := Option.bind_eq_some_iff.mp report
  cases c.reaction home committed with
  | quiet sends =>
    rw [Host.reports?_of_isSend committed sends] at report
    cases report
  | cancel here line failFast name triggers =>
    rw [Host.reports?_of_cancel committed] at report
    cases report
  | @report f' p' x here line name =>
    rw [Host.reports?_of_join committed] at report
    split at report
    next same =>
      cases report
      cases c.eq_of_forkId declared (Spot.fork_mem here line) same
      exact ⟨j, x, here, line, name, committed⟩
    next => cases report

/-- A join starts over with its fork, and a report adds its path. Nothing else changes it. -/
theorem joinOf_deliver (home : e.AtHome) (declared : f ∈ d.forks) (id : Key) :
    (h.deliver e.before e.message).joinOf id f
      = if e.message.instanceId = id then
          if h.triggers f e then .empty
          else match h.reports? f e with
            | some p => (e.before.joinOf id f).report p f.paths.length
            | none => e.before.joinOf id f
        else e.before.joinOf id f := by
  cases committed : h.committed? e with
  | none =>
    have joins := (Host.agrees_of_committed? committed).joins
    simp [Host.triggers, Host.reports?, committed, Session.joinOf, joins]
  | some result =>
    obtain ⟨j, es⟩ := result
    cases c.reaction home committed with
    | quiet sends =>
      obtain ⟨_, _, _, _, _, _, _, result⟩ := deliver_quiet committed sends
      rw [result, Host.reports?_of_isSend committed sends]
      simp only [Session.joinOf, c.get?_renewed_fork declared, Host.triggers, committed,
        Option.isSome_some, Bool.true_and, decide_eq_true_eq]
      by_cases own : e.message.instanceId = id
      · by_cases name : e.message.name = Name.completedEvent f.previousStep <;> simp [own, name]
      · simp [own]
    | cancel here line failFast name triggers =>
      obtain ⟨_, _, _, _, result⟩ := c.deliver_cancel here line name triggers committed
      rw [result, Host.reports?_of_cancel committed, c.not_triggers here line name declared]
      simp [Session.joinOf, Host.sweep]
    | @report f' p x here line name =>
      obtain ⟨_, _, _, _, result⟩ := c.deliver_report here line name committed
      have joined : (h.deliver e.before e.message).joinOf id f = _ := congrArg (·.joinOf id f) result
      rw [joined, c.not_triggers here line name declared, Host.reports?_of_join committed]
      by_cases own : e.message.instanceId = id
      · by_cases same : Name.forkId f'.previousStep = Name.forkId f.previousStep
        · cases c.eq_of_forkId declared (Spot.fork_mem here line) same
          cases own
          rw [if_pos rfl, if_neg (by simp), if_pos rfl]
          exact Session.joinOf_join e.before f p
            ⟨Name.startCommand f.joinStep, e.message.instanceId, .empty⟩
        · rw [if_pos own, if_neg (by simp), if_neg same]
          exact Session.joinOf_join_of_ne _ (by simp [same]) _ _
      · rw [if_neg own]
        exact Session.joinOf_join_of_ne _ (by simp [own]) _ _

/-- A delivery releases the join of a fork if its report is the last one that was missing. -/
theorem releases_iff (home : e.AtHome) (declared : f ∈ d.forks) :
    h.Releases f e ↔ ∃ p, h.reports? f e = some p
      ∧ f.paths.length ≤ ((e.before.joinOf e.message.instanceId f).add p).length
      ∧ (e.before.joinOf e.message.instanceId f).released = false := by
  have queued : ∀ p, h.reports? f e = some p → (h.deliver e.before e.message).queue
      = if f.paths.length ≤ ((e.before.joinOf e.message.instanceId f).add p).length
          ∧ (e.before.joinOf e.message.instanceId f).released = false then
        e.before.queue ++ [⟨Name.startCommand f.joinStep, e.message.instanceId, .empty⟩]
      else e.before.queue := by
    intro p report
    obtain ⟨j, x, here, line, name, committed⟩ := c.exists_of_reports? home declared report
    obtain ⟨_, _, _, _, result⟩ := c.deliver_report here line name committed
    rw [result, Session.join_eq]
    split <;> rfl
  constructor
  · rintro ⟨some, queue⟩
    obtain ⟨p, report⟩ := Option.isSome_iff_exists.mp some
    refine ⟨p, report, ?_⟩
    by_contra short
    rw [queued p report, if_neg short] at queue
    simp at queue
  · rintro ⟨p, report, full⟩
    exact ⟨by rw [report]; rfl, by rw [queued p report, if_pos full]⟩

/-- Where the join is not released, a delivery releases it if it is released afterwards. -/
theorem releases_iff_released (home : e.AtHome) (declared : f ∈ d.forks)
    (still : h.triggers f e = false)
    (unreleased : (e.before.joinOf e.message.instanceId f).released = false) :
    h.Releases f e
      ↔ ((h.deliver e.before e.message).joinOf e.message.instanceId f).released = true := by
  rw [c.releases_iff home declared, c.joinOf_deliver home declared, if_pos rfl, still,
    if_neg (by simp)]
  cases report : h.reports? f e with
  | none => simp [unreleased]
  | some p => simp [JoinState.report, unreleased]

/-- A released join stays so, and is not released again, until the fork starts over. -/
theorem not_releases_of_released (home : e.AtHome) (declared : f ∈ d.forks)
    (still : h.triggers f e = false)
    (released : (e.before.joinOf e.message.instanceId f).released = true) :
    ¬ h.Releases f e
      ∧ ((h.deliver e.before e.message).joinOf e.message.instanceId f).released = true := by
  rw [c.releases_iff home declared, c.joinOf_deliver home declared, if_pos rfl, still,
    if_neg (by simp)]
  cases report : h.reports? f e with
  | none => simp [released]
  | some p => simp [JoinState.report, released]

end Compiled

/-! ## Runs -/

/-- What a host keeps of a join is what the reports so far say. -/
structure Tallied (h : Host) (f : Fork) (id : Key) (past : List Delivery) (state : JoinState) :
    Prop where
  mem_iff : ∀ p, p ∈ state.reported ↔ p ∈ h.reported f id past
  distinct : state.reported.Nodup
  bounded : ∀ p ∈ state.reported, p < f.paths.length
  released_iff : state.released = true ↔ f.paths.length ≤ state.reported.length

namespace Tallied

variable {d : Definition} {h : Host} {f : Fork} {id : Key} {past : List Delivery} {state : JoinState}
  {e : Delivery} {p : Nat}

/-- A join that nobody has reported to. -/
theorem empty (paths : 2 ≤ f.paths.length) (none : h.reported f id past = []) :
    Tallied h f id past .empty where
  mem_iff p := by simp [JoinState.empty, none]
  distinct := List.nodup_nil
  bounded p hp := by cases hp
  released_iff := by
    simp only [JoinState.empty, Bool.false_eq_true, List.length_nil, false_iff]
    omega

/-- The paths have all reported when as many have as there are. -/
theorem complete_iff (tallied : Tallied h f id past state) :
    (h.reported f id past).toFinset = Finset.range f.paths.length
      ↔ f.paths.length ≤ state.reported.length := by
  have same : (h.reported f id past).toFinset = state.reported.toFinset := by
    ext p
    rw [List.mem_toFinset, List.mem_toFinset, tallied.mem_iff]
  have count : state.reported.toFinset.card = state.reported.length :=
    List.toFinset_card_of_nodup tallied.distinct
  have within : state.reported.toFinset ⊆ Finset.range f.paths.length := by
    intro p hp
    exact Finset.mem_range.mpr (tallied.bounded p (List.mem_toFinset.mp hp))
  rw [same]
  constructor
  · intro all
    rw [← count, all, Finset.card_range]
  · intro enough
    exact Finset.eq_of_subset_of_card_le within (by rw [Finset.card_range, count]; exact enough)

/-- A report. -/
theorem report (tallied : Tallied h f id past state) (inside : p < f.paths.length)
    (added : h.reported f id (past ++ [e]) = h.reported f id past ++ [p]) :
    Tallied h f id (past ++ [e]) (state.report p f.paths.length) where
  mem_iff q := by
    rw [added, List.mem_append, List.mem_singleton, JoinState.report, Fork.mem_add, tallied.mem_iff,
      or_comm]
  distinct := Fork.nodup_add tallied.distinct
  bounded q hq := by
    rcases Fork.mem_add.mp hq with rfl | old
    · exact inside
    · exact tallied.bounded q old
  released_iff := by
    have grown : state.reported.length ≤ (state.add p).length := by
      unfold JoinState.add
      split
      · exact Nat.le_refl _
      · exact Nat.le_succ _
    simp only [JoinState.report, Bool.or_eq_true, decide_eq_true_eq, tallied.released_iff]
    omega

theorem of_reported (tallied : Tallied h f id past state) {past' : List Delivery}
    (same : h.reported f id past' = h.reported f id past) : Tallied h f id past' state :=
  { tallied with mem_iff := fun p => by rw [same, tallied.mem_iff] }

/-- One delivery. -/
theorem deliver (c : Compiled d h.table) (declared : f ∈ d.forks) (home : e.AtHome)
    (tallied : Tallied h f id past (e.before.joinOf id f)) :
    Tallied h f id (past ++ [e]) ((h.deliver e.before e.message).joinOf id f) := by
  have grown := Host.reported_append h f id past e
  rw [c.joinOf_deliver home declared]
  by_cases own : e.message.instanceId = id
  · rw [if_pos own] at grown ⊢
    by_cases trigger : h.triggers f e = true
    · rw [if_pos trigger] at grown ⊢
      exact .empty (c.wellFormed.fork_paths f declared) grown
    · rw [if_neg trigger] at grown ⊢
      cases report : h.reports? f e with
      | none =>
        rw [report, Option.toList_none, List.append_nil] at grown
        exact tallied.of_reported grown
      | some p =>
        rw [report, Option.toList_some] at grown
        obtain ⟨_, x, here, line, _⟩ := c.exists_of_reports? home declared report
        exact tallied.report (Spot.path_lt here line) grown
  · rw [if_neg own] at grown ⊢
    exact tallied.of_reported grown

end Tallied

namespace Host.Evolves

variable {d : Definition} {h : Host} {past : List Delivery} {s : Session} {f : Fork}

/-- Every open run keeps its joins tallied. -/
theorem tallied (c : Compiled d h.table) (run : h.Evolves past s) (declared : f ∈ d.forks) (id : Key) :
    Tallied h f id past (s.joinOf id f) := by
  induction run with
  | initial => exact .empty (c.wellFormed.fork_paths f declared) rfl
  | @start _ s run id' state ih =>
    obtain ⟨queue, delivered, result⟩ := start_cases c s id' state
    rw [result]
    exact ih
  | @startAuto _ s run state ih =>
    obtain ⟨id', queue, delivered, autos, result⟩ := startAuto_cases c s state
    rw [result]
    exact ih
  | send run m ih => exact ih
  | @deliver past s m rest run queue ih =>
    have home : (Delivery.mk { s with queue := rest } m).AtHome := fun i stored =>
      run.atHome c _ i stored
    exact Tallied.deliver c declared home ih

/-- Reports are not forgotten before the fork starts again. -/
theorem reported_subset {id : Key} {between : List Delivery}
    (still : ∀ t ∈ between, t.message.instanceId = id → h.triggers f t = false) (past : List Delivery) :
    h.reported f id past ⊆ h.reported f id (past ++ between) := by
  induction between using List.reverseRecOn with
  | nil => simp
  | append_singleton between e ih =>
    have earlier := ih fun t ht => still t (List.mem_append_left _ ht)
    rw [← List.append_assoc, reported_append]
    split
    next own =>
      rw [still e (by simp) own, if_neg (by simp)]
      exact List.Subset.trans earlier (List.subset_append_left _ _)
    next => exact earlier

end Host.Evolves

/-- In every open run, the host releases the join of a fork for an instance at the report that makes
the reported paths complete, counted from the last completion of the step before the fork, and at no
other delivery; so between two releases the fork has started again. -/
theorem Host.Evolves.releases_iff_complete {d : Definition} {settings : Settings} {h : Host}
    (compiles : d.compile settings = .ok h.table) {past : List Delivery} {s : Session}
    (run : h.Evolves past s) {f : Fork} (declared : f ∈ d.forks) (id : Key) :
    (∀ before e after, past = before ++ e :: after → e.message.instanceId = id →
        (h.Releases f e ↔ (h.reported f id (before ++ [e])).toFinset = Finset.range f.paths.length
          ∧ (h.reported f id before).toFinset ≠ Finset.range f.paths.length))
      ∧ ∀ before e between e' after, past = before ++ e :: (between ++ e' :: after) →
        e.message.instanceId = id → e'.message.instanceId = id →
          h.Releases f e → h.Releases f e' →
            ∃ t ∈ between, t.message.instanceId = id ∧ h.triggers f t = true := by
  have c := Definition.compiled_of_compile compiles
  -- each delivery is made in a session whose join is tallied
  have tallied : ∀ before e after, past = before ++ e :: after →
      e.AtHome ∧ Tallied h f id before (e.before.joinOf id f)
        ∧ Tallied h f id (before ++ [e]) ((h.deliver e.before e.message).joinOf id f) := by
    intro before e after split
    obtain ⟨s₀, earlier, _, same⟩ := run.before split
    have home : e.AtHome := run.atHome_of_mem c (by simp [split])
    have now : Tallied h f id before (e.before.joinOf id f) := by
      rw [same]
      exact earlier.tallied c declared id
    exact ⟨home, now, now.deliver c declared home⟩
  have complete_iff : ∀ before e after, past = before ++ e :: after → e.message.instanceId = id →
      (h.Releases f e ↔ (h.reported f id (before ++ [e])).toFinset = Finset.range f.paths.length
        ∧ (h.reported f id before).toFinset ≠ Finset.range f.paths.length) := by
    intro before e after split own
    obtain ⟨home, now, next⟩ := tallied before e after split
    rw [next.complete_iff, Ne, now.complete_iff, ← now.released_iff, c.joinOf_deliver home declared,
      if_pos own, c.releases_iff home declared, own]
    cases report : h.reports? f e with
    | none =>
      -- without a report, a join that is complete afterwards was complete before
      have paths := c.wellFormed.fork_paths f declared
      split
      · simp only [JoinState.empty, List.length_nil, reduceCtorEq, false_and, exists_false, false_iff,
          not_and]
        omega
      · simp [now.released_iff]
    | some p =>
      obtain ⟨_, x, here, line, name, _⟩ := c.exists_of_reports? home declared report
      simp [c.not_triggers here line name declared, JoinState.report]
  refine ⟨complete_iff, ?_⟩
  intro before e between e' after split own own' releases releases'
  by_contra none
  push Not at none
  have still : ∀ t ∈ between, t.message.instanceId = id → h.triggers f t = false := fun t ht own =>
    by simpa using none t ht own
  have split' : past = (before ++ [e] ++ between) ++ e' :: after := by simp [split]
  obtain ⟨all, _⟩ := (complete_iff before e _ split own).mp releases
  obtain ⟨_, missing⟩ := (complete_iff _ e' after split' own').mp releases'
  -- nothing that was reported is forgotten in between, so nothing was missing
  obtain ⟨_, now, _⟩ := tallied _ e' after split'
  refine missing (Finset.Subset.antisymm ?_ ?_)
  · intro p hp
    exact Finset.mem_range.mpr (now.bounded p ((now.mem_iff p).mpr (List.mem_toFinset.mp hp)))
  · rw [← all]
    intro p hp
    exact List.mem_toFinset.mpr (reported_subset still _ (List.mem_toFinset.mp hp))

/-- A release that is told twice that it was signed, and twice that it was scanned: the first report
of the scan releases the join, although the other reports come in as well. -/
theorem releases_iff_complete_release : ∃ (h : Host) (before : List Delivery) (e : Delivery)
    (after : List Delivery) (s : Session) (f : Fork),
    Definition.release.compile .default = .ok h.table ∧ h.Evolves (before ++ e :: after) s
      ∧ f ∈ Definition.release.forks ∧ h.reported f (.number 1) before = [0, 0]
      ∧ h.reported f (.number 1) (before ++ [e]) = [0, 0, 1]
      ∧ h.reported f (.number 1) (before ++ e :: after) = [0, 0, 1, 1] ∧ h.Releases f e := by
  let f : Fork := ⟨"Build", [[.ofName "Sign"], [.ofName "Scan"]], false, "Publish"⟩
  have declared : f ∈ Definition.release.forks := List.mem_singleton_self _
  let completed (step : String) : Message :=
    ⟨Name.completedEvent step, .number 1, .completed .null none⟩
  obtain ⟨h, past, s, compiles, run, computed⟩ := Definition.exists_open_run (d := .release)
    (Host.faltering · []) (fun _ => rfl) (["Build", "Sign", "Sign", "Scan", "Scan"].map completed) 6
    (fun h past _ => Delivery.passes past 4 fun before e after =>
      h.reported f (.number 1) before = [0, 0]
        ∧ h.reported f (.number 1) (before ++ [e]) = [0, 0, 1]
        ∧ h.reported f (.number 1) (before ++ e :: after) = [0, 0, 1, 1]
        ∧ e.message.instanceId = .number 1) (by decide +kernel)
  obtain ⟨before, e, after, rfl, passes⟩ := Delivery.exists_split computed
  obtain ⟨first, second, all, own⟩ := of_decide_eq_true passes
  refine ⟨h, before, e, after, s, f, compiles, run, declared, first, second, all, ?_⟩
  refine ((run.releases_iff_complete compiles declared (.number 1)).1 before e after rfl own).mpr ?_
  rw [first, second]
  decide

end Workflow
