import Mathlib.Data.Finset.Max
import Workflow.Proofs.Host.Open
import Workflow.Proofs.Machine.Turns

/-!
Bounds of loops in open runs.

The control of a loop is evaluated at the end of a completion and nowhere else, so a delivery in which a
loop takes a turn is committed, and the counter it stores is the one the turn has left. Hence, whoever
sends what, every stored counter is below the bound of a loop that uses it, and a loop with a counter of
its own is left at the latest in the turn that its bound counts. `loop_bounds` says so of every open run.
-/

set_option autoImplicit false

namespace Workflow

/-! ## Where loops are counted -/

namespace Definition

variable (d : Definition)

theorem controls_loopControl (loops : List Loop) :
    (d.loopControl loops).controls <+: loops.map d.control := by
  induction loops with
  | nil => exact List.nil_prefix
  | cons l outer ih =>
    refine List.cons_prefix_cons.mpr ⟨rfl, ?_⟩
    cases l.continuation with
    | some step => exact List.nil_prefix
    | none => exact ih

theorem controls_pathEnd (e : PathEnd) : e.continuation.controls = [] := by
  unfold PathEnd.continuation
  split
  · rfl
  · split <;> rfl

theorem controls_entryOf (b : Branch) (k : Case) : (b.entryOf k).controls = [] := by
  unfold Branch.entryOf
  split
  · rfl
  · exact controls_pathEnd _

theorem controls_toRoute (b : Branch) : (Action.route b.toRoute).controls = [] := by
  simp only [Action.controls, Action.continuations, Route.targets, Branch.toRoute, List.map_map,
    List.flatMap_eq_nil_iff, List.mem_append, List.mem_map, Option.mem_toList, Option.map_eq_some_iff,
    Function.comp_apply]
  rintro k (⟨literal, _, rfl⟩ | ⟨case, _, rfl⟩) <;> exact controls_entryOf _ _

theorem controls_approved (a : Approval) : (d.approved a).controls = [] := by
  unfold approved
  split <;> rfl

theorem controls_ending (line : Line) : (line.ending d).controls = [] := by
  cases line with
  | path b k => simp [Line.ending, Action.controls, Action.continuations, controls_pathEnd]
  | escalation a g => simp [Line.ending, Action.controls, Action.continuations, controls_approved]
  | recovery g =>
    simp only [Line.ending, chainEnd]
    split <;> rfl
  | _ => rfl

end Definition

namespace Compiled

variable {d : Definition} {t : Table} (c : Compiled d t)

include c

/-- A transition counts no loop, or at its very end those that end at a step. -/
theorem controls_cases {tr : Transition} (listed : tr ∈ t.transitions) :
    (∀ a ∈ tr.body, a.controls = [])
      ∨ ∃ front x, tr.body = front ++ [.proceed (d.loopControl (d.loopsEndingAt x))]
        ∧ ∀ a ∈ front, a.controls = [] := by
  cases c.transition_cases listed with
  | @start x here =>
    left
    simp only [Site.startTransition, Transition.of, Site.guardActions]
    split <;> simp [Action.controls, Action.continuations]
  | @completion x here =>
    obtain ⟨line, k, x⟩ := x
    by_cases loops : line = .main ∧ d.loopsEndingAt x.identifier ≠ []
    · obtain ⟨rfl, loops⟩ := loops
      right
      refine ⟨[.applyUpdate, .routeFailure (Line.main.siteAt d k x).failureRoute], x.identifier, ?_, ?_⟩
      · rw [Spot.site, Definition.completion, d.next_main k x, if_pos loops]
        rfl
      · simp [Action.controls, Action.continuations]
    · left
      have last : (d.next (line.siteAt d k x)).controls = [] := by
        by_cases main : line = .main
        · subst main
          rw [d.next_main k x, if_neg fun some => loops ⟨rfl, some⟩]
          split
          · exact Definition.controls_toRoute _
          all_goals rfl
        · rw [c.next_siteAt line here.1 main here.2]
          split
          · rfl
          · exact d.controls_ending line
      simp only [Definition.completion, Transition.of, List.forall_mem_cons]
      exact ⟨rfl, rfl, last, by simp⟩
  | @gate a g _ attached link member =>
    left
    have refused : g.gate.rejected.controls = [] := by
      unfold Gate.rejected
      split <;> rfl
    have escalated : g.timedOut.controls = [] := by
      unfold Approval.timedOut
      split <;> rfl
    simp only [Approval.transitions, List.mem_cons, List.not_mem_nil, or_false] at member
    rcases member with rfl | rfl | rfl <;>
      simp [Transition.of, Action.controls, Action.continuations, d.controls_approved, refused,
        escalated]
  | trigger declared first =>
    left
    simp [Transition.of, Action.controls, Action.continuations, Continuation.controls]

/-- Every loop that is counted is one of the definition. -/
theorem exists_loop_of_control {tr : Transition} (listed : tr ∈ t.transitions) {a : Action}
    (ha : a ∈ tr.body) {control : LoopControl} (counted : control ∈ a.controls) :
    ∃ l ∈ d.loops, control = d.control l := by
  rcases c.controls_cases listed with none | ⟨front, x, body, none⟩
  · rw [none a ha] at counted
    cases counted
  · rw [body] at ha
    rcases List.mem_append.mp ha with before | last
    · rw [none a before] at counted
      cases counted
    · rw [List.mem_singleton.mp last] at counted
      simp only [Action.controls, Action.continuations, List.flatMap_singleton] at counted
      have among := (d.controls_loopControl (d.loopsEndingAt x)).subset counted
      obtain ⟨l, hl, rfl⟩ := List.mem_map.mp among
      exact ⟨l, Definition.mem_loops_of_mem_loopsEndingAt hl, rfl⟩

end Compiled

/-- Whether no other loop has the counter of a loop. -/
def Definition.CountsAlone (d : Definition) (l : Loop) : Prop :=
  ∀ l' ∈ d.loops, (d.control l').counter = (d.control l).counter → l' = l

/-- What the turns of a transition have to do with the instance it found and the one it left. -/
structure Turn.Account (d : Definition) (turns : List Turn) (i : Instance) (a : Applied) : Prop where
  leads (counter : String) :
    Turn.Leads (i.counter counter) (Turn.on counter turns) (a.inst.counter counter)
  lawful : ∀ t ∈ turns, t.Lawful
  declared : ∀ t ∈ turns, ∃ l ∈ d.loops, t.control = d.control l
  /-- Where a turn was taken no fault is raised. -/
  ok : turns ≠ [] → ∃ es, a.result = .ok es
  /-- A loop with a counter of its own takes one turn at most. -/
  once {l : Loop} (alone : d.CountsAlone l) : (Turn.on (d.control l).counter turns).length ≤ 1

/-- The turns on a counter that one loop has for its own are the turns of that loop. -/
theorem Turn.Account.on_eq {d : Definition} {turns : List Turn} {i : Instance} {a : Applied}
    (account : Turn.Account d turns i a) {l : Loop} (alone : d.CountsAlone l) :
    Turn.on (d.control l).counter turns = turns.filter fun t => t.control = d.control l := by
  refine List.filter_congr fun t ht => ?_
  obtain ⟨l', declared, control⟩ := account.declared t ht
  simp only [control, decide_eq_decide]
  exact ⟨fun same => alone l' declared same ▸ rfl, fun same => by rw [same]⟩

/-- Turns in the order of loops, none twice. -/
theorem Turn.length_on_le_one {d : Definition} {turns : List Turn} {loops : List Loop}
    (order : turns.map Turn.control <+: loops.map d.control) (distinct : loops.Nodup)
    (declared : ∀ l ∈ loops, l ∈ d.loops) {l : Loop} (alone : d.CountsAlone l) :
    (Turn.on (d.control l).counter turns).length ≤ 1 := by
  calc (Turn.on (d.control l).counter turns).length
      = (turns.map Turn.control).countP (fun c => c.counter = (d.control l).counter) := by
        rw [List.countP_map, List.countP_eq_length_filter]
        rfl
    _ ≤ (loops.map d.control).countP (fun c => c.counter = (d.control l).counter) :=
        order.sublist.countP_le
    _ = loops.countP (fun l' => (d.control l').counter = (d.control l).counter) := by
        rw [List.countP_map]
        rfl
    _ ≤ loops.count l := by
        refine List.countP_mono_left fun l' hl' same => ?_
        simpa using alone l' (declared l' hl') (by simpa using same)
    _ ≤ 1 := List.nodup_iff_count_le_one.mp distinct l

namespace Compiled

variable {d : Definition} {t : Table} (c : Compiled d t)

include c

/-- The account of a transition. -/
theorem account {tr : Transition} (listed : tr ∈ t.transitions) (cx : Collaborators)
    (calls : List Call) (i : Instance) (m : Message) :
    Turn.Account d (tr.turns cx calls i m) i (tr.apply cx calls i m) := by
  have nothing : tr.turns cx calls i m = [] → (tr.apply cx calls i m).inst.counters = i.counters →
      Turn.Account d (tr.turns cx calls i m) i (tr.apply cx calls i m) := by
    intro none same
    rw [none]
    refine ⟨fun counter => ?_, by simp, by simp, by simp, by simp [Turn.on]⟩
    rw [Instance.counter, Instance.counter, same]
    exact .nil _
  rcases c.controls_cases listed with quiet | ⟨front, x, body, quiet⟩
  · obtain ⟨none, same⟩ := Transition.turns_of_controls cx calls i m quiet
    exact nothing none same
  · rcases Transition.turns_of_proceed cx calls i m body quiet with
      ⟨none, same⟩ | ⟨r, same, turns, result⟩
    · exact nothing none same
    · have order := (r.trace_controls cx _).trans (d.controls_loopControl (d.loopsEndingAt x))
      rw [turns, result]
      refine ⟨fun counter => ?_, r.trace_lawful cx _, fun t ht => ?_, fun _ => ⟨_, rfl⟩, ?_⟩
      · have leads := r.trace_leads cx counter (d.loopControl (d.loopsEndingAt x))
        rwa [Instance.counter, same] at leads
      · obtain ⟨l, hl, control⟩ := List.mem_map.mp (order.subset (List.mem_map_of_mem ht))
        exact ⟨l, Definition.mem_loops_of_mem_loopsEndingAt hl, control.symm⟩
      · exact Turn.length_on_le_one order (c.wellFormed.loopsEndingAt_nodup x)
          fun _ => Definition.mem_loops_of_mem_loopsEndingAt

end Compiled

/-! ## Turns of deliveries -/

/-- The turns that loops take when a message is delivered. -/
def Host.turns (h : Host) (e : Delivery) : List Turn :=
  if h.isCancelled e.before e.message = true ∨ h.table.kindOf? e.message.name = none
      ∨ h.table.kindOf? e.message.name = some .executeWorker then []
  else ((Store.get? e.message.instanceId e.before.running).bind fun i =>
    (h.table.transitionFor? e.message.name).map fun t =>
      t.turns h.collaborators e.before.calls i e.message).getD []

/-- A turn of a loop whose condition does not hold leaves it at its bound only. -/
theorem Host.bound_le_of_unmet {h : Host} {e : Delivery} {t : Turn} (taken : t ∈ h.turns e)
    (unmet : t.Unmet h.collaborators) (leaves : t.leaves = true) :
    t.control.maxIterations ≤ t.count + 1 := by
  unfold Host.turns at taken
  split at taken
  · cases taken
  · cases stored : Store.get? e.message.instanceId e.before.running with
    | none =>
      rw [stored] at taken
      cases taken
    | some i =>
      cases found : h.table.transitionFor? e.message.name with
      | none =>
        rw [stored, found] at taken
        cases taken
      | some tr =>
        rw [stored, found] at taken
        obtain ⟨r, k, traced⟩ := Run.exists_trace_of_mem h.collaborators _ e.message taken
        exact r.trace_unmet h.collaborators k t traced unmet leaves

namespace Compiled

variable {d : Definition} {h : Host} (c : Compiled d h.table) {e : Delivery}

include c

/-- Turns are committed. -/
theorem turns_of_committed? (idle : h.committed? e = none) : h.turns e = [] := by
  unfold Host.turns
  unfold Host.committed? at idle
  split
  · rfl
  next free =>
    rw [if_neg free] at idle
    cases stored : Store.get? e.message.instanceId e.before.running with
    | none => rfl
    | some i =>
      cases found : h.table.transitionFor? e.message.name with
      | none => rfl
      | some t =>
        rw [stored, found] at idle
        by_contra taken
        obtain ⟨es, ok⟩ := (c.account (List.mem_of_find?_eq_some found) h.collaborators
          e.before.calls i e.message).ok taken
        obtain ⟨f, error⟩ := Applied.committed?_eq_none.mp idle
        rw [ok] at error
        cases error

/-- The account of a delivery that is committed. -/
theorem account_of_committed? {j : Instance} {es : List Effect}
    (committed : h.committed? e = some (j, es)) :
    ∃ i a, Store.get? e.message.instanceId e.before.running = some i ∧ a.inst = j
      ∧ Turn.Account d (h.turns e) i a := by
  obtain ⟨i, t, stored, found, inst, _⟩ := Host.exists_of_committed? committed
  have taken : h.turns e = t.turns h.collaborators e.before.calls i e.message := by
    unfold Host.turns
    unfold Host.committed? at committed
    split at committed
    · cases committed
    next free => rw [if_neg free, stored, found]; rfl
  refine ⟨i, _, stored, inst, ?_⟩
  rw [taken]
  exact c.account (List.mem_of_find?_eq_some found) _ _ _ _

/-- So is that of a delivery in which a loop takes a turn. -/
theorem account_of_mem {t : Turn} (taken : t ∈ h.turns e) :
    ∃ i a, Store.get? e.message.instanceId e.before.running = some i
      ∧ (h.deliver e.before e.message).inst? e.message.instanceId = some a.inst
      ∧ Turn.Account d (h.turns e) i a := by
  cases committed : h.committed? e with
  | none =>
    rw [c.turns_of_committed? committed] at taken
    cases taken
  | some result =>
    obtain ⟨i, a, stored, same, account⟩ := c.account_of_committed? committed
    exact ⟨i, a, stored, same ▸ Host.inst?_deliver committed, account⟩

end Compiled

/-! ## Counters in store -/

/-- Every counter is below the bound of a loop that uses it. -/
def Instance.Bounded (d : Definition) (i : Instance) : Prop :=
  ∀ p ∈ i.counters, ∃ l ∈ d.loops, (d.control l).counter = p.1 ∧ p.2 < l.maxIterations

/-- The fields that count are those of the loops. -/
theorem Definition.exists_loop_of_field {d : Definition} {f : Field} (member : f ∈ d.fields)
    {path : String} (kind : f.kind = .iterationCounter path) :
    ∃ l ∈ d.loops, (d.control l).counter = f.name := by
  rcases List.mem_append.mp member with others | failures
  · rcases List.mem_append.mp others with plain | counted
    · exfalso
      revert plain
      cases d.approvals.isEmpty <;> grind
    · obtain ⟨l, declared, rfl⟩ := List.mem_map.mp counted
      exact ⟨l, declared, rfl⟩
  · exfalso
    revert failures
    cases d.handlers.isEmpty <;> grind

namespace Instance.Bounded

variable {d : Definition} {i : Instance}

theorem counting (bounded : i.Bounded d) {l : Loop} (declared : l ∈ d.loops) {n : UInt32}
    (below : n < l.maxIterations) : (i.counting (d.control l).counter n).Bounded d := by
  intro p hp
  rcases Keyed.mem_of_mem_insert hp with rfl | old
  · exact ⟨l, declared, rfl, below⟩
  · exact bounded p old

/-- A counter that is not there counts as zero. -/
theorem counter_cases (bounded : i.Bounded d) (counter : String) :
    i.counter counter = 0 ∨ ∃ l ∈ d.loops, (d.control l).counter = counter
      ∧ i.counter counter < l.maxIterations := by
  unfold Instance.counter
  cases found : Keyed.get? counter i.counters with
  | none => exact .inl rfl
  | some n => exact .inr (bounded _ (Keyed.mem_of_get? found))

end Instance.Bounded

namespace Compiled

variable {d : Definition} {h : Host} (c : Compiled d h.table)

include c

theorem bound_pos {l : Loop} (declared : l ∈ d.loops) : 0 < l.maxIterations :=
  UInt32.pos_iff_ne_zero.mpr (c.wellFormed.loop_bound l declared)

theorem bounded_fresh (id : Key) (state : Value) : (Instance.fresh h.table id state).Bounded d := by
  intro p hp
  obtain ⟨f, hf, zeroed⟩ := List.mem_filterMap.mp (Keyed.mem_of_mem_ofList hp)
  rw [c.fields_eq] at hf
  split at zeroed
  next path kind =>
    cases zeroed
    obtain ⟨l, declared, counter⟩ := Definition.exists_loop_of_field hf kind
    exact ⟨l, declared, counter, c.bound_pos declared⟩
  · cases zeroed

theorem bounded_committed {e : Delivery} {i j : Instance} {es : List Effect}
    (stored : Store.get? e.message.instanceId e.before.running = some i) (bounded : i.Bounded d)
    (committed : h.committed? e = some (j, es)) : j.Bounded d := by
  obtain ⟨i', tr, stored', found, rfl, _⟩ := Host.exists_of_committed? committed
  obtain rfl := Option.some.inj (stored.symm.trans stored')
  refine Transition.apply_keeps ⟨fun _ same holds => ?_, fun holds => holds⟩
    (fun _ _ _ _ holds => holds) ?_ bounded
  · rw [Instance.Bounded, same]
    exact holds
  · intro a ha control counted i bounded
    obtain ⟨l, declared, rfl⟩ :=
      c.exists_loop_of_control (List.mem_of_find?_eq_some found) ha counted
    exact ⟨bounded.counting declared (c.bound_pos declared),
      fun below => bounded.counting declared (UInt32.not_le.mp below)⟩

/-- In an open run all counters in store are bounded. -/
theorem bounded_of_stored {past : List Delivery} {s : Session} (run : h.Evolves past s) {id : Key}
    {i : Instance} (stored : Store.get? id s.running = some i ∨ Store.get? id s.finished = some i) :
    i.Bounded d :=
  Host.Evolves.stored_induction c (P := fun _ i => i.Bounded d) c.bounded_fresh
    (fun _ _ _ _ stored bounded committed => c.bounded_committed stored bounded committed) run
    stored

end Compiled

/-! ## One instance -/

/-- What happens after a session as long as an instance is not started again. -/
inductive Host.Continues (h : Host) (id : Key) (s₀ : Session) : List Delivery → Session → Prop
  | refl : Host.Continues h id s₀ [] s₀
  | start {later : List Delivery} {s : Session} (run : Host.Continues h id s₀ later s) {other : Key}
      (apart : other ≠ id) (state : Value) : Host.Continues h id s₀ later (h.start s other state).2
  | startAuto {later : List Delivery} {s : Session} (run : Host.Continues h id s₀ later s)
      (apart : Key.auto (s.autos + 1) ≠ id) (state : Value) :
      Host.Continues h id s₀ later (h.startAuto s state).2
  | send {later : List Delivery} {s : Session} (run : Host.Continues h id s₀ later s) (m : Message) :
      Host.Continues h id s₀ later (s.send m)
  | deliver {later : List Delivery} {s : Session} {m : Message} {rest : List Message}
      (run : Host.Continues h id s₀ later s) (queue : s.queue = m :: rest) :
      Host.Continues h id s₀ (later ++ [⟨{ s with queue := rest }, m⟩])
        (h.deliver { s with queue := rest } m)

/-- The turns of a loop on an instance. -/
def Host.turnsOf (h : Host) (control : LoopControl) (id : Key) (past : List Delivery) : List Turn :=
  ((past.filter fun e => e.message.instanceId = id).flatMap h.turns).filter fun t => t.control = control

namespace Host.Continues

variable {d : Definition} {h : Host} {id : Key} {s₀ s : Session} {later : List Delivery}

theorem deliverUpTo (run : h.Continues id s₀ later s) (n : Nat) :
    h.Continues id s₀ (h.deliverUpTo n later s).1 (h.deliverUpTo n later s).2 :=
  Host.deliverUpTo_induction (fun run queue => run.deliver queue) n run

/-- The turns of a loop with a counter of its own are a chain, at whose end is the count of the
instance. -/
theorem leads (c : Compiled d h.table) {l : Loop} (alone : d.CountsAlone l)
    (run : h.Continues id s₀ later s) {n : UInt32}
    (counts : ∀ i, Store.get? id s₀.running = some i → i.counter (d.control l).counter = n) :
    ∃ n', Turn.Leads n (h.turnsOf (d.control l) id later) n'
      ∧ ∀ i, Store.get? id s.running = some i → i.counter (d.control l).counter = n' := by
  induction run with
  | refl => exact ⟨n, .nil n, counts⟩
  | @start _ s _ other apart state ih =>
    obtain ⟨n', leads, now⟩ := ih
    obtain ⟨_, _, result⟩ := Host.Evolves.start_cases c s other state
    refine ⟨n', leads, fun i stored => now i ?_⟩
    rw [result] at stored
    rwa [← Store.get?_insert_of_ne apart]
  | @startAuto _ s _ apart state ih =>
    obtain ⟨n', leads, now⟩ := ih
    obtain ⟨_, _, result⟩ := Host.Evolves.start_cases c s (.auto (s.autos + 1)) state
    refine ⟨n', leads, fun i stored => now i ?_⟩
    rw [c.startAuto_eq, result] at stored
    rwa [← Store.get?_insert_of_ne apart]
  | send run m ih => exact ih
  | @deliver later s m rest run queue ih =>
    obtain ⟨n', leads, now⟩ := ih
    have grown : h.turnsOf (d.control l) id (later ++ [⟨{ s with queue := rest }, m⟩])
        = h.turnsOf (d.control l) id later ++ if m.instanceId = id then
          (h.turns ⟨{ s with queue := rest }, m⟩).filter fun t => t.control = d.control l else [] := by
      by_cases own : m.instanceId = id <;> simp [Host.turnsOf, own]
    rw [grown]
    cases committed : h.committed? ⟨{ s with queue := rest }, m⟩ with
    | none =>
      rw [c.turns_of_committed? committed, (Host.agrees_of_committed? committed).running]
      simp only [List.filter_nil, ite_self, List.append_nil]
      exact ⟨n', leads, now⟩
    | some result =>
      obtain ⟨j, es⟩ := result
      rw [(Host.get?_deliver committed id).1]
      by_cases own : m.instanceId = id
      · obtain ⟨i, a, stored, rfl, account⟩ := c.account_of_committed? committed
        have found := now i (own ▸ stored)
        have taken := account.leads (d.control l).counter
        rw [account.on_eq alone, found] at taken
        rw [if_pos own, if_pos own]
        refine ⟨_, leads.append taken, fun k kept => ?_⟩
        split at kept
        · cases kept
        · cases kept
          rfl
      · rw [if_neg own, if_neg own, List.append_nil]
        exact ⟨n', leads, now⟩

end Host.Continues

namespace Compiled

variable {d : Definition} {h : Host} (c : Compiled d h.table) {e : Delivery}

include c

omit c in
theorem control_of_turnsOf {control : LoopControl} {id : Key} {past : List Delivery} {t : Turn}
    (member : t ∈ h.turnsOf control id past) : t.control = control ∧ ∃ e ∈ past, t ∈ h.turns e := by
  obtain ⟨taken, own⟩ := List.mem_filter.mp member
  obtain ⟨e, he, taken⟩ := List.mem_flatMap.mp taken
  exact ⟨by simpa using own, e, (List.mem_filter.mp he).1, taken⟩

theorem lawful_of_mem {t : Turn} (taken : t ∈ h.turns e) : t.Lawful := by
  obtain ⟨_, _, _, _, account⟩ := c.account_of_mem taken
  exact account.lawful t taken

end Compiled

end Workflow
