import Mathlib.Logic.Function.Iterate
import Workflow.Proofs.Host.Costs
import Workflow.Proofs.Host.Handling
import Workflow.Proofs.Host.Join

/-!
Forward processes drain.

The potential of a session is what the messages that wait may cost, what the turns left to the counters
of its instances may cost, and what the joins may cost that are still open. Each delivery of a closed run
of a forward definition lowers it: the message that is taken from the queue pays for what its transition
sends, for counters that start over and for joins that open again, while a turn of a loop is paid for by
its counter and a released join by itself. So from every session that is reached the queue is emptied by
finitely many deliveries, whatever the collaborators answer (`Host.Reaches.drains`).
-/

set_option autoImplicit false

namespace Workflow

variable {d : Definition} {h : Host} {s s' : Session} {id : Key} {ids : Finset Key}

/-! ## The potential -/

/-- The prices of messages. -/
def Definition.bill (d : Definition) (queue : List Message) : Nat :=
  (queue.map fun m => d.price m.name).sum

/-- The price of the command of a join. -/
def Definition.joinCost (d : Definition) (f : Fork) : Nat :=
  d.ahead (d.positionOf f.joinStep) + 2

namespace Session

/-- What the joins of an instance may cost that have not been released. -/
def openJoins (d : Definition) (s : Session) (id : Key) : Nat :=
  ∑ f ∈ d.forks.toFinset, if (s.joinOf id f).released then 0 else d.joinCost f

/-- What the counters of an instance may cost while it runs. -/
def openTurns (d : Definition) (s : Session) (id : Key) : Nat :=
  ((Store.get? id s.running).map (Instance.debt d)).getD 0

/-- What waits and the open joins of some instances. -/
def dues (d : Definition) (ids : Finset Key) (s : Session) : Nat :=
  d.bill s.queue + ∑ id ∈ ids, s.openJoins d id

/-- All that may still happen to some instances. -/
def potential (d : Definition) (ids : Finset Key) (s : Session) : Nat :=
  s.dues d ids + ∑ id ∈ ids, s.openTurns d id

end Session

namespace Definition

variable (d)

@[simp] theorem bill_nil : d.bill [] = 0 := rfl

@[simp] theorem bill_cons (m : Message) (queue : List Message) :
    d.bill (m :: queue) = d.price m.name + d.bill queue := by
  simp [bill]

@[simp] theorem bill_append (queue queue' : List Message) :
    d.bill (queue ++ queue') = d.bill queue + d.bill queue' := by
  simp [bill]

variable {d}

theorem bill_le_of_sublist {queue queue' : List Message} (fewer : queue.Sublist queue') :
    d.bill queue ≤ d.bill queue' :=
  (fewer.map _).sum_le_sum fun _ _ => Nat.zero_le _

end Definition

/-! ## Joins -/

namespace Session

theorem openJoins_congr (same : s'.joins = s.joins) : s'.openJoins d id = s.openJoins d id := by
  unfold openJoins joinOf
  rw [same]

/-- Where no join changes, only the queue counts. -/
theorem dues_le {n : Nat} (joins : s'.joins = s.joins) (queue : d.bill s'.queue ≤ d.bill s.queue + n) :
    s'.dues d ids ≤ s.dues d ids + n := by
  have same : ∑ id ∈ ids, s'.openJoins d id = ∑ id ∈ ids, s.openJoins d id :=
    Finset.sum_congr rfl fun id _ => openJoins_congr joins
  rw [dues, dues, same]
  omega

/-- A released join costs nothing any more. -/
theorem openJoins_le (kept : ∀ f ∈ d.forks, (s.joinOf id f).released = true →
    (s'.joinOf id f).released = true) : s'.openJoins d id ≤ s.openJoins d id := by
  refine Finset.sum_le_sum fun f declared => ?_
  have kept := kept f (List.mem_toFinset.mp declared)
  split
  · exact Nat.zero_le _
  next opened => rw [if_neg fun released => opened (kept released)]

/-- A join that is released pays for its command. -/
theorem openJoins_add_le {f : Fork} (declared : f ∈ d.forks)
    (kept : ∀ f ∈ d.forks, (s.joinOf id f).released = true → (s'.joinOf id f).released = true)
    (opened : (s.joinOf id f).released = false) (released : (s'.joinOf id f).released = true) :
    s'.openJoins d id + d.joinCost f ≤ s.openJoins d id := by
  refine sum_add_le_sum_add (b := 0) (List.mem_toFinset.mpr declared) ?_ fun f' declared' _ => ?_
  · simp [opened, released]
  · have kept := kept f' (List.mem_toFinset.mp declared')
    split
    · exact Nat.zero_le _
    next opened => rw [if_neg fun released => opened (kept released)]

/-- A report releases no join but its own, and opens none. -/
theorem released_join {f : Fork} (p : Nat) (m : Message) {f' : Fork}
    (released : (s.joinOf id f').released = true) :
    ((s.join (Name.forkId f.previousStep) p f.paths.length m).joinOf id f').released = true := by
  by_cases own : (m.instanceId, Name.forkId f.previousStep) = (id, Name.forkId f'.previousStep)
  · obtain ⟨rfl, same⟩ := Prod.mk.inj own
    have one : ∀ s : Session, s.joinOf m.instanceId f' = s.joinOf m.instanceId f := fun s => by
      rw [joinOf, joinOf, same]
    rw [one] at released ⊢
    rw [joinOf_join, JoinState.report, released, Bool.true_or]
  · rw [joinOf_join_of_ne s own]
    exact released

end Session

/-! ## Effects -/

/-- A report to a join is one of a declared fork, for an instance that is counted. -/
def Effect.Due (d : Definition) (ids : Finset Key) : Effect → Prop
  | .send _ => True
  | .join fork _ total m => ∃ f ∈ d.forks, fork = Name.forkId f.previousStep
    ∧ total = f.paths.length ∧ m.name = Name.startCommand f.joinStep ∧ m.instanceId ∈ ids
  | .cancelFork _ => True

theorem Reaction.due {m : Message} {es : List Effect} (reaction : Reaction d m es)
    (member : m.instanceId ∈ ids) : ∀ e ∈ es, e.Due d ids := by
  cases reaction with
  | quiet sends =>
    intro e he
    have sent := sends e he
    cases e with
    | send m => trivial
    | join | cancelFork => exact sent.elim
  | @report f p x here line name =>
    rw [List.forall_mem_singleton]
    exact ⟨f, Spot.fork_mem here line, rfl, rfl, rfl, member⟩
  | cancel here line failFast name triggers =>
    simp [Effect.Due]

/-- Where nothing is committed, at most work is answered. -/
theorem Host.dues_idle {m : Message} (idle : h.committed? ⟨s, m⟩ = none) :
    (h.deliver s m).dues d ids ≤ s.dues d ids + d.bill (h.posted s m) := by
  refine Session.dues_le (Host.agrees_of_committed? idle).joins ?_
  rw [← Definition.bill_append]
  exact Definition.bill_le_of_sublist (h.settles s m).order

namespace Compiled

variable (c : Compiled d h.table)

include c

theorem dues_join {f : Fork} (declared : f ∈ d.forks) (p : Nat) {m : Message}
    (name : m.name = Name.startCommand f.joinStep) (member : m.instanceId ∈ ids) :
    (s.join (Name.forkId f.previousStep) p f.paths.length m).dues d ids ≤ s.dues d ids := by
  have kept : ∀ id, ∀ f' ∈ d.forks, (s.joinOf id f').released = true →
      ((s.join (Name.forkId f.previousStep) p f.paths.length m).joinOf id f').released = true :=
    fun _ _ _ => Session.released_join p m
  have others : ∀ id ∈ ids, id ≠ m.instanceId →
      (s.join (Name.forkId f.previousStep) p f.paths.length m).openJoins d id ≤ s.openJoins d id :=
    fun id _ _ => Session.openJoins_le (kept id)
  by_cases releases : f.paths.length ≤ ((s.joinOf m.instanceId f).add p).length
      ∧ (s.joinOf m.instanceId f).released = false
  · have released : ((s.join (Name.forkId f.previousStep) p f.paths.length m).joinOf
        m.instanceId f).released = true := by
      simp [Session.joinOf_join, JoinState.report, releases.1]
    have own := Session.openJoins_add_le declared (kept m.instanceId) releases.2 released
    have paid := sum_add_le_sum_add (b := 0) member own others
    have queue : (s.join (Name.forkId f.previousStep) p f.paths.length m).queue = s.queue ++ [m] := by
      rw [Session.join_eq, if_pos releases]
      rfl
    have price : d.price m.name = d.joinCost f := by
      rw [name, c.price_startOnMain (c.wellFormed.fork_join f declared), Definition.joinCost]
    rw [Session.dues, Session.dues, queue]
    simp only [Definition.bill_append, Definition.bill_cons, Definition.bill_nil, price]
    omega
  · have queue : (s.join (Name.forkId f.previousStep) p f.paths.length m).queue = s.queue := by
      rw [Session.join_eq, if_neg releases]
    rw [Session.dues, Session.dues, queue]
    exact Nat.add_le_add_left (Finset.sum_le_sum fun id _ => Session.openJoins_le (kept id)) _

/-- What an effect adds is its toll. -/
theorem dues_effect (cause : Message) {e : Effect} (due : e.Due d ids) :
    (h.effect cause s e).dues d ids ≤ s.dues d ids + e.toll d := by
  cases e with
  | send m =>
    rw [Host.effect, Host.dispatch]
    split
    · split
      next approval approverType body =>
        refine Session.dues_le rfl ?_
        simp only [Session.publish, Session.recordRequest, Session.send, Effect.toll, body,
          Definition.bill_append, Definition.bill_cons, Definition.bill_nil]
        omega
      next => exact Session.dues_le rfl (Nat.le_add_right _ _)
    · exact Session.dues_le rfl (Nat.le_add_right _ _)
    · refine Session.dues_le rfl ?_
      simp only [Session.send, Effect.toll, Definition.bill_append, Definition.bill_cons,
        Definition.bill_nil]
      omega
  | join fork path total m =>
    obtain ⟨f, declared, rfl, rfl, name, member⟩ := due
    exact c.dues_join declared path name member
  | cancelFork fork =>
    rw [Host.effect, Host.cancelFork_eq]
    split
    · exact Nat.le_add_right _ _
    · exact Session.dues_le rfl (Definition.bill_le_of_sublist List.filter_sublist)

theorem dues_effects (cause : Message) {es : List Effect} (due : ∀ e ∈ es, e.Due d ids) :
    (h.effects cause s es).dues d ids ≤ s.dues d ids + (es.map (Effect.toll d)).sum := by
  induction es generalizing s with
  | nil => exact Nat.le_refl _
  | cons e rest ih =>
    have first := c.dues_effect (s := s) cause (due e List.mem_cons_self)
    have others := ih (s := h.effect cause s e) fun e' he' => due e' (List.mem_cons_of_mem _ he')
    simp only [Host.effects, List.foldl_cons, List.map_cons, List.sum_cons] at others ⊢
    omega

/-- Forks that start over have their joins open again. -/
theorem dues_resetForks (s : Session) (m : Message) (member : m.instanceId ∈ ids) :
    (h.resetForks s m).dues d ids ≤ s.dues d ids + d.renewalCost m.name := by
  have joins : ∀ (id : Key) (f : Fork), f ∈ d.forks → (h.resetForks s m).joinOf id f
      = if m.instanceId = id ∧ m.name = Name.completedEvent f.previousStep then .empty
        else s.joinOf id f := by
    intro id f declared
    rw [Host.resetForks_eq, Session.joinOf, c.get?_renewed_fork declared]
    split <;> rfl
  have own : (h.resetForks s m).openJoins d m.instanceId + 0
      ≤ s.openJoins d m.instanceId + d.renewalCost m.name := by
    rw [Definition.renewalCost, Finset.sum_filter, Session.openJoins, Session.openJoins,
      ← Finset.sum_add_distrib, Nat.add_zero]
    refine Finset.sum_le_sum fun f declared => ?_
    rw [joins _ f (List.mem_toFinset.mp declared)]
    by_cases trigger : m.name = Name.completedEvent f.previousStep
    · simp [trigger, JoinState.empty, Definition.joinCost]
    · simp [trigger]
  have others : ∀ id ∈ ids, id ≠ m.instanceId →
      (h.resetForks s m).openJoins d id ≤ s.openJoins d id := by
    intro id _ apart
    refine Session.openJoins_le fun f declared released => ?_
    rw [joins id f declared, if_neg fun both => apart both.1.symm]
    exact released
  have all := sum_add_le_sum_add member own others
  have queue : (h.resetForks s m).queue = s.queue := by rw [Host.resetForks_eq]
  rw [Session.dues, Session.dues, queue]
  omega

/-! ## Deliveries -/

/-- What a commit adds are the tolls of its effects, and the joins that it opens again. -/
theorem dues_committed {e : Delivery} (home : e.AtHome) (member : e.message.instanceId ∈ ids)
    {j : Instance} {es : List Effect} (committed : h.committed? e = some (j, es)) :
    (h.deliver e.before e.message).dues d ids
      ≤ e.before.dues d ids + d.renewalCost e.message.name + (es.map (Effect.toll d)).sum := by
  obtain ⟨i, t, _, _, _, _, result⟩ := Host.exists_of_committed? committed
  obtain ⟨running, finished, moved⟩ := h.commit_cases { e.before with
    delivered := e.before.delivered ++ [e.message]
    calls := (t.apply h.collaborators e.before.calls i e.message).calls } e.message j es
  have reset := c.dues_resetForks { e.before with
    delivered := e.before.delivered ++ [e.message]
    calls := (t.apply h.collaborators e.before.calls i e.message).calls } e.message member
  rw [result, moved]
  exact (c.dues_effects e.message ((c.reaction home committed).due member)).trans
    (Nat.add_le_add_right reset _)

/-- The completion of work costs less than the work. -/
theorem bill_posted_lt {tok : Token} (here : tok.In d)
    (idle : h.committed? ⟨s, tok.message d id⟩ = none) :
    d.bill (h.posted s (tok.message d id)) < tok.price d := by
  have positive := c.price_pos here
  have handles := h.deliver_handles s (tok.message d id)
  generalize h.deliver s (tok.message d id) = s', h.posted s (tok.message d id) = more at handles
  cases handles with
  | @work calm kind stem update failure calls name =>
    rw [c.kindOf?_message here] at kind
    cases tok with
    | work x state =>
      have own : x.stem d = stem := by
        simpa [Token.message, Name.workerCommand, String.append_left_inj, String.append_right_inj]
          using name
      have price := c.price_message (show (Token.done x update failure).In d from here) id
      rw [← own]
      simp only [Token.message, Token.price] at price ⊢
      simp only [Definition.bill_cons, Definition.bill_nil, price]
      omega
    | _ => cases kind
  | commit calm declared committed reset =>
    rw [idle] at committed
    cases committed
  | _ => exact positive

/-- A delivery lowers the potential: the message pays for what it leads to. -/
theorem potential_deliver_lt (forward : d.Forward) (home : Host.AtHome s) {tok : Token}
    (here : tok.In d)
    (bounded : ∀ i, Store.get? id s.running = some i → i.Bounded d) (member : id ∈ ids) :
    (h.deliver s (tok.message d id)).potential d ids < s.potential d ids + tok.price d := by
  have own : (tok.message d id).instanceId = id := Token.message_instanceId d id tok
  cases committed : h.committed? ⟨s, tok.message d id⟩ with
  | none =>
    have dues : _ ≤ s.dues d ids + _ := Host.dues_idle committed
    have posted := c.bill_posted_lt here committed
    have turns : ∑ id' ∈ ids, (h.deliver s (tok.message d id)).openTurns d id'
        = ∑ id' ∈ ids, s.openTurns d id' := by
      refine Finset.sum_congr rfl fun id' _ => ?_
      rw [Session.openTurns, (Host.agrees_of_committed? committed).running, Session.openTurns]
    rw [Session.potential, Session.potential, turns]
    omega
  | some result =>
    obtain ⟨j, es⟩ := result
    obtain ⟨consumed, i, stored, inst, ok⟩ := Host.applied_of_committed? c here committed
    have key : i.id = id := home id i stored
    have under := c.applied_under forward here consumed h.collaborators (bounded i stored) s.calls es ok
    rw [inst, key] at under
    -- the instance is the only one that counts
    have turns : ∑ id' ∈ ids, (h.deliver s (tok.message d id)).openTurns d id' + i.debt d
        ≤ ∑ id' ∈ ids, s.openTurns d id' + j.debt d := by
      refine sum_add_le_sum_add member ?_ fun id' _ apart => ?_
      · rw [Session.openTurns, (Host.get?_deliver committed id).1, if_pos own, Session.openTurns, stored]
        cases j.isFinished <;>
          simp only [Bool.false_eq_true, ↓reduceIte, Option.map_none, Option.map_some,
            Option.getD_none, Option.getD_some] <;>
          omega
      · rw [Session.openTurns, (Host.get?_deliver committed id').1, own, if_neg (Ne.symm apart),
          Session.openTurns]
    have dues := c.dues_committed (fun i stored => home _ i stored) (own.symm ▸ member) committed
    dsimp only at dues
    rw [Session.potential, Session.potential]
    omega

end Compiled

/-! ## Runs -/

namespace Host.Reaches

variable {settings : Settings} {started : List Key} {past : List Delivery}

/-- Each delivery of a run lowers the potential. -/
theorem potential_lt (c : Compiled d h.table) (forward : d.Forward) (run : h.Reaches started past s)
    {m : Message} {rest : List Message} (queue : s.queue = m :: rest) :
    (h.deliver { s with queue := rest } m).potential d started.toFinset
      < s.potential d started.toFinset := by
  obtain ⟨member, tok, here, message⟩ := run.exists_token c queue
  have evolves := Host.Evolves.of_reaches run
  have home : Host.AtHome { s with queue := rest } := fun key i stored => evolves.atHome c key i stored
  have lower := c.potential_deliver_lt forward home here
    (fun i stored => c.bounded_of_stored evolves (.inl stored)) (List.mem_toFinset.mpr member)
  have price := c.price_message here m.instanceId
  rw [message] at lower price
  have popped : s.potential d started.toFinset
      = d.price m.name + ({ s with queue := rest } : Session).potential d started.toFinset := by
    simp only [Session.potential, Session.dues, queue, Definition.bill_cons, Nat.add_assoc]
    rfl
  rw [popped, price, Nat.add_comm]
  exact lower

/-- From every session that a closed run of a forward definition reaches, finitely many deliveries empty
the queue, whatever the executor, the reducer and the conditions answer. -/
theorem drains (compiles : d.compile settings = .ok h.table) (forward : d.Forward)
    (run : h.Reaches started past s) : ∃ n, ((fun s => (h.deliverNext s).2)^[n] s).queue = [] := by
  have c := Definition.compiled_of_compile compiles
  induction measure : s.potential d started.toFinset using Nat.strong_induction_on
    generalizing past s with
  | _ n ih =>
    cases queue : s.queue with
    | nil => exact ⟨0, queue⟩
    | cons m rest =>
      have lower := run.potential_lt c forward queue
      rw [measure] at lower
      obtain ⟨more, empty⟩ := ih _ lower (run.deliver queue) rfl
      refine ⟨more + 1, ?_⟩
      have next : (h.deliverNext s).2 = h.deliver { s with queue := rest } m := by
        simp only [Host.deliverNext, queue]
      rw [Function.iterate_succ_apply, next]
      exact empty

end Host.Reaches

/-- A voyage: rowed until the coast is reached, with a feast if the weather is fair, and told and
entered in the books side by side once it has ended. -/
def Definition.voyage : Definition where
  name := "Voyage"
  steps := [.ofName "Row", .ofName "Rest", .ofName "Land", .ofName "Unload", .ofName "Part"]
  stateType := none
  loops := [⟨"Leg", "arrived", 3, "Row", "Rest", some "Land", none⟩]
  branches := [⟨"ByWeather", "Land", ⟨"weather", "String", .computed, []⟩, some "Unload", none,
    [⟨.literal "fair", "Fair", [.ofName "Feast"], false⟩, ⟨.otherwise, "Other", [], false⟩]⟩]
  approvals := []
  forks := [⟨"Unload", [[.ofName "Tell"], [.ofName "Enter"]], false, "Part"⟩]
  handlers := [⟨"lost", .workflow, [.ofName "Report"], true⟩]

theorem Definition.forward_voyage : Definition.voyage.Forward where
  continuation l declared x leads := by
    obtain rfl := List.mem_singleton.mp declared
    cases leads
    decide
  rejoin b declared x leads := by
    obtain rfl := List.mem_singleton.mp declared
    cases leads
    decide
  join f declared := by
    obtain rfl := List.mem_singleton.mp declared
    decide
  terminal g declared := by
    obtain rfl := List.mem_singleton.mp declared
    rfl

/-- On its second leg, with a coast that is never reached, it is still under way, and it will end. -/
theorem drains_voyage : ∃ (h : Host) (past : List Delivery) (s : Session),
    Definition.voyage.compile .default = .ok h.table ∧ Definition.voyage.Forward
      ∧ h.Reaches [.number 1] past s ∧ past.length = 9 ∧ s.queue ≠ []
      ∧ (s.inst? (.number 1)).map (·.counters) = some [("LegIterationCount", 1)]
      ∧ ∃ n, ((fun s => (h.deliverNext s).2)^[n] s).queue = [] := by
  obtain ⟨h, past, s, compiles, run, computed⟩ := Definition.exists_run (d := .voyage)
    Host.tireless (fun _ => rfl) 9
    (fun _ past s => decide (past.length = 9 ∧ s.queue ≠ []
      ∧ (s.inst? (.number 1)).map (·.counters) = some [("LegIterationCount", 1)])) (by decide +kernel)
  obtain ⟨length, waits, counts⟩ := of_decide_eq_true computed
  exact ⟨h, past, s, compiles, Definition.forward_voyage, run, length, waits, counts,
    run.drains compiles Definition.forward_voyage⟩

end Workflow
