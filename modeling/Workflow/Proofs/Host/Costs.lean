import Workflow.Proofs.Definition.Budget
import Workflow.Proofs.Host.Loops

/-!
Costs of messages.

Every message of a compiled definition has a price, and the price of a token covers what its rule leads
to: the messages it sends, the turns that the counters of the instance have left (`Instance.debt`), and
the join of a fork that starts over. A start costs two more than a completion, because work lies between
them. `applied_under` says that in a forward definition every rule costs less than its token.
-/

set_option autoImplicit false

namespace Workflow

/-- One summand pays for what is added. -/
theorem sum_add_le_sum_add {α : Type} [DecidableEq α] {s : Finset α} {f g : α → Nat} {x : α}
    (member : x ∈ s) {a b : Nat} (own : f x + a ≤ g x + b)
    (others : ∀ y ∈ s, y ≠ x → f y ≤ g y) : ∑ y ∈ s, f y + a ≤ ∑ y ∈ s, g y + b := by
  rw [← Finset.add_sum_erase s f member, ← Finset.add_sum_erase s g member]
  have rest := Finset.sum_le_sum fun y (hy : y ∈ s.erase x) =>
    others y (Finset.mem_of_mem_erase hy) (Finset.ne_of_mem_erase hy)
  omega

/-! ## Prices -/

/-- What is set aside on a line beside the main one for its end and for a failure. -/
def Line.reserve (d : Definition) : Line → Nat
  | .main => 0
  | .path b _ => d.ahead (d.positionOf b.previousStep + 1) + d.recoveryCost
  | .fork _ _ => d.recoveryCost
  | .escalation _ _ => d.ahead 0 + d.recoveryCost
  | .rejection _ _ => d.recoveryCost
  | .recovery _ => 0

/-- The price of a completion. -/
def Site.price (d : Definition) (s : Site) : Nat :=
  match s.origin, s.ending with
  | .mainLine, _ => d.ahead s.index
  | .branchPath, .pathEnd e =>
    d.ahead (d.positionOf e.branch.previousStep + 1) + d.recoveryCost + 3 * (d.span - s.index)
  | .escalation, _ => d.ahead 0 + d.recoveryCost + 3 * (d.span - s.index)
  | .recovery, _ => 3 * (d.span - s.index)
  | _, _ => d.recoveryCost + 3 * (d.span - s.index)

namespace Definition

variable (d : Definition)

/-- The price of a signal of a gate. -/
def signalCost : Nat := d.ahead 0 + d.detourCost + 1

/-- The price of a message of an entry. -/
def priceOf : Entry → MessageKind → Nat
  | .step s, .startStep => s.price d + 2
  | .step s, .executeWorker => s.price d + 1
  | .step s, .stepCompleted => s.price d
  | .approval _ _, .approvalDecided => d.signalCost
  | .approval _ _, .approvalTimedOut => d.signalCost
  | .handler _, .failureTrigger => d.recoveryCost
  | _, _ => 1

/-- The names of all messages, with their prices. -/
def prices : List (String × Nat) :=
  d.plan.flatMap fun e => e.messages.map fun m => (m.name, d.priceOf e m.kind)

/-- The price of a name; what is not known costs its delivery only. -/
def price (name : String) : Nat :=
  ((d.prices.find? (·.1 = name)).map Prod.snd).getD 1

/-- What it costs that the joins of forks are open again after a message. -/
def renewalCost (name : String) : Nat :=
  ∑ f ∈ d.forks.toFinset with Name.completedEvent f.previousStep = name,
    (d.ahead (d.positionOf f.joinStep) + 2)

end Definition

/-- The price of what an effect queues: a request is acknowledged. -/
def Effect.toll (d : Definition) : Effect → Nat
  | .send m => d.price m.name + match m.body with
    | .approvalRequested approval _ => d.price (Name.approvalPending approval)
    | _ => 0
  | .join _ _ _ _ => 0
  | .cancelFork _ => 0

/-- What the turns that the counters have left may cost. -/
def Instance.debt (d : Definition) (i : Instance) : Nat :=
  ∑ l ∈ d.loops.toFinset, d.turnCost l * (2 ^ 32 - (i.counter (d.control l).counter).toNat)

/-- The rule leaves less than a budget. -/
def Applied.Under (d : Definition) (a : Applied) (budget : Nat) : Prop :=
  ∀ es, a.result = .ok es → (es.map (Effect.toll d)).sum + a.inst.debt d < budget

theorem Applied.Under.mono {d : Definition} {a : Applied} {n m : Nat} (under : a.Under d n)
    (le : n ≤ m) : a.Under d m :=
  fun es ok => (under es ok).trans_le le

section Site

variable {d : Definition} {x : Spot}

@[simp] theorem Line.siteAt_index {line : Line} {i : Nat} {y : Step} :
    (line.siteAt d i y).index = i := by
  rcases siteAt_eq_or d line i y with h | h <;> rw [h]

/-- On the main line a site costs what lies ahead of it; beside it, what the rest of its line needs and
what is set aside for the end. -/
theorem Spot.price_site (x : Spot) : (x.site d).price d = match x.line with
    | .main => d.ahead x.index
    | line => line.reserve d + 3 * (d.span - x.index) := by
  obtain ⟨line, k, y⟩ := x
  simp only [Site.price, Spot.site, Line.siteAt_origin, Line.siteAt_ending, Line.siteAt_index]
  cases line <;> simp [Line.site, Line.reserve]

theorem Spot.price_site_main (main : x.line = .main) : (x.site d).price d = d.ahead x.index := by
  rw [x.price_site, main]

theorem Spot.price_site_beside (off : x.line ≠ .main) :
    (x.site d).price d = x.line.reserve d + 3 * (d.span - x.index) := by
  rw [x.price_site]
  cases line : x.line <;> simp_all

/-- No line is longer than the span. -/
theorem Spot.In.index_lt_span (here : x.In d) (hw : d.WellFormed) : x.index < d.span := by
  have below := Definition.index_lt_span (here.site_mem hw)
  simpa [Spot.site] using below

end Site

/-- The price of a token's message. -/
def Token.price (d : Definition) : Token → Nat
  | .start x => (x.site d).price d + 2
  | .work x _ => (x.site d).price d + 1
  | .done x _ _ => (x.site d).price d
  | .trigger _ _ => d.recoveryCost
  | .pending _ _ _ => 1
  | .decided _ _ _ _ => d.signalCost
  | .timedOut _ _ _ => d.signalCost

namespace Compiled

variable {d : Definition} {t : Table} (c : Compiled d t)

include c

/-- A name is priced by the one message that has it. -/
theorem price_eq {e : Entry} (planned : e ∈ d.plan) {m : MessageEntry} (listed : m ∈ e.messages) :
    d.price m.name = d.priceOf e m.kind := by
  have names : d.prices.map Prod.fst = (d.plan.flatMap Entry.messages).map MessageEntry.name := by
    simp [Definition.prices, List.map_flatMap, Function.comp_def]
  have distinct : (d.prices.map Prod.fst).Nodup := by
    rw [names]
    exact (List.nodup_cons.mp c.messages_distinct).2
  have found : d.prices.find? (·.1 = m.name) = some (m.name, d.priceOf e m.kind) :=
    (find?_key_eq_some_iff distinct).mpr
      ⟨List.mem_flatMap.mpr ⟨e, planned, List.mem_map.mpr ⟨m, listed, rfl⟩⟩, rfl⟩
  rw [Definition.price, found, Option.map_some, Option.getD_some]

/-- So a token costs what its message costs. -/
theorem price_message {tok : Token} (here : tok.In d) (id : Key) :
    d.price (tok.message d id).name = tok.price d := by
  have gate : ∀ {a g : Approval}, a ∈ d.approvals ∧ g ∈ a.chain → ∀ {m : MessageEntry},
      m ∈ (Entry.approval g (d.approved a)).messages →
        d.price m.name = d.priceOf (.approval g (d.approved a)) m.kind := fun member _ listed =>
    c.price_eq (c.wellFormed.mem_plan_iff.mpr (.gate member.1 member.2)) listed
  cases tok with
  | start x | work x _ | done x _ _ =>
    obtain ⟨e, planned, m, listed, name, kind, atSpot, _⟩ := c.exists_entry here id
    rw [← name, c.price_eq planned listed, kind, atSpot x rfl]
    rfl
  | trigger g failure =>
    exact c.price_eq (c.wellFormed.mem_plan_iff.mpr (.handler here))
      (m := ⟨Name.failureTrigger g.id, .failureTrigger, Text.sanitize g.id⟩) (by simp [Entry.messages])
  | pending a g correlation =>
    exact gate here (m := ⟨Name.approvalPending g.gate.name, .approvalPending, g.gate.name⟩)
      (by simp [Entry.messages])
  | decided a g correlation decision =>
    exact gate here (m := ⟨Name.approvalDecided g.gate.name, .approvalDecided, g.gate.name⟩)
      (by simp [Entry.messages])
  | timedOut a g correlation =>
    exact gate here (m := ⟨Name.approvalTimedOut g.gate.name, .approvalTimedOut, g.gate.name⟩)
      (by simp [Entry.messages])

/-- A start costs two more than the completion of its step, since the work lies between them. -/
theorem price_start {x : Spot} (here : x.In d) :
    d.price (Name.startCommand (x.stem d)) = (x.site d).price d + 2 :=
  c.price_message (show (Token.start x).In d from here) (.number 0)

/-- To start a step of the main line costs what lies ahead of it. -/
theorem price_startOnMain {x : String} (known : x ∈ d.stepNames) :
    d.price (Name.startCommand x) = d.ahead (d.positionOf x) + 2 := by
  obtain ⟨k, y, at?, rfl⟩ := Definition.exists_step_of_mem_stepNames known
  have start := c.price_start (x := ⟨.main, k, y⟩) ⟨trivial, at?⟩
  rw [Spot.price_site_main rfl] at start
  rw [c.wellFormed.positionOf_eq at?]
  exact start

/-- The first step of a line beside the main one. -/
theorem price_startBeside (line : Line) (belongs : line.In d) (off : line ≠ .main) {first : Step}
    (at? : (line.steps d)[0]? = some first) :
    d.price (Name.startCommand (line.stem d first)) = line.reserve d + 3 * d.span + 2 := by
  have start := c.price_start (x := ⟨line, 0, first⟩) ⟨belongs, at?⟩
  rw [Spot.price_site_beside off] at start
  exact start

/-- A request costs its delivery, and so does the answer that it is pending. -/
theorem price_requested {a g : Approval} (attached : a ∈ d.approvals) (link : g ∈ a.chain) :
    d.price (Name.approvalRequested g.gate.name) = 1
      ∧ d.price (Name.approvalPending g.gate.name) = 1 :=
  ⟨c.price_eq (c.wellFormed.mem_plan_iff.mpr (.gate attached link))
      (m := ⟨Name.approvalRequested g.gate.name, .approvalRequested, g.gate.name⟩)
      (by simp [Entry.messages]),
    c.price_message (show (Token.pending a g (.number 0)).In d from ⟨attached, link⟩) (.number 0)⟩

/-- A refusal costs its delivery. -/
theorem price_refusal {x : Spot} (here : x.In d) (guarded : x.step.isGuarded = true) :
    d.price (Name.validationFailedEvent (x.stem d)) = 1 := by
  have refusal := c.price_eq (Definition.mem_sites_iff_mem_plan.mp (here.site_mem c.wellFormed))
    (m := ⟨(x.site d).validationFailedEvent, .validationFailed, (x.site d).phase⟩)
    (by simp [Entry.messages, Site.messages, guarded])
  simpa [Site.validationFailedEvent, Definition.priceOf] using refusal

/-- No message is delivered for nothing. -/
theorem price_pos {tok : Token} (here : tok.In d) : 0 < tok.price d := by
  cases tok with
  | done x update failure =>
    have inside := Spot.In.index_lt_span here c.wellFormed
    by_cases main : x.line = .main
    · have onLine : x.index < d.steps.length := by
        have at? := here.2
        rw [main] at at?
        exact (List.getElem?_eq_some_iff.mp at?).1
      have step := Definition.ahead_succ onLine ∅ (by simp)
      have cheap := d.detourCost_lt_stepCost
      rw [Token.price, Spot.price_site_main main]
      omega
    · rw [Token.price, Spot.price_site_beside main]
      omega
  | _ => simp [Token.price, Definition.recoveryCost, Definition.signalCost]

end Compiled

/-! ## Debts -/

namespace Instance

variable {d : Definition} {i : Instance} {l : Loop}

/-- A counter that starts over costs its turns. -/
theorem debt_counting_zero (i : Instance) (l : Loop) :
    (i.counting (d.control l).counter 0).debt d ≤ i.debt d + d.restartCost l := by
  have each : ∀ l' ∈ d.loops.toFinset, d.turnCost l'
      * (2 ^ 32 - ((i.counting (d.control l).counter 0).counter (d.control l').counter).toNat)
        ≤ d.turnCost l' * (2 ^ 32 - (i.counter (d.control l').counter).toNat)
          + d.turnCost l * 2 ^ 32 := by
    intro l' _
    rw [Instance.counter_counting]
    split
    next shared =>
      rw [Definition.turnCost_eq shared.symm]
      exact le_add_left (Nat.mul_le_mul_left _ (Nat.sub_le _ _))
    next => exact Nat.le_add_right _ _
  calc (i.counting (d.control l).counter 0).debt d
      ≤ i.debt d + d.loops.toFinset.card * (d.turnCost l * 2 ^ 32) := by
        have all := Finset.sum_le_sum each
        rw [Finset.sum_add_distrib, Finset.sum_const, nsmul_eq_mul, Nat.cast_id] at all
        exact all
    _ ≤ i.debt d + d.loops.length * (d.turnCost l * 2 ^ 32) :=
        Nat.add_le_add_left (Nat.mul_le_mul_right _ d.loops.toFinset_card_le) _
    _ = i.debt d + d.restartCost l := by
        rw [Definition.restartCost]
        ring

/-- A counter that counts up has paid for a turn. -/
theorem debt_counting_succ (declared : l ∈ d.loops)
    (room : (i.counter (d.control l).counter).toNat + 1 < 2 ^ 32) :
    (i.counting (d.control l).counter (i.counter (d.control l).counter + 1)).debt d + d.turnCost l
      ≤ i.debt d := by
  have counted : (i.counter (d.control l).counter + 1).toNat
      = (i.counter (d.control l).counter).toNat + 1 := by
    simp only [UInt32.toNat_add, UInt32.toNat_one]
    omega
  have paid := sum_add_le_sum_add (s := d.loops.toFinset) (b := 0) (a := d.turnCost l)
    (f := fun l' => d.turnCost l' * (2 ^ 32 - ((i.counting (d.control l).counter
      (i.counter (d.control l).counter + 1)).counter (d.control l').counter).toNat))
    (g := fun l' => d.turnCost l' * (2 ^ 32 - (i.counter (d.control l').counter).toNat))
    (List.mem_toFinset.mpr declared) ?_ ?_
  · simpa only [Instance.debt, Nat.add_zero] using paid
  · have remaining : 2 ^ 32 - (i.counter (d.control l).counter).toNat
        = 2 ^ 32 - ((i.counter (d.control l).counter).toNat + 1) + 1 := by omega
    simp only [Instance.counter_counting, ↓reduceIte, counted, remaining, Nat.mul_succ]
    omega
  · intro l' _ _
    simp only [Instance.counter_counting]
    split
    next shared =>
      rw [counted, ← shared]
      exact Nat.mul_le_mul_left _ (by omega)
    next => exact Nat.le_refl _

end Instance

/-! ## Forks that start over -/

namespace Definition.WellFormed

variable {d : Definition} (hw : d.WellFormed)

include hw

omit hw in
/-- Where something else follows a step, no fork starts over. -/
theorem renewalCost_eq_zero {x : String} (none : ∀ f ∈ d.forks, f.previousStep ≠ x) :
    d.renewalCost (Name.completedEvent x) = 0 := by
  refine Finset.sum_eq_zero fun f among => ?_
  obtain ⟨declared, name⟩ := Finset.mem_filter.mp among
  exact absurd ((String.append_left_inj _).mp name) (none f (List.mem_toFinset.mp declared))

/-- Only the step in front of a fork opens joins again, and that step carries nothing else. -/
theorem renewalCost_of_attached {x label : String} (attached : (x, label) ∈ d.attachments)
    (other : label ≠ "fork") : d.renewalCost (Name.completedEvent x) = 0 := by
  refine renewalCost_eq_zero fun f declared after => ?_
  exact other (hw.attached_once attached (after ▸ attached_fork declared))

/-- Joins lie ahead of the step before their fork. -/
theorem renewalCost_le (forward : d.Forward) {k : Nat} {y : Step} (at? : d.steps[k]? = some y) :
    d.renewalCost (Name.completedEvent y.identifier) ≤ d.ahead (k + 1) + 2 := by
  by_cases some : ∃ f ∈ d.forks, f.previousStep = y.identifier
  · obtain ⟨f, declared, after⟩ := some
    have one : (d.forks.toFinset.filter fun f' =>
        Name.completedEvent f'.previousStep = Name.completedEvent y.identifier) = {f} := by
      ext f'
      rw [Finset.mem_filter, Finset.mem_singleton, List.mem_toFinset]
      constructor
      · rintro ⟨declared', name⟩
        exact List.inj_on_of_nodup_map hw.forks_distinct declared' declared
          (((String.append_left_inj _).mp name).trans after.symm)
      · rintro rfl
        exact ⟨declared, by rw [after]⟩
    have later := forward.join f declared
    rw [after, hw.positionOf_eq at?] at later
    rw [renewalCost, one, Finset.sum_singleton]
    exact Nat.add_le_add_right (ahead_anti later) 2
  · push Not at some
    rw [renewalCost_eq_zero some]
    exact Nat.zero_le _

end Definition.WellFormed

/-! ## Rules -/

section Rules

variable {d : Definition} {i : Instance} {calls : List Call} {budget : Nat}

/-- Starting a step costs the start and leaves the debts. -/
theorem under_starting {stem : String}
    (cheap : d.price (Name.startCommand stem) + i.debt d < budget) :
    (i.starting calls stem).Under d budget := by
  intro es ok
  cases ok
  simpa [Effect.toll, Instance.starting] using cheap

/-- Where nothing is sent only the debts are left. -/
theorem under_nothing (owes : i.debt d < budget) : Applied.Under d ⟨i, calls, .ok []⟩ budget := by
  intro es ok
  cases ok
  simpa using owes

theorem under_finishing {phase : String} (owes : i.debt d < budget) :
    (i.finishing calls phase).Under d budget :=
  under_nothing (i := { i with phase, isFinished := true }) owes

/-- A fault sends nothing. -/
theorem under_error {f : Fault} : Applied.Under d ⟨i, calls, .error f⟩ budget := by
  intro es ok
  cases ok

end Rules

namespace Compiled

variable {d : Definition} {h : Host} (c : Compiled d h.table) (forward : d.Forward)

include c

/-- A request costs little beside what its gate sets aside for the answers. -/
theorem under_requested {a g : Approval} (attached : a ∈ d.approvals) (link : g ∈ a.chain)
    (i : Instance) (calls : List Call) : (g.gate.requested i calls).Under d (3 + i.debt d) := by
  obtain ⟨requested, pending⟩ := c.price_requested attached link
  intro es ok
  cases ok
  have same : (g.gate.requested i calls).inst.debt d = i.debt d := rfl
  simp only [List.map_singleton, List.sum_singleton, Effect.toll, requested, pending, same]
  omega

/-- A fork pays for each of its paths. -/
theorem under_started {f : Fork} (declared : f ∈ d.forks) (i : Instance) (calls : List Call) :
    (f.started i calls).Under d (f.paths.length * d.detourCost + 1 + i.debt d) := by
  intro es ok
  cases ok
  have each : ∀ n ∈ (f.paths.filterMap fun steps => steps.head?.map fun first =>
      Effect.send ⟨Name.startCommand first.identifier, i.id, .empty⟩).map (Effect.toll d),
        n ≤ d.detourCost := by
    intro n among
    obtain ⟨e, he, rfl⟩ := List.mem_map.mp among
    obtain ⟨steps, path, head⟩ := List.mem_filterMap.mp he
    obtain ⟨first, leads, rfl⟩ := Option.map_eq_some_iff.mp head
    obtain ⟨p, here⟩ := List.mem_iff_getElem?.mp path
    rw [List.head?_eq_getElem?] at leads
    have at? : ((Line.fork f p).steps d)[0]? = some first := by
      simp [Line.steps, List.getD_eq_getElem?_getD, here, leads]
    exact (c.price_startBeside (.fork f p) declared (by simp) at?).le
  have all := List.sum_le_card_nsmul _ _ each
  have few := List.length_filterMap_le (fun steps : List Step => steps.head?.map fun first =>
    Effect.send ⟨Name.startCommand first.identifier, i.id, .empty⟩) f.paths
  rw [List.length_map, nsmul_eq_mul, Nat.cast_id] at all
  have total := all.trans (Nat.mul_le_mul_right d.detourCost few)
  have same : (f.started i calls).inst.debt d = i.debt d := rfl
  rw [same]
  omega

include forward

/-- A path that rejoins pays for what lies ahead of its branch: it rejoins further on. -/
theorem under_rejoined {b : Branch} (hb : b ∈ d.branches) (k : Case) (i : Instance)
    (calls : List Call) : (b.rejoined k i calls).Under d
      (d.ahead (d.positionOf b.previousStep + 1) + 3 + i.debt d) := by
  unfold Branch.rejoined
  split
  next step _ rejoins =>
    refine under_starting ?_
    rw [c.price_startOnMain (c.wellFormed.branch_rejoin b hb step rejoins)]
    have later : d.ahead (d.positionOf step) ≤ d.ahead (d.positionOf b.previousStep + 1) :=
      Definition.ahead_anti (forward.rejoin b hb step rejoins)
    omega
  next => exact under_finishing (by omega)

/-- A branch pays for one path and for what lies ahead. -/
theorem under_chosen {b : Branch} (hb : b ∈ d.branches) (i : Instance) (calls : List Call) :
    (b.chosen i calls).Under d
      (d.ahead (d.positionOf b.previousStep + 1) + d.detourCost + 1 + i.debt d) := by
  unfold Branch.chosen
  dsimp only
  split
  next => exact under_error
  next k chosen =>
    have member := Branch.mem_cases_of_select? chosen
    split
    next first rest steps =>
      have start : d.price (Name.startCommand (Name.branchPhase b.loopScope k.label first.identifier))
          = (Line.path b k).reserve d + 3 * d.span + 2 :=
        c.price_startBeside (.path b k) ⟨hb, member⟩ (by simp) (by simp [Line.steps, steps])
      refine under_starting ?_
      rw [start, Line.reserve, Definition.detourCost]
      omega
    next => exact (c.under_rejoined forward hb k i calls).mono (by rw [Definition.detourCost]; omega)

/-- A loop that is left leads on behind its body, or to the loops around it. -/
theorem under_loopLeft {l : Loop} (declared : l ∈ d.loops) {i : Instance} {calls : List Call}
    {outward : Applied} {budget : Nat} (cheap : d.ahead (d.bodyLast l + 1) + 2 + i.debt d < budget)
    (outer : outward.Under d budget) :
    Applied.Under d (match l.continuation with
      | some step => i.starting calls step
      | none => outward) budget := by
  split
  next step leads =>
    refine under_starting ?_
    rw [c.price_startOnMain (c.wellFormed.loop_continuation l declared step leads)]
    have later : d.ahead (d.positionOf step) ≤ d.ahead (d.bodyLast l + 1) :=
      Definition.ahead_anti (forward.continuation l declared step leads)
    omega
  next => exact outer

omit forward in
/-- The loops that end at a step before one of them lie inside it. -/
theorem outer_or_deeper {x : String} {front outer : List Loop} {l : Loop}
    (stack : d.loopsEndingAt x = front ++ l :: outer) : ∀ l' ∈ d.loops, d.bodyLast l' = d.bodyLast l →
      l' ∈ (l :: outer).toFinset ∨ l' ∈ d.deeper l := by
  intro l' declared' same
  obtain ⟨declared, lastStep⟩ := Definition.mem_loopsEndingAt_iff.mp
    (show l ∈ d.loopsEndingAt x by simp [stack])
  have shared := c.wellFormed.positionOf_inj (c.wellFormed.loop_last l' declared')
    (c.wellFormed.loop_last l declared) same
  have among := Definition.mem_loopsEndingAt_iff.mpr ⟨declared', shared.trans lastStep⟩
  have nested := c.wellFormed.pairwise_loopsEndingAt x
  rw [stack] at among nested
  rcases List.mem_append.mp among with before | after
  · have inside := (List.pairwise_append.mp nested).2.2 l' before l List.mem_cons_self
    exact .inr (Definition.mem_deeper_iff.mpr
      ⟨declared', c.wellFormed.length_loopPath_lt declared' inside⟩)
  · exact .inl (List.mem_toFinset.mpr after)

/-- Where loops end, another turn is paid for by the debt of its counter, and a counter that starts over
by what is set aside for it. -/
theorem under_loopsEnded {k : Nat} {x : Step} (at? : d.steps[k]? = some x) {front loops : List Loop}
    (stack : d.loopsEndingAt x.identifier = front ++ loops) (cx : Collaborators) {i : Instance}
    (bounded : i.Bounded d) (calls : List Call) :
    (d.loopsEnded cx loops i calls).Under d
      (d.ahead (k + 1) + 3 + ∑ l ∈ loops.toFinset, d.restartCost l + i.debt d) := by
  induction loops generalizing front i calls with
  | nil => exact under_finishing (by omega)
  | cons l outer ih =>
    have among : l ∈ d.loopsEndingAt x.identifier := by simp [stack]
    obtain ⟨declared, lastStep⟩ := Definition.mem_loopsEndingAt_iff.mp among
    have last : d.bodyLast l = k := by
      rw [Definition.bodyLast, lastStep, c.wellFormed.positionOf_eq at?]
    have distinct := c.wellFormed.loopsEndingAt_nodup x.identifier
    rw [stack] at distinct
    have apart : l ∉ outer.toFinset := by
      simpa using (List.nodup_cons.mp distinct.of_append_right).1
    have positive : (0 : UInt32) < l.maxIterations := c.bound_pos declared
    have total : ∑ l ∈ (l :: outer).toFinset, d.restartCost l
        = d.restartCost l + ∑ l ∈ outer.toFinset, d.restartCost l := by
      rw [List.toFinset_cons, Finset.sum_insert apart]
    rw [total]
    have reset := Instance.debt_counting_zero i l (d := d)
    have cheap : d.ahead (d.bodyLast l + 1) + 2 + (i.counting (d.control l).counter 0).debt d
        < d.ahead (k + 1) + 3 + (d.restartCost l + ∑ l ∈ outer.toFinset, d.restartCost l)
          + i.debt d := by
      rw [last]
      omega
    have around : ∀ calls : List Call,
        (d.loopsEnded cx outer (i.counting (d.control l).counter 0) calls).Under d
          (d.ahead (k + 1) + 3 + (d.restartCost l + ∑ l ∈ outer.toFinset, d.restartCost l)
            + i.debt d) := by
      intro calls
      have deeper : d.loopsEndingAt x.identifier = front ++ [l] ++ outer := by simp [stack]
      have onward := ih deeper (bounded.counting declared positive) calls
      exact onward.mono (by omega)
    simp only [Definition.loopsEnded]
    split
    · exact c.under_loopLeft forward declared cheap (around calls)
    next below =>
      split
      · exact c.under_loopLeft forward declared cheap (around _)
      · have room : (i.counter (d.control l).counter).toNat + 1 < 2 ^ 32 := by
          rcases bounded.counter_cases (d.control l).counter with zero | ⟨l', _, _, under⟩
          · rw [zero]
            decide
          · have limit := l'.maxIterations.toNat_lt
            have lower := UInt32.lt_iff_toNat_lt.mp under
            omega
        have paid : (i.counting (Name.iterationCounter (d.loopNames l))
            (i.counter (Name.iterationCounter (d.loopNames l)) + 1)).debt d + d.turnCost l ≤ i.debt d :=
          Instance.debt_counting_succ declared room
        have back := c.wellFormed.ahead_bodyFirst_le declared (c.outer_or_deeper stack)
        rw [last, Definition.bodyFirst] at back
        refine under_starting ?_
        rw [c.price_startOnMain (c.wellFormed.loop_first l declared)]
        omega

/-- The end of a line beside the main one is paid for by what was set aside for it. -/
theorem under_lineEnded {line : Line} (belongs : line.In d) (i : Instance) (calls : List Call) :
    (d.lineEnded line i calls).Under d (line.reserve d + 3 + i.debt d) := by
  cases line with
  | main => exact under_finishing (by omega)
  | path b k =>
    refine (c.under_rejoined forward belongs.1 k i calls).mono ?_
    rw [Line.reserve]
    omega
  | fork f p =>
    intro es ok
    cases ok
    have same : (d.lineEnded (.fork f p) i calls).inst.debt d = i.debt d := rfl
    simp only [Fork.report, List.map_singleton, List.sum_singleton, Effect.toll, same]
    omega
  | escalation a g =>
    simp only [Definition.lineEnded]
    split
    next y next? =>
      have known := Definition.WellFormed.mem_stepNames_of_successor? next?
      refine under_starting ?_
      rw [c.price_startOnMain known, Line.reserve]
      have later : d.ahead (d.positionOf y.identifier) ≤ d.ahead 0 :=
        Definition.ahead_anti (Nat.zero_le _)
      omega
    next => exact under_finishing (by omega)
  | rejection a g => exact under_finishing (by omega)
  | recovery g =>
    have terminal : g.isTerminal = true := forward.terminal g belongs
    simp only [Definition.lineEnded, terminal, ↓reduceIte]
    exact under_finishing (by omega)

/-- Off the main line the next step, or what follows the line's end, is paid for. -/
theorem under_onward {x : Spot} (here : x.In d) (off : x.line ≠ .main) (i : Instance)
    (calls : List Call) : Applied.Under d (match (x.line.steps d)[x.index + 1]? with
      | some y => i.starting calls (x.line.stem d y)
      | none => d.lineEnded x.line i calls) ((x.site d).price d + i.debt d) := by
  have inside := here.index_lt_span c.wellFormed
  rw [Spot.price_site_beside off]
  split
  next y at? =>
    have start := c.price_start (x := ⟨x.line, x.index + 1, y⟩) ⟨here.1, at?⟩
    rw [Spot.price_site_beside (x := ⟨x.line, x.index + 1, y⟩) off, Spot.stem] at start
    refine under_starting ?_
    rw [start]
    dsimp only
    omega
  next => exact (c.under_lineEnded forward here.1 i calls).mono (by omega)

/-- A step of the main line pays for whatever follows it, one case for each attachment. -/
theorem under_succeeded_main {k : Nat} {x : Step} (at? : d.steps[k]? = some x) (cx : Collaborators)
    {i : Instance} (bounded : i.Bounded d) (calls : List Call) :
    (d.succeeded cx .main k x i calls).Under d
      (d.ahead k + i.debt d - d.renewalCost (Name.completedEvent x.identifier)) := by
  have onLine : k < d.steps.length := (List.getElem?_eq_some_iff.mp at?).1
  have step := Definition.ahead_succ onLine ∅ (by simp)
  have cheap := d.detourCost_lt_stepCost
  have dear : 3 ≤ d.detourCost := by
    rw [Definition.detourCost, Definition.recoveryCost]
    omega
  rw [Finset.sum_empty] at step
  have place := c.wellFormed.positionOf_eq at?
  have after := c.wellFormed.succeeded_main cx k x i calls
  generalize d.succeeded cx .main k x i calls = r at after ⊢
  cases after with
  | loops some =>
    obtain ⟨l, outer, stack⟩ := List.exists_cons_of_ne_nil some
    have ending : ∀ l' ∈ (d.loopsEndingAt x.identifier).toFinset, l' ∈ d.loops ∧ d.bodyLast l' = k := by
      intro l' among
      rw [List.mem_toFinset, Definition.mem_loopsEndingAt_iff] at among
      exact ⟨among.1, by rw [Definition.bodyLast, among.2, place]⟩
    have stacked := Definition.ahead_succ onLine _ ending
    obtain ⟨declared, last⟩ := Definition.mem_loopsEndingAt_iff.mp
      (show l ∈ d.loopsEndingAt x.identifier by simp [stack])
    rw [c.wellFormed.renewalCost_of_attached (last ▸ Definition.attached_loop declared) (by decide)]
    exact (c.under_loopsEnded forward at? (List.nil_append _).symm cx bounded calls).mono (by omega)
  | branch b member after =>
    rw [c.wellFormed.renewalCost_of_attached (after ▸ Definition.attached_branch member) (by decide)]
    have chosen := c.under_chosen forward member i calls
    rw [after, place] at chosen
    exact chosen.mono (by omega)
  | approval a member after =>
    rw [c.wellFormed.renewalCost_of_attached (after ▸ Definition.attached_approval member) (by decide)]
    exact (c.under_requested member a.mem_chain_self i calls).mono (by omega)
  | fork f member after =>
    have paths := Definition.paths_add_detourCost_lt_stepCost member
    have renewal := c.wellFormed.renewalCost_le forward at?
    exact (c.under_started member i calls).mono (by omega)
  | next last free y next? =>
    rw [Definition.WellFormed.renewalCost_eq_zero free]
    have start := c.price_start (x := ⟨.main, k + 1, y⟩) ⟨trivial, next?⟩
    rw [Spot.price_site_main rfl] at start
    refine under_starting ?_
    change d.price (Name.startCommand y.identifier) = d.ahead (k + 1) + 2 at start
    omega
  | complete last free =>
    rw [Definition.WellFormed.renewalCost_eq_zero free]
    exact under_finishing (by omega)

omit forward in
/-- A failure costs its handler. -/
theorem under_failed (line : Line) (x : Step) (failure : StepFailure) {i : Instance}
    (calls : List Call) {budget : Nat} (owes : i.debt d < budget)
    (handled : ∀ g, line.handler? d x = some g → d.recoveryCost + i.debt d < budget) :
    (d.failed line x failure i calls).Under d budget := by
  cases takes : line.handler? d x with
  | some g =>
    have declared : (Token.trigger g (.capture (line.phase d x) failure)).In d :=
      Line.handler_mem line (by rw [Line.handler_site, takes])
    have price := c.price_message declared i.id
    simp only [Token.message, Token.price] at price
    have enough := handled g takes
    intro es ok
    have same : (d.failed line x failure i calls).inst.debt d = i.debt d := by
      simp only [Definition.failed, takes]
      rfl
    simp only [Definition.failed, takes, Except.ok.injEq] at ok
    have nothing : ∀ f : Fork, ((if f.failFast then
        [Effect.cancelFork (Name.forkId f.previousStep)] else []).map (Effect.toll d)).sum = 0 := by
      intro f
      split <;> rfl
    rw [← ok, same, List.map_append, List.sum_append]
    cases line <;>
      simp only [nothing, List.map_nil, List.sum_nil, List.map_singleton, List.sum_singleton,
        Effect.toll, price] <;>
      omega
  | none =>
    simp only [Definition.failed, takes]
    cases line with
    | fork f p =>
      dsimp only
      split
      next failFast =>
        intro es ok
        cases ok
        simpa [Effect.toll, Instance.debt, Instance.counter] using owes
      next =>
        intro es ok
        cases ok
        simpa [Fork.report, Effect.toll, Instance.debt, Instance.counter] using owes
    | _ => exact under_error

omit forward in
/-- Only completions on the main line open joins again. -/
theorem renewalCost_message {tok : Token} (here : tok.In d) (id : Key)
    (off : ∀ x update failure, tok = .done x update failure → x.line ≠ .main) :
    d.renewalCost (tok.message d id).name = 0 := by
  refine Finset.sum_eq_zero fun f among => ?_
  obtain ⟨declared, name⟩ := Finset.mem_filter.mp among
  obtain ⟨x, update, failure, rfl, main, _⟩ :=
    c.eq_done_of_trigger here (List.mem_toFinset.mp declared) name
  exact absurd main (off x update failure rfl)

/-- So it does where it fails, since recoveries are cheaper. -/
theorem under_completed_main {k : Nat} {x : Step} (at? : d.steps[k]? = some x) (cx : Collaborators)
    (update : Value) (failure : Option StepFailure) {i : Instance} (bounded : i.Bounded d)
    (calls : List Call) : (d.completed cx .main k x update failure i calls).Under d
      (d.ahead k + i.debt d - d.renewalCost (Name.completedEvent x.identifier)) := by
  cases failure with
  | none =>
    exact c.under_succeeded_main forward at? cx
      (i := { i with state := cx.reduce i.state update }) bounded calls
  | some failure =>
    have onLine : k < d.steps.length := (List.getElem?_eq_some_iff.mp at?).1
    have step := Definition.ahead_succ onLine ∅ (by simp)
    rw [Finset.sum_empty] at step
    have cheap := d.detourCost_lt_stepCost
    have renewal := c.wellFormed.renewalCost_le forward at?
    have dear : d.recoveryCost + 2 ≤ d.detourCost := by
      rw [Definition.detourCost]
      omega
    have same : Instance.debt d { i with state := cx.reduce i.state update } = i.debt d := rfl
    refine c.under_failed .main x failure calls ?_ fun g _ => ?_ <;>
      rw [same] <;> omega

/-- A step beside the main line pays for the rest of its line. -/
theorem under_completed_beside {x : Spot} (here : x.In d) (off : x.line ≠ .main) (cx : Collaborators)
    (update : Value) (failure : Option StepFailure) (i : Instance) (calls : List Call) :
    (d.completed cx x.line x.index x.step update failure i calls).Under d
      ((x.site d).price d + i.debt d) := by
  have same : Instance.debt d { i with state := cx.reduce i.state update } = i.debt d := rfl
  cases failure with
  | none =>
    rw [Definition.completed, d.succeeded_beside cx off, ← same]
    exact c.under_onward forward here off _ calls
  | some failure =>
    have inside := here.index_lt_span c.wellFormed
    rw [Spot.price_site_beside off]
    refine c.under_failed x.line x.step failure calls ?_ fun g takes => ?_
    · rw [same]
      omega
    · have reserve : d.recoveryCost ≤ x.line.reserve d := by
        cases line : x.line with
        | main => exact absurd line off
        | recovery g' =>
          rw [line] at takes
          cases takes
        | _ => simp [Line.reserve]
      rw [same]
      omega

omit forward in
/-- The start of a step pays for its work or for its refusal. -/
theorem under_begun {x : Spot} (here : x.In d) (cx : Collaborators) (i : Instance)
    (calls : List Call) : (x.started d cx i calls).Under d ((x.site d).price d + 2 + i.debt d) := by
  have work := c.price_message (show (Token.work x i.state).In d from here) i.id
  have working : ∀ calls : List Call, Applied.Under d ⟨{ i with phase := x.phase d }, calls,
      .ok [.send ((Token.work x i.state).message d i.id)]⟩ ((x.site d).price d + 2 + i.debt d) := by
    intro calls es ok
    cases ok
    have same : Instance.debt d { i with phase := x.phase d } = i.debt d := rfl
    simp only [List.map_singleton, List.sum_singleton, Effect.toll, work, same]
    simp only [Token.message, Token.price]
    omega
  unfold Spot.started
  dsimp only
  cases guard : x.step.guard with
  | none => exact working calls
  | some g =>
    dsimp only
    split
    · exact working _
    · intro es ok
      cases ok
      have same : Instance.debt d { i with phase := Name.validationFailed } = i.debt d := rfl
      simp only [List.map_singleton, List.sum_singleton, Effect.toll, same,
        c.price_refusal here (by rw [Step.isGuarded, guard]; rfl)]
      omega

omit forward in
theorem under_refused {a g : Approval} (attached : a ∈ d.approvals) (link : g ∈ a.chain)
    (i : Instance) (calls : List Call) :
    (g.gate.refused i calls).Under d (d.detourCost + 1 + i.debt d) := by
  unfold Gate.refused
  split
  next first rest steps =>
    have start : d.price (Name.startCommand (Name.rejectionPhase g.gate.name first.identifier))
        = (Line.rejection a g).reserve d + 3 * d.span + 2 :=
      c.price_startBeside (.rejection a g) ⟨attached, link⟩ (by simp) (by simp [Line.steps, steps])
    refine under_starting ?_
    rw [start, Line.reserve, Definition.detourCost]
    omega
  next => exact under_finishing (by omega)

omit forward in
theorem under_escalated {a g : Approval} (attached : a ∈ d.approvals) (link : g ∈ a.chain)
    (i : Instance) (calls : List Call) : (g.escalated i calls).Under d (d.signalCost + i.debt d) := by
  rw [Definition.signalCost]
  cases g with
  | failing g => exact under_finishing (by omega)
  | running g steps =>
    cases steps with
    | nil => exact under_finishing (by omega)
    | cons first rest =>
      have start : d.price (Name.startCommand (Name.escalationPhase g.name first.identifier))
          = (Line.escalation a (.running g (first :: rest))).reserve d + 3 * d.span + 2 :=
        c.price_startBeside (.escalation a (.running g (first :: rest))) ⟨attached, link⟩ (by simp) rfl
      refine under_starting ?_
      rw [start, Line.reserve, Definition.detourCost]
      omega
  | asking g next =>
    refine (c.under_requested attached (Approval.next_mem_chain link) i calls).mono ?_
    rw [Definition.detourCost, Definition.recoveryCost]
    omega

theorem under_settled {a g : Approval} (attached : a ∈ d.approvals) (link : g ∈ a.chain)
    (decision : Decision) (i : Instance) (calls : List Call) :
    (a.settled d g decision i calls).Under d (d.signalCost + i.debt d) := by
  have wide : 0 < d.span := Nat.succ_pos _
  rw [Definition.signalCost]
  cases decision with
  | approved =>
    have belongs : (Line.escalation a g).In d := ⟨attached, link⟩
    refine (c.under_lineEnded forward belongs
      { i with lastDecision := some .approved, pendingApproval := none } calls).mono ?_
    have same : Instance.debt d { i with lastDecision := some .approved, pendingApproval := none }
      = i.debt d := rfl
    rw [same, Line.reserve, Definition.detourCost]
    omega
  | rejected =>
    exact (c.under_refused attached link
      { i with lastDecision := some .rejected, pendingApproval := none } calls).mono
        (Nat.add_le_add_right (by omega) _)
  | deferred =>
    exact under_nothing (i := { i with lastDecision := some .deferred }) (by
      rw [show Instance.debt d { i with lastDecision := some .deferred } = i.debt d from rfl]
      omega)

/-- In a forward definition the rule of every token costs less than the token. -/
theorem applied_under {tok : Token} (here : tok.In d) (consumed : tok.kind ≠ .executeWorker)
    (cx : Collaborators) {i : Instance} (bounded : i.Bounded d) (calls : List Call) :
    (tok.applied d cx i calls).Under d
      (tok.price d + i.debt d - d.renewalCost (tok.message d i.id).name) := by
  have positive := c.price_pos here
  cases tok with
  | done x update failure =>
    by_cases main : x.line = .main
    · obtain ⟨line, k, y⟩ := x
      subst main
      exact c.under_completed_main forward here.2 cx update failure bounded calls
    · have free := c.renewalCost_message here i.id fun x' _ _ same => by
        cases same
        exact main
      rw [free, Nat.sub_zero]
      exact c.under_completed_beside forward here main cx update failure i calls
  | start x =>
    rw [c.renewalCost_message here i.id (by simp)]
    exact c.under_begun here cx i calls
  | work x state => exact absurd rfl consumed
  | trigger g failure =>
    rw [c.renewalCost_message here i.id (by simp), Nat.sub_zero]
    simp only [Token.applied]
    split
    next first rest steps =>
      have start : d.price (Name.startCommand (Name.recoveryPhase g.id first.identifier))
          = (Line.recovery g).reserve d + 3 * d.span + 2 :=
        c.price_startBeside (.recovery g) here (by simp) (by simp [Line.steps, steps])
      refine under_starting ?_
      rw [start, Line.reserve, Token.price, Definition.recoveryCost,
        show Instance.debt d { i with failureContext := some failure } = i.debt d from rfl]
      omega
    next =>
      exact under_nothing (i := { i with failureContext := some failure })
        (Nat.lt_add_of_pos_left positive)
  | pending a g correlation =>
    rw [c.renewalCost_message here i.id (by simp), Nat.sub_zero]
    exact under_nothing (i := { i with pendingApproval := some correlation })
      (Nat.lt_add_of_pos_left positive)
  | decided a g correlation decision =>
    rw [c.renewalCost_message here i.id (by simp), Nat.sub_zero]
    simp only [Token.applied]
    split
    · exact c.under_settled forward here.1 here.2 decision i calls
    · exact under_nothing (Nat.lt_add_of_pos_left positive)
  | timedOut a g correlation =>
    rw [c.renewalCost_message here i.id (by simp), Nat.sub_zero]
    simp only [Token.applied]
    split
    · exact c.under_escalated here.1 here.2 { i with pendingApproval := none } calls
    · exact under_nothing (Nat.lt_add_of_pos_left positive)

end Compiled

end Workflow
