import Workflow.Proofs.Machine.Frame

/-!
The turns of loops: evaluations of their control, one by one.

`Run.trace` follows a continuation as the machine does, and notes what the control of each loop on the
way has found and decided. Turns that share a counter form a chain, in which each finds the count that
the one before it has left. Below the bound a chain counts up with every turn that goes round, so there
are fewer such turns in a row than the bound.
-/

set_option autoImplicit false

namespace Workflow

/-- The control of a loop, as compiled. -/
def Definition.control (d : Definition) (l : Loop) : LoopControl where
  loopPath := Name.loopPath (d.loopNames l)
  counter := Name.iterationCounter (d.loopNames l)
  check := Name.exitCheck (d.loopNames l)
  conditionId := l.conditionId
  maxIterations := l.maxIterations
  again := Name.startCommand l.firstStep

/-- One evaluation of the control of a loop: the count it found, and whether it left the loop. -/
structure Turn where
  control : LoopControl
  count : UInt32
  leaves : Bool
  deriving DecidableEq, Repr

namespace Turn

/-- The count it leaves. -/
def after (t : Turn) : UInt32 := if t.leaves then 0 else t.count + 1

/-- A loop goes round below its bound only. -/
def Lawful (t : Turn) : Prop := t.leaves = false → t.count + 1 < t.control.maxIterations

/-- The condition of its loop does not hold, in whatever state. -/
def Unmet (cx : Collaborators) (t : Turn) : Prop :=
  ∀ calls state, cx.conditions calls t.control.conditionId state = false

/-- The turns on a counter. -/
def on (counter : String) (turns : List Turn) : List Turn :=
  turns.filter fun t => t.control.counter = counter

/-- A chain of turns on one counter, from the count before to the count after. -/
inductive Leads : UInt32 → List Turn → UInt32 → Prop
  | nil (n : UInt32) : Leads n [] n
  | cons {t : Turn} {rest : List Turn} {n : UInt32} (later : Leads t.after rest n) :
      Leads t.count (t :: rest) n

namespace Leads

variable {n n' : UInt32} {turns : List Turn}

theorem append {n'' : UInt32} {later : List Turn} (first : Leads n turns n')
    (second : Leads n' later n'') : Leads n (turns ++ later) n'' := by
  induction first with
  | nil => exact second
  | cons _ ih => exact (ih second).cons

theorem split {later : List Turn} (leads : Leads n (turns ++ later) n') :
    ∃ between, Leads n turns between ∧ Leads between later n' := by
  induction turns generalizing n with
  | nil => exact ⟨n, .nil n, leads⟩
  | cons t rest ih =>
    cases leads with
    | cons leads =>
      obtain ⟨between, first, second⟩ := ih leads
      exact ⟨between, first.cons, second⟩

/-- Turns of one loop that all go round count up, and stay below its bound. -/
theorem rounds {bound : UInt32} (leads : Leads n turns n') (lawful : ∀ t ∈ turns, t.Lawful)
    (observed : ∀ t ∈ turns, t.control.maxIterations = bound) (below : n < bound)
    (rounds : ∀ t ∈ turns, t.leaves = false) :
    n'.toNat = n.toNat + turns.length ∧ n' < bound := by
  induction leads with
  | nil => exact ⟨rfl, below⟩
  | @cons t rest n' _ ih =>
    have round := rounds t List.mem_cons_self
    have next : t.count + 1 < bound := by
      rw [← observed t List.mem_cons_self]
      exact lawful t List.mem_cons_self round
    -- the count is below the bound, so counting up does not overflow
    have counted : (t.count + 1).toNat = t.count.toNat + 1 := by
      have := UInt32.lt_iff_toNat_lt.mp below
      have := bound.toNat_lt
      simp only [UInt32.toNat_add, UInt32.toNat_one]
      omega
    have after : t.after = t.count + 1 := by simp [Turn.after, round]
    obtain ⟨last, small⟩ := ih (fun t' ht' => lawful t' (List.mem_cons_of_mem _ ht'))
      (fun t' ht' => observed t' (List.mem_cons_of_mem _ ht')) (after ▸ next)
      (fun t' ht' => rounds t' (List.mem_cons_of_mem _ ht'))
    rw [after, counted] at last
    refine ⟨?_, small⟩
    rw [List.length_cons]
    omega

/-- So a turn after such turns has found as many more. -/
theorem count_eq {bound : UInt32} {front rest : List Turn} {t : Turn}
    (leads : Leads n (front ++ t :: rest) n') (lawful : ∀ t ∈ front, t.Lawful)
    (observed : ∀ t ∈ front, t.control.maxIterations = bound) (below : n < bound)
    (rounds : ∀ t ∈ front, t.leaves = false) :
    t.count.toNat = n.toNat + front.length ∧ t.count < bound := by
  obtain ⟨between, first, later⟩ := leads.split
  have found : between = t.count := by cases later; rfl
  rw [← found]
  exact first.rounds lawful observed below rounds

end Leads

end Turn

/-! ## Following a continuation -/

/-- Go where a continuation leads, and note the turns on the way. -/
def Run.trace (cx : Collaborators) (r : Run) : Continuation → Run × List Turn
  | .loop c exit =>
    let count := r.inst.counter c.counter
    let counted := r.setCounter c.counter (count + 1)
    if c.maxIterations ≤ count + 1 then
      let left := (counted.setCounter c.counter 0).trace cx exit
      (left.1, ⟨c, count, true⟩ :: left.2)
    else
      let (leaves, asked) := counted.ask cx c.conditionId
      if leaves then
        let left := (asked.setCounter c.counter 0).trace cx exit
        (left.1, ⟨c, count, true⟩ :: left.2)
      else (asked.send c.again, [⟨c, count, false⟩])
  | k => (r.follow cx k, [])

theorem Instance.counter_counting (i : Instance) (counter other : String) (n : UInt32) :
    (i.counting counter n).counter other = if counter = other then n else i.counter other := by
  unfold Instance.counting Instance.counter
  rw [Keyed.get?_insert]
  split <;> rfl

namespace Run

variable (cx : Collaborators) (r : Run)

/-- What is noted changes nothing. -/
theorem trace_fst (k : Continuation) : (r.trace cx k).1 = r.follow cx k := by
  induction k generalizing r with
  | loop c exit ih =>
    simp only [trace, follow]
    split
    · exact ih _
    · split
      · exact ih _
      · rfl
  | _ => rfl

/-- The control of a loop leaves it with the count at zero, or goes round below the bound. -/
theorem trace_loop (c : LoopControl) (exit : Continuation) :
    (∃ left : Run, left.inst.counters = (r.inst.counting c.counter 0).counters
      ∧ r.trace cx (.loop c exit) = ((left.trace cx exit).1,
        ⟨c, r.inst.counter c.counter, true⟩ :: (left.trace cx exit).2))
    ∨ ∃ round : Run,
      round.inst.counters = (r.inst.counting c.counter (r.inst.counter c.counter + 1)).counters
        ∧ r.inst.counter c.counter + 1 < c.maxIterations
        ∧ r.trace cx (.loop c exit) = (round, [⟨c, r.inst.counter c.counter, false⟩]) := by
  have reset : ∀ calls, ({ (r.setCounter c.counter (r.inst.counter c.counter + 1)).setCounter
      c.counter 0 with calls } : Run).inst.counters = (r.inst.counting c.counter 0).counters :=
    fun _ => Keyed.insert_insert _ _ _ _
  simp only [trace]
  split
  · exact .inl ⟨_, reset _, rfl⟩
  next below =>
    split
    · exact .inl ⟨_, reset _, rfl⟩
    · exact .inr ⟨_, rfl, UInt32.not_le.mp below, rfl⟩

/-- Turns come in the order of the loops, from the first on. -/
theorem trace_controls (k : Continuation) : (r.trace cx k).2.map Turn.control <+: k.controls := by
  induction k generalizing r with
  | loop c exit ih =>
    rcases r.trace_loop cx c exit with ⟨left, _, same⟩ | ⟨round, _, _, same⟩
    · rw [same]
      exact List.cons_prefix_cons.mpr ⟨rfl, ih left⟩
    · rw [same]
      exact List.cons_prefix_cons.mpr ⟨rfl, List.nil_prefix⟩
  | _ => exact List.nil_prefix

theorem trace_lawful (k : Continuation) : ∀ t ∈ (r.trace cx k).2, t.Lawful := by
  induction k generalizing r with
  | loop c exit ih =>
    rcases r.trace_loop cx c exit with ⟨left, _, same⟩ | ⟨round, _, below, same⟩
    · rw [same]
      exact List.forall_mem_cons.mpr ⟨fun stays => (nomatch stays), ih left⟩
    · rw [same]
      exact List.forall_mem_cons.mpr ⟨fun _ => below, by simp⟩
  | _ => simp [trace]

/-- Where its condition does not hold, a loop is left at its bound only. -/
theorem trace_unmet (k : Continuation) : ∀ t ∈ (r.trace cx k).2, t.Unmet cx → t.leaves = true →
    t.control.maxIterations ≤ t.count + 1 := by
  induction k generalizing r with
  | loop c exit ih =>
    simp only [trace]
    split
    next full => exact List.forall_mem_cons.mpr ⟨fun _ _ => full, ih _⟩
    · split
      next met =>
        refine List.forall_mem_cons.mpr ⟨fun unmet _ => ?_, ih _⟩
        rw [show Prod.fst _ = false from unmet _ _] at met
        cases met
      · exact List.forall_mem_singleton.mpr fun _ leaves => nomatch leaves
  | _ => exact fun t ht => nomatch ht

/-- On each counter the turns are a chain from the count before to the count after. -/
theorem trace_leads (counter : String) (k : Continuation) :
    Turn.Leads (r.inst.counter counter) (Turn.on counter (r.trace cx k).2)
      ((r.trace cx k).1.inst.counter counter) := by
  induction k generalizing r with
  | loop c exit ih =>
    have counts : ∀ {r' : Run} {n : UInt32}, r'.inst.counters = (r.inst.counting c.counter n).counters →
        r'.inst.counter counter = if c.counter = counter then n else r.inst.counter counter := by
      intro r' n same
      rw [← Instance.counter_counting, Instance.counter, same, Instance.counter]
    rcases r.trace_loop cx c exit with ⟨left, reset, same⟩ | ⟨round, counted, _, same⟩
    · rw [same, Turn.on, List.filter_cons]
      have later := ih left
      rw [counts reset] at later
      by_cases own : c.counter = counter
      · subst own
        simp only [decide_true, ↓reduceIte] at later ⊢
        exact .cons (t := ⟨c, _, true⟩) later
      · simp only [own, decide_false, Bool.false_eq_true, ↓reduceIte] at later ⊢
        exact later
    · rw [same, Turn.on, List.filter_singleton, counts counted]
      by_cases own : c.counter = counter
      · subst own
        simp only [decide_true, ↓reduceIte, cond_true]
        exact .cons (t := ⟨c, _, false⟩) (.nil _)
      · simp only [own, decide_false, ↓reduceIte, cond_false]
        exact .nil _
  | send command => exact .nil _
  | complete => exact .nil _
  | fail => exact .nil _
  | requestApproval q => exact .nil _

theorem trace_of_controls {k : Continuation} (none : k.controls = []) : (r.trace cx k).2 = [] := by
  have controls := r.trace_controls cx k
  rw [none, List.prefix_nil, List.map_eq_nil_iff] at controls
  exact controls

/-! ## Running a transition -/

variable (m : Message)

/-- The continuation that an action follows, if it follows one, and the run it follows it on. -/
def going? : Action → Option (Run × Continuation)
  | .proceed k => some (r, k)
  | .route route =>
    let value := State.routingText r.inst.state route.key.fieldPath
    (((route.arms.find? (·.value = value)).map RouteArm.target).or route.fallback).map (r, ·)
  | .decide approved rejected =>
    match m.body with
    | .approvalDecided _ .approved => some (r.setPending none, approved)
    | .approvalDecided _ .rejected => some (r.setPending none, rejected)
    | _ => none
  | _ => none

/-- Where an action follows a continuation, that is all it does. -/
theorem step_of_going? {a : Action} {r' : Run} {k : Continuation}
    (going : r.going? m a = some (r', k)) :
    k ∈ a.continuations ∧ r.step cx m a = .next (r'.follow cx k) := by
  cases a with
  | proceed k' =>
    cases going
    exact ⟨List.mem_singleton_self _, rfl⟩
  | route route =>
    obtain ⟨target, found, same⟩ := Option.map_eq_some_iff.mp going
    cases same
    refine ⟨Route.mem_targets found, ?_⟩
    simp only [step, choose, found]
  | decide approved rejected =>
    simp only [going?] at going
    split at going
    next body =>
      cases going
      simp [Action.continuations, step, body, act]
    next body =>
      cases going
      simp [Action.continuations, step, body, act]
    · cases going
  | _ => cases going

/-- The turns of actions in order, until one stops or faults. -/
def turns (cx : Collaborators) (m : Message) (r : Run) : List Action → List Turn
  | [] => []
  | a :: rest =>
    ((r.going? m a).map fun (r, k) => (r.trace cx k).2).getD [] ++
      match r.step cx m a with
      | .next r => r.turns cx m rest
      | _ => []

theorem steps_append (front rest : List Action) :
    r.steps cx m (front ++ rest) = match r.steps cx m front with
      | .next r' => r'.steps cx m rest
      | done => done := by
  induction front generalizing r with
  | nil => rfl
  | cons a front ih =>
    simp only [List.cons_append, steps]
    cases r.step cx m a with
    | next r' => exact ih r'
    | stop r' | fault r' f => rfl

theorem turns_append (front rest : List Action) :
    r.turns cx m (front ++ rest) = r.turns cx m front ++ match r.steps cx m front with
      | .next r' => r'.turns cx m rest
      | _ => [] := by
  induction front generalizing r with
  | nil => rfl
  | cons a front ih =>
    simp only [List.cons_append, turns, steps]
    cases r.step cx m a with
    | next r' =>
      dsimp only
      rw [ih r', List.append_assoc]
    | stop r' | fault r' f => simp

/-- Every turn is one of a continuation that is followed. -/
theorem exists_trace_of_mem {actions : List Action} {t : Turn} (taken : t ∈ r.turns cx m actions) :
    ∃ (r' : Run) (k : Continuation), t ∈ (r'.trace cx k).2 := by
  induction actions generalizing r with
  | nil => cases taken
  | cons a rest ih =>
    rw [turns] at taken
    rcases List.mem_append.mp taken with here | later
    · cases going : r.going? m a with
      | none =>
        rw [going] at here
        cases here
      | some followed =>
        rw [going] at here
        exact ⟨followed.1, followed.2, here⟩
    · split at later
      · exact ih _ later
      · cases later

/-- Without loops there are no turns. -/
theorem turns_of_controls {actions : List Action} (quiet : ∀ a ∈ actions, a.controls = []) :
    r.turns cx m actions = [] := by
  induction actions generalizing r with
  | nil => rfl
  | cons a rest ih =>
    have none : ((r.going? m a).map fun (r, k) => (r.trace cx k).2).getD [] = [] := by
      cases going : r.going? m a with
      | none => rfl
      | some taken =>
        have among := (r.step_of_going? cx m going).1
        exact trace_of_controls cx _ (List.flatMap_eq_nil_iff.mp (quiet a List.mem_cons_self) _ among)
    simp only [turns, none, List.nil_append]
    split
    · exact ih _ fun a' ha' => quiet a' (List.mem_cons_of_mem _ ha')
    · rfl

end Run

/-! ## Transitions with one continuation -/

/-- The turns of a transition. -/
def Transition.turns (t : Transition) (cx : Collaborators) (calls : List Call) (i : Instance)
    (m : Message) : List Turn :=
  Run.turns cx m ⟨i, none, [], calls⟩ t.body

section Transition

variable (cx : Collaborators) (calls : List Call) (i : Instance) (m : Message)

/-- Actions without loops count nothing. -/
theorem Run.counters_of_controls {actions : List Action} (quiet : ∀ a ∈ actions, a.controls = []) :
    (Run.steps cx m ⟨i, none, [], calls⟩ actions).Tame fun j => j.counters = i.counters := by
  have framed : Instance.Framed fun j => j.counters = i.counters :=
    ⟨fun _ same holds => same.trans holds, fun holds => holds⟩
  refine Run.Tame.steps framed cx m (fun _ _ _ _ holds => holds) ?_ ⟨rfl, by simp⟩
  intro a ha c hc
  rw [quiet a ha] at hc
  cases hc

/-- A transition without loops takes no turn and counts nothing. -/
theorem Transition.turns_of_controls {t : Transition} (quiet : ∀ a ∈ t.body, a.controls = []) :
    t.turns cx calls i m = [] ∧ (t.apply cx calls i m).inst.counters = i.counters := by
  have kept := Run.counters_of_controls cx calls i m quiet
  refine ⟨Run.turns_of_controls cx _ m quiet, ?_⟩
  unfold Transition.apply
  cases flow : Run.steps cx m ⟨i, none, [], calls⟩ t.body <;>
    exact Run.Tame.inst (by rw [flow] at kept; exact kept)

/-- One that goes on somewhere at its end takes the turns of that continuation, unless it ends before
or raises a fault. -/
theorem Transition.turns_of_proceed {t : Transition} {front : List Action} {k : Continuation}
    (body : t.body = front ++ [.proceed k]) (quiet : ∀ a ∈ front, a.controls = []) :
    (t.turns cx calls i m = [] ∧ (t.apply cx calls i m).inst.counters = i.counters)
      ∨ ∃ r : Run, r.inst.counters = i.counters ∧ t.turns cx calls i m = (r.trace cx k).2
        ∧ t.apply cx calls i m = (Flow.next (r.trace cx k).1).applied := by
  have kept := Run.counters_of_controls cx calls i m quiet
  rw [Transition.turns, Transition.apply, body, Run.turns_append, Run.steps_append,
    Run.turns_of_controls cx _ m quiet]
  cases flow : Run.steps cx m ⟨i, none, [], calls⟩ front with
  | next r =>
    rw [flow] at kept
    refine .inr ⟨r, Run.Tame.inst kept, ?_, ?_⟩
    · simp [Run.turns, Run.going?, Run.step]
    · rw [Run.trace_fst]
      rfl
  | stop r | fault r f =>
    rw [flow] at kept
    exact .inl ⟨rfl, Run.Tame.inst kept⟩

end Transition

end Workflow
