import Workflow.Proofs.Host.Token

/-!
Everything a completion can do.

The rule of a completion asks the attachments of a step, the state and the collaborators. What
invariants need of it is less: which tokens it leaves behind and what it does to the phase, the
outstanding request and the failure context. `Outcome` lists the cases once; whoever proves something
of every run goes through this list and does not open the rule again.
-/

set_option autoImplicit false

namespace Workflow

/-- Two instances that differ in nothing that says which request or failure is open. -/
structure Instance.Alike (i j : Instance) : Prop where
  id : j.id = i.id
  pendingApproval : j.pendingApproval = i.pendingApproval
  failureContext : j.failureContext = i.failureContext

theorem Instance.Alike.refl (i : Instance) : i.Alike i := ⟨rfl, rfl, rfl⟩

theorem Instance.Alike.trans {i j k : Instance} (h : i.Alike j) (h' : j.Alike k) : i.Alike k :=
  ⟨h'.id.trans h.id, h'.pendingApproval.trans h.pendingApproval,
    h'.failureContext.trans h.failureContext⟩

/-- The step a recovery would start again. -/
def Instance.failedStep (i : Instance) : String :=
  (i.failureContext.map FailureContext.failedStep).getD ""

/-- Alike instances hold the same failed step. -/
theorem Instance.Alike.failedStep {i j : Instance} (h : i.Alike j) : j.failedStep = i.failedStep := by
  rw [Instance.failedStep, h.failureContext, Instance.failedStep]

/-- A change of the state is none. -/
theorem Instance.Alike.of_state {i j : Instance} {state : Value}
    (h : Instance.Alike { i with state } j) : i.Alike j :=
  ⟨h.id, h.pendingApproval, h.failureContext⟩

/-- Ways to go on outside forks and recoveries: a step starts, the process ends, or an approval is
asked for. -/
inductive Advance (d : Definition) (i : Instance) : Instance → List Effect → Prop
  | start {j : Instance} (y : Spot) (here : y.In d) (plain : y.line.IsPlain) (alike : i.Alike j)
      (phase : j.phase = i.phase) (going : j.isFinished = i.isFinished) :
      Advance d i j [.send ((Token.start y).message d i.id)]
  | finish {j : Instance} (alike : i.Alike j) (finished : j.isFinished = true)
      (phase : j.phase = Name.completed ∨ j.phase = Name.failed) : Advance d i j []
  | request {j : Instance} (a g : Approval) (attached : a ∈ d.approvals) (link : g ∈ a.chain)
      (alike : i.Alike j) (phase : j.phase = Name.awaitPhase g.gate.name)
      (going : j.isFinished = i.isFinished) :
      Advance d i j [.send ⟨Name.approvalRequested g.gate.name, i.id,
        .approvalRequested g.gate.name g.gate.approverType⟩]

/-- The rule goes on in one of these ways. -/
def Applied.Advances (d : Definition) (i : Instance) (r : Applied) : Prop :=
  ∃ es, r.result = .ok es ∧ Advance d i r.inst es

/-- What advances a changed instance advances the one before the change. -/
theorem Applied.Advances.of_alike {d : Definition} {i j : Instance} {r : Applied}
    (h : r.Advances d j) (alike : i.Alike j) (phase : j.phase = i.phase)
    (going : j.isFinished = i.isFinished) : r.Advances d i := by
  obtain ⟨es, ok, advance⟩ := h
  refine ⟨es, ok, ?_⟩
  cases advance with
  | start y here plain next phase' going' =>
    rw [alike.id]
    exact .start y here plain (alike.trans next) (phase'.trans phase) (going'.trans going)
  | finish next finished phase' => exact .finish (alike.trans next) finished phase'
  | request a g attached link next phase' going' =>
    rw [alike.id]
    exact .request a g attached link (alike.trans next) phase' (going'.trans going)

/-- A counter plays no part in how control advances. -/
theorem Applied.Advances.of_counting {d : Definition} {i : Instance} {counter : String} {n : UInt32}
    {r : Applied} (h : r.Advances d (i.counting counter n)) : r.Advances d i :=
  h.of_alike ⟨rfl, rfl, rfl⟩ rfl rfl

/-- A choice takes one of the cases. -/
theorem Branch.mem_cases_of_select? {b : Branch} {value : String} {k : Case}
    (chosen : b.select? value = some k) : k ∈ b.cases := by
  unfold select? at chosen
  rcases Option.or_eq_some_iff.mp chosen with literal | ⟨_, fallback⟩
  · obtain ⟨⟨value, k'⟩, found, rfl⟩ := Option.map_eq_some_iff.mp literal
    obtain ⟨k'', member, selects⟩ := List.mem_filterMap.mp (List.mem_of_find?_eq_some found)
    split at selects
    · cases selects
      exact member
    · cases selects
  · exact List.mem_of_find?_eq_some fallback

namespace Definition

variable {d : Definition}

/-! ## Positions that control may go to -/

/-- A step of the main line is a position. -/
theorem exists_spot_main {x : String} (h : x ∈ d.stepNames) :
    ∃ y : Spot, y.In d ∧ y.line = .main ∧ y.stem d = x := by
  obtain ⟨k, y, hy, rfl⟩ := exists_step_of_mem_stepNames h
  exact ⟨⟨.main, k, y⟩, ⟨trivial, hy⟩, rfl, rfl⟩

/-- Starting a position is one way to advance. -/
theorem advances_starting {i : Instance} {calls : List Call} {y : Spot} (here : y.In d)
    (plain : y.line.IsPlain) : (i.starting calls (y.stem d)).Advances d i :=
  ⟨_, rfl, .start y here plain (.refl i) rfl rfl⟩

theorem advances_starting_main {i : Instance} {calls : List Call} {x : String}
    (h : x ∈ d.stepNames) : (i.starting calls x).Advances d i := by
  obtain ⟨y, here, line, rfl⟩ := exists_spot_main h
  exact advances_starting here (by rw [line]; trivial)

/-- Ending the process is another. -/
theorem advances_completing (i : Instance) (calls : List Call) :
    (i.finishing calls Name.completed).Advances d i :=
  ⟨_, rfl, .finish ⟨rfl, rfl, rfl⟩ rfl (.inl rfl)⟩

theorem advances_failing (i : Instance) (calls : List Call) :
    (i.finishing calls Name.failed).Advances d i :=
  ⟨_, rfl, .finish ⟨rfl, rfl, rfl⟩ rfl (.inr rfl)⟩

/-- Asking for an approval is the third. -/
theorem advances_requested {a g : Approval} (attached : a ∈ d.approvals) (link : g ∈ a.chain)
    (i : Instance) (calls : List Call) : (g.gate.requested i calls).Advances d i :=
  ⟨_, rfl, .request a g attached link ⟨rfl, rfl, rfl⟩ rfl rfl⟩

namespace WellFormed

variable (hw : d.WellFormed)

include hw

/-- A path that rejoins starts a step of the main line or completes the process. -/
theorem advances_rejoined {b : Branch} (hb : b ∈ d.branches) (k : Case) (i : Instance)
    (calls : List Call) : (b.rejoined k i calls).Advances d i := by
  unfold Branch.rejoined
  split
  next step _ hstep => exact advances_starting_main (hw.branch_rejoin b hb step hstep)
  next => exact advances_completing i calls

/-- A choice leads into a case, or there is none to take. -/
theorem chosen_cases {b : Branch} (hb : b ∈ d.branches) (i : Instance) (calls : List Call) :
    (b.chosen i calls).Advances d i
      ∨ ∃ value, b.chosen i calls = ⟨i, calls, .error (.unmatchedBranch b.id value)⟩ := by
  unfold Branch.chosen
  dsimp only
  split
  next => exact .inr ⟨_, rfl⟩
  next k hk =>
    have member := Branch.mem_cases_of_select? hk
    refine .inl ?_
    split
    next first rest steps =>
      exact advances_starting (y := ⟨.path b k, 0, first⟩)
        ⟨⟨hb, member⟩, by simp [Line.steps, steps]⟩ trivial
    next => exact hw.advances_rejoined hb k i calls

/-- A loop is left for its continuation, or for what is outward of it. -/
theorem advances_loopLeft {l : Loop} (declared : l ∈ d.loops) {i : Instance} {calls : List Call}
    {outward : Applied} (outer : outward.Advances d i) :
    Applied.Advances d i (match l.continuation with
      | some step => i.starting calls step
      | none => outward) := by
  split
  next step leaves => exact advances_starting_main (hw.loop_continuation l declared step leaves)
  next => exact outer

/-- Where loops end, a body is repeated or left, by induction on the loops. -/
theorem advances_loopsEnded (cx : Collaborators) {loops : List Loop}
    (declared : ∀ l ∈ loops, l ∈ d.loops) (i : Instance) (calls : List Call) :
    (d.loopsEnded cx loops i calls).Advances d i := by
  induction loops generalizing i calls with
  | nil => exact advances_completing i calls
  | cons l outer ih =>
    have hl := declared l List.mem_cons_self
    have rest := ih fun l' hl' => declared l' (List.mem_cons_of_mem _ hl')
    simp only [loopsEnded]
    split
    · exact (hw.advances_loopLeft hl (rest _ _)).of_counting
    · split
      · exact (hw.advances_loopLeft hl (rest _ _)).of_counting
      · exact (advances_starting_main (hw.loop_first l hl)).of_counting

omit hw in
theorem mem_stepNames_of_successor? {x : String} {y : Step} (h : d.successor? x = some y) :
    y.identifier ∈ d.stepNames := by
  obtain ⟨k, _, hy⟩ := Option.bind_eq_some_iff.mp h
  exact List.mem_map_of_mem (List.mem_of_getElem? hy)

/-- The end of a plain line leads on. -/
theorem advances_lineEnded {line : Line} (belongs : line.In d) (plain : line.IsPlain) (i : Instance)
    (calls : List Call) : (d.lineEnded line i calls).Advances d i := by
  cases line with
  | main => exact advances_completing i calls
  | path b k => exact hw.advances_rejoined belongs.1 k i calls
  | fork f index => exact plain.elim
  | escalation a g =>
    simp only [lineEnded]
    split
    next y hy => exact advances_starting_main (mem_stepNames_of_successor? hy)
    next => exact advances_completing i calls
  | rejection a g => exact advances_completing i calls
  | recovery h => exact plain.elim

omit hw in
/-- A refusal starts its steps or fails the process. -/
theorem advances_refused {a g : Approval} (attached : a ∈ d.approvals) (link : g ∈ a.chain)
    (i : Instance) (calls : List Call) : (g.gate.refused i calls).Advances d i := by
  unfold Gate.refused
  split
  next first rest steps =>
    exact advances_starting (y := ⟨.rejection a g, 0, first⟩)
      ⟨⟨attached, link⟩, by simp [Line.steps, steps]⟩ trivial
  next => exact advances_failing i calls

omit hw in
/-- A timeout starts its steps, asks the next gate or fails the process. -/
theorem advances_escalated {a g : Approval} (attached : a ∈ d.approvals) (link : g ∈ a.chain)
    (i : Instance) (calls : List Call) : (g.escalated i calls).Advances d i := by
  cases g with
  | failing g => exact advances_failing i calls
  | running g steps =>
    cases steps with
    | nil => exact advances_failing i calls
    | cons first rest =>
      exact advances_starting (y := ⟨.escalation a (.running g (first :: rest)), 0, first⟩)
        ⟨⟨attached, link⟩, rfl⟩ trivial
  | asking g next => exact advances_requested attached (Approval.next_mem_chain link) i calls

end WellFormed

end Definition

/-- What follows a success on the main line: the loops that end at the step, what hangs on it, or the
next step. -/
inductive Definition.Succession (d : Definition) (cx : Collaborators) (k : Nat) (x : Step)
    (i : Instance) (calls : List Call) : Applied → Prop
  | loops (some : d.loopsEndingAt x.identifier ≠ []) :
      d.Succession cx k x i calls (d.loopsEnded cx (d.loopsEndingAt x.identifier) i calls)
  | branch (b : Branch) (declared : b ∈ d.branches) (after : b.previousStep = x.identifier) :
      d.Succession cx k x i calls (b.chosen i calls)
  | approval (a : Approval) (attached : a ∈ d.approvals) (after : a.gate.precedingStep = x.identifier) :
      d.Succession cx k x i calls (a.gate.requested i calls)
  | fork (f : Fork) (declared : f ∈ d.forks) (after : f.previousStep = x.identifier) :
      d.Succession cx k x i calls (f.started i calls)
  | next (last : d.loopsEndingAt x.identifier = []) (free : ∀ f ∈ d.forks, f.previousStep ≠ x.identifier)
      (y : Step) (next? : d.steps[k + 1]? = some y) :
      d.Succession cx k x i calls (i.starting calls y.identifier)
  | complete (last : d.loopsEndingAt x.identifier = [])
      (free : ∀ f ∈ d.forks, f.previousStep ≠ x.identifier) :
      d.Succession cx k x i calls (i.finishing calls Name.completed)

/-- What follows a success on the main line is one of the cases, by what is attached to the step. -/
theorem Definition.WellFormed.succeeded_main {d : Definition} (hw : d.WellFormed) (cx : Collaborators)
    (k : Nat) (x : Step) (i : Instance) (calls : List Call) :
    d.Succession cx k x i calls (d.succeeded cx .main k x i calls) := by
  simp only [succeeded, ← hw.loopsEndingAt_eq]
  cases loops : d.loopsEndingAt x.identifier with
  | cons l outer =>
    have ended : d.Succession cx k x i calls (d.loopsEnded cx (d.loopsEndingAt x.identifier) i calls) :=
      .loops (by simp [loops])
    rwa [loops] at ended
  | nil =>
    cases branch : d.branches.find? (·.previousStep = x.identifier) with
    | some b =>
      exact .branch b (List.mem_of_find?_eq_some branch) (by simpa using List.find?_some branch)
    | none =>
      cases approval : d.approvals.find? (·.gate.precedingStep = x.identifier) with
      | some a =>
        exact .approval a (List.mem_of_find?_eq_some approval)
          (by simpa using List.find?_some approval)
      | none =>
        cases fork : d.forks.find? (·.previousStep = x.identifier) with
        | some f =>
          exact .fork f (List.mem_of_find?_eq_some fork) (by simpa using List.find?_some fork)
        | none =>
          have free : ∀ f ∈ d.forks, f.previousStep ≠ x.identifier := by
            simpa using List.find?_eq_none.mp fork
          dsimp only
          split
          next y next? => exact .next loops free y next?
          next => exact .complete loops free

/-- Off the main line the next step follows, or what the end of the line leads to. -/
theorem Definition.succeeded_beside (d : Definition) (cx : Collaborators) {line : Line}
    (off : line ≠ .main) (k : Nat) (x : Step) (i : Instance) (calls : List Call) :
    d.succeeded cx line k x i calls = match (line.steps d)[k + 1]? with
      | some y => i.starting calls (line.stem d y)
      | none => d.lineEnded line i calls := by
  cases line <;> first | rfl | exact absurd rfl off

/-! ## Forks and recoveries -/

/-- The tokens that start the paths of a fork. -/
def Fork.starts (f : Fork) : List Token :=
  (List.range f.paths.length).filterMap fun p =>
    (f.paths.getD p []).head?.map fun first => .start ⟨.fork f p, 0, first⟩

/-- The cancellation that comes with a failure on a line. -/
def Line.cancellation : Line → List Effect
  | .fork f _ => if f.failFast then [.cancelFork (Name.forkId f.previousStep)] else []
  | _ => []

/-- A fork sends a start along each of its paths. -/
theorem Fork.started_eq (d : Definition) (f : Fork) (i : Instance) (calls : List Call) :
    f.started i calls
      = ⟨i, calls, .ok (f.starts.map fun tok => .send (tok.message d i.id))⟩ := by
  have paths : f.paths = (List.range f.paths.length).map (f.paths.getD · []) := by
    apply List.ext_getElem
    · simp
    · intro p hp _
      simp [hp]
  have same : f.started i calls = ⟨i, calls, .ok (((List.range f.paths.length).map
      (f.paths.getD · [])).filterMap fun steps => steps.head?.map fun first =>
        .send ⟨Name.startCommand first.identifier, i.id, .empty⟩)⟩ := by
    rw [← paths]
    rfl
  rw [same, List.filterMap_map, Fork.starts, List.map_filterMap]
  simp only [Function.comp_def, Option.map_map]
  rfl

/-- The starts of a fork are on its paths. -/
theorem Fork.starts_in {d : Definition} {f : Fork} (declared : f ∈ d.forks) {tok : Token}
    (htok : tok ∈ f.starts) :
    tok.In d ∧ ∃ p, tok.spot?.bind (·.line.lane?) = some (f, p) := by
  obtain ⟨p, _, head⟩ := List.mem_filterMap.mp htok
  obtain ⟨first, hfirst, rfl⟩ := Option.map_eq_some_iff.mp head
  rw [List.head?_eq_getElem?] at hfirst
  exact ⟨⟨declared, hfirst⟩, p, rfl⟩

/-- All that a completion at a position can do. -/
inductive Outcome (d : Definition) (x : Spot) (i : Instance) : Applied → Prop
  | advance {j : Instance} {calls : List Call} {es : List Effect} (plain : x.line.IsPlain)
      (advance : Advance d i j es) : Outcome d x i ⟨j, calls, .ok es⟩
  /-- No case of a branch fits. -/
  | unmatched {j : Instance} {calls : List Call} {branch value : String} (plain : x.line.IsPlain) :
      Outcome d x i ⟨j, calls, .error (.unmatchedBranch branch value)⟩
  /-- The paths of a fork start. -/
  | cascade {j : Instance} {calls : List Call} (f : Fork) (declared : f ∈ d.forks)
      (main : x.line = .main) (after : f.previousStep = x.step.identifier) (alike : i.Alike j)
      (going : j.isFinished = i.isFinished) :
      Outcome d x i ⟨j, calls, .ok (f.starts.map fun tok => .send (tok.message d i.id))⟩
  /-- The next step of a path or a recovery chain. -/
  | onward {j : Instance} {calls : List Call} (y : Spot) (here : y.In d) (same : y.line = x.line)
      (after : y.index = x.index + 1) (off : ¬ x.line.IsPlain) (alike : i.Alike j)
      (going : j.isFinished = i.isFinished) :
      Outcome d x i ⟨j, calls, .ok [.send ((Token.start y).message d i.id)]⟩
  /-- The end of a path, or its failure where nobody takes it. -/
  | report {j : Instance} {calls : List Call} (f : Fork) (p : Nat) (line : x.line = .fork f p)
      (alike : i.Alike j) (going : j.isFinished = i.isFinished) :
      Outcome d x i ⟨j, calls, .ok [f.report p i]⟩
  /-- The end of a terminal recovery. -/
  | close {j : Instance} {calls : List Call} (h : Handler) (line : x.line = .recovery h)
      (terminal : h.isTerminal = true) (alike : i.Alike j) (finished : j.isFinished = true)
      (phase : j.phase = Name.failed) : Outcome d x i ⟨j, calls, .ok []⟩
  /-- The end of a recovery that starts the failed step again. -/
  | resume {j : Instance} {calls : List Call} (h : Handler) (line : x.line = .recovery h)
      (last : x.index + 1 = h.steps.length) (terminal : h.isTerminal = false) (y : Spot)
      (here : y.In d) (failed : y.phase d = i.failedStep) (takes : y.handler? d = some h)
      (alike : i.Alike j) (going : j.isFinished = i.isFinished) :
      Outcome d x i ⟨j, calls, .ok [.send ((Token.start y).message d i.id)]⟩
  /-- The end of a recovery whose failed step is not one of the handler's. -/
  | astray {j : Instance} {calls : List Call} {reason : String} (h : Handler)
      (line : x.line = .recovery h) (terminal : h.isTerminal = false)
      (none : ∀ y : Spot, y.In d → y.phase d = i.failedStep → y.handler? d ≠ some h) :
      Outcome d x i ⟨j, calls, .error (.invalidState reason)⟩
  /-- A failure that a handler takes. -/
  | trigger {j : Instance} {calls : List Call} (h : Handler) (takes : x.handler? d = some h)
      (failure : FailureContext) (failed : failure.failedStep = x.phase d) (alike : i.Alike j)
      (going : j.isFinished = i.isFinished) :
      Outcome d x i ⟨j, calls, .ok (x.line.cancellation
        ++ [.send ((Token.trigger h failure).message d i.id)])⟩
  /-- A failure that ends the process at once. -/
  | abort {j : Instance} {calls : List Call} (f : Fork) (p : Nat) (line : x.line = .fork f p)
      (failFast : f.failFast = true) (alike : i.Alike j) (finished : j.isFinished = true)
      (phase : j.phase = Name.failed) : Outcome d x i ⟨j, calls, .ok x.line.cancellation⟩
  /-- A failure that nobody takes. -/
  | unhandled {j : Instance} {calls : List Call} {step : String} {failure : StepFailure}
      (off : x.line.lane? = none) : Outcome d x i ⟨j, calls, .error (.stepFailed step failure)⟩

theorem Outcome.of_advances {d : Definition} {x : Spot} {i : Instance} {r : Applied}
    (plain : x.line.IsPlain) (h : r.Advances d i) : Outcome d x i r := by
  obtain ⟨j, calls, result⟩ := r
  obtain ⟨es, ok, advance⟩ := h
  cases ok
  exact .advance plain advance

namespace Definition

variable {d : Definition}

/-- A recovery resumes at a position whose failures its handler takes. -/
theorem exists_spot_of_resumption? {h : Handler} {phase stem : String}
    (found : d.resumption? h phase = some stem) :
    ∃ y : Spot, y.In d ∧ y.phase d = phase ∧ y.handler? d = some h ∧ y.stem d = stem := by
  obtain ⟨line, hline, hit⟩ := List.exists_of_findSome?_eq_some found
  obtain ⟨y, hy, rfl⟩ := Option.map_eq_some_iff.mp hit
  obtain ⟨k, hk⟩ := List.mem_iff_getElem?.mp (List.mem_of_find?_eq_some hy)
  have fits : line.phase d y = phase ∧ line.handler? d y = some h := by
    simpa using List.find?_some hy
  exact ⟨⟨line, k, y⟩, ⟨Line.in_of_mem_forwardLines hline, hk⟩, fits.1, fits.2, rfl⟩

theorem handler?_ne_of_resumption? {h : Handler} {phase : String}
    (none : d.resumption? h phase = none) {y : Spot} (here : y.In d) (hp : y.phase d = phase) :
    y.handler? d ≠ some h := by
  intro takes
  have forward : y.line ∈ d.forwardLines := by
    rw [Line.mem_forwardLines_iff here.1 here.2]
    intro recovery
    cases line : y.line with
    | recovery g =>
      rw [Spot.handler?, line] at takes
      cases takes
    | _ => rw [line] at recovery; cases recovery
  have missed := List.findSome?_eq_none_iff.mp none y.line forward
  rw [Option.map_eq_none_iff, List.find?_eq_none] at missed
  have := missed y.step (List.mem_of_getElem? here.2)
  simp only [Spot.phase, Spot.handler?] at hp takes
  simp [hp, takes] at this

namespace WellFormed

variable (hw : d.WellFormed) {x : Spot} (hx : x.In d)

include hw hx

/-- The next step of the line, or what its end leads to. -/
theorem onward_outcome (i : Instance) (calls : List Call) :
    Outcome d x i (match (x.line.steps d)[x.index + 1]? with
      | some y => i.starting calls (x.line.stem d y)
      | none => d.lineEnded x.line i calls) := by
  by_cases plain : x.line.IsPlain
  · apply Outcome.of_advances plain
    split
    next y hy => exact advances_starting (y := ⟨x.line, x.index + 1, y⟩) ⟨hx.1, hy⟩ plain
    next => exact hw.advances_lineEnded hx.1 plain i calls
  · split
    next y hy => exact .onward ⟨x.line, x.index + 1, y⟩ ⟨hx.1, hy⟩ rfl rfl plain (.refl i) rfl
    next last =>
      cases line : x.line with
      | fork f p => exact .report f p line (.refl i) rfl
      | recovery h =>
        have atEnd : x.index + 1 = h.steps.length := by
          have inside := hx.2
          rw [line] at inside last
          rw [List.getElem?_eq_none_iff] at last
          obtain ⟨hi, _⟩ := List.getElem?_eq_some_iff.mp inside
          simp only [Line.steps] at hi last
          omega
        simp only [lineEnded]
        split
        next terminal => exact .close h line terminal ⟨rfl, rfl, rfl⟩ rfl rfl
        next going =>
          have going : h.isTerminal = false := by simpa using going
          split
          next stem found =>
            obtain ⟨y, here, hp, takes, rfl⟩ := exists_spot_of_resumption? found
            exact .resume h line atEnd going y here hp takes (.refl i) rfl
          next none =>
            exact .astray h line going fun y here hp => handler?_ne_of_resumption? none here hp
      | _ => exact absurd (by rw [line]; trivial) plain

/-- A success at a position has one of the outcomes. -/
theorem succeeded_outcome (cx : Collaborators) (i : Instance) (calls : List Call) :
    Outcome d x i (d.succeeded cx x.line x.index x.step i calls) := by
  have onward := hw.onward_outcome hx i calls
  cases line : x.line with
  | main =>
    have plain : x.line.IsPlain := by rw [line]; trivial
    have after := hw.succeeded_main cx x.index x.step i calls
    generalize d.succeeded cx .main x.index x.step i calls = r at after ⊢
    cases after with
    | loops =>
      exact .of_advances plain
        (hw.advances_loopsEnded cx (fun _ => mem_loops_of_mem_loopsEndingAt) i calls)
    | branch b declared =>
      rcases hw.chosen_cases declared i calls with advances | ⟨_, none⟩
      · exact .of_advances plain advances
      · rw [none]
        exact .unmatched plain
    | approval a attached =>
      exact .of_advances plain (advances_requested attached a.mem_chain_self i calls)
    | fork f declared after =>
      rw [Fork.started_eq d]
      exact .cascade f declared line after (.refl i) rfl
    | next last free y next? =>
      exact .of_advances plain
        (advances_starting (y := ⟨.main, x.index + 1, y⟩) ⟨trivial, next?⟩ trivial)
    | complete => exact .of_advances plain (advances_completing i calls)
  | _ =>
    rw [line] at onward
    exact onward

omit hw hx in
/-- So has a failure. -/
theorem failed_outcome (failure : StepFailure) (i : Instance) (calls : List Call) :
    Outcome d x i (d.failed x.line x.step failure i calls) := by
  have cancelled : ∀ h, x.handler? d = some h → Outcome d x i ⟨{ i with phase := Name.failed },
      calls, .ok (x.line.cancellation ++ [.send ⟨Name.failureTrigger h.id, i.id,
        .failureTrigger (.capture (x.phase d) failure)⟩])⟩ := fun h takes =>
    .trigger h takes (.capture (x.phase d) failure) rfl ⟨rfl, rfl, rfl⟩ rfl
  cases takes : x.handler? d with
  | some h =>
    have marked := cancelled h takes
    simp only [Spot.handler?, Spot.phase] at takes marked
    simp only [failed, takes]
    cases line : x.line <;> rw [line] at marked <;> exact marked
  | none =>
    rw [Spot.handler?] at takes
    cases line : x.line with
    | fork f p =>
      rw [line] at takes
      simp only [failed, takes]
      cases failFast : f.failFast with
      | true =>
        have ends : Outcome d x i ⟨{ i with phase := Name.failed, isFinished := true }, calls,
            .ok x.line.cancellation⟩ := .abort f p line failFast ⟨rfl, rfl, rfl⟩ rfl rfl
        rw [line, Line.cancellation, failFast] at ends
        exact ends
      | false => exact .report f p line ⟨rfl, rfl, rfl⟩ rfl
    | _ =>
      rw [line] at takes
      simp only [failed, takes]
      exact .unhandled (by rw [line]; rfl)

/-- A completion has one of the outcomes, once the update is merged. -/
theorem completed_outcome (cx : Collaborators) (update : Value) (failure : Option StepFailure)
    (i : Instance) (calls : List Call) :
    Outcome d x { i with state := cx.reduce i.state update }
      (d.completed cx x.line x.index x.step update failure i calls) := by
  cases failure with
  | some failure => exact failed_outcome failure _ calls
  | none => exact hw.succeeded_outcome hx cx _ calls

end WellFormed

/-! ## What completions leave alone -/

/-- The phase, the end of the process and the counters do not show in the reading. -/
structure Instance.Blind {α : Type} (f : Instance → α) : Prop where
  moved (i : Instance) (phase : String) (isFinished : Bool) : f { i with phase, isFinished } = f i
  counted (i : Instance) (counter : String) (n : UInt32) : f (i.counting counter n) = f i

section Reading

variable {α : Type} {f : Instance → α}
  (moved : ∀ (i : Instance) (phase : String) (isFinished : Bool), f { i with phase, isFinished } = f i)
  (d : Definition) (i : Instance) (calls : List Call)

include moved

/-- What is read off an instance without a look at its phase or its flag stays. The lemmas below say so
rule by rule. -/
theorem reading_rejoined (b : Branch) (k : Case) : f (b.rejoined k i calls).inst = f i := by
  unfold Branch.rejoined
  split
  · rfl
  · exact moved i _ _

theorem reading_chosen (b : Branch) : f (b.chosen i calls).inst = f i := by
  unfold Branch.chosen
  dsimp only
  split
  · rfl
  · split
    · rfl
    · exact reading_rejoined moved i calls b _

theorem reading_lineEnded (line : Line) : f (d.lineEnded line i calls).inst = f i := by
  unfold lineEnded
  split
  · exact moved i _ _
  · exact reading_rejoined moved i calls _ _
  · rfl
  · split
    · rfl
    · exact moved i _ _
  · exact moved i _ _
  · split
    · exact moved i _ _
    · dsimp only
      split <;> rfl

theorem reading_failed (line : Line) (x : Step) (failure : StepFailure) :
    f (d.failed line x failure i calls).inst = f i := by
  simp only [failed]
  split
  · exact moved i _ _
  · split
    · exact moved i _ _
    · exact moved i _ _
  · exact moved i _ _

/-- Off the main line a completion does not even count. -/
theorem reading_completed_beside (cx : Collaborators) {line : Line} (off : line ≠ .main) (k : Nat)
    (x : Step) (update : Value) (failure : Option StepFailure) :
    f (d.completed cx line k x update failure i calls).inst
      = f { i with state := cx.reduce i.state update } := by
  cases failure with
  | some failure => exact reading_failed moved d _ calls line x failure
  | none =>
    simp only [completed, succeeded]
    split
    · rfl
    · exact reading_lineEnded moved d _ calls line

end Reading

section Blind

variable {α : Type} {f : Instance → α} (blind : Instance.Blind f) (d : Definition) (i : Instance)
  (calls : List Call)

include blind

/-- It stays where loops end if it does not look at counters either. -/
theorem reading_loopsEnded (cx : Collaborators) (loops : List Loop) :
    f (d.loopsEnded cx loops i calls).inst = f i := by
  induction loops generalizing i calls with
  | nil => exact blind.moved i _ _
  | cons l outer ih =>
    have leaving : ∀ (j : Instance) (calls : List Call), f j = f i →
        f (match l.continuation with
          | some step => j.starting calls step
          | none => d.loopsEnded cx outer j calls).inst = f i := by
      intro j calls same
      split
      · exact same
      · exact (ih j calls).trans same
    simp only [loopsEnded]
    split
    · exact leaving _ _ (blind.counted i _ _)
    · split
      · exact leaving _ _ (blind.counted i _ _)
      · exact blind.counted i _ _

/-- A completion changes the state, by merging the update, before its rule is applied. -/
theorem reading_completed (cx : Collaborators) (line : Line) (k : Nat) (x : Step) (update : Value)
    (failure : Option StepFailure) : f (d.completed cx line k x update failure i calls).inst
      = f { i with state := cx.reduce i.state update } := by
  by_cases main : line = .main
  · subst main
    cases failure with
    | some failure => exact reading_failed blind.moved d _ calls .main x failure
    | none =>
      simp only [completed, succeeded]
      split
      · exact reading_loopsEnded blind d _ calls cx _
      · exact reading_chosen blind.moved _ calls _
      · exact blind.moved _ _ _
      · rfl
      · split
        · rfl
        · exact blind.moved _ _ _
  · exact reading_completed_beside blind.moved d i calls cx main k x update failure

end Blind

/-- A completion changes the state by its update and no further. -/
theorem completed_state (d : Definition) (cx : Collaborators) (line : Line) (k : Nat) (x : Step)
    (update : Value) (failure : Option StepFailure) (i : Instance) (calls : List Call) :
    (d.completed cx line k x update failure i calls).inst.state = cx.reduce i.state update :=
  reading_completed (f := Instance.state) ⟨fun _ _ _ => rfl, fun _ _ _ => rfl⟩ d i calls cx line k x
    update failure

end Definition

namespace Token

variable {d : Definition} (cx : Collaborators) {tok : Token} (i : Instance) (calls : List Call)

/-- What is neither a completion nor a failure to be captured moves an instance and answers its
request. -/
theorem reading_applied {α : Type} {f : Instance → α}
    (moved : ∀ (i : Instance) (phase : String) (isFinished : Bool), f { i with phase, isFinished } = f i)
    (answered : ∀ (i : Instance) (pendingApproval : Option Key) (lastDecision : Option Decision),
      f { i with pendingApproval, lastDecision } = f i)
    (completes : ∀ x update failure, tok ≠ .done x update failure)
    (captures : ∀ g context, tok ≠ .trigger g context) :
    f (tok.applied d cx i calls).inst = f i := by
  cases tok with
  | start x =>
    simp only [applied, Spot.started]
    split
    · exact moved i _ _
    · split
      · exact moved i _ _
      · exact moved i _ _
  | work x state => rfl
  | done x update failure => exact absurd rfl (completes x update failure)
  | trigger g context => exact absurd rfl (captures g context)
  | pending a g c => exact answered i _ _
  | decided a g c decision =>
    simp only [applied]
    split
    · cases decision with
      | approved => exact (Definition.reading_lineEnded moved d _ calls _).trans (answered i _ _)
      | rejected =>
        refine Eq.trans ?_ (answered i none (some .rejected))
        simp only [Approval.settled, Gate.refused]
        split
        · rfl
        · exact moved _ _ _
      | deferred => exact answered i _ _
    · rfl
  | timedOut a g c =>
    simp only [applied]
    split
    · refine Eq.trans ?_ (answered i none i.lastDecision)
      cases g with
      | failing g => exact moved _ _ _
      | running g steps =>
        cases steps with
        | nil => exact moved _ _ _
        | cons first rest => rfl
      | asking g next => exact moved _ _ _
    · rfl

/-- Only completions on the main line count. -/
theorem counters_applied (off : ∀ x update failure, tok = .done x update failure → x.line ≠ .main) :
    (tok.applied d cx i calls).inst.counters = i.counters := by
  cases tok with
  | done x update failure =>
    exact Definition.reading_completed_beside (f := Instance.counters) (fun _ _ _ => rfl) d i calls cx
      (off x update failure rfl) x.index x.step update failure
  | trigger g context =>
    simp only [applied]
    split <;> rfl
  | _ =>
    exact reading_applied (f := Instance.counters) cx i calls (fun _ _ _ => rfl) (fun _ _ _ => rfl)
      (by simp) (by simp)

/-- Only a trigger captures a failure. -/
theorem failedStep_applied : (tok.applied d cx i calls).inst.failedStep = match tok with
    | .trigger _ context => context.failedStep
    | _ => i.failedStep := by
  cases tok with
  | done x update failure =>
    exact Definition.reading_completed (f := Instance.failedStep) ⟨fun _ _ _ => rfl, fun _ _ _ => rfl⟩ d
      i calls cx x.line x.index x.step update failure
  | trigger g context =>
    simp only [applied]
    split <;> rfl
  | _ =>
    exact reading_applied (f := Instance.failedStep) cx i calls (fun _ _ _ => rfl) (fun _ _ _ => rfl)
      (by simp) (by simp)

end Token

end Workflow
