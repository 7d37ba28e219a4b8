import Workflow.Machine
import Workflow.Proofs.Definition.Nesting
import Workflow.Proofs.Plan.Next

/-!
The meaning of a completion.

`Definition.completed` says what a completed step leads to, read off the definition alone: the
attachments are searched in the lists they were declared in, loops are taken one after another, and
no site, action or transition is mentioned. The main statement is that the transition a table has for
the completion does exactly that, on every instance and with every collaborator.
-/

set_option autoImplicit false

namespace Workflow

/-! ## The rule -/

/-- Start a step, and nothing else. -/
def Instance.starting (i : Instance) (calls : List Call) (stem : String) : Applied :=
  ⟨i, calls, .ok [.send ⟨Name.startCommand stem, i.id, .empty⟩]⟩

/-- Finish in a phase. -/
def Instance.finishing (i : Instance) (calls : List Call) (phase : String) : Applied :=
  ⟨{ i with phase, isFinished := true }, calls, .ok []⟩

/-- Set a counter. -/
def Instance.counting (i : Instance) (counter : String) (n : UInt32) : Instance :=
  { i with counters := Keyed.insert counter n i.counters }

/-- The end of a case: back to the step where the paths meet, if there is one. -/
def Branch.rejoined (b : Branch) (c : Case) (i : Instance) (calls : List Call) : Applied :=
  match c.isTerminal, b.rejoinStep with
  | false, some step => i.starting calls step
  | _, _ => i.finishing calls Name.completed

/-- The choice of a case by the state. -/
def Branch.chosen (b : Branch) (i : Instance) (calls : List Call) : Applied :=
  let value := State.routingText i.state b.discriminator.fieldPath
  match b.select? value with
  | none => ⟨i, calls, .error (.unmatchedBranch b.id value)⟩
  | some c =>
    match c.steps with
    | first :: _ => i.starting calls (Name.branchPhase b.loopScope c.label first.identifier)
    | [] => b.rejoined c i calls

/-- The request of an approval. -/
def Gate.requested (g : Gate) (i : Instance) (calls : List Call) : Applied :=
  ⟨{ i with phase := Name.awaitPhase g.name }, calls, .ok
    [.send ⟨Name.approvalRequested g.name, i.id, .approvalRequested g.name g.approverType⟩]⟩

/-- The report of a path to its join. -/
def Fork.report (f : Fork) (index : Nat) (i : Instance) : Effect :=
  .join (Name.forkId f.previousStep) index f.paths.length
    ⟨Name.startCommand f.joinStep, i.id, .empty⟩

/-- The start of every path. -/
def Fork.started (f : Fork) (i : Instance) (calls : List Call) : Applied :=
  ⟨i, calls, .ok (f.paths.filterMap fun steps => steps.head?.map fun first =>
    .send ⟨Name.startCommand first.identifier, i.id, .empty⟩)⟩

/-- The handler of a failure. Recovery steps have none, and only main-line steps may have one of
their own. -/
def Line.handler? (d : Definition) (line : Line) (x : Step) : Option Handler :=
  match line with
  | .main => (d.handlers.find? (·.scope = .step x.identifier)).or
      (d.handlers.find? (·.scope = .workflow))
  | .recovery _ => none
  | _ => d.handlers.find? (·.scope = .workflow)

namespace Definition

/-- The lines on which a failure may find a handler. -/
def forwardLines (d : Definition) : List Line :=
  .main :: (d.branches.flatMap fun b => b.cases.map (.path b))
    ++ (d.forks.flatMap fun f => (List.range f.paths.length).map (.fork f))
    ++ (d.approvals.flatMap fun a => a.chain.flatMap fun g => [.escalation a g, .rejection a g])

/-- The step of a phase whose failures go to a handler. -/
def resumption? (d : Definition) (h : Handler) (phase : String) : Option String :=
  d.forwardLines.findSome? fun line =>
    ((line.steps d).find? fun y => line.phase d y = phase ∧ line.handler? d y = some h).map
      (line.stem d)

/-- The loops that end at a step, innermost first: each counts, and is left at its bound or when its
condition holds. Leaving starts the count over and goes on to the continuation, without one to the
next loop around, and out of the outermost one to the end of the process. -/
def loopsEnded (d : Definition) (cx : Collaborators) :
    List Loop → Instance → List Call → Applied
  | [], i, calls => i.finishing calls Name.completed
  | l :: outer, i, calls =>
    let counter := Name.iterationCounter (d.loopNames l)
    let count := i.counter counter + 1
    let left := i.counting counter 0
    let leave (calls : List Call) : Applied :=
      match l.continuation with
      | some step => left.starting calls step
      | none => d.loopsEnded cx outer left calls
    if l.maxIterations ≤ count then leave calls
    else
      let holds := cx.conditions calls l.conditionId i.state
      let asked := calls ++ [.condition l.conditionId holds]
      if holds then leave asked
      else (i.counting counter count).starting asked l.firstStep

/-- The end of a line. -/
def lineEnded (d : Definition) (line : Line) (i : Instance) (calls : List Call) : Applied :=
  match line with
  | .main => i.finishing calls Name.completed
  | .path b c => b.rejoined c i calls
  | .fork f index => ⟨i, calls, .ok [f.report index i]⟩
  | .escalation a _ =>
    match d.successor? a.gate.precedingStep with
    | some y => i.starting calls y.identifier
    | none => i.finishing calls Name.completed
  | .rejection _ _ => i.finishing calls Name.completed
  | .recovery h =>
    if h.isTerminal then i.finishing calls Name.failed
    else
      let failedStep := (i.failureContext.map FailureContext.failedStep).getD ""
      match d.resumption? h failedStep with
      | some stem => i.starting calls stem
      | none =>
        ⟨i, calls, .error (.invalidState s!"no step to resume after failure of '{failedStep}'")⟩

/-- What follows a step that succeeded, at a position of its line. Attachments are for the main line
only; off it the next step follows. -/
def succeeded (d : Definition) (cx : Collaborators) (line : Line) (k : Nat) (x : Step)
    (i : Instance) (calls : List Call) : Applied :=
  let onward : Applied :=
    match (line.steps d)[k + 1]? with
    | some y => i.starting calls (line.stem d y)
    | none => d.lineEnded line i calls
  match line with
  | .main =>
    let id := x.identifier
    match (d.enclosingLoops id).reverse.filter (·.lastStep = id),
      d.branches.find? (·.previousStep = id), d.approvals.find? (·.gate.precedingStep = id),
      d.forks.find? (·.previousStep = id) with
    | l :: outer, _, _, _ => d.loopsEnded cx (l :: outer) i calls
    | [], some b, _, _ => b.chosen i calls
    | [], none, some a, _ => a.gate.requested i calls
    | [], none, none, some f => f.started i calls
    | [], none, none, none => onward
  | _ => onward

/-- What follows a step that failed. -/
def failed (d : Definition) (line : Line) (x : Step) (failure : StepFailure) (i : Instance)
    (calls : List Call) : Applied :=
  let phase := line.phase d x
  let marked := { i with phase := Name.failed }
  let cancellation : List Effect :=
    match line with
    | .fork f _ => if f.failFast then [.cancelFork (Name.forkId f.previousStep)] else []
    | _ => []
  match line.handler? d x, line with
  | some h, _ =>
    ⟨marked, calls, .ok (cancellation ++
      [.send ⟨Name.failureTrigger h.id, i.id, .failureTrigger (.capture phase failure)⟩])⟩
  | none, .fork f index =>
    if f.failFast then ⟨{ marked with isFinished := true }, calls, .ok cancellation⟩
    else ⟨{ i with phase }, calls, .ok [f.report index i]⟩
  | none, _ => ⟨marked, calls, .error (.stepFailed phase failure)⟩

/-- What follows a completion: the update is merged, and then it matters whether the step failed. -/
def completed (d : Definition) (cx : Collaborators) (line : Line) (k : Nat) (x : Step)
    (update : Value) (failure : Option StepFailure) (i : Instance) (calls : List Call) : Applied :=
  let merged := { i with state := cx.reduce i.state update }
  match failure with
  | some failure => d.failed line x failure merged calls
  | none => d.succeeded cx line k x merged calls

end Definition

/-! ## Continuations and actions -/

/-- Overwriting is the same as writing once. -/
theorem Keyed.insert_insert {α : Type} (key : String) (v w : α) (entries : List (String × α)) :
    Keyed.insert key v (Keyed.insert key w entries) = Keyed.insert key v entries := by
  induction entries with
  | nil => simp [Keyed.insert]
  | cons p rest ih =>
    obtain ⟨k, u⟩ := p
    by_cases same : k = key
    · simp [Keyed.insert, same]
    · by_cases before : key < k
      · simp [Keyed.insert, same, before]
      · simp [Keyed.insert, same, before, ih]

/-- A last action decides how the transition ends. -/
theorem Flow.applied_steps_singleton (cx : Collaborators) (m : Message) (r : Run) (a : Action) :
    (Run.steps cx m r [a]).applied = (Run.step cx m r a).applied := by
  simp only [Run.steps]
  cases Run.step cx m r a <;> rfl

/-- Following the continuation does what the rule says, on every instance. -/
def Continuation.Means (cx : Collaborators) (k : Continuation)
    (rule : Instance → List Call → Applied) : Prop :=
  ∀ i calls, (Flow.next (Run.follow cx ⟨i, none, [], calls⟩ k)).applied = rule i calls

/-- The action does what the rule says, on every instance. -/
def Action.Means (cx : Collaborators) (a : Action) (rule : Instance → List Call → Applied) : Prop :=
  ∀ m i calls, (Run.step cx m ⟨i, none, [], calls⟩ a).applied = rule i calls

section Means

variable {cx : Collaborators} {d : Definition}

theorem means_send (stem : String) :
    (Continuation.send (Name.startCommand stem)).Means cx (Instance.starting · · stem) :=
  fun _ _ => rfl

theorem means_complete : Continuation.complete.Means cx (Instance.finishing · · Name.completed) :=
  fun _ _ => rfl

theorem means_proceed {k : Continuation} {rule : Instance → List Call → Applied}
    (h : k.Means cx rule) : (Action.proceed k).Means cx rule :=
  fun _ i calls => h i calls

/-- The decisions at the end of a body, from the innermost loop outwards. -/
theorem means_loopControl (loops : List Loop) :
    (d.loopControl loops).Means cx (d.loopsEnded cx loops) := by
  induction loops with
  | nil => exact means_complete
  | cons l outer ih =>
    intro i calls
    have leave : ∀ left calls, (Flow.next (Run.follow cx ⟨left, none, [], calls⟩
        (match l.continuation with
          | some step => .send (Name.startCommand step)
          | none => d.loopControl outer))).applied
        = match l.continuation with
          | some step => left.starting calls step
          | none => d.loopsEnded cx outer left calls := by
      intro left calls
      cases l.continuation with
      | some step => exact means_send step left calls
      | none => exact ih left calls
    simp only [Definition.loopControl, Run.follow, Run.setCounter, Run.ask, Registry.ask,
      Keyed.insert_insert, Definition.loopsEnded]
    split
    · exact leave _ calls
    · split
      · exact leave _ _
      · rfl

theorem means_pathEnd (b : Branch) (c : Case) :
    (PathEnd.continuation ⟨b, c⟩).Means cx (b.rejoined c) := by
  unfold PathEnd.continuation Branch.rejoined
  cases c.isTerminal with
  | true => exact means_complete
  | false =>
    cases b.rejoinStep with
    | some step => exact means_send step
    | none => exact means_complete

theorem means_request (g : Gate) : g.request.Means cx g.requested :=
  fun _ _ => rfl

theorem means_approved (a : Approval) :
    (d.approved a).Means cx fun i calls =>
      match d.successor? a.gate.precedingStep with
      | some y => i.starting calls y.identifier
      | none => i.finishing calls Name.completed := by
  unfold Definition.approved
  cases d.successor? a.gate.precedingStep with
  | some y => exact means_send y.identifier
  | none => exact means_complete

/-- The arms and the fallback of a route are the cases of the branch. -/
theorem target_toRoute (b : Branch) (value : String) :
    ((b.toRoute.arms.find? (·.value = value)).map RouteArm.target).or b.toRoute.fallback
      = (b.select? value).map b.entryOf := by
  simp only [Branch.toRoute, Branch.select?, List.find?_map, Option.map_map, Function.comp_def]
  cases b.literals.find? fun l => l.1 = value <;> simp

theorem means_route (b : Branch) : (Action.route b.toRoute).Means cx b.chosen := by
  intro m i calls
  have key : b.toRoute.key.fieldPath = b.discriminator.fieldPath := rfl
  simp only [Run.step, Run.choose, target_toRoute, key, Branch.chosen]
  cases b.select? (State.routingText i.state b.discriminator.fieldPath) with
  | none => rfl
  | some c =>
    simp only [Option.map_some, Branch.entryOf]
    cases c.steps with
    | nil => exact means_pathEnd b c i calls
    | cons first rest => exact means_send _ i calls

/-- Commands are sent in order. -/
theorem foldl_send (commands : List String) (r : Run) :
    commands.foldl Run.send r = { r with
      effects := r.effects ++ commands.map fun command => .send ⟨command, r.inst.id, .empty⟩ } := by
  induction commands generalizing r with
  | nil => simp
  | cons command rest ih => simp [ih, Run.send, Run.sendBody, Run.emit]

theorem means_cascade (f : Fork) : f.cascade.Means cx f.started := by
  intro m i calls
  simp only [Fork.cascade, Run.step, foldl_send, Flow.applied, Fork.started, List.nil_append,
    List.map_filterMap, Option.map_map, Function.comp_def]

end Means

/-! ## What hangs on a step -/

namespace Definition.WellFormed

variable {d : Definition} (hw : d.WellFormed) {x : Step} {label : String}
  (attached : (x.identifier, label) ∈ d.attachments)

include hw attached

theorem loopsEnding_eq_nil (other : label ≠ "loop end") :
    (d.enclosingLoops x.identifier).reverse.filter (·.lastStep = x.identifier) = [] := by
  rw [← hw.loopsEndingAt_eq, List.eq_nil_iff_forall_not_mem]
  intro l hl
  obtain ⟨declared, last⟩ := mem_loopsEndingAt_iff.mp hl
  exact other (hw.attached_once attached (last ▸ attached_loop declared))

theorem find?_branch_eq_none (other : label ≠ "branch") :
    d.branches.find? (·.previousStep = x.identifier) = none := by
  refine List.find?_eq_none.mpr fun b declared after => other ?_
  exact hw.attached_once attached (of_decide_eq_true after ▸ attached_branch declared)

theorem find?_approval_eq_none (other : label ≠ "approval") :
    d.approvals.find? (·.gate.precedingStep = x.identifier) = none := by
  refine List.find?_eq_none.mpr fun a declared after => other ?_
  exact hw.attached_once attached (of_decide_eq_true after ▸ attached_approval declared)

omit attached

variable {cx : Collaborators} {k : Nat} {i : Instance} {calls : List Call}

/-- After the step before a branch, nothing but the choice can follow. -/
theorem succeeded_branch {b : Branch} (declared : b ∈ d.branches)
    (before : x.identifier = b.previousStep) :
    d.succeeded cx .main k x i calls = b.chosen i calls := by
  have attached : (x.identifier, "branch") ∈ d.attachments := before ▸ attached_branch declared
  have found := (find?_key_eq_some_iff hw.branches_distinct).mpr ⟨declared, before.symm⟩
  simp only [succeeded, hw.loopsEnding_eq_nil attached (by decide), found]

/-- After the step before an approval, nothing but the request can follow. -/
theorem succeeded_approval {a : Approval} (declared : a ∈ d.approvals)
    (before : x.identifier = a.gate.precedingStep) :
    d.succeeded cx .main k x i calls = a.gate.requested i calls := by
  have attached : (x.identifier, "approval") ∈ d.attachments := before ▸ attached_approval declared
  have found : d.approvals.find? (·.gate.precedingStep = x.identifier) = some a :=
    (find?_key_eq_some_iff hw.approvals_distinct).mpr ⟨declared, before.symm⟩
  simp only [succeeded, hw.loopsEnding_eq_nil attached (by decide),
    hw.find?_branch_eq_none attached (by decide), found]

/-- After the step before a fork, nothing but the fork can follow. -/
theorem succeeded_fork {f : Fork} (declared : f ∈ d.forks)
    (before : x.identifier = f.previousStep) :
    d.succeeded cx .main k x i calls = f.started i calls := by
  have attached : (x.identifier, "fork") ∈ d.attachments := before ▸ attached_fork declared
  have found := (find?_key_eq_some_iff hw.forks_distinct).mpr ⟨declared, before.symm⟩
  simp only [succeeded, hw.loopsEnding_eq_nil attached (by decide),
    hw.find?_branch_eq_none attached (by decide),
    hw.find?_approval_eq_none attached (by decide), found]

end Definition.WellFormed

/-! ## Handlers and resumption -/

namespace Line

variable {d : Definition}

theorem handler_site (line : Line) (x : Step) : (line.site d x).handler = line.handler? d x := by
  have own : (fun h : Handler => decide (h.trigger? = some x.identifier))
      = fun h => decide (h.scope = .step x.identifier) := by
    funext h
    obtain ⟨_, scope, _, _⟩ := h
    cases scope <;> simp [Handler.trigger?]
  cases line with
  | main => simp only [site, Definition.handlerFor?, Definition.workflowHandler?, own, handler?]
  | _ => rfl

theorem mem_forwardLines_iff {line : Line} (belongs : line.In d) {k : Nat} {x : Step}
    (hx : (line.steps d)[k]? = some x) :
    line ∈ d.forwardLines ↔ (line.site d x).origin ≠ .recovery := by
  simp only [Definition.forwardLines, List.cons_append, List.mem_cons, List.mem_append,
    List.mem_flatMap, List.mem_map, List.mem_range]
  cases line with
  | main => simp [site]
  | path b c =>
    have mem : b ∈ d.branches ∧ c ∈ b.cases := belongs
    simp [site, mem]
  | fork f index =>
    have inside : index < f.paths.length := by
      by_contra outside
      have absent := List.getElem?_eq_none (Nat.le_of_not_lt outside)
      simp [steps, List.getD_eq_getElem?_getD, absent] at hx
    have mem : f ∈ d.forks := belongs
    simp [site, mem, inside]
  | escalation a g =>
    have mem : a ∈ d.approvals ∧ g ∈ a.chain := belongs
    simp [site, mem]
  | rejection a g =>
    have mem : a ∈ d.approvals ∧ g ∈ a.chain := belongs
    simp [site, mem]
  | recovery h => simp [site]

theorem in_of_mem_forwardLines {line : Line} (h : line ∈ d.forwardLines) : line.In d := by
  simp only [Definition.forwardLines, List.cons_append, List.mem_cons, List.mem_append,
    List.mem_flatMap, List.mem_map, List.mem_range, List.not_mem_nil, or_false] at h
  rcases h with rfl | (⟨b, hb, c, hc, rfl⟩ | ⟨f, hf, index, _, rfl⟩) | ⟨a, ha, g, hg, rfl | rfl⟩
  · trivial
  · exact ⟨hb, hc⟩
  · exact hf
  · exact ⟨ha, hg⟩
  · exact ⟨ha, hg⟩

end Line

/-- A search finds an element that nothing else in the list could be taken for. -/
theorem find?_eq_some_of_unique {α : Type} {p : α → Bool} {l : List α} {a : α} (ha : a ∈ l)
    (hp : p a = true) (unique : ∀ b ∈ l, p b = true → b = a) : l.find? p = some a := by
  cases found : l.find? p with
  | none => exact absurd hp (List.find?_eq_none.mp found a ha)
  | some b =>
    rw [unique b (List.mem_of_find?_eq_some found) (List.find?_some found)]

namespace Compiled

variable {d : Definition} {t : Table} (c : Compiled d t)

include c

/-- The search through the lines finds the step that the targets of a chain list. -/
theorem find?_resumeTargets (h : Handler) (phase : String) :
    ((d.resumeTargets h).find? (·.step = phase)).map ResumeTarget.command
      = (d.resumption? h phase).map Name.startCommand := by
  cases found : d.resumption? h phase with
  | some stem =>
    obtain ⟨line, hline, hit⟩ := List.exists_of_findSome?_eq_some found
    obtain ⟨y, hy, rfl⟩ := Option.map_eq_some_iff.mp hit
    have belongs := Line.in_of_mem_forwardLines hline
    obtain ⟨k, hk⟩ := List.mem_iff_getElem?.mp (List.mem_of_find?_eq_some hy)
    have fits : line.phase d y = phase ∧ line.handler? d y = some h := by
      simpa using List.find?_some hy
    have site := c.wellFormed.siteAt_mem_sites line belongs hk
    have target : (d.resumeTargets h).find? (·.step = phase)
        = some ⟨phase, Name.startCommand (line.stem d y)⟩ := by
      apply find?_eq_some_of_unique
      · refine List.mem_map.mpr ⟨line.siteAt d k y, List.mem_filter.mpr ⟨site, ?_⟩, ?_⟩
        · simpa [Line.handler_site, fits.2] using (Line.mem_forwardLines_iff belongs hk).mp hline
        · simp [Site.startCommand, fits.1]
      · simp
      · intro b hb same
        obtain ⟨s, hs, rfl⟩ := List.mem_map.mp hb
        have one := c.site_eq_of_phase (List.mem_of_mem_filter hs) site
          (by simpa [fits.1] using same)
        simp [one, Site.startCommand, fits.1]
    simp [target]
  | none =>
    have none : (d.resumeTargets h).find? (·.step = phase) = none := by
      rw [List.find?_eq_none]
      intro b hb same
      obtain ⟨s, hs, rfl⟩ := List.mem_map.mp hb
      obtain ⟨hs, takes⟩ := List.mem_filter.mp hs
      obtain ⟨line, belongs, k, y, hk, rfl⟩ := c.wellFormed.mem_sites_iff.mp hs
      simp only [Line.siteAt_origin, Line.siteAt_handler, Line.handler_site, Bool.and_eq_true,
        decide_eq_true_eq, Line.siteAt_phase] at takes same
      have missed := List.findSome?_eq_none_iff.mp found line
        ((Line.mem_forwardLines_iff belongs hk).mpr takes.1)
      rw [Option.map_eq_none_iff, List.find?_eq_none] at missed
      exact missed y (List.mem_of_getElem? hk) (by simp [same, takes.2])
    simp [none]

theorem means_chainEnd (h : Handler) (cx : Collaborators) :
    (d.chainEnd h).Means cx (d.lineEnded (.recovery h)) := by
  intro m i calls
  cases terminal : h.isTerminal with
  | true =>
    simp only [Definition.chainEnd, Definition.lineEnded, terminal, ↓reduceIte]
    rfl
  | false =>
    simp only [Definition.chainEnd, Definition.lineEnded, terminal, Bool.false_eq_true, ↓reduceIte,
      Run.step, Run.resume]
    have one := c.find?_resumeTargets h
      ((i.failureContext.map FailureContext.failedStep).getD "")
    cases found : d.resumption? h
        ((i.failureContext.map FailureContext.failedStep).getD "") with
    | none =>
      rw [found, Option.map_none, Option.map_eq_none_iff] at one
      rw [one]
      rfl
    | some stem =>
      rw [found, Option.map_some] at one
      obtain ⟨target, htarget, command⟩ := Option.map_eq_some_iff.mp one
      rw [htarget]
      simp only [command]
      rfl

theorem means_ending (line : Line) (cx : Collaborators) :
    (line.ending d).Means cx (d.lineEnded line) := by
  cases line with
  | main => exact means_proceed means_complete
  | path b k => exact means_proceed (means_pathEnd b k)
  | fork f index => exact fun _ _ _ => rfl
  | escalation a g => exact means_proceed (means_approved a)
  | rejection a g => exact means_proceed means_complete
  | recovery h => exact c.means_chainEnd h cx

/-- What a table does after a success is what the rule says. -/
theorem means_next (line : Line) (belongs : line.In d) {k : Nat} {x : Step}
    (hx : (line.steps d)[k]? = some x) (cx : Collaborators) :
    (d.next (line.siteAt d k x)).Means cx (d.succeeded cx line k x) := by
  have onward : ∀ line : Line, (match line.next d k with
      | some stem => Action.proceed (.send (Name.startCommand stem))
      | none => line.ending d).Means cx fun i calls =>
        match (line.steps d)[k + 1]? with
        | some y => i.starting calls (line.stem d y)
        | none => d.lineEnded line i calls := by
    intro line
    unfold Line.next
    cases (line.steps d)[k + 1]? with
    | some y => exact means_proceed (means_send _)
    | none => exact c.means_ending line cx
  by_cases off : line = .main
  · subst off
    intro m i calls
    rw [Definition.next_main, c.wellFormed.loopsEndingAt_eq, c.wellFormed.branchAfter?_eq,
      c.wellFormed.approvalAfter?_eq, c.wellFormed.forkAfter?_eq]
    simp only [Definition.succeeded]
    cases (d.enclosingLoops x.identifier).reverse.filter (·.lastStep = x.identifier) with
    | cons l outer => exact means_proceed (means_loopControl (l :: outer)) m i calls
    | nil =>
      rw [if_neg (by simp)]
      cases d.branches.find? (·.previousStep = x.identifier) with
      | some b => exact means_route b m i calls
      | none =>
        cases d.approvals.find? (·.gate.precedingStep = x.identifier) with
        | some a => exact means_proceed (means_request a.gate) m i calls
        | none =>
          cases d.forks.find? (·.previousStep = x.identifier) with
          | some f => exact means_cascade f m i calls
          | none =>
            refine Eq.trans ?_ (onward .main m i calls)
            cases Line.main.next d k <;> rfl
  · rw [c.next_siteAt line belongs off hx]
    intro m i calls
    refine (onward line m i calls).trans ?_
    cases line with
    | main => exact absurd rfl off
    | _ => rfl

omit c in
/-- What a table does after a failure is what the rule says, whatever it would do after a success. -/
theorem routeFailure_siteAt (line : Line) (k : Nat) (x : Step) (failure : StepFailure)
    (i : Instance) (calls : List Call) (cx : Collaborators) (m : Message) (rest : List Action) :
    (Run.steps cx m ⟨{ i with phase := Name.failed }, some failure, [], calls⟩
      (.routeFailure (line.siteAt d k x).failureRoute :: rest)).applied
      = d.failed line x failure i calls := by
  have route : (line.siteAt d k x).failureRoute = ⟨line.phase d x,
      (line.handler? d x).map fun h => Name.failureTrigger h.id, (line.site d x).forkPath⟩ := by
    simp [Site.failureRoute, Line.handler_site]
  simp only [route, Run.steps, Run.step, Run.routeFailure, ne_eq, not_true_eq_false, ↓reduceIte,
    Definition.failed]
  cases line.handler? d x with
  | some h =>
    cases line with
    | fork f index =>
      simp only [Line.site, Run.cancel, Option.map_some]
      cases f.failFast <;> rfl
    | _ => rfl
  | none =>
    cases line with
    | fork f index =>
      simp only [Line.site, Run.cancel, Option.map_none]
      cases f.failFast <;> rfl
    | _ => rfl

/-- The completion of a site does what the definition says. -/
theorem apply_completion (line : Line) (belongs : line.In d) {k : Nat} {x : Step}
    (hx : (line.steps d)[k]? = some x) (cx : Collaborators) (calls : List Call) (i : Instance)
    (m : Message) {update : Value} {failure : Option StepFailure}
    (body : m.body = .completed update failure) :
    (d.completion (line.siteAt d k x)).apply cx calls i m
      = d.completed cx line k x update failure i calls := by
  have merged : (d.completion (line.siteAt d k x)).apply cx calls i m
      = (Run.steps cx m (Run.merge cx ⟨i, none, [], calls⟩ update failure)
        [.routeFailure (line.siteAt d k x).failureRoute, d.next (line.siteAt d k x)]).applied := by
    simp only [Definition.completion, Transition.of, Transition.apply, Run.steps, Run.step, body]
  rw [merged]
  cases failure with
  | some failure =>
    exact routeFailure_siteAt line k x failure { i with state := cx.reduce i.state update } calls
      cx m _
  | none =>
    refine Eq.trans ?_ (c.means_next line belongs hx cx m
      { i with state := cx.reduce i.state update } calls)
    exact Flow.applied_steps_singleton _ _ _ _

end Compiled

/-- A table does after every completion what the definition says. -/
theorem apply_completedEvent {d : Definition} {s : Settings} {t : Table}
    (h : d.compile s = .ok t) (line : Line) (belongs : line.In d) {k : Nat} {x : Step}
    (hx : (line.steps d)[k]? = some x) (cx : Collaborators) (calls : List Call) (i : Instance)
    (id : Key) (update : Value) (failure : Option StepFailure) :
    ∃ tr, t.transitionFor? (Name.completedEvent (line.stem d x)) = some tr
      ∧ tr.apply cx calls i
          ⟨Name.completedEvent (line.stem d x), id, .completed update failure⟩
        = d.completed cx line k x update failure i calls := by
  have c := Definition.compiled_of_compile h
  have found := c.transitionFor?_completedEvent (c.wellFormed.siteAt_mem_sites line belongs hx)
  simp only [Site.completedEvent, Line.siteAt_stem] at found
  exact ⟨_, found, c.apply_completion line belongs hx cx calls i _ rfl⟩

/-- When the bill of an order fails beside the label, the handler hears of it. -/
theorem apply_completedEvent_bill : ∃ t tr, Definition.order.compile .default = .ok t
    ∧ t.transitionFor? "BillCompleted" = some tr
    ∧ tr.apply ⟨fun _ update => update, fun _ _ _ => true⟩ [] (.fresh t (.number 7) (.int 0))
        ⟨"BillCompleted", .number 7, .completed .null (some ⟨"no funds", "Bank", none⟩)⟩
      = ⟨{ Instance.fresh t (.number 7) .null with phase := "Failed" }, [], .ok
        [.send ⟨"StartFailureHandler_allCommand", .number 7,
          .failureTrigger ⟨"Bill", "no funds", "Bank", none⟩⟩]⟩ := by
  obtain ⟨t, ht⟩ := Definition.exists_compile_order
  have fork : Line.In Definition.order (.fork
      ⟨"Pack", [[.ofName "Label", .ofName "Weigh"], [.ofName "Bill"]], false, "Ship"⟩ 1) := by
    simp [Line.In, Definition.order]
  obtain ⟨tr, found, applied⟩ := apply_completedEvent ht _ fork (k := 0) (x := .ofName "Bill") rfl
    ⟨fun _ update => update, fun _ _ _ => true⟩ [] (.fresh t (.number 7) (.int 0)) (.number 7)
    .null (some ⟨"no funds", "Bank", none⟩)
  exact ⟨t, tr, ht, found, applied⟩

end Workflow
