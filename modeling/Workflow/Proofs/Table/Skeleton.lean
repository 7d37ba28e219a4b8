import Workflow.Proofs.Definition.Skeleton
import Workflow.Proofs.Table.Compiled

/-!
Tables of definitions that differ in their free texts only.

Free texts are passed on to the table and decide nothing on the way, so the table of a definition has the
skeleton that the skeleton of the definition gives. One step compares whole handlers, with the texts of
their steps: where a recovery resumes. Handlers of a valid definition differ in their scopes, which are
names, so it finds the same sites. The main statement is that definitions with one skeleton have tables
with one skeleton.
-/

set_option autoImplicit false

namespace Workflow

/-! ## Tables -/

/-- An exit check without its condition. -/
def ExitCheck.skeleton (c : ExitCheck) : ExitCheck :=
  { c with conditionId := "" }

/-- A guard without its condition and its message. -/
def ValidationGuard.skeleton (g : ValidationGuard) : ValidationGuard :=
  { g with conditionId := "", message := "" }

/-- A route without what it looks at and the literals of its arms. -/
def Route.skeleton (r : Route) : Route where
  branch := r.branch
  key := { r.key with fieldPath := "", typeName := "" }
  arms := r.arms.map fun a => ⟨"", a.target.skeleton⟩
  fallback := r.fallback.map Continuation.skeleton

/-- An action without its free texts. -/
def Action.skeleton : Action → Action
  | .validate g => .validate g.skeleton
  | .dispatchWork _ command => .dispatchWork "" command
  | .proceed k => .proceed k.skeleton
  | .route r => .route r.skeleton
  | .decide approved rejected => .decide approved.skeleton rejected.skeleton
  | a => a

/-- A transition without the free texts of its actions. -/
def Transition.skeleton (t : Transition) : Transition :=
  { t with body := t.body.map Action.skeleton }

/-- A table without its free texts. -/
def Table.skeleton (t : Table) : Table :=
  { t with
    checks := t.checks.map ExitCheck.skeleton
    start := t.start.skeleton
    transitions := t.transitions.map Transition.skeleton }

/-! ## Lowering -/

section Lowering

/-- A path ends alike, whatever its case is selected by. -/
theorem PathEnd.continuation_skeleton (e : PathEnd) :
    e.skeleton.continuation = e.continuation.skeleton := by
  unfold continuation
  by_cases terminal : e.path.isTerminal = true
  · have terminal' : e.skeleton.path.isTerminal = true := terminal
    rw [if_pos terminal, if_pos terminal']
    rfl
  · have terminal' : ¬ e.skeleton.path.isTerminal = true := terminal
    have rejoin : e.skeleton.branch.rejoinStep = e.branch.rejoinStep := rfl
    rw [if_neg terminal, if_neg terminal', rejoin]
    cases e.branch.rejoinStep <;> rfl

/-- A case is entered at the same step. -/
theorem Branch.entryOf_skeleton (b : Branch) (c : Case) :
    b.skeleton.entryOf c.skeleton = (b.entryOf c).skeleton := by
  cases steps : c.steps with
  | nil =>
    have steps' : c.skeleton.steps = [] := by simp [Case.skeleton, steps]
    simp only [entryOf, steps, steps']
    exact PathEnd.continuation_skeleton ⟨b, c⟩
  | cons first rest =>
    have steps' : c.skeleton.steps = first.skeleton :: rest.map Step.skeleton := by
      simp [Case.skeleton, steps]
    simp only [entryOf, steps, steps']
    rfl

/-- The cases with a literal stay, in order; the literals go. -/
theorem Branch.literals_skeleton (b : Branch) :
    b.skeleton.literals = b.literals.map fun p => ("", p.2.skeleton) := by
  rw [literals, skeleton, List.filterMap_map, literals, List.map_filterMap]
  refine congrArg (b.cases.filterMap ·) (funext fun c => ?_)
  simp only [Function.comp_apply, Case.skeleton]
  cases selector : c.selector <;> simp [Selector.skeleton, selector]

theorem Selector.skeleton_eq_otherwise_iff {s : Selector} : s.skeleton = .otherwise ↔ s = .otherwise := by
  cases s <;> simp [skeleton]

/-- The case for all other values stays what it is. -/
theorem Branch.fallback?_skeleton (b : Branch) :
    b.skeleton.fallback? = b.fallback?.map Case.skeleton :=
  find?_map_of_eq (f := Case.skeleton) (p := (·.selector = .otherwise)) (q := (·.selector = .otherwise))
    (fun _ => decide_eq_decide.mpr Selector.skeleton_eq_otherwise_iff) b.cases

/-- A branch becomes the same route, but for what it looks at and the values of its arms. -/
theorem Branch.toRoute_skeleton (b : Branch) : b.skeleton.toRoute = b.toRoute.skeleton := by
  have arms : b.skeleton.literals.map (fun p => RouteArm.mk p.1 (b.skeleton.entryOf p.2))
      = (b.literals.map fun p => RouteArm.mk p.1 (b.entryOf p.2)).map
        fun a => ⟨"", a.target.skeleton⟩ := by
    rw [literals_skeleton, List.map_map, List.map_map]
    exact List.map_congr_left fun p _ => congrArg _ (b.entryOf_skeleton p.2)
  have fallback : b.skeleton.fallback?.map b.skeleton.entryOf
      = (b.fallback?.map b.entryOf).map Continuation.skeleton := by
    rw [fallback?_skeleton, Option.map_map, Option.map_map]
    exact congrArg (Option.map · _) (funext b.entryOf_skeleton)
  simp only [toRoute, Route.skeleton]
  rw [← arms, ← fallback]
  rfl

theorem Gate.rejected_skeleton (g : Gate) : g.skeleton.rejected = g.rejected.skeleton := by
  unfold rejected
  rw [skeleton]
  cases g.rejectionSteps <;> rfl

/-- A timeout leads to the same step or the same gate. -/
theorem Approval.timedOut_skeleton (a : Approval) : a.skeleton.timedOut = a.timedOut.skeleton := by
  cases a with
  | failing g => rfl
  | running g steps => cases steps <;> rfl
  | asking g next =>
    have gate : next.skeleton.gate = next.gate.skeleton := next.gate_skeleton
    simp only [skeleton, timedOut, gate]
    rfl

/-- The three transitions of a gate are the same but for the type of the approver. -/
theorem Approval.transitions_skeleton (a : Approval) (approved : Continuation) :
    a.skeleton.transitions approved.skeleton = (a.transitions approved).map Transition.skeleton := by
  simp only [transitions, gate_skeleton, timedOut_skeleton, Gate.rejected_skeleton]
  rfl

/-- A fork starts the same paths. -/
theorem Fork.cascade_skeleton (f : Fork) : f.skeleton.cascade = f.cascade.skeleton := by
  have commands : f.skeleton.paths.filterMap
        (fun steps => steps.head?.map fun s => Name.startCommand s.identifier)
      = f.paths.filterMap fun steps => steps.head?.map fun s => Name.startCommand s.identifier := by
    rw [skeleton, List.filterMap_map]
    refine congrArg (f.paths.filterMap ·) (funext fun steps => ?_)
    simp only [Function.comp_apply, List.head?_map, Option.map_map]
    rfl
  rw [cascade, commands]
  rfl

/-- A failure goes where it went: no free text has a part in this. -/
theorem Site.failureRoute_skeleton (s : Site) : s.skeleton.failureRoute = s.failureRoute := by
  simp only [failureRoute, skeleton, Option.map_map]
  rfl

/-- A step starts alike, with a guard in front where there was one. -/
theorem Site.startTransition_skeleton (s : Site) :
    s.skeleton.startTransition = s.startTransition.skeleton := by
  have guards : s.skeleton.guardActions = s.guardActions.map Action.skeleton := by
    simp only [guardActions, skeleton, Step.skeleton]
    cases s.step.guard <;> rfl
  simp only [startTransition, guards, Transition.of, Transition.skeleton, List.map_cons, List.map_append]
  rfl

/-- A handler is entered at the same step. -/
theorem Handler.trigger_skeleton (h : Handler) : h.skeleton.trigger = h.trigger.map Transition.skeleton := by
  unfold trigger
  rw [skeleton]
  cases h.steps <;> rfl

end Lowering

/-- A traversal of images, where each image gives the image of what its source gives. -/
theorem mapM_map_of_forall {ε α α' β β' : Type} {f : α → Except ε β} {f' : α' → Except ε β'} {g : α → α'}
    {k : β → β'} {l : List α} (same : ∀ a ∈ l, f' (g a) = (f a).map k) :
    (l.map g).mapM f' = (l.mapM f).map (List.map k) := by
  induction l with
  | nil => rfl
  | cons a rest ih =>
    obtain ⟨here, further⟩ := List.forall_mem_cons.mp same
    rw [List.map_cons, List.mapM_cons, List.mapM_cons, here, ih further]
    cases f a with
    | error e => rfl
    | ok b => cases rest.mapM f <;> rfl

namespace Definition

variable (d : Definition)

/-- Stacked loops are lowered alike; the conditions are passed on. -/
theorem loopControl_skeleton (loops : List Loop) :
    d.skeleton.loopControl (loops.map Loop.skeleton) = (d.loopControl loops).skeleton := by
  induction loops with
  | nil => rfl
  | cons l outer ih =>
    simp only [List.map_cons, loopControl, loopNames_skeleton, ih]
    simp only [Loop.skeleton]
    cases l.continuation <;> rfl

/-- What a host has to know about a fork holds no free text. -/
theorem forkLayout_skeleton (f : Fork) : d.skeleton.forkLayout f.skeleton = d.forkLayout f := by
  have paths : ∀ i steps, d.skeleton.pathSites f.skeleton i (steps.map Step.skeleton)
      = (d.pathSites f i steps).map Site.skeleton := d.pathSites_skeleton f
  have layouts : (d.skeleton.forkLayout f.skeleton).paths = (d.forkLayout f).paths := by
    refine List.ext_getElem? fun i => ?_
    simp only [forkLayout, List.getElem?_mapIdx, List.getElem?_map, Fork.skeleton, Option.map_map]
    refine congrArg (Option.map · _) (funext fun steps => ?_)
    have along := paths i steps
    rw [Fork.skeleton] at along
    simp only [Function.comp_apply, along, List.map_map, List.flatMap_map, Site.messages_skeleton]
    rfl
  exact congrArg (ForkLayout.mk _ _ _ _) layouts

section WellFormed

variable {d} (hw : d.WellFormed)

include hw

/-- Handlers of a valid definition are told apart by their scopes. -/
theorem WellFormed.eq_of_skeleton {g h : Handler} (hg : g ∈ d.handlers) (hh : h ∈ d.handlers)
    (same : g.skeleton = h.skeleton) : g = h := by
  have scope : g.skeleton.scope = h.skeleton.scope := by rw [same]
  exact List.inj_on_of_nodup_map hw.handler_scopes hg hh scope

/-- The failures of a site go to a handler of the definition. -/
theorem WellFormed.handler_mem_of_site {s : Site} (hs : s ∈ d.sites) {h : Handler}
    (takes : s.handler = some h) : h ∈ d.handlers := by
  obtain ⟨line, _, i, x, _, rfl⟩ := hw.mem_sites_iff.mp hs
  exact line.handler_mem (by rw [← Line.siteAt_handler, takes])

/-- A recovery resumes at the same sites. -/
theorem WellFormed.resumeTargets_skeleton {h : Handler} (hh : h ∈ d.handlers) :
    d.skeleton.resumeTargets h.skeleton = d.resumeTargets h := by
  rw [resumeTargets, sites_skeleton, List.filter_map, List.map_map, resumeTargets]
  have alike : ∀ s ∈ d.sites, (s.skeleton.origin ≠ .recovery && s.skeleton.handler = some h.skeleton)
      = (s.origin ≠ .recovery && s.handler = some h) := by
    intro s hs
    have handled : s.handler.map Handler.skeleton = some h.skeleton ↔ s.handler = some h := by
      refine ⟨fun shortened => ?_, fun takes => by rw [takes]; rfl⟩
      obtain ⟨g, takes, same⟩ := Option.map_eq_some_iff.mp shortened
      rw [takes, hw.eq_of_skeleton (hw.handler_mem_of_site hs takes) hh same]
    exact congrArg (_ && ·) (decide_eq_decide.mpr handled)
  exact congrArg (List.map _) (List.filter_congr alike)

/-- A recovery ends alike. -/
theorem WellFormed.chainEnd_skeleton {h : Handler} (hh : h ∈ d.handlers) :
    d.skeleton.chainEnd h.skeleton = (d.chainEnd h).skeleton := by
  unfold chainEnd
  by_cases terminal : h.isTerminal = true
  · have terminal' : h.skeleton.isTerminal = true := terminal
    rw [if_pos terminal, if_pos terminal']
    rfl
  · have terminal' : ¬ h.skeleton.isTerminal = true := terminal
    rw [if_neg terminal, if_neg terminal', hw.resumeTargets_skeleton hh]
    rfl

/-- The end of a recovery is that of a handler of the definition. -/
theorem WellFormed.handler_mem_of_ending {s : Site} (hs : s ∈ d.sites) {h : Handler}
    (ending : s.ending = .recovery h) : h ∈ d.handlers := by
  obtain ⟨line, belongs, i, x, _, rfl⟩ := hw.mem_sites_iff.mp hs
  rw [Line.siteAt_ending] at ending
  cases line <;> cases ending
  exact belongs

/-- So does every sequence. -/
theorem WellFormed.sequenceEnd_skeleton {s : Site} (hs : s ∈ d.sites) :
    d.skeleton.sequenceEnd s.ending.skeleton = (d.sequenceEnd s.ending).skeleton := by
  cases ending : s.ending with
  | recovery h => exact hw.chainEnd_skeleton (hw.handler_mem_of_ending hs ending)
  | pathEnd e => exact congrArg Action.proceed e.continuation_skeleton
  | _ => rfl

/-- What follows a site is decided by the names of what is attached to it. -/
theorem WellFormed.next_skeleton {s : Site} (hs : s ∈ d.sites) :
    d.skeleton.next s.skeleton = (d.next s).skeleton := by
  by_cases loops : s.loops = []
  · have sequence := hw.sequenceEnd_skeleton hs
    simp only [next, Site.skeleton, loops, List.map_nil, ne_eq, not_true_eq_false, ↓reduceIte]
    cases s.branch with
    | some b => exact congrArg Action.route b.toRoute_skeleton
    | none =>
    cases s.pathEnd with
    | some e => exact congrArg Action.proceed e.continuation_skeleton
    | none =>
    cases s.approval with
    | some a =>
      simp only [Option.map_none, Option.map_some, a.gate_skeleton]
      rfl
    | none =>
    cases s.fork with
    | some f => exact f.cascade_skeleton
    | none =>
    cases s.next with
    | some stem => rfl
    | none => exact sequence
  · have loops' : s.skeleton.loops ≠ [] := by simpa [Site.skeleton] using loops
    rw [next, if_pos loops', next, if_pos loops]
    exact congrArg Action.proceed (d.loopControl_skeleton s.loops)

/-- An entry of the plan brings the same transitions. -/
theorem WellFormed.entryTransitions_skeleton {e : Entry} (he : e ∈ d.plan) :
    d.skeleton.entryTransitions e.skeleton
      = (d.entryTransitions e).map (List.map Transition.skeleton) := by
  cases e with
  | step s =>
    have completion : d.skeleton.completion s.skeleton = (d.completion s).skeleton := by
      rw [Definition.completion, s.failureRoute_skeleton,
        hw.next_skeleton (mem_sites_iff_mem_plan.mpr he)]
      rfl
    simp only [Entry.skeleton, entryTransitions, s.startTransition_skeleton, completion]
    rfl
  | approval a approved =>
    simp only [Entry.skeleton, entryTransitions, a.transitions_skeleton approved]
    rfl
  | handler h =>
    simp only [Entry.skeleton, entryTransitions, h.trigger_skeleton]
    cases h.trigger <;> rfl

/-- So does the whole plan, or it is refused for the same reason. -/
theorem WellFormed.transitions_skeleton :
    d.skeleton.transitions = d.transitions.map (List.map Transition.skeleton) := by
  rw [transitions, plan_skeleton,
    mapM_map_of_forall fun e he => hw.entryTransitions_skeleton he, transitions]
  cases d.plan.mapM d.entryTransitions with
  | error e => rfl
  | ok lists => exact congrArg Except.ok List.map_flatten.symm

end WellFormed

/-- An instance is started alike. -/
theorem startFactory_skeleton : d.skeleton.startFactory = d.startFactory.map Transition.skeleton := by
  unfold startFactory
  rw [steps_skeleton]
  cases d.steps <;> rfl

theorem fields_skeleton : d.skeleton.fields = d.fields := by
  simp only [fields, approvals_skeleton, loops_skeleton, handlers_skeleton, List.isEmpty_map,
    List.map_map, Function.comp_def, loopNames_skeleton]

/-- The checks of loops are the same but for their conditions. -/
theorem checks_skeleton : d.skeleton.checks = d.checks.map ExitCheck.skeleton := by
  simp only [checks, loops_skeleton, List.map_map, Function.comp_def, loopNames_skeleton]
  rfl

theorem phases_skeleton : d.skeleton.phases = d.phases := by
  simp only [phases, plan_skeleton, List.flatMap_map, Entry.phases_skeleton]

/-- The messages of the plan are the same. -/
theorem messages_skeleton : d.skeleton.messages = d.messages := by
  simp only [messages, plan_skeleton, List.flatMap_map, Entry.messages_skeleton]
  rfl

theorem forkLayouts_skeleton :
    d.skeleton.forks.map d.skeleton.forkLayout = d.forks.map d.forkLayout := by
  rw [forks_skeleton, List.map_map]
  exact List.map_congr_left fun f _ => d.forkLayout_skeleton f

end Definition

/-! ## Compilation -/

/-- Tables of definitions that differ in their free texts only do no more. -/
theorem Definition.skeleton_of_compile {d d' : Definition} {settings : Settings} {t t' : Table}
    (compiles : d.compile settings = .ok t) (compiles' : d'.compile settings = .ok t')
    (same : d.skeleton = d'.skeleton) : t.skeleton = t'.skeleton := by
  have c := compiled_of_compile compiles
  have c' := compiled_of_compile compiles'
  have state : t.stateType = t'.stateType := by
    have named : d.skeleton.stateTypeIn settings = d'.skeleton.stateTypeIn settings := by rw [same]
    rw [stateType_of_compile compiles, stateType_of_compile compiles']
    exact named
  have process : t.process = t'.process := by
    rw [c.process_eq, ← name_skeleton, same, name_skeleton, c'.process_eq]
  have phases : t.phases = t'.phases := by
    rw [c.phases_eq, ← phases_skeleton, same, phases_skeleton, c'.phases_eq]
  have fields : t.fields = t'.fields := by
    rw [c.fields_eq, ← fields_skeleton, same, fields_skeleton, c'.fields_eq]
  have checks : t.checks.map ExitCheck.skeleton = t'.checks.map ExitCheck.skeleton := by
    rw [c.checks_eq, ← checks_skeleton, same, checks_skeleton, c'.checks_eq]
  have messages : d.messages = d'.messages := by
    rw [← messages_skeleton, same, messages_skeleton]
  have forks : t.forks = t'.forks := by
    rw [c.forks_eq, ← forkLayouts_skeleton, same, forkLayouts_skeleton, c'.forks_eq]
  have start : t.start.skeleton = t'.start.skeleton := by
    have factory := startFactory_skeleton d
    rw [same, startFactory_skeleton, c'.start_ok, c.start_ok] at factory
    exact (Except.ok.inj factory).symm
  have transitions : t.transitions.map Transition.skeleton = t'.transitions.map Transition.skeleton := by
    have made := c.wellFormed.transitions_skeleton
    rw [same, c'.wellFormed.transitions_skeleton, c'.transitions_ok, c.transitions_ok] at made
    exact (Except.ok.inj made).symm
  simp only [Table.skeleton, state, process, phases, fields, checks, forks, start, transitions,
    c.messages_eq, c'.messages_eq, c.fallbacks_eq, c'.fallbacks_eq, messages]

end Workflow
