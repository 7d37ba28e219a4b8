import Workflow.Plan

/-!
Skeletons: definitions and plans without their free texts.

Conditions, refusal messages, case literals, what a branch switches on, approver types and types of work
are texts that nobody has to spell as names. The skeleton of a definition has the same shape and the same
names, and every such text left empty. Whatever is looked up in a definition is looked up by name, so the
plan of the skeleton is the skeleton of the plan.
-/

set_option autoImplicit false

namespace Workflow

/-! ## Definitions -/

/-- A guard without its condition and its message. -/
def Guard.skeleton (_ : Guard) : Guard := ⟨"", ""⟩

/-- A step without its type of work and the texts of its guard. -/
def Step.skeleton (s : Step) : Step :=
  { s with workType := "", guard := s.guard.map Guard.skeleton }

/-- A loop without the condition that ends it. -/
def Loop.skeleton (l : Loop) : Loop :=
  { l with conditionId := "" }

/-- A discriminator without what it looks at and the values this can take. -/
def Discriminator.skeleton (k : Discriminator) : Discriminator :=
  { k with fieldPath := "", typeName := "", domain := [] }

/-- A selector without its literal. -/
def Selector.skeleton : Selector → Selector
  | .literal _ => .literal ""
  | .otherwise => .otherwise

/-- A case without its literal and the free texts of its steps. -/
def Case.skeleton (c : Case) : Case :=
  { c with selector := c.selector.skeleton, steps := c.steps.map Step.skeleton }

/-- A branch without the free texts of its discriminator and its cases. -/
def Branch.skeleton (b : Branch) : Branch :=
  { b with discriminator := b.discriminator.skeleton, cases := b.cases.map Case.skeleton }

/-- A gate without the type of its approver and the free texts of its steps. -/
def Gate.skeleton (g : Gate) : Gate :=
  { g with approverType := "", rejectionSteps := g.rejectionSteps.map Step.skeleton }

/-- An approval without the free texts of its gates and steps. -/
def Approval.skeleton : Approval → Approval
  | .failing g => .failing g.skeleton
  | .running g steps => .running g.skeleton (steps.map Step.skeleton)
  | .asking g next => .asking g.skeleton next.skeleton

/-- A fork without the free texts of its steps. -/
def Fork.skeleton (f : Fork) : Fork :=
  { f with paths := f.paths.map (List.map Step.skeleton) }

/-- A handler without the free texts of its steps. -/
def Handler.skeleton (h : Handler) : Handler :=
  { h with steps := h.steps.map Step.skeleton }

/-- A definition without its free texts. -/
def Definition.skeleton (d : Definition) : Definition where
  name := d.name
  steps := d.steps.map Step.skeleton
  stateType := d.stateType
  loops := d.loops.map Loop.skeleton
  branches := d.branches.map Branch.skeleton
  approvals := d.approvals.map Approval.skeleton
  forks := d.forks.map Fork.skeleton
  handlers := d.handlers.map Handler.skeleton

/-! ## Sites -/

/-- A continuation without the conditions of its loops and the types of its approvers. -/
def Continuation.skeleton : Continuation → Continuation
  | .loop c exit => .loop { c with conditionId := "" } exit.skeleton
  | .requestApproval r => .requestApproval { r with approverType := "" }
  | k => k

/-- The end of a path without its free texts. -/
def PathEnd.skeleton (e : PathEnd) : PathEnd :=
  ⟨e.branch.skeleton, e.path.skeleton⟩

/-- The end of a sequence without its free texts. -/
def SequenceEnd.skeleton : SequenceEnd → SequenceEnd
  | .complete => .complete
  | .pathEnd e => .pathEnd e.skeleton
  | .join target => .join target
  | .proceed k => .proceed k.skeleton
  | .recovery h => .recovery h.skeleton

/-- A site without its free texts. -/
def Site.skeleton (s : Site) : Site :=
  { s with
    step := s.step.skeleton
    ending := s.ending.skeleton
    loops := s.loops.map Loop.skeleton
    branch := s.branch.map Branch.skeleton
    pathEnd := s.pathEnd.map PathEnd.skeleton
    approval := s.approval.map Approval.skeleton
    fork := s.fork.map Fork.skeleton
    handler := s.handler.map Handler.skeleton }

/-- An entry of the plan without its free texts. -/
def Entry.skeleton : Entry → Entry
  | .step s => .step s.skeleton
  | .approval a approved => .approval a.skeleton approved.skeleton
  | .handler h => .handler h.skeleton

/-! ## Names stay -/

section Names

@[simp] theorem Step.identifier_skeleton (s : Step) : s.skeleton.identifier = s.identifier := rfl

/-- A guard without its texts is still a guard. -/
@[simp] theorem Step.isGuarded_skeleton (s : Step) : s.skeleton.isGuarded = s.isGuarded := by
  simp [Step.isGuarded, Step.skeleton]

@[simp] theorem Approval.gate_skeleton (a : Approval) : a.skeleton.gate = a.gate.skeleton := by
  cases a <;> rfl

/-- The chain of an approval is shortened link by link. -/
@[simp] theorem Approval.chain_skeleton (a : Approval) :
    a.skeleton.chain = a.chain.map Approval.skeleton := by
  induction a with
  | failing g => rfl
  | running g steps => rfl
  | asking g next ih => simp [Approval.skeleton, Approval.chain, ih]

@[simp] theorem Approval.escalationSteps_skeleton (a : Approval) :
    a.skeleton.escalationSteps = a.escalationSteps.map Step.skeleton := by
  cases a <;> rfl

/-- The messages of a site are spelt from names only. -/
@[simp] theorem Site.messages_skeleton (s : Site) : s.skeleton.messages = s.messages := by
  have guarded : s.skeleton.step.isGuarded = s.step.isGuarded := s.step.isGuarded_skeleton
  simp only [Site.messages, guarded]
  rfl

/-- So are the phases of an entry. -/
@[simp] theorem Entry.phases_skeleton (e : Entry) : e.skeleton.phases = e.phases := by
  cases e with
  | approval a approved => simp [Entry.skeleton, Entry.phases, Gate.skeleton]
  | _ => rfl

/-- And so are its messages. -/
@[simp] theorem Entry.messages_skeleton (e : Entry) : e.skeleton.messages = e.messages := by
  cases e with
  | step s => exact s.messages_skeleton
  | approval a approved => simp [Entry.skeleton, Entry.messages, Gate.skeleton]
  | handler h => rfl

/-- Sites are linked by their names, so it does not matter when the texts are taken out. -/
theorem Site.link_skeleton (sites : List Site) :
    Site.link (sites.map Site.skeleton) = (Site.link sites).map Site.skeleton := by
  refine List.ext_getElem? fun i => ?_
  simp only [Site.link, List.getElem?_mapIdx, List.getElem?_map, Option.map_map]
  rfl

end Names

/-! ## Look-ups -/

/-- A search by what a map leaves alone commutes with the map. -/
theorem find?_map_of_eq {α β : Type} {f : α → β} {p : α → Bool} {q : β → Bool}
    (same : ∀ a, q (f a) = p a) (l : List α) : (l.map f).find? q = (l.find? p).map f := by
  rw [List.find?_map]
  exact congrArg (Option.map f) (congrArg (List.find? · l) (funext same))

namespace Definition

section Parts

variable (d : Definition)

@[simp] theorem name_skeleton : d.skeleton.name = d.name := rfl

@[simp] theorem steps_skeleton : d.skeleton.steps = d.steps.map Step.skeleton := rfl

@[simp] theorem loops_skeleton : d.skeleton.loops = d.loops.map Loop.skeleton := rfl

@[simp] theorem branches_skeleton : d.skeleton.branches = d.branches.map Branch.skeleton := rfl

@[simp] theorem approvals_skeleton : d.skeleton.approvals = d.approvals.map Approval.skeleton := rfl

@[simp] theorem forks_skeleton : d.skeleton.forks = d.forks.map Fork.skeleton := rfl

@[simp] theorem handlers_skeleton : d.skeleton.handlers = d.handlers.map Handler.skeleton := rfl

end Parts

variable (d : Definition)

/-- A step has the same place. -/
@[simp] theorem indexOf?_skeleton (name : String) : d.skeleton.indexOf? name = d.indexOf? name := by
  rw [indexOf?, steps_skeleton, List.findIdx?_map]
  rfl

/-- The step after another one is the same but for its texts. So it is with all that is looked up by the
name of a step. -/
@[simp] theorem successor?_skeleton (name : String) :
    d.skeleton.successor? name = (d.successor? name).map Step.skeleton := by
  rw [successor?, indexOf?_skeleton, successor?, Option.map_bind]
  exact congrArg (Option.bind _) (funext fun _ => List.getElem?_map ..)

theorem workflowHandler?_skeleton :
    d.skeleton.workflowHandler? = d.workflowHandler?.map Handler.skeleton :=
  find?_map_of_eq (fun _ => rfl) d.handlers

theorem handlerFor?_skeleton (step : String) :
    d.skeleton.handlerFor? step = (d.handlerFor? step).map Handler.skeleton := by
  rw [handlerFor?, handlerFor?, Option.map_or, workflowHandler?_skeleton]
  exact congrArg (Option.or · _) (find?_map_of_eq (fun _ => rfl) d.handlers)

theorem branchAfter?_skeleton (step : String) :
    d.skeleton.branchAfter? step = (d.branchAfter? step).map Branch.skeleton := by
  rw [branchAfter?, branches_skeleton, ← List.map_reverse]
  exact find?_map_of_eq (fun _ => rfl) d.branches.reverse

theorem approvalAfter?_skeleton (step : String) :
    d.skeleton.approvalAfter? step = (d.approvalAfter? step).map Approval.skeleton := by
  rw [approvalAfter?, approvals_skeleton, ← List.map_reverse]
  exact find?_map_of_eq (fun a => by rw [Approval.gate_skeleton]; rfl) d.approvals.reverse

theorem forkAfter?_skeleton (step : String) :
    d.skeleton.forkAfter? step = (d.forkAfter? step).map Fork.skeleton := by
  rw [forkAfter?, forks_skeleton, ← List.map_reverse]
  exact find?_map_of_eq (fun _ => rfl) d.forks.reverse

/-! ## Loops -/

/-- The parent of a loop is looked up by name. -/
theorem parent?_skeleton (l : Loop) : d.skeleton.parent? l.skeleton = (d.parent? l).map Loop.skeleton := by
  simp only [parent?, Option.map_bind]
  exact congrArg (Option.bind l.parent) (funext fun _ => find?_map_of_eq (fun _ => rfl) d.loops)

/-- Climbing from parent to parent meets the same loops. -/
theorem climb_skeleton (n : Nat) (l : Loop) :
    d.skeleton.climb n l.skeleton = (d.climb n l).map Loop.skeleton := by
  induction n generalizing l with
  | zero => rfl
  | succ n ih =>
    simp only [climb, parent?_skeleton]
    cases d.parent? l with
    | none => rfl
    | some p => exact congrArg (p.skeleton :: ·) (ih p)

theorem loopChain_skeleton (l : Loop) :
    d.skeleton.loopChain l.skeleton = (d.loopChain l).map Loop.skeleton := by
  rw [loopChain, loops_skeleton, List.length_map, climb_skeleton, loopChain, List.map_reverse,
    List.map_cons]

/-- The nesting path of a loop stays. -/
@[simp] theorem loopNames_skeleton (l : Loop) : d.skeleton.loopNames l.skeleton = d.loopNames l := by
  rw [loopNames, loopChain_skeleton, List.map_map]
  rfl

/-- So does its depth. -/
@[simp] theorem loopDepth_skeleton (l : Loop) : d.skeleton.loopDepth l.skeleton = d.loopDepth l := by
  rw [loopDepth, loopChain_skeleton, List.length_map, loopDepth]

/-- A loop covers the same places. -/
theorem covers_skeleton (index : Nat) (l : Loop) :
    d.skeleton.covers index l.skeleton = d.covers index l := by
  simp only [covers, loopRange?, indexOf?_skeleton]
  rfl

/-- The same loops are around a step, in the same order: they are sorted by depth. -/
theorem enclosingLoops_skeleton (step : String) :
    d.skeleton.enclosingLoops step = (d.enclosingLoops step).map Loop.skeleton := by
  simp only [enclosingLoops, indexOf?_skeleton]
  cases d.indexOf? step with
  | none => rfl
  | some index =>
    have around : d.skeleton.loops.filter (d.skeleton.covers index)
        = (d.loops.filter (d.covers index)).map Loop.skeleton := by
      rw [loops_skeleton, List.filter_map]
      exact congrArg (List.map Loop.skeleton)
        (congrArg (List.filter · d.loops) (funext (d.covers_skeleton index)))
    simp only [around]
    exact (List.map_mergeSort fun a _ b _ => by rw [loopDepth_skeleton, loopDepth_skeleton]).symm

/-- The same loops end at a step, in the same order. -/
theorem loopsEndingAt_skeleton (step : String) :
    d.skeleton.loopsEndingAt step = (d.loopsEndingAt step).map Loop.skeleton := by
  have ending : d.skeleton.loops.filter (·.lastStep = step)
      = (d.loops.filter (·.lastStep = step)).map Loop.skeleton := by
    rw [loops_skeleton, List.filter_map]
    rfl
  simp only [loopsEndingAt, ending]
  exact (List.map_mergeSort fun a _ b _ => by rw [loopDepth_skeleton, loopDepth_skeleton]).symm

/-- The phase of a step is spelt from its name and those of the loops around it. -/
@[simp] theorem mainPhase_skeleton (step : String) : d.skeleton.mainPhase step = d.mainPhase step := by
  rw [mainPhase, enclosingLoops_skeleton, List.map_map, mainPhase]
  rfl

/-! ## Sites and entries -/

/-- Consent leads to the same step. -/
theorem approved_skeleton (a : Approval) :
    d.skeleton.approved a.skeleton = (d.approved a).skeleton := by
  have next : d.skeleton.successor? a.skeleton.gate.precedingStep
      = (d.successor? a.gate.precedingStep).map Step.skeleton := by
    rw [Approval.gate_skeleton]
    exact d.successor?_skeleton _
  rw [approved, next, approved]
  cases d.successor? a.gate.precedingStep <;> rfl

/-- The ends of paths are found under the same phases. -/
theorem pathEnds_skeleton :
    d.skeleton.pathEnds = d.pathEnds.map fun e => (e.1, e.2.skeleton) := by
  rw [pathEnds, branches_skeleton, List.flatMap_map, pathEnds, List.map_flatMap]
  refine congrArg (d.branches.flatMap ·) (funext fun b => ?_)
  rw [Branch.skeleton, List.filterMap_map, List.map_filterMap]
  refine congrArg (b.cases.filterMap ·) (funext fun c => ?_)
  simp only [Function.comp_apply, Case.skeleton, List.getLast?_map, Option.map_map]
  rfl

theorem pathEndAt?_skeleton (phase : String) :
    d.skeleton.pathEndAt? phase = (d.pathEndAt? phase).map PathEnd.skeleton := by
  have look : d.skeleton.pathEnds.reverse.find? (·.1 = phase)
      = (d.pathEnds.reverse.find? (·.1 = phase)).map fun e => (e.1, e.2.skeleton) := by
    rw [pathEnds_skeleton, ← List.map_reverse]
    exact find?_map_of_eq (fun _ => rfl) d.pathEnds.reverse
  rw [pathEndAt?, look, pathEndAt?, Option.map_map, Option.map_map]
  rfl

/-- The main line has the same sites: all that is attached to a step is attached by name. -/
theorem mainLine_skeleton : d.skeleton.mainLine = d.mainLine.map Site.skeleton := by
  rw [mainLine, mainLine, ← Site.link_skeleton, steps_skeleton, List.map_map, List.map_map]
  refine congrArg Site.link (List.map_congr_left fun x _ => ?_)
  simp only [Function.comp_apply, Step.identifier_skeleton, mainPhase_skeleton, loopsEndingAt_skeleton,
    branchAfter?_skeleton, approvalAfter?_skeleton, forkAfter?_skeleton, handlerFor?_skeleton]
  rfl

/-- A path of a branch has the same sites, whatever literal selects it. -/
theorem caseSites_skeleton (b : Branch) (c : Case) :
    d.skeleton.caseSites b.skeleton c.skeleton = (d.caseSites b c).map Site.skeleton := by
  -- the sites as they are linked, before the ends of paths are looked up
  let along (handler : Option Handler) (b : Branch) (c : Case) (s : Step) : Site :=
    let phase := Name.branchPhase b.loopScope c.label s.identifier
    { step := s, origin := .branchPath, phase, stem := phase, ending := .pathEnd ⟨b, c⟩, handler }
  have linked : Site.link (c.skeleton.steps.map (along d.skeleton.workflowHandler? b.skeleton c.skeleton))
      = (Site.link (c.steps.map (along d.workflowHandler? b c))).map Site.skeleton := by
    rw [← Site.link_skeleton, workflowHandler?_skeleton, Case.skeleton, List.map_map, List.map_map]
    rfl
  rw [caseSites, caseSites, List.map_map]
  refine (congrArg (List.map _) linked).trans ?_
  rw [List.map_map]
  refine List.map_congr_left fun s _ => ?_
  simp only [Function.comp_apply, pathEndAt?_skeleton]
  by_cases last : s.isLast = true
  · have last' : s.skeleton.isLast = true := last
    rw [if_pos last, if_pos last']
    rfl
  · have last' : ¬ s.skeleton.isLast = true := last
    rw [if_neg last, if_neg last']

/-- So have all paths of a branch. -/
theorem branchSites_skeleton (b : Branch) :
    d.skeleton.branchSites b.skeleton = (d.branchSites b).map Site.skeleton := by
  rw [branchSites, Branch.skeleton, List.flatMap_map, branchSites, List.map_flatMap]
  exact congrArg (b.cases.flatMap ·) (funext (d.caseSites_skeleton b))

/-- A path of a fork has the same sites and reports to the same join. -/
theorem pathSites_skeleton (f : Fork) (path : Nat) (steps : List Step) :
    d.skeleton.pathSites f.skeleton path (steps.map Step.skeleton)
      = (d.pathSites f path steps).map Site.skeleton := by
  have join : joinTarget f.skeleton path = joinTarget f path := by
    simp [joinTarget, Fork.skeleton]
  rw [pathSites, pathSites, ← Site.link_skeleton, join, workflowHandler?_skeleton, List.map_map,
    List.map_map]
  rfl

/-- So have all paths of a fork. -/
theorem forkSites_skeleton (f : Fork) :
    d.skeleton.forkSites f.skeleton = (d.forkSites f).map Site.skeleton := by
  have paths : f.skeleton.paths.mapIdx (d.skeleton.pathSites f.skeleton)
      = (f.paths.mapIdx (d.pathSites f)).map (List.map Site.skeleton) := by
    refine List.ext_getElem? fun i => ?_
    simp only [List.getElem?_mapIdx, List.getElem?_map, Fork.skeleton, Option.map_map]
    exact congrArg (Option.map · _) (funext (d.pathSites_skeleton f i))
  rw [forkSites, paths, forkSites, List.map_flatten]

/-- The steps that a timeout runs have the same sites. -/
theorem escalationSites_skeleton (a : Approval) (approved : Continuation) :
    d.skeleton.escalationSites a.skeleton approved.skeleton
      = (d.escalationSites a approved).map Site.skeleton := by
  rw [escalationSites, escalationSites, ← Site.link_skeleton, workflowHandler?_skeleton,
    Approval.escalationSteps_skeleton, Approval.gate_skeleton, List.map_map, List.map_map]
  rfl

/-- The steps that a refusal runs have the same sites. -/
theorem rejectionSites_skeleton (a : Approval) :
    d.skeleton.rejectionSites a.skeleton = (d.rejectionSites a).map Site.skeleton := by
  rw [rejectionSites, rejectionSites, ← Site.link_skeleton, workflowHandler?_skeleton,
    Approval.gate_skeleton, Gate.skeleton, List.map_map, List.map_map]
  rfl

omit d in
/-- The steps of a handler have the same sites. -/
theorem recoverySites_skeleton (h : Handler) :
    recoverySites h.skeleton = (recoverySites h).map Site.skeleton := by
  rw [recoverySites, recoverySites, ← Site.link_skeleton, Handler.skeleton, List.map_map, List.map_map]
  rfl

omit d in
theorem map_step_skeleton (sites : List Site) :
    (sites.map Site.skeleton).map Entry.step = (sites.map Entry.step).map Entry.skeleton := by
  rw [List.map_map, List.map_map]
  rfl

/-- A gate brings the same entries, whoever is asked. -/
theorem gateEntries_skeleton (approved : Continuation) (a : Approval) :
    d.skeleton.gateEntries approved.skeleton a.skeleton
      = (d.gateEntries approved a).map Entry.skeleton := by
  rw [gateEntries, gateEntries, escalationSites_skeleton, rejectionSites_skeleton, map_step_skeleton,
    map_step_skeleton, ← List.map_append]
  rfl

/-- A position of the main line brings the same entries. -/
theorem siteEntries_skeleton (s : Site) :
    d.skeleton.siteEntries s.skeleton = (d.siteEntries s).map Entry.skeleton := by
  have attached : ∀ {α : Type} (o : Option α) (shorten : α → α) (f f' : α → List Entry),
      (∀ a, f' (shorten a) = (f a).map Entry.skeleton) →
      ((o.map shorten).map f').getD [] = ((o.map f).getD []).map Entry.skeleton := by
    intro α o shorten f f' same
    cases o with
    | none => rfl
    | some a => exact same a
  simp only [siteEntries, List.map_cons, List.map_append]
  congr 2
  · congr 1
    · exact attached s.branch _ _ _ fun b => by rw [branchSites_skeleton, map_step_skeleton]
    · exact attached s.fork _ _ _ fun f => by rw [forkSites_skeleton, map_step_skeleton]
  · refine attached s.approval _ _ _ fun a => ?_
    rw [Approval.chain_skeleton, List.flatMap_map, List.map_flatMap, approved_skeleton]
    exact congrArg (a.chain.flatMap ·) (funext (d.gateEntries_skeleton (d.approved a)))

/-- The plan follows names only. -/
theorem plan_skeleton : d.skeleton.plan = d.plan.map Entry.skeleton := by
  have recovery : ∀ h : Handler, handlerEntries h.skeleton = (handlerEntries h).map Entry.skeleton := by
    intro h
    rw [handlerEntries, recoverySites_skeleton, map_step_skeleton]
    rfl
  rw [plan, mainLine_skeleton, handlers_skeleton, plan, List.map_append, List.map_flatMap,
    List.map_flatMap, List.flatMap_map, List.flatMap_map]
  congr 1
  · exact congrArg (d.mainLine.flatMap ·) (funext d.siteEntries_skeleton)
  · exact congrArg (d.handlers.flatMap ·) (funext recovery)

theorem sites_skeleton : d.skeleton.sites = d.sites.map Site.skeleton := by
  rw [sites, plan_skeleton, List.filterMap_map, sites, List.map_filterMap]
  refine congrArg (d.plan.filterMap ·) (funext fun e => ?_)
  cases e <;> rfl

end Definition

end Workflow
