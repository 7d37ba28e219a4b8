import Workflow.Proofs.Definition.Reordering
import Workflow.Proofs.Plan.Next

/-!
Compilation up to the order of attachments.

The plan follows attachments from the main line, so the order in which they are declared shows in one
place only: the end of a branch path is looked up by its phase in an index over all paths, and where two
paths end with one phase the one declared last is found. But then the phase is claimed twice, and claims
do not depend on the look-up: the definition is refused with the same error whatever the order. Otherwise
the plan is the same, and the only differences in the table are the orders of its counters, its exit
checks and its fork layouts.
-/

set_option autoImplicit false

namespace Workflow

/-- Traversals that agree on the elements of a list agree on the list. -/
theorem mapM_congr {ε α β : Type} {f g : α → Except ε β} {l : List α} (same : ∀ a ∈ l, f a = g a) :
    l.mapM f = l.mapM g := by
  induction l with
  | nil => rfl
  | cons a rest ih =>
    obtain ⟨here, further⟩ := List.forall_mem_cons.mp same
    rw [List.mapM_cons, List.mapM_cons, here, ih further]

/-! ## Looking up the ends of paths once more -/

/-- The site, with the end of its branch path looked up elsewhere. -/
def Site.reread (look : String → Option PathEnd) (s : Site) : Site :=
  if s.origin = .branchPath ∧ s.isLast = true then { s with pathEnd := look s.phase } else s

/-- The entry, with the end of its branch path looked up elsewhere. -/
def Entry.reread (look : String → Option PathEnd) : Entry → Entry
  | .step s => .step (s.reread look)
  | e => e

section Reread

variable {look : String → Option PathEnd}

/-- Off the paths of branches, nothing depends on where a path ends. -/
theorem Site.reread_of_ne {s : Site} (off : s.origin ≠ .branchPath) : s.reread look = s :=
  if_neg fun h => off h.1

/-- Sites that are not on a branch path stay as they are. -/
theorem Site.map_reread_of_ne {sites : List Site} (off : ∀ s ∈ sites, s.origin ≠ .branchPath) :
    sites.map (Site.reread look) = sites :=
  (List.map_congr_left fun s hs => Site.reread_of_ne (off s hs)).trans (List.map_id _)

/-- An entry claims the same names wherever the ends of paths are looked up. -/
theorem Entry.claims_reread (e : Entry) : (e.reread look).claims = e.claims := by
  cases e with
  | step s =>
    simp only [reread, Site.reread]
    split <;> rfl
  | _ => rfl

theorem Entry.map_reread_step {sites : List Site} :
    (sites.map Entry.step).map (Entry.reread look) = (sites.map (Site.reread look)).map Entry.step := by
  rw [List.map_map, List.map_map]
  rfl

end Reread

namespace Definition

variable {d d' : Definition}

/-- The loops that end at a site are loops of the definition. -/
theorem WellFormed.loops_subset (hw : d.WellFormed) {s : Site} (hs : s ∈ d.sites) :
    ∀ l ∈ s.loops, l ∈ d.loops := by
  obtain ⟨line, _, i, x, _, rfl⟩ := hw.mem_sites_iff.mp hs
  have same : (line.siteAt d i x).loops = (line.site d x).loops := by
    rcases Line.siteAt_eq_or d line i x with h | h <;> rw [h]
  rw [same]
  cases line with
  | main => exact fun l => mem_loops_of_mem_loopsEndingAt
  | _ => simp [Line.site]

namespace Reordered

/-- A definition is one of its own reorderings. -/
theorem refl (d : Definition) : d.Reordered d :=
  ⟨rfl, rfl, rfl, .refl _, .refl _, .refl _, .refl _, rfl⟩

variable (r : d.Reordered d')

include r

/-! ## Sites -/

/-- Handlers stay in order, so a failure goes where it went. -/
theorem workflowHandler?_eq : d'.workflowHandler? = d.workflowHandler? := by
  rw [workflowHandler?, r.handlers, workflowHandler?]

theorem handlerFor?_eq (x : String) : d'.handlerFor? x = d.handlerFor? x := by
  rw [handlerFor?, r.handlers, r.workflowHandler?_eq, handlerFor?]

/-- Consent leads along the main line, which stays. -/
theorem approved_eq (a : Approval) : d'.approved a = d.approved a := by
  simp only [approved, successor?, r.indexOf?_eq, r.steps]

/-- A path of a branch has the same sites but for the ends of paths, which are looked up by phase and
may be found elsewhere. -/
theorem caseSites_eq (b : Branch) (k : Case) :
    d'.caseSites b k = (d.caseSites b k).map (Site.reread d'.pathEndAt?) := by
  simp only [caseSites, r.workflowHandler?_eq, List.map_map]
  refine List.map_congr_left fun s hs => ?_
  obtain ⟨i, x, _, rfl⟩ := Site.mem_link_map.mp hs
  cases k.steps[i + 1]? <;> simp [Site.reread, Site.isLast]

theorem branchSites_eq (b : Branch) :
    d'.branchSites b = (d.branchSites b).map (Site.reread d'.pathEndAt?) := by
  rw [branchSites, branchSites, List.map_flatMap]
  exact congrArg (b.cases.flatMap ·) (funext (r.caseSites_eq b))

/-- A path of a fork has the same sites. -/
theorem pathSites_eq (f : Fork) : d'.pathSites f = d.pathSites f := by
  funext i steps
  rw [pathSites, pathSites, r.workflowHandler?_eq]

theorem forkSites_eq (f : Fork) : d'.forkSites f = d.forkSites f := by
  rw [forkSites, r.pathSites_eq, forkSites]

/-- A gate brings the same entries. -/
theorem gateEntries_eq (a g : Approval) :
    d'.gateEntries (d'.approved a) g
      = (d.gateEntries (d.approved a) g).map (Entry.reread d'.pathEndAt?) := by
  have escalation : (d.escalationSites g (d.approved a)).map (Site.reread d'.pathEndAt?)
      = d'.escalationSites g (d.approved a) := by
    rw [Site.map_reread_of_ne fun s hs => ?_, escalationSites, escalationSites, r.workflowHandler?_eq]
    obtain ⟨_, _, _, rfl⟩ := mem_escalationSites_iff.mp hs
    simp [Line.site]
  have rejection : (d.rejectionSites g).map (Site.reread d'.pathEndAt?) = d'.rejectionSites g := by
    rw [Site.map_reread_of_ne fun s hs => ?_, rejectionSites, rejectionSites, r.workflowHandler?_eq]
    obtain ⟨_, _, _, rfl⟩ := (mem_rejectionSites_iff a).mp hs
    simp [Line.site]
  simp only [gateEntries, List.map_cons, List.map_append, Entry.map_reread_step, escalation, rejection,
    r.approved_eq]
  rfl

/-- A position of the main line brings the same entries, its paths with their ends looked up once
more. -/
theorem siteEntries_eq {s : Site} (off : s.origin ≠ .branchPath) :
    d'.siteEntries s = (d.siteEntries s).map (Entry.reread d'.pathEndAt?) := by
  have first : Entry.reread d'.pathEndAt? (.step s) = .step s :=
    congrArg Entry.step (Site.reread_of_ne off)
  have forks : ∀ f, (d.forkSites f).map (Site.reread d'.pathEndAt?) = d'.forkSites f := by
    intro f
    rw [r.forkSites_eq, Site.map_reread_of_ne fun s hs => ?_]
    obtain ⟨_, _, _, _, rfl⟩ := mem_forkSites_iff.mp hs
    simp [Line.site]
  have option : ∀ {α : Type} (o : Option α) (f f' : α → List Entry),
      (∀ a, f' a = (f a).map (Entry.reread d'.pathEndAt?)) →
      (o.map f').getD [] = ((o.map f).getD []).map (Entry.reread d'.pathEndAt?) := by
    intro α o f f' same
    cases o with
    | none => rfl
    | some a => exact same a
  simp only [siteEntries, List.map_cons, List.map_append, first]
  congr 2
  · congr 1
    · exact option _ _ _ fun b => by rw [Entry.map_reread_step, r.branchSites_eq]
    · exact option _ _ _ fun f => by rw [Entry.map_reread_step, forks]
  · refine option _ _ _ fun a => ?_
    rw [List.map_flatMap]
    exact congrArg (a.chain.flatMap ·) (funext (r.gateEntries_eq a))

/-! ## The plan -/

variable (valid : d.defect? = none)

include valid

/-- The same loops end at a step, in the same order: of two of them, one is deeper. -/
theorem loopsEndingAt_eq (x : String) : d'.loopsEndingAt x = d.loopsEndingAt x := by
  rw [(wellFormed_of_defect?_eq_none (r.defect?_eq_none valid)).loopsEndingAt_eq,
    (wellFormed_of_defect?_eq_none valid).loopsEndingAt_eq, r.enclosingLoops_eq valid]

/-- A step carries one attachment, so the index finds the same one whichever it keeps. -/
theorem branchAfter?_eq (x : String) : d'.branchAfter? x = d.branchAfter? x :=
  find?_reverse_key_eq_of_perm r.branches (wellFormed_of_defect?_eq_none valid).branches_distinct x

theorem approvalAfter?_eq (x : String) : d'.approvalAfter? x = d.approvalAfter? x :=
  find?_reverse_key_eq_of_perm r.approvals (wellFormed_of_defect?_eq_none valid).approvals_distinct x

theorem forkAfter?_eq (x : String) : d'.forkAfter? x = d.forkAfter? x :=
  find?_reverse_key_eq_of_perm r.forks (wellFormed_of_defect?_eq_none valid).forks_distinct x

/-- The main line has the same sites. -/
theorem mainLine_eq : d'.mainLine = d.mainLine := by
  simp only [mainLine, r.steps, mainPhase, r.enclosingLoops_eq valid, r.loopsEndingAt_eq valid,
    r.branchAfter?_eq valid, r.approvalAfter?_eq valid, r.forkAfter?_eq valid, r.handlerFor?_eq]

/-- The plan is the same but for the look-up of the ends of paths. -/
theorem plan_eq_reread : d'.plan = d.plan.map (Entry.reread d'.pathEndAt?) := by
  have main : ∀ s ∈ d.mainLine, d'.siteEntries s = (d.siteEntries s).map (Entry.reread d'.pathEndAt?) := by
    intro s hs
    obtain ⟨_, _, _, rfl⟩ := mem_mainLine_iff.mp hs
    exact r.siteEntries_eq (by simp [Line.site])
  have recovery : ∀ h, (handlerEntries h).map (Entry.reread d'.pathEndAt?) = handlerEntries h := by
    intro h
    rw [handlerEntries, List.map_cons, Entry.map_reread_step, Site.map_reread_of_ne fun s hs => ?_]
    · rfl
    · obtain ⟨_, _, _, rfl⟩ := (mem_recoverySites_iff (d := d)).mp hs
      simp [Line.site]
  rw [plan, plan, r.mainLine_eq valid, r.handlers, List.map_append, List.map_flatMap, List.map_flatMap,
    List.flatMap_congr main]
  simp only [recovery]

/-- So the same names are claimed, in the same order. -/
theorem claims_eq : d'.claims = d.claims := by
  have entries : d'.plan.flatMap Entry.claims = d.plan.flatMap Entry.claims := by
    rw [r.plan_eq_reread valid, List.flatMap_map]
    simp only [Entry.claims_reread]
  rw [claims, claims, entries, startMessage, startMessage, r.name]

/-- Where no phase is claimed twice, the ends of paths are found the same. -/
theorem pathEndAt?_eq (distinct : d.phases.Nodup) : d'.pathEndAt? = d.pathEndAt? := by
  have hw := wellFormed_of_defect?_eq_none valid
  have perm : d'.pathEnds.reverse.Perm d.pathEnds.reverse :=
    (d'.pathEnds.reverse_perm.trans (r.branches.flatMap_right _)).trans d.pathEnds.reverse_perm.symm
  funext p
  rw [pathEndAt?, pathEndAt?, find?_eq_of_perm perm]
  rintro ⟨q, e⟩ he ⟨q', e'⟩ he' here here'
  obtain rfl := of_decide_eq_true here
  obtain rfl := of_decide_eq_true here'
  rw [hw.pathEnd_eq distinct (List.mem_reverse.mp he) (List.mem_reverse.mp he')]

/-- Then the plan is the same. -/
theorem plan_eq (distinct : d.phases.Nodup) : d'.plan = d.plan := by
  rw [r.plan_eq_reread valid, r.pathEndAt?_eq valid distinct, ← (refl d).plan_eq_reread valid]

/-! ## Transitions -/

/-- Stacked loops are lowered alike. -/
theorem loopControl_eq {loops : List Loop} (declared : ∀ l ∈ loops, l ∈ d.loops) :
    d'.loopControl loops = d.loopControl loops := by
  induction loops with
  | nil => rfl
  | cons l outer ih =>
    obtain ⟨here, further⟩ := List.forall_mem_cons.mp declared
    simp only [loopControl, r.loopNames_eq valid here, ih further]

variable (distinct : d.phases.Nodup)

include distinct

/-- A sequence ends alike; a recovery resumes at the same sites in the same order. -/
theorem sequenceEnd_eq (e : SequenceEnd) : d'.sequenceEnd e = d.sequenceEnd e := by
  have targets : ∀ h, d'.resumeTargets h = d.resumeTargets h := by
    intro h
    rw [resumeTargets, sites, r.plan_eq valid distinct, resumeTargets, sites]
  cases e with
  | recovery h => simp only [sequenceEnd, chainEnd, targets]
  | _ => rfl

/-- Every entry of the plan brings the same transitions. -/
theorem entryTransitions_eq {e : Entry} (he : e ∈ d.plan) :
    d'.entryTransitions e = d.entryTransitions e := by
  cases e with
  | step s =>
    have declared := (wellFormed_of_defect?_eq_none valid).loops_subset (mem_sites_iff_mem_plan.mpr he)
    have loops := r.loopControl_eq valid declared
    simp only [entryTransitions, completion, next, loops, r.sequenceEnd_eq valid distinct]
  | _ => rfl

/-- So does the whole plan, and it is refused for the same reason. -/
theorem transitions_eq : d'.transitions = d.transitions := by
  rw [transitions, r.plan_eq valid distinct, transitions,
    mapM_congr fun _ he => r.entryTransitions_eq valid distinct he]

end Reordered

/-! ## Tables -/

/-- The field that counts the iterations of a loop. -/
def counterField (d : Definition) (l : Loop) : Field :=
  ⟨Name.iterationCounter (d.loopNames l), .iterationCounter (Name.loopPath (d.loopNames l))⟩

/-- The check that ends a loop. -/
def exitCheck (d : Definition) (l : Loop) : ExitCheck :=
  ⟨Name.exitCheck (d.loopNames l), l.conditionId, Name.loopPath (d.loopNames l)⟩

end Definition

/-- Whether a field counts the iterations of a loop. -/
def Field.isCounter (f : Field) : Bool :=
  match f.kind with
  | .iterationCounter _ => true
  | _ => false

/-- Tables that differ in the order of counters, exit checks and fork layouts only. A loop has the same
counter and the same check in both, and a fork the same layout, at the place where it is declared. -/
structure Table.Reordered (d d' : Definition) (t t' : Table) : Prop where
  process : t'.process = t.process
  stateType : t'.stateType = t.stateType
  phases : t'.phases = t.phases
  messages : t'.messages = t.messages
  start : t'.start = t.start
  transitions : t'.transitions = t.transitions
  fallbacks : t'.fallbacks = t.fallbacks
  fields : ∃ before after, (∀ f ∈ before ++ after, f.isCounter = false)
    ∧ t.fields = before ++ d.loops.map d.counterField ++ after
    ∧ t'.fields = before ++ d'.loops.map d.counterField ++ after
  checks : t.checks = d.loops.map d.exitCheck ∧ t'.checks = d'.loops.map d.exitCheck
  forks : t.forks = d.forks.map d.forkLayout ∧ t'.forks = d'.forks.map d.forkLayout

namespace Definition.Reordered

variable {d d' : Definition} (r : d.Reordered d')

include r

theorem fields_eq (valid : d.defect? = none) : ∃ before after,
    (∀ f ∈ before ++ after, Field.isCounter f = false)
      ∧ d.fields = before ++ d.loops.map d.counterField ++ after
      ∧ d'.fields = before ++ d'.loops.map d.counterField ++ after := by
  have counters : d'.loops.map d'.counterField = d'.loops.map d.counterField :=
    List.map_congr_left fun l hl => by
      rw [counterField, r.loopNames_eq valid (r.loops.mem_iff.mp hl), counterField]
  have asked : d'.approvals.isEmpty = d.approvals.isEmpty := by
    rw [Bool.eq_iff_iff, List.isEmpty_iff, List.isEmpty_iff]
    exact ⟨fun none => (none ▸ r.approvals).nil_eq.symm, fun none => (none ▸ r.approvals).eq_nil⟩
  refine ⟨_, _, ?_, rfl, ?_⟩
  · intro f hf
    simp only [List.mem_append, List.mem_cons] at hf
    grind [Field.isCounter]
  · rw [← counters, fields, asked, r.handlers]
    rfl

/-- The checks come in the order of the loops. -/
theorem checks_eq (valid : d.defect? = none) : d'.checks = d'.loops.map d.exitCheck :=
  List.map_congr_left fun l hl => by
    rw [exitCheck, r.loopNames_eq valid (r.loops.mem_iff.mp hl)]

/-- What a host has to know about a fork does not depend on the order. -/
theorem forkLayout_eq : d'.forkLayout = d.forkLayout := by
  funext f
  rw [forkLayout, r.pathSites_eq, forkLayout]

/-- The table of another order is the same but for what follows the order of declaration. -/
theorem compile_eq (valid : d.defect? = none) (settings : Settings) :
    d'.compile settings = (d.compile settings).map fun t =>
      { t with fields := d'.fields, checks := d'.checks, forks := d'.forks.map d.forkLayout } := by
  have accepted := (validate_eq_ok_iff d).mpr valid
  have accepted' := (validate_eq_ok_iff d').mpr (r.defect?_eq_none valid)
  have claims : d'.checkClaims = d.checkClaims := by
    rw [checkClaims, r.claims_eq valid, checkClaims]
  unfold compile
  rw [accepted, accepted', claims]
  cases checked : d.checkClaims with
  | error e => rfl
  | ok u =>
    have distinct := (claims_nodup_iff.mp (claims_nodup_of_checkClaims checked)).1
    have start : d'.startFactory = d.startFactory := by
      rw [startFactory, r.steps, r.name, startFactory]
    have named : d'.stateTypeIn settings = d.stateTypeIn settings := by
      rw [stateTypeIn, r.stateType, stateTypeIn]
    have phases : d'.phases = d.phases := by rw [phases, r.plan_eq valid distinct, phases]
    have messages : d'.messages = d.messages := by
      rw [messages, r.plan_eq valid distinct, startMessage, r.name, messages, startMessage]
    rw [start, r.transitions_eq valid distinct, r.name, named, phases, messages, r.forkLayout_eq]
    cases d.startFactory with
    | error e => rfl
    | ok start =>
      cases d.transitions with
      | error e => rfl
      | ok transitions =>
        cases clash : refuseClash (handlerClaims transitions) with
        | error e => simp [Except.map, bind, Except.bind, clash, Except.mapError]
        | ok u => simp [Except.map, bind, Except.bind, clash, Except.mapError, pure, Except.pure]

end Definition.Reordered

/-- A valid definition compiles alike in every order of its attachments. It is valid in every other
order, and is either refused for the same clash of names, or gives the same table with counters, checks
and fork layouts in the order of declaration. -/
theorem Definition.compile_reordered {d d' : Definition} (valid : d.validate = .ok ())
    (r : d.Reordered d') (settings : Settings) :
    d'.validate = .ok ()
      ∧ (∀ e, d.compile settings = .error e → d'.compile settings = .error e)
      ∧ ∀ t, d.compile settings = .ok t →
        ∃ t', d'.compile settings = .ok t' ∧ Table.Reordered d d' t t' := by
  rw [validate_eq_ok_iff] at valid
  have whole := r.compile_eq valid settings
  refine ⟨(validate_eq_ok_iff d').mpr (r.defect?_eq_none valid), fun e refused => ?_,
    fun t compiles => ?_⟩
  · rw [whole, refused]
    rfl
  · have c := compiled_of_compile compiles
    rw [compiles] at whole
    obtain ⟨before, after, others, fields, fields'⟩ := r.fields_eq valid
    exact ⟨_, whole, {
      process := rfl
      stateType := rfl
      phases := rfl
      messages := rfl
      start := rfl
      transitions := rfl
      fallbacks := rfl
      fields := ⟨before, after, others, c.fields_eq.trans fields, fields'⟩
      checks := ⟨c.checks_eq, r.checks_eq valid⟩
      forks := ⟨c.forks_eq, rfl⟩ }⟩

/-- An almanac: two loops that end at one step, a branch in one of them, and two forks. -/
def Definition.almanac : Definition where
  name := "Almanac"
  steps := [.ofName "Draft", .ofName "Review", .ofName "Pack", .ofName "Ship", .ofName "Close"]
  stateType := none
  loops := [⟨"Edition", "good", 3, "Draft", "Review", some "Pack", none⟩,
    ⟨"Polish", "polished", 2, "Review", "Review", none, some "Edition"⟩]
  branches := [⟨"ByLength", "Draft", ⟨"length", "String", .computed, []⟩, some "Review",
    some "Edition",
    [⟨.literal "long", "Long", [.ofName "Cut"], false⟩, ⟨.otherwise, "Rest", [], false⟩]⟩]
  approvals := []
  forks := [⟨"Pack", [[.ofName "Label"], [.ofName "Weigh"]], false, "Ship"⟩,
    ⟨"Ship", [[.ofName "Mail"], [.ofName "File"]], false, "Close"⟩]
  handlers := []

/-- The same almanac, with its loops and forks declared the other way round. -/
def Definition.almanacReversed : Definition :=
  { Definition.almanac with
    loops := Definition.almanac.loops.reverse
    forks := Definition.almanac.forks.reverse }

/-- It compiles to the same transitions, with its checks and its fork layouts the other way round. -/
theorem compile_reordered_almanac : ∃ t t', Definition.almanac.compile .default = .ok t
    ∧ Definition.almanacReversed.compile .default = .ok t'
    ∧ Table.Reordered Definition.almanac Definition.almanacReversed t t'
    ∧ t'.transitions = t.transitions ∧ t'.checks = t.checks.reverse ∧ t'.forks = t.forks.reverse
    ∧ t.checks.length = 2 ∧ t.forks.length = 2 := by
  have valid : Definition.almanac.validate = .ok () := by decide +kernel
  have reordered : Definition.almanac.Reordered Definition.almanacReversed :=
    ⟨rfl, rfl, rfl, List.reverse_perm _, .refl _, .refl _, List.reverse_perm _, rfl⟩
  obtain ⟨t, compiles, computed⟩ := Definition.exists_table .almanac .default
    (fun t => t.checks.length = 2 ∧ t.forks.length = 2) (by
      simp only [Definition.compile, Definition.checkClaims, Definition.claims,
        Definition.transitions, Definition.phases, Definition.messages, Definition.plan,
        Definition.mainLine, Definition.mainPhase, Definition.enclosingLoops_eq_insertionSort,
        Definition.loopsEndingAt_eq_insertionSort]
      decide +kernel)
  obtain ⟨_, _, alike⟩ := Definition.compile_reordered valid reordered .default
  obtain ⟨t', compiles', same⟩ := alike t compiles
  refine ⟨t, t', compiles, compiles', same, same.transitions, ?_, ?_, of_decide_eq_true computed⟩
  · rw [same.checks.2, same.checks.1, ← List.map_reverse]
    rfl
  · rw [same.forks.2, same.forks.1, ← List.map_reverse]
    rfl

end Workflow
