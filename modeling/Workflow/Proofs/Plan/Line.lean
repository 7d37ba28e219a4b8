import Workflow.Plan
import Workflow.Proofs.Definition.WellFormed

/-!
Lines: the sequences of steps a definition consists of. Besides the main line there is one for every
case of a branch, every path of a fork, every escalation and rejection chain of a gate, and every
recovery chain of a handler.

The plan lists sites by following attachments from the main line. `mem_sites_iff` reads it the other
way round: the sites of a well-formed definition are the positions of its lines, none left out. The
validation of attachments is what makes this true: an attachment that shared its step with another
one would be in the definition and not in the plan.
-/

set_option autoImplicit false

namespace Workflow

/-- A sequence of steps, with what it belongs to. -/
inductive Line where
  | main
  | path (b : Branch) (c : Case)
  | fork (f : Fork) (index : Nat)
  /-- The steps a timeout at the gate `g` of the approval `a` runs. -/
  | escalation (a g : Approval)
  /-- The steps a refusal at the gate `g` of the approval `a` runs. -/
  | rejection (a g : Approval)
  | recovery (h : Handler)
  deriving DecidableEq, Repr

namespace Line

/-- Whether the line is one of the definition's. -/
def In (d : Definition) : Line → Prop
  | .main => True
  | .path b c => b ∈ d.branches ∧ c ∈ b.cases
  | .fork f _ => f ∈ d.forks
  | .escalation a g => a ∈ d.approvals ∧ g ∈ a.chain
  | .rejection a g => a ∈ d.approvals ∧ g ∈ a.chain
  | .recovery h => h ∈ d.handlers

/-- The steps along the line. -/
def steps (d : Definition) : Line → List Step
  | .main => d.steps
  | .path _ c => c.steps
  | .fork f index => f.paths.getD index []
  | .escalation _ g => g.escalationSteps
  | .rejection _ g => g.gate.rejectionSteps
  | .recovery h => h.steps

/-- The phase of a step on the line. -/
def phase (d : Definition) : Line → Step → String
  | .main, x => d.mainPhase x.identifier
  | .path b c, x => Name.branchPhase b.loopScope c.label x.identifier
  | .fork _ _, x => x.identifier
  | .escalation _ g, x => Name.escalationPhase g.gate.name x.identifier
  | .rejection _ g, x => Name.rejectionPhase g.gate.name x.identifier
  | .recovery h, x => Name.recoveryPhase h.id x.identifier

/-- What the names of its messages are built from. On the main line the loops around the step are
left out. -/
def stem (d : Definition) (line : Line) (x : Step) : String :=
  match line with
  | .main => x.identifier
  | line => line.phase d x

/-- The site of a step, apart from its position. -/
def site (d : Definition) (line : Line) (x : Step) : Site :=
  let phase := line.phase d x
  match line with
  | .main =>
    { step := x, origin := .mainLine, phase, stem := x.identifier, ending := .complete
      loops := d.loopsEndingAt x.identifier, branch := d.branchAfter? x.identifier
      approval := d.approvalAfter? x.identifier, fork := d.forkAfter? x.identifier
      handler := d.handlerFor? x.identifier }
  | .path b c =>
    { step := x, origin := .branchPath, phase, stem := phase, ending := .pathEnd ⟨b, c⟩
      handler := d.workflowHandler? }
  | .fork f index =>
    let join := Definition.joinTarget f index
    { step := x, origin := .forkPath, phase, stem := phase, ending := .join join
      forkPath := some ⟨join.fork, f.failFast, join⟩, handler := d.workflowHandler? }
  | .escalation a _ =>
    { step := x, origin := .escalation, phase, stem := phase, ending := .proceed (d.approved a)
      handler := d.workflowHandler? }
  | .rejection _ _ =>
    { step := x, origin := .rejection, phase, stem := phase, ending := .complete
      handler := d.workflowHandler? }
  | .recovery h => { step := x, origin := .recovery, phase, stem := phase, ending := .recovery h }

/-- The stem of the step after a position. -/
def next (d : Definition) (line : Line) (i : Nat) : Option String :=
  (line.steps d)[i + 1]?.map (line.stem d)

/-- The site at a position of the line. The last site of a branch path is looked up once more, by
its phase. -/
def siteAt (d : Definition) (line : Line) (i : Nat) (x : Step) : Site :=
  let s := { line.site d x with index := i, next := line.next d i }
  match line with
  | .path _ _ => if s.isLast then { s with pathEnd := d.pathEndAt? s.phase } else s
  | _ => s

variable {d : Definition} {line : Line} {i : Nat} {x : Step}

/-- What the messages of a step are spelt from. -/
theorem stem_site : (line.site d x).stem = line.stem d x := by
  cases line <;> rfl

/-- What a field that the look-up of a path's end does not touch holds. -/
theorem siteAt_eq_or (d : Definition) (line : Line) (i : Nat) (x : Step) :
    line.siteAt d i x = { line.site d x with index := i, next := line.next d i }
      ∨ line.siteAt d i x = { line.site d x with
        index := i, next := line.next d i, pathEnd := d.pathEndAt? (line.phase d x) } := by
  cases line with
  | path b c =>
    simp only [siteAt]
    split
    · exact .inr rfl
    · exact .inl rfl
  | _ => exact .inl rfl

/-- The site at a place of a line is that of the step there; its place changes nothing else. The lemmas
below say so field by field. -/
@[simp] theorem siteAt_step : (line.siteAt d i x).step = x := by
  rcases siteAt_eq_or d line i x with h | h <;>
    rw [h] <;> cases line <;> rfl

@[simp] theorem siteAt_phase : (line.siteAt d i x).phase = line.phase d x := by
  rcases siteAt_eq_or d line i x with h | h <;>
    rw [h] <;> cases line <;> rfl

@[simp] theorem siteAt_stem : (line.siteAt d i x).stem = line.stem d x := by
  rcases siteAt_eq_or d line i x with h | h <;>
    rw [h] <;> cases line <;> rfl

@[simp] theorem siteAt_origin : (line.siteAt d i x).origin = (line.site d x).origin := by
  rcases siteAt_eq_or d line i x with h | h <;> rw [h]

@[simp] theorem siteAt_ending : (line.siteAt d i x).ending = (line.site d x).ending := by
  rcases siteAt_eq_or d line i x with h | h <;> rw [h]

@[simp] theorem siteAt_handler : (line.siteAt d i x).handler = (line.site d x).handler := by
  rcases siteAt_eq_or d line i x with h | h <;> rw [h]

@[simp] theorem siteAt_forkPath : (line.siteAt d i x).forkPath = (line.site d x).forkPath := by
  rcases siteAt_eq_or d line i x with h | h <;> rw [h]

/-- A failure goes to a handler of the definition, or to none. -/
theorem handler_mem (line : Line) {h : Handler} (hh : (line.site d x).handler = some h) :
    h ∈ d.handlers := by
  have bound : ∀ {h : Handler}, d.workflowHandler? = some h → h ∈ d.handlers :=
    fun found => List.mem_of_find?_eq_some found
  cases line with
  | main =>
    rcases Option.or_eq_some_iff.mp hh with found | ⟨_, found⟩
    · exact List.mem_of_find?_eq_some found
    · exact bound found
  | recovery _ => cases hh
  | _ => exact bound hh

/-- Only the sites on a fork report to a join. -/
theorem eq_fork_of_forkPath (line : Line) {r : ForkFailure}
    (hr : (line.site d x).forkPath = some r) :
    ∃ f p, line = .fork f p
      ∧ r = ⟨Name.forkId f.previousStep, f.failFast, Definition.joinTarget f p⟩ := by
  cases line with
  | fork f p =>
    cases hr
    exact ⟨f, p, rfl, rfl⟩
  | _ => cases hr

end Line

/-! ## Positions of a sequence -/

namespace Site

/-- Linking gives each site of a sequence its place and the stem of the one behind it. -/
theorem mem_link_map {α : Type} {f : α → Site} {xs : List α} {s : Site} :
    s ∈ link (xs.map f) ↔ ∃ i x, xs[i]? = some x
      ∧ s = { f x with index := i, next := xs[i + 1]?.map fun y => (f y).stem } := by
  simp only [link, List.mem_mapIdx, List.length_map, List.getElem_map, List.getElem?_map,
    Option.map_map, Function.comp_def]
  constructor
  · rintro ⟨i, hi, rfl⟩
    exact ⟨i, xs[i], List.getElem?_eq_getElem hi, rfl⟩
  · rintro ⟨i, x, hx, rfl⟩
    obtain ⟨hi, rfl⟩ := List.getElem?_eq_some_iff.mp hx
    exact ⟨i, hi, rfl⟩

end Site

namespace Definition

variable {d : Definition} {s : Site}

/-- The sites along one line, where no end of a path has to be looked up. -/
theorem mem_link_site (line : Line) (h : ∀ b c, line ≠ .path b c) :
    s ∈ Site.link ((line.steps d).map (line.site d))
      ↔ ∃ i x, (line.steps d)[i]? = some x ∧ s = line.siteAt d i x := by
  rw [Site.mem_link_map]
  have same : ∀ i x, ({ line.site d x with
      index := i, next := (line.steps d)[i + 1]?.map fun y => (line.site d y).stem } : Site)
        = line.siteAt d i x := by
    intro i x
    simp only [Line.stem_site]
    cases line with
    | path b c => exact absurd rfl (h b c)
    | _ => rfl
  simp only [same]

/-- The main line has a site for each of its steps. -/
theorem mem_mainLine_iff :
    s ∈ d.mainLine ↔ ∃ i x, d.steps[i]? = some x ∧ s = Line.main.siteAt d i x :=
  mem_link_site .main (by simp)

/-- A path of a branch has a site for each step of its case. -/
theorem mem_caseSites_iff {b : Branch} {c : Case} :
    s ∈ d.caseSites b c ↔ ∃ i x, c.steps[i]? = some x ∧ s = (Line.path b c).siteAt d i x := by
  change s ∈ (Site.link (((Line.path b c).steps d).map ((Line.path b c).site d))).map _ ↔ _
  simp only [List.mem_map, Site.mem_link_map, Line.stem_site]
  constructor
  · rintro ⟨_, ⟨i, x, hx, rfl⟩, rfl⟩
    exact ⟨i, x, hx, rfl⟩
  · rintro ⟨i, x, hx, rfl⟩
    exact ⟨_, ⟨i, x, hx, rfl⟩, rfl⟩

/-- The sites of a branch are those of its paths. -/
theorem mem_branchSites_iff {b : Branch} :
    s ∈ d.branchSites b
      ↔ ∃ c ∈ b.cases, ∃ i x, c.steps[i]? = some x ∧ s = (Line.path b c).siteAt d i x := by
  simp only [branchSites, List.mem_flatMap, mem_caseSites_iff]

/-- The sites of a fork are those of its paths, each at its place among them. -/
theorem mem_forkSites_iff {f : Fork} :
    s ∈ d.forkSites f ↔ ∃ p i x, (f.paths.getD p [])[i]? = some x
      ∧ s = (Line.fork f p).siteAt d i x := by
  simp only [forkSites, List.mem_flatten, List.mem_mapIdx]
  constructor
  · rintro ⟨_, ⟨p, hp, rfl⟩, hs⟩
    have along : (Line.fork f p).steps d = f.paths[p] := by simp [Line.steps, hp]
    have := (mem_link_site (d := d) (.fork f p) (by simp)).mp (along ▸ hs)
    exact ⟨p, this⟩
  · rintro ⟨p, i, x, hx, rfl⟩
    by_cases hp : p < f.paths.length
    · refine ⟨_, ⟨p, hp, rfl⟩, ?_⟩
      have along : (Line.fork f p).steps d = f.paths[p] := by simp [Line.steps, hp]
      have := (mem_link_site (d := d) (.fork f p) (by simp)).mpr ⟨i, x, hx, rfl⟩
      exact along ▸ this
    · simp [List.getD_eq_getElem?_getD, List.getElem?_eq_none (Nat.le_of_not_lt hp)] at hx

/-- What a timeout runs has a site for each step. -/
theorem mem_escalationSites_iff {a g : Approval} :
    s ∈ d.escalationSites g (d.approved a)
      ↔ ∃ i x, g.escalationSteps[i]? = some x ∧ s = (Line.escalation a g).siteAt d i x :=
  mem_link_site (.escalation a g) (by simp)

/-- What a refusal runs has a site for each step. -/
theorem mem_rejectionSites_iff (a : Approval) {g : Approval} :
    s ∈ d.rejectionSites g
      ↔ ∃ i x, g.gate.rejectionSteps[i]? = some x ∧ s = (Line.rejection a g).siteAt d i x :=
  mem_link_site (.rejection a g) (by simp)

/-- The chain of a handler has a site for each step. -/
theorem mem_recoverySites_iff {h : Handler} :
    s ∈ recoverySites h ↔ ∃ i x, h.steps[i]? = some x ∧ s = (Line.recovery h).siteAt d i x :=
  mem_link_site (.recovery h) (by simp)

end Definition

end Workflow
