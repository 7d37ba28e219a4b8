import Workflow.Proofs.Plan.Line

/-!
The entries of a plan, read from the definition.

An index over attachments keeps the one declared last, a search the one declared first. In a
well-formed definition a step carries one attachment, so both find it and find nothing else. Hence
the plan lists every gate, every handler and every position of every line of the definition.
-/

set_option autoImplicit false

namespace Workflow

/-- Where keys are distinct, a search by key finds exactly the element with the key. -/
theorem find?_key_eq_some_iff {α : Type} {key : α → String} {l : List α}
    (distinct : (l.map key).Nodup) {x : String} {a : α} :
    l.find? (key · = x) = some a ↔ a ∈ l ∧ key a = x := by
  constructor
  · intro found
    exact ⟨List.mem_of_find?_eq_some found, by simpa using List.find?_some found⟩
  · rintro ⟨mem, rfl⟩
    cases found : l.find? (key · = key a) with
    | none => simpa using List.find?_eq_none.mp found a mem
    | some b =>
      have same : key b = key a := by simpa using List.find?_some found
      rw [List.inj_on_of_nodup_map distinct (List.mem_of_find?_eq_some found) mem same]

/-- Then it does not matter from which end the search starts. -/
theorem find?_reverse_key {α : Type} {key : α → String} {l : List α}
    (distinct : (l.map key).Nodup) (x : String) :
    l.reverse.find? (key · = x) = l.find? (key · = x) := by
  have reversed : (l.reverse.map key).Nodup := by
    rw [List.map_reverse]
    exact List.nodup_reverse.mpr distinct
  ext a
  rw [find?_key_eq_some_iff reversed, find?_key_eq_some_iff distinct, List.mem_reverse]

namespace Definition

variable {d : Definition}

/-- A name of the main line is that of a step at some place. -/
theorem exists_step_of_mem_stepNames {x : String} (h : x ∈ d.stepNames) :
    ∃ (i : Nat) (y : Step), d.steps[i]? = some y ∧ y.identifier = x := by
  obtain ⟨y, hy, rfl⟩ := List.mem_map.mp h
  obtain ⟨i, hi⟩ := List.mem_iff_getElem?.mp hy
  exact ⟨i, y, hi, rfl⟩

namespace WellFormed

variable (hw : d.WellFormed)

include hw

/-- No two branches follow the same step, since a step carries one attachment. -/
theorem branches_distinct : (d.branches.map Branch.previousStep).Nodup := by
  have all := hw.attachments_distinct
  simp only [attachments, List.map_append, List.map_map, Function.comp_def] at all
  exact (all.of_append_left.of_append_left).of_append_right

/-- No two approvals follow the same step. -/
theorem approvals_distinct : (d.approvals.map (·.gate.precedingStep)).Nodup := by
  have all := hw.attachments_distinct
  simp only [attachments, List.map_append, List.map_map, Function.comp_def] at all
  exact all.of_append_left.of_append_right

/-- No two forks follow the same step. -/
theorem forks_distinct : (d.forks.map Fork.previousStep).Nodup := by
  have all := hw.attachments_distinct
  simp only [attachments, List.map_append, List.map_map, Function.comp_def] at all
  exact all.of_append_right

/-- Whether the index keeps the first branch or the last one does not matter then. -/
theorem branchAfter?_eq (x : String) :
    d.branchAfter? x = d.branches.find? (·.previousStep = x) :=
  find?_reverse_key hw.branches_distinct x

theorem approvalAfter?_eq (x : String) :
    d.approvalAfter? x = d.approvals.find? (·.gate.precedingStep = x) :=
  find?_reverse_key hw.approvals_distinct x

theorem forkAfter?_eq (x : String) : d.forkAfter? x = d.forks.find? (·.previousStep = x) :=
  find?_reverse_key hw.forks_distinct x

/-- A branch is found after the step for which it is declared, and after no other. -/
theorem branchAfter?_eq_some_iff {x : String} {b : Branch} :
    d.branchAfter? x = some b ↔ b ∈ d.branches ∧ b.previousStep = x := by
  rw [hw.branchAfter?_eq, find?_key_eq_some_iff hw.branches_distinct]

/-- An approval is found after the step for which it is declared, and after no other. -/
theorem approvalAfter?_eq_some_iff {x : String} {a : Approval} :
    d.approvalAfter? x = some a ↔ a ∈ d.approvals ∧ a.gate.precedingStep = x := by
  rw [hw.approvalAfter?_eq]
  exact find?_key_eq_some_iff hw.approvals_distinct

/-- A fork is found after the step for which it is declared, and after no other. -/
theorem forkAfter?_eq_some_iff {x : String} {f : Fork} :
    d.forkAfter? x = some f ↔ f ∈ d.forks ∧ f.previousStep = x := by
  rw [hw.forkAfter?_eq, find?_key_eq_some_iff hw.forks_distinct]

end WellFormed

/-! ## From entries to the definition and back -/

/-- A gate enters with the steps that a timeout of it runs and with those that a refusal runs. -/
theorem mem_gateEntries_iff {a g : Approval} {e : Entry} :
    e ∈ d.gateEntries (d.approved a) g ↔ e = .approval g (d.approved a)
      ∨ (∃ i x, g.escalationSteps[i]? = some x ∧ e = .step ((Line.escalation a g).siteAt d i x))
      ∨ ∃ i x, g.gate.rejectionSteps[i]? = some x
        ∧ e = .step ((Line.rejection a g).siteAt d i x) := by
  simp only [gateEntries, List.mem_cons, List.mem_append, List.mem_map, mem_escalationSites_iff,
    mem_rejectionSites_iff a]
  constructor
  · rintro (rfl | ⟨_, ⟨i, x, hx, rfl⟩, rfl⟩ | ⟨_, ⟨i, x, hx, rfl⟩, rfl⟩)
    · exact .inl rfl
    · exact .inr (.inl ⟨i, x, hx, rfl⟩)
    · exact .inr (.inr ⟨i, x, hx, rfl⟩)
  · rintro (rfl | ⟨i, x, hx, rfl⟩ | ⟨i, x, hx, rfl⟩)
    · exact .inl rfl
    · exact .inr (.inl ⟨_, ⟨i, x, hx, rfl⟩, rfl⟩)
    · exact .inr (.inr ⟨_, ⟨i, x, hx, rfl⟩, rfl⟩)

/-- A position of the main line enters with all that is attached to its step: the paths of a branch,
those of a fork, and every gate of an approval. -/
theorem mem_siteEntries_iff {s : Site} {e : Entry} :
    e ∈ d.siteEntries s ↔ e = .step s
      ∨ (∃ b, s.branch = some b ∧ ∃ t ∈ d.branchSites b, e = .step t)
      ∨ (∃ f, s.fork = some f ∧ ∃ t ∈ d.forkSites f, e = .step t)
      ∨ ∃ a, s.approval = some a ∧ ∃ g ∈ a.chain, e ∈ d.gateEntries (d.approved a) g := by
  have option : ∀ {α : Type} (o : Option α) (f : α → List Entry),
      e ∈ (o.map f).getD [] ↔ ∃ a, o = some a ∧ e ∈ f a := by
    intro α o f
    cases o <;> simp
  simp only [siteEntries, List.mem_cons, List.mem_append, option, List.mem_map, List.mem_flatMap,
    or_assoc, eq_comm (b := e)]

/-- A handler enters with the steps of its chain. -/
theorem mem_handlerEntries_iff {h : Handler} {e : Entry} :
    e ∈ handlerEntries h ↔ e = .handler h
      ∨ ∃ i x, h.steps[i]? = some x ∧ e = .step ((Line.recovery h).siteAt d i x) := by
  simp only [handlerEntries, List.mem_cons, List.mem_map, mem_recoverySites_iff (d := d)]
  constructor
  · rintro (rfl | ⟨_, ⟨i, x, hx, rfl⟩, rfl⟩)
    · exact .inl rfl
    · exact .inr ⟨i, x, hx, rfl⟩
  · rintro (rfl | ⟨i, x, hx, rfl⟩)
    · exact .inl rfl
    · exact .inr ⟨_, ⟨i, x, hx, rfl⟩, rfl⟩

/-- The sites of a definition are those that its plan lists. -/
theorem mem_sites_iff_mem_plan {s : Site} : s ∈ d.sites ↔ .step s ∈ d.plan := by
  simp only [sites, List.mem_filterMap]
  constructor
  · rintro ⟨e, he, hs⟩
    cases e with
    | step t =>
      cases hs
      exact he
    | approval _ _ => cases hs
    | handler _ => cases hs
  · intro h
    exact ⟨_, h, rfl⟩

/-- An entry of the plan, by what introduces it. -/
inductive EntryOf (d : Definition) : Entry → Prop
  | step (line : Line) {i : Nat} {x : Step} (belongs : line.In d)
      (at? : (line.steps d)[i]? = some x) : EntryOf d (.step (line.siteAt d i x))
  | gate {a g : Approval} (attached : a ∈ d.approvals) (link : g ∈ a.chain) :
      EntryOf d (.approval g (d.approved a))
  | handler {h : Handler} (declared : h ∈ d.handlers) : EntryOf d (.handler h)

/-- The plan lists what the definition declares, and all of it. -/
theorem WellFormed.mem_plan_iff (hw : d.WellFormed) {e : Entry} : e ∈ d.plan ↔ EntryOf d e := by
  simp only [plan, List.mem_append, List.mem_flatMap, mem_mainLine_iff,
    mem_handlerEntries_iff (d := d)]
  constructor
  · rintro (⟨_, ⟨i, x, hx, rfl⟩, he⟩ | ⟨h, declared, rfl | ⟨i, x, hx, rfl⟩⟩)
    · rw [mem_siteEntries_iff] at he
      rcases he with rfl | ⟨b, hb, s, hs, rfl⟩ | ⟨f, hf, s, hs, rfl⟩ | ⟨a, ha, g, hg, he⟩
      · exact .step .main trivial hx
      · obtain ⟨c, hc, j, y, hy, rfl⟩ := mem_branchSites_iff.mp hs
        exact .step (.path b c) ⟨(hw.branchAfter?_eq_some_iff.mp hb).1, hc⟩ hy
      · obtain ⟨p, j, y, hy, rfl⟩ := mem_forkSites_iff.mp hs
        exact .step (.fork f p) (hw.forkAfter?_eq_some_iff.mp hf).1 hy
      · have attached := (hw.approvalAfter?_eq_some_iff.mp ha).1
        rcases mem_gateEntries_iff.mp he with rfl | ⟨j, y, hy, rfl⟩ | ⟨j, y, hy, rfl⟩
        · exact .gate attached hg
        · exact .step (.escalation a g) ⟨attached, hg⟩ hy
        · exact .step (.rejection a g) ⟨attached, hg⟩ hy
    · exact .handler declared
    · exact .step (.recovery h) declared hx
  · intro he
    -- an attachment is reached from the site of the step it hangs on
    have onto : ∀ {x : String}, x ∈ d.stepNames → ∃ s : Site,
        (∃ i y, d.steps[i]? = some y ∧ s = Line.main.siteAt d i y)
          ∧ s.branch = d.branchAfter? x ∧ s.fork = d.forkAfter? x
          ∧ s.approval = d.approvalAfter? x := by
      intro x hx
      obtain ⟨i, y, hy, rfl⟩ := exists_step_of_mem_stepNames hx
      exact ⟨_, ⟨i, y, hy, rfl⟩, rfl, rfl, rfl⟩
    have throughGate : ∀ {a g : Approval} {e : Entry}, a ∈ d.approvals → g ∈ a.chain →
        e ∈ d.gateEntries (d.approved a) g →
        ∃ s, (∃ i y, d.steps[i]? = some y ∧ s = Line.main.siteAt d i y)
          ∧ e ∈ d.siteEntries s := by
      intro a g e attached hg he
      obtain ⟨s, hs, _, _, happroval⟩ := onto (hw.approval_preceding a attached)
      rw [hw.approvalAfter?_eq_some_iff.mpr ⟨attached, rfl⟩] at happroval
      exact ⟨s, hs, mem_siteEntries_iff.mpr (.inr (.inr (.inr ⟨a, happroval, g, hg, he⟩)))⟩
    cases he with
    | @step line i x belongs hx =>
      cases line with
      | main => exact .inl ⟨_, ⟨i, x, hx, rfl⟩, mem_siteEntries_iff.mpr (.inl rfl)⟩
      | path b c =>
        obtain ⟨s, hs, hbranch, _, _⟩ := onto (hw.branch_previous b belongs.1)
        rw [hw.branchAfter?_eq_some_iff.mpr ⟨belongs.1, rfl⟩] at hbranch
        have path := (mem_branchSites_iff (d := d)).mpr ⟨c, belongs.2, i, x, hx, rfl⟩
        exact .inl ⟨s, hs, mem_siteEntries_iff.mpr (.inr (.inl ⟨b, hbranch, _, path, rfl⟩))⟩
      | fork f p =>
        obtain ⟨s, hs, _, hfork, _⟩ := onto (hw.fork_previous f belongs)
        rw [hw.forkAfter?_eq_some_iff.mpr ⟨belongs, rfl⟩] at hfork
        have path := (mem_forkSites_iff (d := d)).mpr ⟨p, i, x, hx, rfl⟩
        exact .inl ⟨s, hs, mem_siteEntries_iff.mpr (.inr (.inr (.inl ⟨f, hfork, _, path, rfl⟩)))⟩
      | escalation a g =>
        exact .inl (throughGate belongs.1 belongs.2
          (mem_gateEntries_iff.mpr (.inr (.inl ⟨i, x, hx, rfl⟩))))
      | rejection a g =>
        exact .inl (throughGate belongs.1 belongs.2
          (mem_gateEntries_iff.mpr (.inr (.inr ⟨i, x, hx, rfl⟩))))
      | recovery h => exact .inr ⟨h, belongs, .inr ⟨i, x, hx, rfl⟩⟩
    | gate attached hg =>
      exact .inl (throughGate attached hg (mem_gateEntries_iff.mpr (.inl rfl)))
    | handler declared => exact .inr ⟨_, declared, .inl rfl⟩

/-- The sites of a well-formed definition are the positions of its lines. -/
theorem WellFormed.mem_sites_iff (hw : d.WellFormed) {s : Site} :
    s ∈ d.sites ↔ ∃ line : Line, line.In d ∧ ∃ i x, (line.steps d)[i]? = some x
      ∧ s = line.siteAt d i x := by
  rw [mem_sites_iff_mem_plan, hw.mem_plan_iff]
  constructor
  · intro h
    cases h with
    | step line belongs hx => exact ⟨line, belongs, _, _, hx, rfl⟩
  · rintro ⟨line, belongs, i, x, hx, rfl⟩
    exact .step line belongs hx

end Definition

end Workflow
