import Workflow.Proofs.Table.Compiled

/-!
What follows a site, line by line.

Off the main line a site is followed by the next step of its line, and the last one by the end of
the line. The end of a branch path is looked up by phase in an index over all paths of all branches;
since no phase is claimed twice, the look-up finds the path the site is on.
-/

set_option autoImplicit false

namespace Workflow

namespace Line

/-- What the end of the line leads to. -/
def ending (d : Definition) : Line → Action
  | .main => .proceed .complete
  | .path b c => .proceed (PathEnd.continuation ⟨b, c⟩)
  | .fork f index => .joinPath (Definition.joinTarget f index)
  | .escalation a _ => .proceed (d.approved a)
  | .rejection _ _ => .proceed .complete
  | .recovery h => d.chainEnd h

end Line

namespace Definition

variable {d : Definition}

/-- A position of a line is a site. -/
theorem WellFormed.siteAt_mem_sites (hw : d.WellFormed) (line : Line) (belongs : line.In d)
    {i : Nat} {x : Step} (hx : (line.steps d)[i]? = some x) : line.siteAt d i x ∈ d.sites :=
  hw.mem_sites_iff.mpr ⟨line, belongs, i, x, hx, rfl⟩

/-- On the main line the attachments are asked in order: loops, branch, approval, fork. -/
theorem next_main (d : Definition) (i : Nat) (x : Step) :
    d.next (Line.main.siteAt d i x)
      = if d.loopsEndingAt x.identifier ≠ [] then
          .proceed (d.loopControl (d.loopsEndingAt x.identifier))
        else
          match d.branchAfter? x.identifier, d.approvalAfter? x.identifier,
            d.forkAfter? x.identifier, Line.main.next d i with
          | some b, _, _, _ => .route b.toRoute
          | none, some a, _, _ => .proceed a.gate.request
          | none, none, some f, _ => f.cascade
          | none, none, none, some stem => .proceed (.send (Name.startCommand stem))
          | none, none, none, none => .proceed .complete := by
  by_cases hl : d.loopsEndingAt x.identifier ≠ []
  · rw [if_pos hl]
    exact if_pos hl
  · rw [if_neg hl]
    refine (if_neg hl).trans ?_
    simp only [Line.siteAt, Line.site, sequenceEnd]
    cases d.branchAfter? x.identifier <;> cases d.approvalAfter? x.identifier <;>
      cases d.forkAfter? x.identifier <;> cases Line.main.next d i <;> rfl

theorem mem_pathEnds_iff {p : String} {e : PathEnd} :
    (p, e) ∈ d.pathEnds ↔ e.branch ∈ d.branches ∧ e.path ∈ e.branch.cases
      ∧ ∃ x, e.path.steps.getLast? = some x
        ∧ p = Name.branchPhase e.branch.loopScope e.path.label x.identifier := by
  simp only [pathEnds, List.mem_flatMap, List.mem_filterMap, Option.map_eq_some_iff]
  constructor
  · rintro ⟨b, hb, c, hc, x, hx, heq⟩
    cases heq
    exact ⟨hb, hc, x, hx, rfl⟩
  · obtain ⟨b, c⟩ := e
    rintro ⟨hb, hc, x, hx, rfl⟩
    exact ⟨b, hb, c, hc, x, hx, rfl⟩

/-- Where no phase is introduced twice, no two paths end with one. -/
theorem WellFormed.pathEnd_eq (hw : d.WellFormed) (distinct : d.phases.Nodup) {p : String}
    {e e' : PathEnd} (he : (p, e) ∈ d.pathEnds) (he' : (p, e') ∈ d.pathEnds) : e = e' := by
  have lastSite : ∀ {e : PathEnd}, (p, e) ∈ d.pathEnds →
      ∃ s ∈ d.sites, s.phase = p ∧ s.ending = .pathEnd e := by
    rintro ⟨b, k⟩ he
    obtain ⟨hb, hk, x, hx, rfl⟩ := mem_pathEnds_iff.mp he
    have at? : k.steps[k.steps.length - 1]? = some x := List.getLast?_eq_getElem? ▸ hx
    refine ⟨_, hw.siteAt_mem_sites (.path b k) ⟨hb, hk⟩ at?, Line.siteAt_phase, ?_⟩
    rcases Line.siteAt_eq_or d (.path b k) (k.steps.length - 1) x with h | h <;> rw [h] <;> rfl
  obtain ⟨s, hs, phase, ending⟩ := lastSite he
  obtain ⟨s', hs', phase', ending'⟩ := lastSite he'
  have same := site_eq_of_phase distinct hs hs' (phase.trans phase'.symm)
  exact SequenceEnd.pathEnd.inj (ending.symm.trans (same ▸ ending'))

end Definition

namespace Compiled

variable {d : Definition} {t : Table}

/-- The look-up by phase finds the path that ends with it. -/
theorem pathEndAt?_eq (c : Compiled d t) {b : Branch} {k : Case} (hb : b ∈ d.branches)
    (hk : k ∈ b.cases) {x : Step} (hx : k.steps.getLast? = some x) :
    d.pathEndAt? (Name.branchPhase b.loopScope k.label x.identifier) = some ⟨b, k⟩ := by
  have declared : (Name.branchPhase b.loopScope k.label x.identifier, ⟨b, k⟩) ∈ d.pathEnds :=
    Definition.mem_pathEnds_iff.mpr ⟨hb, hk, x, hx, rfl⟩
  cases found : d.pathEnds.reverse.find?
      (·.1 = Name.branchPhase b.loopScope k.label x.identifier) with
  | none =>
    have none := List.find?_eq_none.mp found _ (List.mem_reverse.mpr declared)
    simp at none
  | some hit =>
    obtain ⟨p, e⟩ := hit
    have mem := List.mem_reverse.mp (List.mem_of_find?_eq_some found)
    obtain rfl : p = Name.branchPhase b.loopScope k.label x.identifier := by
      simpa using List.find?_some found
    rw [Definition.pathEndAt?, found, Option.map_some,
      c.wellFormed.pathEnd_eq c.phases_distinct mem declared]

/-- Off the main line, a site is followed by the next one of its line or by the line's end. -/
theorem next_siteAt (c : Compiled d t) (line : Line) (belongs : line.In d) (off : line ≠ .main)
    {i : Nat} {x : Step} (hx : (line.steps d)[i]? = some x) :
    d.next (line.siteAt d i x)
      = match line.next d i with
        | some stem => .proceed (.send (Name.startCommand stem))
        | none => line.ending d := by
  cases line with
  | main => exact absurd rfl off
  | path b k =>
    cases hn : (Line.path b k).next d i with
    | some stem => simp [Definition.next, Line.siteAt, Line.site, hn, Site.isLast]
    | none =>
      have last : k.steps.getLast? = some x := by
        have after : k.steps[i + 1]? = none := by simpa [Line.next, Line.steps] using hn
        have here : k.steps[i]? = some x := hx
        rw [List.getElem?_eq_none_iff] at after
        obtain ⟨hi, rfl⟩ := List.getElem?_eq_some_iff.mp here
        rw [List.getLast?_eq_getElem?, show k.steps.length - 1 = i by omega,
          List.getElem?_eq_getElem hi]
      have found := c.pathEndAt?_eq belongs.1 belongs.2 last
      simp [Definition.next, Line.siteAt, Line.site, hn, Site.isLast, Line.phase, found, Line.ending]
  | _ =>
    simp only [Definition.next, Line.siteAt, Line.site, ne_eq, not_true_eq_false, ↓reduceIte]
    cases Line.next d _ i <;> rfl

end Compiled

end Workflow
