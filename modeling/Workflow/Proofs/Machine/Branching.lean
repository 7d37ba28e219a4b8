import Workflow.Proofs.Definition.Reordering
import Workflow.Proofs.Machine.Completion

/-!
Branches on an enumeration.

Where the values of what a branch switches on are names of an enumeration, and the names are listed, the
search for defects asks that every literal is one of them and that every one of them has a case. So the
choice cannot fail on them: `closed_branch_taken` says that a completion that leaves one of the names in
the state goes on with the one case for it, and that no case waits for a value that cannot come. Values
outside the list are not spoken of; on them a branch without a case for the rest is a fault.
-/

set_option autoImplicit false

namespace Workflow

namespace Branch

/-- Whether the branch switches on an enumeration, of which it lists the names. -/
def IsClosed (b : Branch) : Prop :=
  b.discriminator.isEnumerated = true ∧ b.discriminator.domain ≠ []

/-- The case that is for a value: the one with the value for its literal, and where there is none, the one
for the rest. -/
inductive Takes (b : Branch) (value : String) (c : Case) : Prop
  | literal (only : b.cases.filter (·.selector = .literal value) = [c])
  | rest (none : b.cases.filter (·.selector = .literal value) = [])
      (only : b.cases.filter (·.selector = .otherwise) = [c])

/-- Control at the beginning of a case: at its first step, and at its end where it has none. -/
def entered (b : Branch) (c : Case) (i : Instance) (calls : List Call) : Applied :=
  match c.steps with
  | first :: _ => i.starting calls (Name.branchPhase b.loopScope c.label first.identifier)
  | [] => b.rejoined c i calls

variable {b : Branch} {c : Case} {value : String} {i : Instance} {calls : List Call}

/-- There is one such case at most. -/
theorem Takes.unique {c' : Case} (takes : b.Takes value c) (takes' : b.Takes value c') : c = c' := by
  cases takes with
  | literal only =>
    cases takes' with
    | literal only' => exact List.singleton_inj.mp (only.symm.trans only')
    | rest none _ => cases only.symm.trans none
  | rest none only =>
    cases takes' with
    | literal only' => cases only'.symm.trans none
    | rest _ only' => exact List.singleton_inj.mp (only.symm.trans only')

theorem entered_succeeds (b : Branch) (c : Case) (i : Instance) (calls : List Call) :
    ∃ effects, (b.entered c i calls).result = .ok effects := by
  unfold entered rejoined
  split
  · exact ⟨_, rfl⟩
  · split <;> exact ⟨_, rfl⟩

theorem chosen_eq_entered
    (selected : b.select? (State.routingText i.state b.discriminator.fieldPath) = some c) :
    b.chosen i calls = b.entered c i calls := by
  simp only [chosen, selected]
  rfl

/-! ## Which case is selected -/

theorem mem_literals_iff : (value, c) ∈ b.literals ↔ c ∈ b.cases ∧ c.selector = .literal value := by
  rw [literals, List.mem_filterMap]
  constructor
  · rintro ⟨c', member, found⟩
    split at found
    next selects =>
      cases found
      exact ⟨member, selects⟩
    · cases found
  · rintro ⟨member, selects⟩
    exact ⟨c, member, by rw [selects]⟩

theorem find?_literals (b : Branch) (value : String) :
    (b.literals.find? (·.1 = value)).map (·.2) = b.cases.find? (·.selector = .literal value) := by
  unfold literals
  induction b.cases with
  | nil => rfl
  | cons c rest ih =>
    cases selects : c.selector with
    | literal v =>
      rw [List.filterMap_cons_some (by rw [selects])]
      by_cases same : v = value
      · rw [List.find?_cons_of_pos (by simpa using same), List.find?_cons_of_pos (by simp [selects, same])]
        rfl
      · rw [List.find?_cons_of_neg (by simpa using same), List.find?_cons_of_neg (by simp [selects, same])]
        exact ih
    | otherwise =>
      rw [List.filterMap_cons_none (by rw [selects]), List.find?_cons_of_neg (by simp [selects])]
      exact ih

/-- A literal comes before the rest, wherever it is declared. -/
theorem select?_eq (b : Branch) (value : String) : b.select? value
    = (b.cases.find? (·.selector = .literal value)).or (b.cases.find? (·.selector = .otherwise)) := by
  rw [select?, find?_literals, fallback?]

theorem filter_eq_singleton {α : Type} {p : α → Bool} {l : List α} {a : α} (once : l.countP p ≤ 1)
    (found : l.find? p = some a) : l.filter p = [a] := by
  have member : a ∈ l.filter p :=
    List.mem_filter.mpr ⟨List.mem_of_find?_eq_some found, List.find?_some found⟩
  rw [List.countP_eq_length_filter] at once
  obtain ⟨a', only⟩ := List.length_eq_one_iff.mp
    (Nat.le_antisymm once (List.length_pos_of_mem member))
  rw [only] at member ⊢
  rw [List.mem_singleton.mp member]

/-! ## What the search for defects asks -/

/-- A branch that the search for defects has let through, as far as the choice of a case goes. -/
structure Checked (b : Branch) : Prop where
  literal_once : ∀ value, b.cases.countP (·.selector = .literal value) ≤ 1
  otherwise_once : b.cases.countP (·.selector = .otherwise) ≤ 1
  literal_mem : b.IsClosed → ∀ c ∈ b.cases, ∀ value, c.selector = .literal value →
    value ∈ b.discriminator.domain
  /-- Every name of the enumeration has a case. -/
  covered : b.IsClosed → ∀ value ∈ b.discriminator.domain, (b.select? value).isSome = true

theorem countP_literal_of_cases {branch : String} {values labels : List String} {cases' : List Case}
    (h : Definition.casesDefect? branch values labels cases' = none) (value : String) :
    cases'.countP (·.selector = .literal value) ≤ 1
      ∧ (value ∈ values → cases'.countP (·.selector = .literal value) = 0) := by
  induction cases' generalizing values labels with
  | nil => simp
  | cons c rest ih =>
    simp only [Definition.casesDefect?, Option.or_eq_none_iff] at h
    obtain ⟨fresh, _, _, _, tail⟩ := h
    obtain ⟨once, none⟩ := ih tail
    cases selects : c.selector with
    | otherwise =>
      rw [selects] at none
      rw [List.countP_cons_of_neg (by simp [selects])]
      exact ⟨once, none⟩
    | literal v =>
      simp only [selects, Definition.demand_eq_none_iff, decide_eq_true_eq] at fresh none
      by_cases same : v = value
      · subst same
        rw [List.countP_cons_of_pos (by simp [selects]), none List.mem_cons_self]
        exact ⟨Nat.le_refl 1, fun taken => absurd taken fresh⟩
      · rw [List.countP_cons_of_neg (by simp [selects, same])]
        exact ⟨once, fun taken => none (List.mem_cons_of_mem v taken)⟩

theorem covered_of_domain (h : Definition.domainDefect? b = none) (closed : b.IsClosed) :
    (∀ c ∈ b.cases, ∀ value, c.selector = .literal value → value ∈ b.discriminator.domain)
      ∧ ∀ value ∈ b.discriminator.domain, (b.select? value).isSome = true := by
  have listed : (!b.discriminator.isEnumerated || b.discriminator.domain.isEmpty) = false := by
    simpa [IsClosed] using closed
  simp only [Definition.domainDefect?, listed, Bool.false_eq_true, ↓reduceIte, Option.or_eq_none_iff,
    Option.map_eq_none_iff, List.find?_eq_none, Definition.demand_eq_none_iff, Bool.or_eq_true,
    List.isEmpty_iff] at h
  obtain ⟨known, exhaustive⟩ := h
  refine ⟨fun c member value selects => ?_, fun value listed => ?_⟩
  · simpa using known (value, c) (mem_literals_iff.mpr ⟨member, selects⟩)
  · rw [select?, Option.isSome_or, Bool.or_eq_true]
    refine exhaustive.symm.imp_left fun none => ?_
    have literal : value ∈ b.literals.map Prod.fst := by
      simpa [uncovered] using List.filter_eq_nil_iff.mp none value listed
    obtain ⟨p, member, rfl⟩ := List.mem_map.mp literal
    rw [Option.isSome_map, List.find?_isSome]
    exact ⟨p, member, by simp⟩

theorem checked_of_defect?_eq_none {d : Definition} (valid : d.defect? = none) (declared : b ∈ d.branches) :
    b.Checked := by
  simp only [Definition.defect?, Option.or_eq_none_iff] at valid
  obtain ⟨_, _, _, _, branches, _⟩ := valid
  have own := (Definition.branchesDefect?_eq_none_iff.mp branches).1 b declared
  simp only [Definition.branchesDefect?, Definition.branchCasesDefect?, Option.or_eq_none_iff,
    Definition.demand_eq_none_iff, decide_eq_true_eq] at own
  obtain ⟨_, _, _, _, _, ⟨_, otherwise, cases'⟩, domain, _⟩ := own
  exact {
    literal_once := fun value => (countP_literal_of_cases cases' value).1
    otherwise_once := otherwise
    literal_mem := fun closed => (covered_of_domain domain closed).1
    covered := fun closed => (covered_of_domain domain closed).2 }

namespace Checked

variable (checked : b.Checked)

include checked

/-- What is selected is the one case for the value. -/
theorem takes_of_select? (selected : b.select? value = some c) : b.Takes value c := by
  rw [select?_eq] at selected
  rcases Option.or_eq_some_iff.mp selected with literal | ⟨none, rest⟩
  · exact .literal (filter_eq_singleton (checked.literal_once value) literal)
  · exact .rest (List.filter_eq_nil_iff.mpr (List.find?_eq_none.mp none))
      (filter_eq_singleton checked.otherwise_once rest)

theorem takes_literal (member : c ∈ b.cases) (selects : c.selector = .literal value) :
    b.Takes value c := by
  cases found : b.cases.find? (·.selector = .literal value) with
  | none => exact absurd selects (by simpa using List.find?_eq_none.mp found c member)
  | some c' =>
    have only := filter_eq_singleton (checked.literal_once value) found
    have same : c ∈ b.cases.filter (·.selector = .literal value) :=
      List.mem_filter.mpr ⟨member, decide_eq_true selects⟩
    rw [only, List.mem_singleton] at same
    exact .literal (same ▸ only)

end Checked

end Branch

/-! ## States that route -/

/-- Every text is the routing text of some state. -/
theorem State.exists_routingText (path text : String) : ∃ state, routingText state path = text := by
  have leads : ∀ keys : List String, ∃ state, follow? state keys = some (.string text) := by
    intro keys
    induction keys with
    | nil => exact ⟨.string text, rfl⟩
    | cons key rest ih =>
      obtain ⟨inner, found⟩ := ih
      exact ⟨.object [(key, inner)], by simp [follow?, Value.get?, Keyed.get?, found]⟩
  obtain ⟨state, found⟩ := leads (segments path)
  exact ⟨state, by rw [routingText, found, routingOf]⟩

/-- On the names of its enumeration a branch does not fail: the completion of the step before it goes on
with the one case for the name. And a case with a literal is for one of the names, and there are states
that lead to it. -/
theorem closed_branch_taken {d : Definition} {s : Settings} {t : Table} (h : d.compile s = .ok t)
    {b : Branch} (declared : b ∈ d.branches) (closed : b.IsClosed) :
    ∃ tr, t.transitionFor? (Name.completedEvent b.previousStep) = some tr
      ∧ (∀ (cx : Collaborators) (calls : List Call) (i : Instance) (id : Key) (update : Value),
        let merged := { i with state := cx.reduce i.state update }
        let value := State.routingText merged.state b.discriminator.fieldPath
        let applied := tr.apply cx calls i
          ⟨Name.completedEvent b.previousStep, id, .completed update none⟩
        value ∈ b.discriminator.domain → (∃ effects, applied.result = .ok effects)
          ∧ ∃ c, b.Takes value c ∧ applied = b.entered c merged calls)
      ∧ ∀ c ∈ b.cases, ∀ value, c.selector = .literal value → value ∈ b.discriminator.domain
        ∧ ∃ state, State.routingText state b.discriminator.fieldPath = value
          ∧ ∀ (cx : Collaborators) (calls : List Call) (i : Instance) (id : Key) (update : Value),
            cx.reduce i.state update = state →
              tr.apply cx calls i ⟨Name.completedEvent b.previousStep, id, .completed update none⟩
                = b.entered c { i with state } calls := by
  have compiled := Definition.compiled_of_compile h
  have checked := Branch.checked_of_defect?_eq_none (Definition.defect?_of_compile h) declared
  obtain ⟨k, x, at?, before⟩ :=
    Definition.exists_step_of_mem_stepNames (compiled.wellFormed.branch_previous b declared)
  have found :=
    compiled.transitionFor?_completedEvent (compiled.wellFormed.siteAt_mem_sites .main trivial at?)
  have event : (Line.main.siteAt d k x).completedEvent = Name.completedEvent b.previousStep :=
    congrArg Name.completedEvent before
  rw [event] at found
  have taken : ∀ (cx : Collaborators) (calls : List Call) (i : Instance) (id : Key) (update : Value),
      State.routingText (cx.reduce i.state update) b.discriminator.fieldPath ∈ b.discriminator.domain →
        ∃ c, b.Takes (State.routingText (cx.reduce i.state update) b.discriminator.fieldPath) c
          ∧ (d.completion (Line.main.siteAt d k x)).apply cx calls i
              ⟨Name.completedEvent b.previousStep, id, .completed update none⟩
            = b.entered c { i with state := cx.reduce i.state update } calls := by
    intro cx calls i id update listed
    obtain ⟨c, selected⟩ := Option.isSome_iff_exists.mp (checked.covered closed _ listed)
    have completed := compiled.apply_completion .main trivial at? cx calls i
      ⟨Name.completedEvent b.previousStep, id, .completed update none⟩ rfl
    rw [Definition.completed, compiled.wellFormed.succeeded_branch declared before] at completed
    exact ⟨c, checked.takes_of_select? selected,
      completed.trans (Branch.chosen_eq_entered selected)⟩
  refine ⟨_, found, fun cx calls i id update listed => ?_, fun c member value selects => ?_⟩
  · obtain ⟨c, takes, entered⟩ := taken cx calls i id update listed
    rw [entered]
    exact ⟨b.entered_succeeds c _ calls, c, takes, rfl⟩
  · have listed := checked.literal_mem closed c member value selects
    obtain ⟨state, text⟩ := State.exists_routingText b.discriminator.fieldPath value
    refine ⟨listed, state, text, fun cx calls i id update reduced => ?_⟩
    obtain ⟨c', takes, entered⟩ := taken cx calls i id update (by rwa [reduced, text])
    rw [reduced, text] at takes
    rw [entered, reduced, takes.unique (checked.takes_literal member selects)]

/-! ## One process -/

/-- Letters, by their size. A size is listed twice, and the case for the rest comes first. -/
def Definition.mailroom : Definition where
  name := "Mailroom"
  steps := [.ofName "Receive", .ofName "Deliver"]
  stateType := none
  loops := []
  branches := [⟨"BySize", "Receive", ⟨"letter.size", "Size", .enumerated, ["small", "bulky", "small"]⟩,
    some "Deliver", none, [⟨.otherwise, "Rest", [.ofName "Shelve"], false⟩,
      ⟨.literal "bulky", "Bulky", [.ofName "Wrap", .ofName "Weigh"], false⟩]⟩]
  approvals := []
  forks := []
  handlers := []

/-- A small letter has no case of its own, and is shelved. -/
theorem closed_branch_taken_mailroom : ∃ t tr, Definition.mailroom.compile .default = .ok t
    ∧ t.transitionFor? "ReceiveCompleted" = some tr
    ∧ let small : Value := .object [("letter", .object [("size", .string "small")])]
      tr.apply ⟨fun _ update => update, fun _ _ _ => true⟩ [] (.fresh t (.number 7) .null)
          ⟨"ReceiveCompleted", .number 7, .completed small none⟩
        = ⟨.fresh t (.number 7) small, [], .ok [.send ⟨"StartRest_ShelveCommand", .number 7, .empty⟩]⟩ := by
  obtain ⟨t, ht, -⟩ := Definition.mailroom.exists_table .default (fun _ => true) (by decide +kernel)
  obtain ⟨tr, found, taken, -⟩ := closed_branch_taken ht (List.mem_singleton_self _)
    (by decide : _ = true ∧ _ ≠ [])
  have listed : State.routingText (.object [("letter", .object [("size", .string "small")])])
      "letter.size" ∈ ["small", "bulky", "small"] := by decide
  obtain ⟨-, c, takes, entered⟩ := taken ⟨fun _ update => update, fun _ _ _ => true⟩ []
    (.fresh t (.number 7) .null) (.number 7) _ listed
  refine ⟨t, tr, ht, found, entered.trans ?_⟩
  cases takes with
  | literal only => cases only
  | rest none only =>
    cases only
    rfl

end Workflow
