import Workflow.Proofs.Definition.LoopNames
import Workflow.Proofs.Plan.Identifiers
import Workflow.Proofs.Text.SnakeCase

/-!
The names of a table.

A table names phases, fields, checks, messages, handlers and forks, and generated code takes the names
verbatim. They are spelt from the names that the definition gives, all of which are checked, and from the
ids of failure handlers, of which it is only asked that they are not blank. `names_areIdentifiers` says
that whatever compiles, every name of the table is an identifier.
-/

set_option autoImplicit false

namespace Workflow

/-- Every name that a table declares. -/
def Table.names (t : Table) : List String :=
  t.phases ++ t.fields.map Field.name ++ t.checks.map ExitCheck.name
    ++ t.messages.map MessageEntry.name ++ (t.start :: t.transitions).map Transition.name
    ++ t.forks.map ForkLayout.id

namespace Name

open Text

/-- Snake case leaves letters, digits and underscores, and something stands in front of them. -/
theorem handlerName_isIdentifier {message : String} (h : isIdentifier message = true) :
    isIdentifier (handlerName message) = true :=
  isIdentifier_append (by decide) (all_isPart_snakeCase (all_isPart_of_isIdentifier h))

/-- Names of loops, joined, are an identifier: the first one leads. -/
theorem loopPath_isIdentifier {loops : List String} (filled : loops ≠ [])
    (each : ∀ n ∈ loops, isIdentifier n = true) : isIdentifier (loopPath loops) = true := by
  induction loops with
  | nil => exact absurd rfl filled
  | cons first rest ih =>
    obtain ⟨here, further⟩ := List.forall_mem_cons.mp each
    rw [loopPath, String.join_cons]
    cases rest with
    | nil => exact isIdentifier_append here (by decide)
    | cons second more => exact isIdentifier_append_isIdentifier here (ih (by simp) further)

end Name

namespace Definition

variable {d : Definition}

namespace Named

variable (names : d.Named)

include names

/-- So is the nesting path of a loop, which holds its own name at least. -/
theorem nestingPath_isIdentifier {l : Loop} (hl : l ∈ d.loops) :
    Text.isIdentifier (Name.loopPath (d.loopNames l)) = true := by
  refine Name.loopPath_isIdentifier (by simp [loopNames, loopChain]) fun n hn => ?_
  obtain ⟨k, hk, rfl⟩ := List.mem_map.mp hn
  exact names.loops k (mem_loops_of_mem_loopChain hl hk)

/-- The reserved phases are identifiers as they stand, and the others are built. -/
theorem phases_areIdentifiers (hw : d.WellFormed) :
    ∀ p ∈ d.phases, Text.isIdentifier p = true := by
  intro p hp
  rcases List.mem_append.mp hp with hp | hp
  · rcases List.mem_cons.mp hp with rfl | hp
    · decide
    · obtain ⟨e, he, hp⟩ := List.mem_flatMap.mp hp
      cases hw.mem_plan_iff.mp he with
      | step line belongs hx =>
        rw [List.mem_singleton.mp hp, Line.siteAt_phase]
        exact names.phase_isIdentifier belongs (List.mem_of_getElem? hx)
      | @gate a g attached link =>
        rw [List.mem_singleton.mp hp]
        exact Text.isIdentifier_append_isIdentifier (by decide) (names.gates a attached g link)
      | handler _ => cases hp
  · exact (by decide : ∀ p ∈ closingPhases, Text.isIdentifier p = true) p hp

/-- The names of fields are given, or are spelt from nesting paths. -/
theorem fields_areIdentifiers : ∀ name ∈ d.fields.map Field.name, Text.isIdentifier name = true := by
  intro name member
  rcases List.mem_append.mp (d.fields_perm.mem_iff.mp member) with plain | counter
  · have each : ∀ name ∈ d.plainFieldNames, Text.isIdentifier name = true := by
      unfold plainFieldNames
      split <;> split <;> decide
    exact each name plain
  · obtain ⟨l, hl, rfl⟩ := List.mem_map.mp counter
    exact Text.isIdentifier_append (names.nestingPath_isIdentifier hl) (by decide)

/-- The names of checks are spelt from nesting paths. -/
theorem checks_areIdentifiers : ∀ name ∈ d.checks.map ExitCheck.name,
    Text.isIdentifier name = true := by
  intro name member
  obtain ⟨_, hc, rfl⟩ := List.mem_map.mp member
  obtain ⟨l, hl, rfl⟩ := List.mem_map.mp hc
  exact Text.isIdentifier_append
    (Text.isIdentifier_append_isIdentifier (by decide) (names.nestingPath_isIdentifier hl)) (by decide)

end Named

end Definition

/-- A transition is named after the message it is for, which is a declared one. -/
theorem Compiled.exists_message_of_transition {d : Definition} {t : Table} (c : Compiled d t)
    {tr : Transition} (listed : tr ∈ t.transitions) :
    ∃ m ∈ d.messages, tr.name = Name.handlerName m.name := by
  obtain ⟨e, he, ts, made, member⟩ := c.mem_transitions_iff.mp listed
  have trigger : tr.trigger ∈ ts.map Transition.trigger := List.mem_map_of_mem member
  rw [Definition.triggers_entryTransitions made] at trigger
  obtain ⟨m, hm, same⟩ := List.mem_map.mp trigger
  refine ⟨m, Definition.mem_messages_of_plan he (List.mem_of_mem_filter hm), ?_⟩
  rw [Definition.name_of_mem_entryTransitions made member, same]

/-- Whatever the ids of its handlers are, a process compiles to identifiers only. -/
theorem Definition.names_areIdentifiers {d : Definition} {s : Settings} {t : Table}
    (h : d.compile s = .ok t) : ∀ name ∈ t.names, Text.isIdentifier name = true := by
  have c := compiled_of_compile h
  have names := named_of_defect?_eq_none (defect?_of_compile h)
  have messages := fun {m} => names.message_isIdentifier c.wellFormed (m := m)
  obtain ⟨_, _, start⟩ := c.exists_start
  intro name member
  simp only [Table.names, List.mem_append, or_assoc, c.phases_eq, c.fields_eq, c.checks_eq,
    c.messages_eq, c.forks_eq] at member
  rcases member with phase | field | check | message | handler | fork
  · exact names.phases_areIdentifiers c.wellFormed name phase
  · exact names.fields_areIdentifiers name field
  · exact names.checks_areIdentifiers name check
  · obtain ⟨m, hm, rfl⟩ := List.mem_map.mp message
    exact messages hm
  · obtain ⟨tr, listed, rfl⟩ := List.mem_map.mp handler
    rcases List.mem_cons.mp listed with rfl | listed
    · rw [start]
      show Text.isIdentifier "start" = true
      decide
    · obtain ⟨m, hm, named⟩ := c.exists_message_of_transition listed
      rw [named]
      exact Name.handlerName_isIdentifier (messages hm)
  · obtain ⟨_, layout, rfl⟩ := List.mem_map.mp fork
    obtain ⟨f, hf, rfl⟩ := List.mem_map.mp layout
    obtain ⟨x, hx, named⟩ := List.mem_map.mp (c.wellFormed.fork_previous f hf)
    refine Text.isIdentifier_append_isIdentifier (by decide) ?_
    rw [← named]
    exact names.steps .main trivial x hx

/-! ## One process -/

/-- A parcel: a loop, a fork, a branch, and a handler whose id is no identifier. -/
def Definition.parcel : Definition where
  name := "Parcel"
  steps := [.ofName "Weigh", .ofName "Label", .ofName "Sort", .ofName "Send"]
  stateType := none
  loops := [⟨"Trip", "arrived", 3, "Weigh", "Label", some "Sort", none⟩]
  branches := [⟨"ByZone", "Send", ⟨"zone", "String", .computed, []⟩, none, none,
    [⟨.literal "EU", "Eu", [.ofName "Vat"], false⟩, ⟨.otherwise, "Other", [], true⟩]⟩]
  approvals := []
  forks := [⟨"Sort", [[.ofName "Scan"], [.ofName "Bill"]], false, "Send"⟩]
  handlers := [⟨"7 zurück → Absender ☃", .workflow, [.ofName "Notify"], true⟩]

theorem Definition.names_areIdentifiers_parcel : ∃ t, Definition.parcel.compile .default = .ok t
    ∧ "StartFailureHandler__7_zur_ck___Absender__Command" ∈ t.names
    ∧ ∀ name ∈ t.names, Text.isIdentifier name = true := by
  obtain ⟨t, ht, listed⟩ := Definition.parcel.exists_table .default
    (fun t => "StartFailureHandler__7_zur_ck___Absender__Command" ∈ t.names) (by decide +kernel)
  exact ⟨t, ht, of_decide_eq_true listed, names_areIdentifiers ht⟩

end Workflow
