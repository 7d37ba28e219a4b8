import Mathlib.Data.List.Nodup
import Mathlib.Data.List.Pairwise
import Workflow.Compile
import Workflow.Proofs.Plan.Entries

/-!
What a successful compilation promises.

`Compiled d t` says of a table what the definition it came from is and that no name was claimed
twice. Two consequences carry everything else: a name leads back to the one entry of the plan that
introduces it, and a look-up by name in the table finds what was put in under it.
-/

set_option autoImplicit false

namespace Workflow

/-! ## Pipelines that may fail -/

/-- A pipeline succeeds where its first stage does and the rest does from there. -/
theorem bind_eq_ok {ε α β : Type} {x : Except ε α} {f : α → Except ε β} {b : β} :
    (x >>= f) = .ok b ↔ ∃ a, x = .ok a ∧ f a = .ok b := by
  cases x <;> simp [bind, Except.bind]

/-- So does one whose rest cannot fail. -/
theorem map_eq_ok {ε α β : Type} {x : Except ε α} {f : α → β} {b : β} :
    x.map f = .ok b ↔ ∃ a, x = .ok a ∧ f a = b := by
  cases x <;> simp [Except.map]

/-- What holds of every list that a traversal appends holds of the whole. -/
theorem mapM_flatten_induction {ε α β : Type} {f : α → Except ε (List β)}
    {motive : List α → List β → Prop} (nil : motive [] [])
    (cons : ∀ a l zs ys, f a = .ok zs → motive l ys → motive (a :: l) (zs ++ ys))
    {l : List α} {ys : List β} (h : (l.mapM f).map List.flatten = .ok ys) : motive l ys := by
  induction l generalizing ys with
  | nil =>
    cases h
    exact nil
  | cons a l ih =>
    obtain ⟨lists, traversed, rfl⟩ := map_eq_ok.mp h
    rw [List.mapM_cons] at traversed
    obtain ⟨zs, hzs, rest⟩ := bind_eq_ok.mp traversed
    obtain ⟨more, hmore, hlists⟩ := bind_eq_ok.mp rest
    cases hlists
    exact cons a l zs _ hzs (ih (map_eq_ok.mpr ⟨more, hmore, rfl⟩))

/-! ## The promise -/

/-- A table and the definition it was compiled from. -/
structure Compiled (d : Definition) (t : Table) : Prop where
  wellFormed : d.WellFormed
  phases_distinct : d.phases.Nodup
  messages_distinct : (d.messages.map MessageEntry.name).Nodup
  process_eq : t.process = d.name
  phases_eq : t.phases = d.phases
  fields_eq : t.fields = d.fields
  checks_eq : t.checks = d.checks
  messages_eq : t.messages = d.messages
  forks_eq : t.forks = d.forks.map d.forkLayout
  start_ok : d.startFactory = .ok t.start
  transitions_ok : d.transitions = .ok t.transitions
  fallbacks_eq : t.fallbacks = Fallback.ofMessages d.messages

namespace Definition

variable {d : Definition}

/-- The phase a claim is on. -/
private def claimedPhase? : Space × String → Option String
  | (.phase, name) => some name
  | (.message, _) => none

/-- The message a claim is on. -/
private def claimedMessage? : Space × String → Option String
  | (.phase, _) => none
  | (.message, name) => some name

/-- The claims on phases, read in order. -/
private theorem claimedPhases_eq (d : Definition) :
    (d.claims.map Prod.fst).filterMap claimedPhase?
      = Name.notStarted :: closingPhases ++ d.plan.flatMap Entry.phases := by
  have entry : ∀ e : Entry, (e.claims.map Prod.fst).filterMap claimedPhase? = e.phases := by
    intro e
    simp [Entry.claims, claimedPhase?, Function.comp_def, List.filterMap_map]
  simp only [claims, List.map_append, List.filterMap_append, List.map_flatMap,
    List.filterMap_flatMap, entry]
  rfl

/-- The claims on messages are one for each message. -/
private theorem claimedMessages_eq (d : Definition) :
    (d.claims.map Prod.fst).filterMap claimedMessage? = d.messages.map MessageEntry.name := by
  have entry : ∀ e : Entry, (e.claims.map Prod.fst).filterMap claimedMessage?
      = e.messages.map MessageEntry.name := by
    intro e
    simp [Entry.claims, claimedMessage?, Function.comp_def, List.filterMap_map]
  simp only [claims, messages, List.map_append, List.filterMap_append, List.map_flatMap,
    List.filterMap_flatMap, entry, List.map_cons]
  rfl

/-- All phases are claimed; those that close a process come earlier among the claims. -/
private theorem claimedPhases_perm (d : Definition) :
    ((d.claims.map Prod.fst).filterMap claimedPhase?).Perm d.phases := by
  have moved : (closingPhases ++ d.plan.flatMap Entry.phases).Perm
      (d.plan.flatMap Entry.phases ++ closingPhases) := List.perm_append_comm
  rw [claimedPhases_eq]
  exact moved.cons _

/-- Keys in two spaces are distinct when they are in each. -/
private theorem nodup_of_claimed {keys : List (Space × String)}
    (phases : (keys.filterMap claimedPhase?).Nodup)
    (messages : (keys.filterMap claimedMessage?).Nodup) : keys.Nodup := by
  induction keys with
  | nil => exact List.nodup_nil
  | cons key rest ih =>
    obtain ⟨space, name⟩ := key
    cases space with
    | phase =>
      obtain ⟨fresh, phases⟩ := List.nodup_cons.mp phases
      exact List.nodup_cons.mpr
        ⟨fun again => fresh (List.mem_filterMap.mpr ⟨_, again, rfl⟩), ih phases messages⟩
    | message =>
      obtain ⟨fresh, messages⟩ := List.nodup_cons.mp messages
      exact List.nodup_cons.mpr
        ⟨fun again => fresh (List.mem_filterMap.mpr ⟨_, again, rfl⟩), ih phases messages⟩

/-- No name is claimed twice exactly when no phase and no message is. -/
theorem claims_nodup_iff : (d.claims.map Prod.fst).Nodup
    ↔ d.phases.Nodup ∧ (d.messages.map MessageEntry.name).Nodup := by
  rw [← (claimedPhases_perm d).nodup_iff, ← claimedMessages_eq]
  refine ⟨fun distinct => ⟨distinct.filterMap ?_, distinct.filterMap ?_⟩,
    fun distinct => nodup_of_claimed distinct.1 distinct.2⟩ <;>
    rintro ⟨_ | _, _⟩ ⟨_ | _, _⟩ name first second <;> simp_all [claimedPhase?, claimedMessage?]

/-- Claims that pass are claims on different names. -/
theorem claims_nodup_of_checkClaims {u : Unit} (h : d.checkClaims = .ok u) :
    (d.claims.map Prod.fst).Nodup := by
  apply (Claim.clash?_eq_none_iff _).mp
  unfold checkClaims at h
  split at h
  · cases h
  · assumption

/-- What compiles is valid. -/
theorem defect?_of_compile {s : Settings} {t : Table} (h : d.compile s = .ok t) :
    d.defect? = none := by
  unfold compile at h
  obtain ⟨_, hvalid, _⟩ := bind_eq_ok.mp h
  apply (validate_eq_ok_iff d).mp
  cases hv : d.validate with
  | ok _ => rfl
  | error e => rw [hv] at hvalid; cases hvalid

/-- The type of the state is the one that the definition or the settings name. -/
theorem stateType_of_compile {s : Settings} {t : Table} (h : d.compile s = .ok t) :
    t.stateType = d.stateTypeIn s := by
  unfold compile at h
  obtain ⟨_, _, h⟩ := bind_eq_ok.mp h
  obtain ⟨_, _, h⟩ := bind_eq_ok.mp h
  obtain ⟨_, _, h⟩ := bind_eq_ok.mp h
  obtain ⟨_, _, h⟩ := bind_eq_ok.mp h
  obtain ⟨_, _, h⟩ := bind_eq_ok.mp h
  cases h
  rfl

/-- Compilation gives what it promises. -/
theorem compiled_of_compile {s : Settings} {t : Table} (h : d.compile s = .ok t) :
    Compiled d t := by
  have valid := defect?_of_compile h
  unfold compile at h
  obtain ⟨_, _, h⟩ := bind_eq_ok.mp h
  obtain ⟨_, hclaims, h⟩ := bind_eq_ok.mp h
  obtain ⟨start, hstart, h⟩ := bind_eq_ok.mp h
  obtain ⟨transitions, htransitions, h⟩ := bind_eq_ok.mp h
  obtain ⟨_, _, h⟩ := bind_eq_ok.mp h
  have distinct := claims_nodup_of_checkClaims hclaims
  cases h
  exact {
    wellFormed := wellFormed_of_defect?_eq_none valid
    phases_distinct := (claims_nodup_iff.mp distinct).1
    messages_distinct := (claims_nodup_iff.mp distinct).2
    process_eq := rfl
    phases_eq := rfl
    fields_eq := rfl
    checks_eq := rfl
    messages_eq := rfl
    forks_eq := rfl
    start_ok := hstart
    transitions_ok := htransitions
    fallbacks_eq := rfl }

end Definition

/-! ## Names lead back to entries -/

/-- Elements that share something a distinct concatenation was built from are one. -/
theorem eq_of_mem_flatMap_nodup {α β : Type} {f : α → List β} {l : List α}
    (distinct : (l.flatMap f).Nodup) {a a' : α} (ha : a ∈ l) (ha' : a' ∈ l) {b : β}
    (hb : b ∈ f a) (hb' : b ∈ f a') : a = a' := by
  by_contra different
  have apart := (List.nodup_flatMap.mp distinct).2
  have : Std.Symm (Function.onFun List.Disjoint f) := ⟨fun _ _ h _ hx hy => h hy hx⟩
  exact apart.forall ha ha' different hb hb'

namespace Definition

/-- The messages of an entry are messages of the definition. -/
theorem mem_messages_of_plan {d : Definition} {e : Entry} (he : e ∈ d.plan) {m : MessageEntry}
    (hm : m ∈ e.messages) : m ∈ d.messages :=
  List.mem_cons_of_mem _ (List.mem_flatMap.mpr ⟨e, he, hm⟩)

theorem mem_messages_of_site {d : Definition} {s : Site} (hs : s ∈ d.sites) {m : MessageEntry}
    (hm : m ∈ s.messages) : m ∈ d.messages :=
  mem_messages_of_plan (mem_sites_iff_mem_plan.mp hs) hm

/-- A phase is claimed by one entry. -/
theorem entry_eq_of_phase {d : Definition} (distinct : d.phases.Nodup) {e e' : Entry}
    (he : e ∈ d.plan) (he' : e' ∈ d.plan) {p : String} (hp : p ∈ e.phases) (hp' : p ∈ e'.phases) :
    e = e' := by
  have distinct : (d.plan.flatMap Entry.phases).Nodup :=
    (List.nodup_cons.mp distinct).2.of_append_left
  exact eq_of_mem_flatMap_nodup distinct he he' hp hp'

/-- So a site is known by its phase. -/
theorem site_eq_of_phase {d : Definition} (distinct : d.phases.Nodup) {s s' : Site}
    (hs : s ∈ d.sites) (hs' : s' ∈ d.sites) (phase : s.phase = s'.phase) : s = s' := by
  rw [mem_sites_iff_mem_plan] at hs hs'
  have same := entry_eq_of_phase distinct hs hs' (p := s.phase) (by simp [Entry.phases])
    (by simp [Entry.phases, phase])
  exact Entry.step.inj same

/-- The transitions of an entry; none where it has no step to go on with. -/
def transitionsAt (d : Definition) (e : Entry) : List Transition :=
  ((d.entryTransitions e).toOption).getD []

/-- The transitions are those of the entries, in order. -/
theorem transitions_eq_flatMap {d : Definition} {ts : List Transition} (made : d.transitions = .ok ts) :
    ts = d.plan.flatMap d.transitionsAt := by
  refine mapM_flatten_induction (motive := fun plan ts => ts = plan.flatMap d.transitionsAt) rfl ?_ made
  intro e rest zs ys hzs ih
  rw [List.flatMap_cons, transitionsAt, hzs, ← ih]
  rfl

/-- The transitions of an entry are triggered by its inbound messages, in order. -/
theorem triggers_entryTransitions {d : Definition} {e : Entry} {ts : List Transition}
    (h : d.entryTransitions e = .ok ts) :
    ts.map Transition.trigger
      = (e.messages.filter (·.kind.isInbound)).map MessageEntry.name := by
  cases e with
  | step s =>
    cases h
    cases hg : s.step.isGuarded <;>
      simp [Entry.messages, Site.messages, hg, MessageKind.isInbound, Site.startTransition,
        completion, Transition.of]
  | approval a k =>
    cases h
    simp [Entry.messages, Approval.transitions, MessageKind.isInbound, Transition.of]
  | handler g =>
    obtain ⟨tr, htr, rfl⟩ := map_eq_ok.mp h
    unfold Handler.trigger at htr
    split at htr
    · cases htr
    · cases htr
      simp [Entry.messages, MessageKind.isInbound, Transition.of]

/-- The transitions of an entry are named after what triggers them. -/
theorem name_of_mem_entryTransitions {d : Definition} {e : Entry} {ts : List Transition}
    (h : d.entryTransitions e = .ok ts) {tr : Transition} (member : tr ∈ ts) :
    tr.name = Name.handlerName tr.trigger := by
  cases e with
  | step s =>
    cases h
    rcases List.mem_pair.mp member with rfl | rfl <;> rfl
  | approval a k =>
    cases h
    simp only [Approval.transitions, List.mem_cons, List.not_mem_nil, or_false] at member
    rcases member with rfl | rfl | rfl <;> rfl
  | handler g =>
    obtain ⟨tr', made, rfl⟩ := map_eq_ok.mp h
    unfold Handler.trigger at made
    split at made
    · cases made
    · cases made
      rw [List.mem_singleton.mp member]
      rfl

end Definition

namespace Compiled

variable {d : Definition} {t : Table} (c : Compiled d t)

include c

/-- A message is known by its name. -/
theorem message_eq_of_name_eq {m m' : MessageEntry} (hm : m ∈ d.messages) (hm' : m' ∈ d.messages)
    (name : m.name = m'.name) : m = m' :=
  List.inj_on_of_nodup_map c.messages_distinct hm hm' name

/-- So the name of a message leads back to one entry. -/
theorem entry_eq_of_message {e e' : Entry} (he : e ∈ d.plan) (he' : e' ∈ d.plan)
    {m m' : MessageEntry} (hm : m ∈ e.messages) (hm' : m' ∈ e'.messages)
    (name : m.name = m'.name) : e = e' := by
  have same := c.message_eq_of_name_eq (Definition.mem_messages_of_plan he hm)
    (Definition.mem_messages_of_plan he' hm') name
  have distinct : (d.plan.flatMap Entry.messages).Nodup :=
    (List.nodup_cons.mp (List.Nodup.of_map _ c.messages_distinct)).2
  exact eq_of_mem_flatMap_nodup distinct he he' hm (same ▸ hm')

theorem entry_eq_of_phase {e e' : Entry} (he : e ∈ d.plan) (he' : e' ∈ d.plan) {p : String}
    (hp : p ∈ e.phases) (hp' : p ∈ e'.phases) : e = e' :=
  Definition.entry_eq_of_phase c.phases_distinct he he' hp hp'

/-- The phases of the plan are none of the reserved ones. -/
theorem phase_ne_reserved {e : Entry} (he : e ∈ d.plan) {p : String} (hp : p ∈ e.phases) :
    p ≠ Name.notStarted ∧ p ≠ Name.completed ∧ p ≠ Name.failed ∧ p ≠ Name.validationFailed := by
  have mem : p ∈ d.plan.flatMap Entry.phases := List.mem_flatMap.mpr ⟨e, he, hp⟩
  obtain ⟨first, rest⟩ := List.nodup_cons.mp c.phases_distinct
  have closing : ∀ q ∈ Definition.closingPhases, p ≠ q := by
    rintro q hq rfl
    exact (List.disjoint_of_nodup_append rest) mem hq
  refine ⟨?_, closing _ (by simp [Definition.closingPhases]),
    closing _ (by simp [Definition.closingPhases]), closing _ (by simp [Definition.closingPhases])⟩
  rintro rfl
  exact first (List.mem_append_left _ mem)

theorem site_eq_of_phase {s s' : Site} (hs : s ∈ d.sites) (hs' : s' ∈ d.sites)
    (phase : s.phase = s'.phase) : s = s' :=
  Definition.site_eq_of_phase c.phases_distinct hs hs' phase

/-- A site is known by what its messages are spelt from. -/
theorem site_eq_of_stem {s s' : Site} (hs : s ∈ d.sites) (hs' : s' ∈ d.sites)
    (stem : s.stem = s'.stem) : s = s' := by
  rw [Definition.mem_sites_iff_mem_plan] at hs hs'
  have start : ∀ r : Site, ⟨r.startCommand, .startStep, r.phase⟩ ∈ (Entry.step r).messages := by
    simp [Entry.messages, Site.messages]
  have same := c.entry_eq_of_message hs hs' (start s) (start s') (by simp [Site.startCommand, stem])
  exact Entry.step.inj same

/-- The start of the process creates an instance and starts the first step. -/
theorem exists_start : ∃ first, d.steps[0]? = some first ∧ t.start
    = ⟨"start", .startFactory, Name.startCommand d.name,
      [.createInstance, .proceed (.send (Name.startCommand first.identifier))]⟩ := by
  have made := c.start_ok
  unfold Definition.startFactory at made
  split at made
  next => cases made
  next first rest steps => exact ⟨first, by rw [steps]; rfl, (Except.ok.inj made).symm⟩

/-! ## Look-ups -/

/-- A message is looked up with the kind it was declared with. -/
theorem kindOf?_eq {m : MessageEntry} (hm : m ∈ d.messages) : t.kindOf? m.name = some m.kind := by
  have found : t.message? m.name = some m := by
    rw [Table.message?, c.messages_eq, find?_key_eq_some_iff c.messages_distinct]
    exact ⟨hm, rfl⟩
  simp only [Table.kindOf?, found, Option.map_some]

/-- A table has one transition for every message an instance consumes, in the order the messages
are declared. -/
theorem triggers_eq :
    t.transitions.map Transition.trigger
      = (t.messages.filter (·.kind.isInbound)).map MessageEntry.name := by
  have along : t.transitions.map Transition.trigger
      = ((d.plan.flatMap Entry.messages).filter (·.kind.isInbound)).map MessageEntry.name := by
    refine mapM_flatten_induction (motive := fun l ys => ys.map Transition.trigger
      = ((l.flatMap Entry.messages).filter (·.kind.isInbound)).map MessageEntry.name) rfl ?_
      c.transitions_ok
    intro e l zs ys hzs ih
    simp only [List.map_append, List.flatMap_cons, List.filter_append, ih,
      Definition.triggers_entryTransitions hzs]
  have start : (MessageKind.isInbound (Definition.startMessage d).kind) = false := rfl
  rw [along, c.messages_eq, Definition.messages, List.filter_cons, start]
  rfl

/-- No two transitions are triggered by the same message. -/
theorem triggers_distinct : (t.transitions.map Transition.trigger).Nodup := by
  rw [c.triggers_eq, c.messages_eq]
  exact c.messages_distinct.sublist (List.filter_sublist.map _)

/-- So a message triggers the transition that is declared for it. -/
theorem transitionFor?_eq {tr : Transition} (h : tr ∈ t.transitions) :
    t.transitionFor? tr.trigger = some tr :=
  (find?_key_eq_some_iff c.triggers_distinct).mpr ⟨h, rfl⟩

/-- The transitions of a table are those of the entries of the plan. -/
theorem mem_transitions_iff {tr : Transition} :
    tr ∈ t.transitions ↔ ∃ e ∈ d.plan, ∃ ts, d.entryTransitions e = .ok ts ∧ tr ∈ ts := by
  refine mapM_flatten_induction
    (motive := fun l ys => tr ∈ ys ↔ ∃ e ∈ l, ∃ ts, d.entryTransitions e = .ok ts ∧ tr ∈ ts)
    (by simp) ?_ c.transitions_ok
  intro e l zs ys hzs ih
  simp only [List.mem_append, ih, List.mem_cons, exists_eq_or_imp, hzs, Except.ok.injEq,
    exists_eq_left']

/-- Every site has a transition that starts it and one that completes it. -/
theorem mem_transitions_of_site {s : Site} (hs : s ∈ d.sites) :
    s.startTransition ∈ t.transitions ∧ d.completion s ∈ t.transitions := by
  have he := Definition.mem_sites_iff_mem_plan.mp hs
  constructor <;> exact c.mem_transitions_iff.mpr ⟨_, he, _, rfl, by simp⟩

/-- The completion of a site is what its event triggers. -/
theorem transitionFor?_completedEvent {s : Site} (hs : s ∈ d.sites) :
    t.transitionFor? s.completedEvent = some (d.completion s) :=
  c.transitionFor?_eq (c.mem_transitions_of_site hs).2

theorem transitionFor?_startCommand {s : Site} (hs : s ∈ d.sites) :
    t.transitionFor? s.startCommand = some s.startTransition :=
  c.transitionFor?_eq (c.mem_transitions_of_site hs).1

end Compiled

/-- What is computed of a table is true of it. -/
theorem Definition.exists_table (d : Definition) (settings : Settings) (check : Table → Bool)
    (computed : (d.compile settings).toOption.any check = true) :
    ∃ t, d.compile settings = .ok t ∧ check t = true := by
  cases h : d.compile settings with
  | error e =>
    rw [h] at computed
    cases computed
  | ok t =>
    rw [h] at computed
    exact ⟨t, rfl, computed⟩

/-! ## One process -/

/-- An order: a loop with a branch inside, an approval that escalates to another one, a fork, and a
handler for all failures. -/
def Definition.order : Definition where
  name := "Order"
  steps := [.ofName "Draft", .ofName "Check", .ofName "Pay", .ofName "Pack", .ofName "Ship"]
  stateType := none
  loops := [⟨"Revision", "polished", 3, "Draft", "Check", some "Pay", none⟩]
  branches := [⟨"ByRegion", "Draft", ⟨"region", "String", .computed, []⟩, some "Check",
    some "Revision",
    [⟨.literal "EU", "Eu", [.ofName "Vat"], false⟩, ⟨.otherwise, "Other", [], false⟩]⟩]
  approvals := [.asking ⟨"Clerk", "clerk", "Pay", [.ofName "Refund"]⟩
    (.running ⟨"Board", "board", "Pay", []⟩ [.ofName "Remind"])]
  forks := [⟨"Pack", [[.ofName "Label", .ofName "Weigh"], [.ofName "Bill"]], false, "Ship"⟩]
  handlers := [⟨"all", .workflow, [.ofName "Notify"], false⟩]

theorem Definition.exists_compile_order :
    ∃ t, Definition.order.compile .default = .ok t := by
  have compiles : (Definition.order.compile .default).isOk = true := by decide +kernel
  cases h : Definition.order.compile .default with
  | ok t => exact ⟨t, rfl⟩
  | error e =>
    rw [h] at compiles
    cases compiles

end Workflow
