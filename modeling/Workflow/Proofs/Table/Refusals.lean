import Workflow.Proofs.Table.Compiled
import Workflow.Proofs.Text.SnakeCase

/-!
Why a process does not compile.

A process that is valid is refused only where one name would be generated twice, as a phase, as a
message or as the handler of a message. Handlers are named in snake case, so different messages may
have one. No entry of a plan generates a name twice by itself, so the name that is reported is generated
by two entries, or by one entry and before all of them. `compile_refused_iff` says so, and that nothing
else can go wrong: what is valid has a step to start, and so have its recovery chains.
-/

set_option autoImplicit false

namespace Workflow

/-! ## One before another -/

section Pairs

variable {α β : Type} {x y : β}

theorem sublist_append_pair {l l' : List β} (h : [x, y].Sublist (l ++ l')) :
    [x, y].Sublist l ∨ (x ∈ l ∧ y ∈ l') ∨ [x, y].Sublist l' := by
  obtain ⟨front, back, split, hl, hl'⟩ := List.sublist_append_iff.mp h
  rcases List.cons_eq_append_iff.mp split with ⟨rfl, rfl⟩ | ⟨more, rfl, rest⟩
  · exact .inr (.inr hl')
  · rcases List.singleton_eq_append_iff.mp rest with ⟨rfl, rfl⟩ | ⟨rfl, rfl⟩
    · exact .inr (.inl ⟨List.singleton_sublist.mp hl, List.singleton_sublist.mp hl'⟩)
    · exact .inl hl

/-- Of two elements in a concatenation, both are from one part, or they are from two. -/
theorem sublist_flatMap_pair {f : α → List β} {l : List α} (h : [x, y].Sublist (l.flatMap f)) :
    (∃ a ∈ l, [x, y].Sublist (f a)) ∨ ∃ a b, [a, b].Sublist l ∧ x ∈ f a ∧ y ∈ f b := by
  induction l with
  | nil => cases h
  | cons a rest ih =>
    rw [List.flatMap_cons] at h
    rcases sublist_append_pair h with both | ⟨first, later⟩ | both
    · exact .inl ⟨a, List.mem_cons_self, both⟩
    · obtain ⟨b, hb, second⟩ := List.mem_flatMap.mp later
      exact .inr ⟨a, b, (List.singleton_sublist.mpr hb).cons_cons a, first, second⟩
    · rcases ih both with ⟨b, hb, both⟩ | ⟨b, c, apart, first, second⟩
      · exact .inl ⟨b, List.mem_cons_of_mem a hb, both⟩
      · exact .inr ⟨b, c, apart.cons a, first, second⟩

end Pairs

namespace Claim

variable {κ ω : Type} [DecidableEq κ] {key : κ} {first second : ω}

theorem mem_of_get? {taken : Store κ ω} (h : Store.get? key taken = some first) :
    (key, first) ∈ taken := by
  induction taken with
  | nil => cases h
  | cons p rest ih =>
    obtain ⟨k, v⟩ := p
    by_cases same : k = key
    · rw [Store.get?, if_pos same] at h
      rw [same, Option.some.inj h]
      exact List.mem_cons_self
    · rw [Store.get?, if_neg same] at h
      exact List.mem_cons_of_mem _ (ih h)

theorem sublist_of_clashAfter {taken claims : List (κ × ω)}
    (h : clashAfter taken claims = some (key, first, second)) :
    ((key, first) ∈ taken ∧ (key, second) ∈ claims)
      ∨ [(key, first), (key, second)].Sublist claims := by
  induction claims generalizing taken with
  | nil => cases h
  | cons p rest ih =>
    obtain ⟨k, owner⟩ := p
    cases held : Store.get? k taken with
    | some holder =>
      simp only [clashAfter, held, Option.some.injEq, Prod.mk.injEq] at h
      obtain ⟨rfl, rfl, rfl⟩ := h
      exact .inl ⟨mem_of_get? held, List.mem_cons_self⟩
    | none =>
      simp only [clashAfter, held] at h
      rcases ih h with ⟨before, later⟩ | both
      · rcases List.mem_cons.mp before with same | before
        · exact .inr (same ▸ (List.singleton_sublist.mpr later).cons_cons _)
        · exact .inl ⟨before, List.mem_cons_of_mem _ later⟩
      · exact .inr (both.cons _)

/-- A clash is between two claims on one key, one of them before the other. -/
theorem sublist_of_clash? {claims : List (κ × ω)}
    (h : clash? claims = some (key, first, second)) :
    [(key, first), (key, second)].Sublist claims :=
  (sublist_of_clashAfter h).resolve_left fun taken => by cases taken.1

omit [DecidableEq κ] in
/-- So the key is there twice. -/
theorem not_nodup_of_sublist {claims : List (κ × ω)}
    (h : [(key, first), (key, second)].Sublist claims) : ¬ (claims.map Prod.fst).Nodup :=
  fun distinct => List.nodup_iff_sublist.mp distinct key (h.map Prod.fst)

end Claim

/-! ## What one entry generates -/

namespace Entry

/-- The messages of an entry differ in their letters, capitals or not: those of a site in how many letters
they add to the name of the step, those of a gate in which. -/
theorem nodup_letters (e : Entry) :
    (e.messages.map fun m => (Text.letters m.name).map Char.toLower).Nodup := by
  cases e with
  | step s =>
    have added : ((Entry.step s).messages.map fun m =>
        ((Text.letters m.name).map Char.toLower).length).Nodup := by
      have start : (Text.letters "Start").length = 5 := by decide
      have command : (Text.letters "Command").length = 7 := by decide
      have execute : (Text.letters Name.workerLead).length = 7 := by decide
      have worker : (Text.letters Name.workerTail).length = 13 := by decide
      have completed : (Text.letters "Completed").length = 9 := by decide
      have refused : (Text.letters "ValidationFailed").length = 16 := by decide
      cases guarded : s.step.isGuarded <;>
        simp [messages, Site.messages, guarded, Site.startCommand, Site.workerCommand,
          Site.completedEvent, Site.validationFailedEvent, Name.startCommand, Name.workerCommand,
          Name.completedEvent, Name.validationFailedEvent, Text.letters_append, start, command,
          execute, worker, completed, refused] <;> omega
    refine List.Nodup.of_map List.length ?_
    rwa [List.map_map]
  | approval a k =>
    have tails : (["ApprovalRequested", "ApprovalPending", "ApprovalDecided", "ApprovalTimedOut"].map
        fun tail => (Text.letters tail).map Char.toLower).Nodup := by decide
    have behind := tails.map
      (List.append_right_injective ((Text.letters a.gate.name).map Char.toLower))
    simpa [messages, Name.approvalRequested, Name.approvalPending, Name.approvalDecided,
      Name.approvalTimedOut, Text.letters_append] using behind
  | handler g => exact List.nodup_singleton _

theorem nodup_messages (e : Entry) : (e.messages.map MessageEntry.name).Nodup := by
  refine List.Nodup.of_map (fun name => (Text.letters name).map Char.toLower) ?_
  rw [List.map_map]
  exact e.nodup_letters

/-- Nor do the handlers of its messages coincide. -/
theorem nodup_handlers (e : Entry) :
    (e.messages.map fun m => Name.handlerName m.name).Nodup := by
  refine List.pairwise_map.mpr ((List.pairwise_map.mp e.nodup_letters).imp fun apart same => apart ?_)
  have letters := congrArg Text.letters ((String.append_right_inj _).mp same)
  rwa [Text.letters_snakeCase, Text.letters_snakeCase] at letters

/-- No entry claims a name twice. -/
theorem nodup_claims (e : Entry) : (e.claims.map Prod.fst).Nodup := by
  have keys : e.claims.map Prod.fst = e.phases.map (Space.phase, ·)
      ++ (e.messages.map MessageEntry.name).map (Space.message, ·) := by
    simp [claims, Function.comp_def]
  have phases : e.phases.Nodup := by
    cases e <;> simp [Entry.phases]
  rw [keys, List.nodup_append]
  refine ⟨phases.map fun _ _ same => (Prod.mk.inj same).2,
    e.nodup_messages.map fun _ _ same => (Prod.mk.inj same).2, ?_⟩
  rintro key phase _ message rfl
  obtain ⟨p, _, rfl⟩ := List.mem_map.mp phase
  obtain ⟨m, _, same⟩ := List.mem_map.mp message
  cases same

end Entry

namespace Definition

variable {d : Definition}

/-- The transitions of an entry handle its inbound messages. -/
theorem names_entryTransitions {e : Entry} {ts : List Transition}
    (made : d.entryTransitions e = .ok ts) : ts.map Transition.name
      = (e.messages.filter (·.kind.isInbound)).map fun m => Name.handlerName m.name := by
  have named : ts.map Transition.name = (ts.map Transition.trigger).map Name.handlerName := by
    rw [List.map_map]
    exact List.map_congr_left fun tr member => name_of_mem_entryTransitions made member
  rw [named, triggers_entryTransitions made, List.map_map]
  rfl

theorem nodup_names_entryTransitions {e : Entry} {ts : List Transition}
    (made : d.entryTransitions e = .ok ts) : (ts.map Transition.name).Nodup := by
  rw [names_entryTransitions made]
  exact e.nodup_handlers.sublist (List.filter_sublist.map _)

/-! ## How a compilation ends -/

/-- How a compilation ends. It stops at the first thing that is wrong: a defect, a phase or message that is
claimed twice, or a handler that is. -/
inductive Ends (d : Definition) : Except CompileError Table → Prop
  | invalid {defect : Defect} (refused : d.validate = .error defect) : Ends d (.error (.invalid defect))
  | claimed {space : Space} {name first second : String} (valid : d.validate = .ok ())
      (clash : Claim.clash? d.claims = some ((space, name), first, second)) :
      Ends d (.error (.duplicateName name first second))
  | handled {ts : List Transition} {name first second : String} (valid : d.validate = .ok ())
      (free : Claim.clash? d.claims = none) (made : d.transitions = .ok ts)
      (clash : Claim.clash? (handlerClaims ts) = some (name, first, second)) :
      Ends d (.error (.duplicateName name first second))
  | compiled {ts : List Transition} {t : Table} (valid : d.validate = .ok ())
      (free : Claim.clash? d.claims = none) (made : d.transitions = .ok ts)
      (apart : Claim.clash? (handlerClaims ts) = none) : Ends d (.ok t)

/-- A well-formed process has a step to start with. -/
theorem WellFormed.exists_startFactory (hw : d.WellFormed) : ∃ start, d.startFactory = .ok start := by
  unfold startFactory
  cases steps : d.steps with
  | nil => exact absurd steps hw.steps_ne
  | cons first rest => exact ⟨_, rfl⟩

/-- So has every recovery chain, and nothing else could be missing. -/
theorem WellFormed.exists_transitions (hw : d.WellFormed) : ∃ ts, d.transitions = .ok ts := by
  have each : ∀ e ∈ d.plan, ∃ ts, d.entryTransitions e = .ok ts := by
    intro e he
    cases hw.mem_plan_iff.mp he with
    | step line belongs hx => exact ⟨_, rfl⟩
    | gate attached link => exact ⟨_, rfl⟩
    | @handler h declared =>
      cases steps : h.steps with
      | nil => exact absurd steps (hw.handler_steps h declared)
      | cons first rest => exact ⟨_, by simp only [entryTransitions, Handler.trigger, steps]; rfl⟩
  have all : ∀ plan : List Entry, (∀ e ∈ plan, ∃ ts, d.entryTransitions e = .ok ts) →
      ∃ lists, plan.mapM d.entryTransitions = .ok lists := by
    intro plan
    induction plan with
    | nil => exact fun _ => ⟨[], rfl⟩
    | cons e rest ih =>
      intro made
      obtain ⟨⟨ts, here⟩, further⟩ := List.forall_mem_cons.mp made
      obtain ⟨lists, rest'⟩ := ih further
      exact ⟨ts :: lists, by rw [List.mapM_cons, here, rest']; rfl⟩
  obtain ⟨lists, made⟩ := all d.plan each
  exact ⟨lists.flatten, by rw [transitions, made]; rfl⟩

theorem compile_ends (d : Definition) (s : Settings) : d.Ends (d.compile s) := by
  cases valid : d.validate with
  | error defect =>
    have refused : d.compile s = .error (.invalid defect) := by rw [compile, valid]; rfl
    exact refused ▸ .invalid valid
  | ok u =>
    cases free : Claim.clash? d.claims with
    | some clash =>
      obtain ⟨⟨space, name⟩, first, second⟩ := clash
      have refused : d.compile s = .error (.duplicateName name first second) := by
        rw [compile, valid, checkClaims, free]; rfl
      exact refused ▸ .claimed valid free
    | none =>
      have hw := wellFormed_of_defect?_eq_none ((validate_eq_ok_iff d).mp valid)
      obtain ⟨start, started⟩ := hw.exists_startFactory
      obtain ⟨ts, made⟩ := hw.exists_transitions
      obtain ⟨t, whole⟩ : ∃ t, d.compile s = refuseClash (handlerClaims ts) >>= fun _ => .ok t :=
        ⟨_, by rw [compile, valid, checkClaims, free, started, made]; rfl⟩
      rw [whole, refuseClash]
      cases apart : Claim.clash? (handlerClaims ts) with
      | some clash => exact .handled valid free made apart
      | none => exact .compiled valid free made apart

end Definition

/-! ## Names that are generated twice -/

/-- What a generated name is for. A name may be generated for one thing and again for another. -/
inductive NameKind where
  | phase
  | message
  /-- The function that handles a message. -/
  | handler

/-- The kind of the names in a space. -/
def Space.kind : Space → NameKind
  | .phase => .phase
  | .message => .message

namespace Definition

/-- The names that are generated before any entry, with their owners. -/
def firstNames (d : Definition) : NameKind → List (String × String)
  | .phase => (Name.notStarted :: closingPhases).map (·, "reserved phase")
  | .message => [(d.startMessage.name, "process start")]
  | .handler => []

/-- The names that an entry generates, with their owners: its phases, its messages, and the handlers of the
transitions that are emitted for it. -/
def namesOf (d : Definition) : NameKind → Entry → List (String × String)
  | .phase, e => e.phases.map (·, e.owner)
  | .message, e => e.messages.map fun m => (m.name, e.owner)
  | .handler, e => handlerClaims (d.transitionsAt e)

/-- A name that two entries of the plan generate, the one of them behind the other, or that an entry
generates and is taken before. -/
def GeneratedTwice (d : Definition) (name first second : String) : Prop :=
  ∃ kind, (∃ e e', [e, e'].Sublist d.plan ∧ (name, first) ∈ d.namesOf kind e
      ∧ (name, second) ∈ d.namesOf kind e')
    ∨ ((name, first) ∈ d.firstNames kind ∧ ∃ e ∈ d.plan, (name, second) ∈ d.namesOf kind e)

/-- Whether a phase, a message or a handler is there twice: the four reserved phases are phases, and the
handlers are those of the transitions that are emitted. -/
def RepeatsName (d : Definition) : Prop :=
  ¬ d.phases.Nodup ∨ ¬ (d.messages.map MessageEntry.name).Nodup
    ∨ ∃ ts, d.transitions = .ok ts ∧ ¬ (ts.map Transition.name).Nodup

variable {d : Definition}

theorem mem_namesOf_of_mem_claims {e : Entry} {space : Space} {name owner : String}
    (h : ((space, name), owner) ∈ e.claims) : (name, owner) ∈ d.namesOf space.kind e := by
  rcases List.mem_append.mp h with h | h <;> obtain ⟨x, hx, same⟩ := List.mem_map.mp h <;> cases same
  · exact List.mem_map_of_mem hx
  · exact List.mem_map.mpr ⟨x, hx, rfl⟩

theorem generatedTwice_of_claims {space : Space} {name first second : String}
    (h : [((space, name), first), ((space, name), second)].Sublist d.claims) :
    d.GeneratedTwice name first second := by
  have reserved : ∀ {owner}, ((space, name), owner) ∈ (Name.notStarted :: closingPhases).map
      (fun p => ((Space.phase, p), "reserved phase"))
        ++ [((Space.message, d.startMessage.name), "process start")] →
      (name, owner) ∈ d.firstNames space.kind := by
    intro owner h
    rcases List.mem_append.mp h with h | h
    · obtain ⟨p, hp, same⟩ := List.mem_map.mp h
      cases same
      exact List.mem_map_of_mem hp
    · cases List.mem_singleton.mp h
      exact List.mem_singleton_self _
  refine ⟨space.kind, ?_⟩
  rcases sublist_append_pair h with both | ⟨before, later⟩ | both
  · -- the reserved phases are four, and the start of the process is no phase
    refine absurd ?_ (Claim.not_nodup_of_sublist both)
    simp [closingPhases, Name.notStarted, Name.completed, Name.failed, Name.validationFailed]
  · obtain ⟨e, he, second⟩ := List.mem_flatMap.mp later
    exact .inr ⟨reserved before, e, he, mem_namesOf_of_mem_claims second⟩
  · rcases sublist_flatMap_pair both with ⟨e, _, both⟩ | ⟨e, e', apart, first, second⟩
    · exact absurd e.nodup_claims (Claim.not_nodup_of_sublist both)
    · exact .inl ⟨e, e', apart, mem_namesOf_of_mem_claims first, mem_namesOf_of_mem_claims second⟩

theorem map_handlerClaims (ts : List Transition) :
    (handlerClaims ts).map Prod.fst = ts.map Transition.name :=
  List.map_map

theorem handlerClaims_eq {ts : List Transition} (made : d.transitions = .ok ts) :
    handlerClaims ts = d.plan.flatMap (d.namesOf .handler) := by
  rw [transitions_eq_flatMap made, handlerClaims, List.map_flatMap]
  rfl

theorem generatedTwice_of_handlers {ts : List Transition} (made : d.transitions = .ok ts)
    {name first second : String}
    (h : [(name, first), (name, second)].Sublist (handlerClaims ts)) :
    d.GeneratedTwice name first second := by
  rw [handlerClaims_eq made] at h
  refine ⟨.handler, .inl ?_⟩
  rcases sublist_flatMap_pair h with ⟨e, he, both⟩ | ⟨e, e', apart, first, second⟩
  · simp only [namesOf, transitionsAt] at both
    cases emitted : d.entryTransitions e with
    | error reason =>
      rw [emitted] at both
      cases both
    | ok zs =>
      rw [emitted] at both
      exact absurd (map_handlerClaims zs ▸ nodup_names_entryTransitions emitted)
        (Claim.not_nodup_of_sublist both)
  · exact ⟨e, e', apart, first, second⟩

theorem repeatsName_iff {ts : List Transition} (made : d.transitions = .ok ts) : d.RepeatsName
    ↔ Claim.clash? d.claims ≠ none ∨ Claim.clash? (handlerClaims ts) ≠ none := by
  rw [ne_eq, ne_eq, Claim.clash?_eq_none_iff, Claim.clash?_eq_none_iff, claims_nodup_iff,
    Classical.not_and_iff_not_or_not, map_handlerClaims, or_assoc, RepeatsName]
  simp [made]

/-- A process is refused for a defect exactly where it has one, and otherwise for a name exactly where a
phase, a message or a handler is there twice. The name that is reported is generated by two entries of the
plan, or by one and before all of them. Else the process compiles: there is always a step to start. -/
theorem compile_refused_iff (d : Definition) (s : Settings) :
    (∀ defect, d.compile s = .error (.invalid defect) ↔ d.validate = .error defect)
      ∧ (d.validate = .ok () →
        ((∃ name first second, d.compile s = .error (.duplicateName name first second))
            ↔ d.RepeatsName)
          ∧ (¬ d.RepeatsName → ∃ t, d.compile s = .ok t))
      ∧ (∀ name first second, d.compile s = .error (.duplicateName name first second) →
        d.GeneratedTwice name first second)
      ∧ ∀ reason, d.compile s ≠ .error (.nothingToStart reason) := by
  have ends := d.compile_ends s
  generalize d.compile s = outcome at ends
  cases ends with
  | invalid refused => simp [refused, eq_comm]
  | claimed valid clash =>
    have hw := wellFormed_of_defect?_eq_none ((validate_eq_ok_iff d).mp valid)
    obtain ⟨ts, made⟩ := hw.exists_transitions
    have twice := (repeatsName_iff made).mpr (.inl (by simp [clash]))
    have generated := generatedTwice_of_claims (Claim.sublist_of_clash? clash)
    simp [valid, twice, generated]
  | handled valid free made clash =>
    have twice := (repeatsName_iff made).mpr (.inr (by simp [clash]))
    have generated := generatedTwice_of_handlers made (Claim.sublist_of_clash? clash)
    simp [valid, twice, generated]
  | compiled valid free made apart =>
    have once : ¬ d.RepeatsName := fun twice => ((repeatsName_iff made).mp twice).elim
      (fun clash => clash free) fun clash => clash apart
    simp [valid, once]

/-- Steps that an underscore keeps apart have different messages, and the handlers of these are the same. -/
example : ({ empty "Order" with steps := [.ofName "PackBox", .ofName "Pack_Box"] }).compile .default
    = .error (.duplicateName "handle_start_pack_box_command" "message 'StartPackBoxCommand'"
      "message 'StartPack_BoxCommand'") := by
  decide +kernel

end Definition

end Workflow
