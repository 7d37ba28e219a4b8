import Workflow.Proofs.Plan.Identifiers
import Workflow.Proofs.Source.Literals
import Workflow.Proofs.Table.Closed
import Workflow.Proofs.Table.Skeleton
import Workflow.Source.Render

/-!
Source texts of definitions that differ in their free texts only.

Free texts are rendered between quotes, behind names that hold no quote themselves, so a table and its
skeleton are rendered to pieces that are alike. The main statement compares the source texts of two
definitions line by line: no free text adds a line, ends a literal or reaches into code.
-/

set_option autoImplicit false

namespace Workflow.Source

/-- Lists that give the same parts from images as from what they are images of. -/
theorem map_flatMap_map_of_forall {α β γ : Type} {f : α → List β} {g : α → α} {k : β → γ} {l : List α}
    (same : ∀ a ∈ l, (f (g a)).map k = (f a).map k) :
    ((l.map g).flatMap f).map k = (l.flatMap f).map k := by
  rw [List.map_flatMap, List.map_flatMap, List.flatMap_map]
  exact List.flatMap_congr same

theorem alike_owned (text text' : String) : Alike (Style.owned text) (Style.owned text') :=
  (Alike.quoted text text').append (.of_unquoted (by decide))

/-- Two fields that hold texts. -/
theorem alike_fields {lead between : String} (hl : Unquoted lead) (hb : Unquoted between)
    (text text' more more' : String) :
    Alike (lead ++ Style.owned text ++ between ++ Style.owned more)
      (lead ++ Style.owned text' ++ between ++ Style.owned more') :=
  ((alike_owned text text').around hl hb).append (alike_owned more more')

theorem bare_line_eq {text text' : String} (h : Alike text text') :
    Piece.bare (.line text) = Piece.bare (.line text') :=
  congrArg Piece.line h.bare_eq

theorem bare_block_eq {text text' : String} (h : Alike text text') :
    Piece.bare (.block text) = Piece.bare (.block text') :=
  congrArg Piece.opening (h.append (.of_unquoted (by decide))).bare_eq

namespace Style

/-- One arm of a route. -/
def arm (s : Style) (label : String) (target : Continuation) : List Piece :=
  .block s!"{label} =>" :: s.continuation "self" target ++ [.closing ""]

theorem route_eq (s : Style) (r : Route) : s.route r =
    .block s!"match discriminator_value(&self.state, {Text.quoted r.key.fieldPath}).as_str()"
      :: r.arms.flatMap (fun a => s.arm (Text.quoted a.value) a.target)
      ++ (match r.fallback with
        | some target => s.arm "_" target
        | none =>
          [.block "value =>",
            .line <| s!"return Err(ProcessError::UnmatchedBranch \x7b branch: {owned r.branch}, "
              ++ "value: value.to_string() \x7d);",
            .closing ""])
      ++ [.closing ""] :=
  rfl

variable {s : Style} (named : Unquoted s.messages)

include named

/-- What a message carries reaches no further than its payload. -/
theorem bare_sendWith {receiver message payload payload' : String} (receives : Unquoted receiver)
    (sent : Unquoted message) (carried : Alike payload payload') :
    (s.sendWith receiver message payload).bare = (s.sendWith receiver message payload').bare := by
  have opened : Unquoted "out.push(Outbound::Send(" := by decide
  have head : Unquoted s!"out.push(Outbound::Send({s.messages}::{message}({message} \x7b " :=
    (((((opened.append named).append (by decide)).append sent).append (by decide)).append sent).append
      (by decide)
  have instanced : Unquoted "instance_id: " := by decide
  have field : Unquoted s!"instance_id: {receiver}.instance_id" :=
    (instanced.append receives).append (by decide)
  exact bare_line_eq ((Alike.of_unquoted head).append (carried.around field (by decide)))

/-- Where control goes, free texts stand between quotes only. -/
theorem bare_continuation {receiver : String} (receives : Unquoted receiver) {k : Continuation}
    (sent : ∀ r ∈ k.references, Unquoted r.2) :
    (s.continuation receiver k.skeleton).map Piece.bare = (s.continuation receiver k).map Piece.bare := by
  induction k generalizing receiver with
  | send command => rfl
  | complete => rfl
  | fail => rfl
  | loop c exit ih =>
    obtain ⟨_, further⟩ := List.forall_mem_cons.mp sent
    have left := ih (show Unquoted "self" by decide) further
    simp only [Continuation.skeleton, continuation, List.map_append, left]
  | requestApproval r =>
    have event : Unquoted r.event := sent _ (List.mem_singleton_self _)
    have asked (text : String) : Alike s!", approval: {owned r.approval}, approver_type: {owned text}"
        s!", approval: {owned r.approval}, approver_type: {owned r.approverType}" :=
      alike_fields (by decide) (by decide) _ _ _ _
    have self : Unquoted "self" := by decide
    simp only [Continuation.skeleton, continuation, List.map_cons, bare_sendWith named self event (asked _)]

/-- The literal of a case is a pattern. -/
theorem bare_arm {label pattern : String} (alike : Alike label pattern) {k : Continuation}
    (sent : ∀ q ∈ k.references, Unquoted q.2) :
    (s.arm label k.skeleton).map Piece.bare = (s.arm pattern k).map Piece.bare := by
  have head : Alike s!"{label} =>" s!"{pattern} =>" :=
    alike.around (show Unquoted "" by decide) (by decide)
  have self : Unquoted "self" := by decide
  simp only [arm, List.cons_append, List.map_append, List.map_cons, bare_block_eq head,
    bare_continuation named self sent]

/-- What a branch looks at is an argument. -/
theorem bare_route {r : Route} (sent : ∀ k ∈ r.targets, ∀ q ∈ k.references, Unquoted q.2) :
    (s.route r.skeleton).map Piece.bare = (s.route r).map Piece.bare := by
  have matched (text : String) : Alike s!"match discriminator_value(&self.state, {Text.quoted text}).as_str()"
      s!"match discriminator_value(&self.state, {Text.quoted r.key.fieldPath}).as_str()" :=
    (Alike.quoted _ _).around (by decide) (by decide)
  have arms : ((r.arms.map fun a => RouteArm.mk "" a.target.skeleton).flatMap fun a =>
        s.arm (Text.quoted a.value) a.target).map Piece.bare
      = (r.arms.flatMap fun a => s.arm (Text.quoted a.value) a.target).map Piece.bare :=
    map_flatMap_map_of_forall fun a ha =>
      bare_arm named (Alike.quoted _ _) (sent a.target (List.mem_append_left _ (List.mem_map_of_mem ha)))
  have wild : Alike "_" "_" := .of_unquoted (by decide)
  simp only [route_eq, Route.skeleton, List.cons_append, List.map_cons, List.map_append,
    bare_block_eq (matched _), arms]
  cases fallback : r.fallback with
  | none => rfl
  | some k =>
    have last := bare_arm named wild (sent k (List.mem_append_right _ (by simp [fallback])))
    simp only [Option.map_some, last]

/-- An action without its free texts is rendered to pieces that are alike. -/
theorem bare_action (fields : List Field) {a : Action} (sent : ∀ q ∈ a.references, Unquoted q.2) :
    (s.action fields a.skeleton).map Piece.bare = (s.action fields a).map Piece.bare := by
  have going : ∀ k ∈ a.continuations, ∀ q ∈ k.references, Unquoted q.2 := fun k hk q hq =>
    sent q (List.mem_append_left _ (List.mem_flatMap.mpr ⟨k, hk, hq⟩))
  have self : Unquoted "self" := by decide
  cases a with
  | validate g =>
    have event : Unquoted g.event := sent (.validationFailed, g.event) (by simp [Action.references])
    have asked (text : String) : Alike s!"if !cx.conditions.evaluate({Text.quoted text}, &self.state)"
        s!"if !cx.conditions.evaluate({Text.quoted g.conditionId}, &self.state)" :=
      (Alike.quoted _ _).around (by decide) (by decide)
    have refused (text : String) : Alike s!", step: {owned g.step}, message: {owned text}"
        s!", step: {owned g.step}, message: {owned g.message}" :=
      alike_fields (by decide) (by decide) _ _ _ _
    simp only [Action.skeleton, ValidationGuard.skeleton, action, List.map_cons, bare_block_eq (asked _),
      bare_sendWith named self event (refused _)]
  | dispatchWork workType command =>
    have event : Unquoted command := sent (.executeWorker, command) (by simp [Action.references])
    have work (text : String) : Alike s!", step: {owned text}, state: self.state.clone()"
        s!", step: {owned workType}, state: self.state.clone()" :=
      (alike_owned _ _).around (by decide) (by decide)
    simp only [Action.skeleton, action, List.map_cons, bare_sendWith named self event (work _)]
  | proceed k => exact bare_continuation named self (going k (List.mem_singleton_self k))
  | route r => exact bare_route named going
  | decide approved rejected =>
    have yes := bare_continuation named self (going approved (by simp [Action.continuations]))
    have no := bare_continuation named self (going rejected (by simp [Action.continuations]))
    simp only [Action.skeleton, action, List.map_append, yes, no]
  | _ => rfl

theorem bare_transition (fields : List Field) {t : Transition}
    (sent : ∀ a ∈ t.body, ∀ q ∈ a.references, Unquoted q.2) :
    (s.transition fields t.skeleton).map Piece.bare = (s.transition fields t).map Piece.bare := by
  have body := map_flatMap_map_of_forall fun a ha => bare_action named fields (sent a ha)
  simp only [transition, Transition.skeleton, List.map_append, body]

theorem bare_startFactory (fields : List Field) {t : Transition}
    (sent : ∀ a ∈ t.body, ∀ q ∈ a.references, Unquoted q.2) :
    (s.startFactory fields t.skeleton).map Piece.bare = (s.startFactory fields t).map Piece.bare := by
  have action : ∀ a ∈ t.body,
      (s.startAction fields a.skeleton).map Piece.bare = (s.startAction fields a).map Piece.bare := by
    intro a ha
    have process : Unquoted "process" := by decide
    cases a with
    | proceed k =>
      exact bare_continuation named process fun q hq =>
        sent _ ha q (by simpa [Action.references, Action.continuations] using hq)
    | _ => rfl
  have body := map_flatMap_map_of_forall action
  simp only [startFactory, Transition.skeleton, List.map_append, body]

omit named in
/-- What an exit check asks is an argument. -/
theorem bare_exitCheck (s : Style) (c : ExitCheck) :
    (s.exitCheck c.skeleton).map Piece.bare = (s.exitCheck c).map Piece.bare := by
  have asked (text : String) : Alike s!"cx.conditions.evaluate({Text.quoted text}, &self.state)"
      s!"cx.conditions.evaluate({Text.quoted c.conditionId}, &self.state)" :=
    (Alike.quoted _ _).around (by decide) (by decide)
  simp only [exitCheck, ExitCheck.skeleton, List.map_append, List.map_cons, bare_line_eq (asked _)]

/-- A table without its free texts is rendered to pieces that are alike. -/
theorem bare_pieces {t : Table} (sent : ∀ a ∈ t.actions, ∀ q ∈ a.references, Unquoted q.2) :
    (s.pieces t.skeleton).map Piece.bare = (s.pieces t).map Piece.bare := by
  have within : ∀ x ∈ t.start :: t.transitions, ∀ a ∈ x.body, ∀ q ∈ a.references, Unquoted q.2 :=
    fun x hx a ha => sent a (List.mem_flatMap.mpr ⟨x, hx, ha⟩)
  obtain ⟨start, transitions⟩ := List.forall_mem_cons.mp within
  have checks := map_flatMap_map_of_forall fun c (_ : c ∈ t.checks) => bare_exitCheck s c
  have factory := bare_startFactory named t.fields start
  have handlers := map_flatMap_map_of_forall fun x hx => bare_transition named t.fields (transitions x hx)
  have dispatched : s.dispatcher t.skeleton = s.dispatcher t := by
    simp only [dispatcher, Table.skeleton, List.map_map]
    rfl
  have impl : (s.processImpl t.skeleton).map Piece.bare = (s.processImpl t).map Piece.bare := by
    simp only [processImpl, List.map_append, dispatched]
    simp only [Table.skeleton, checks, factory, handlers]
    rfl
  simp only [pieces, List.map_append, impl]
  rfl

end Style

/-! ## Source texts -/

/-- What is left of the source text of a compiled definition is what its skeleton gives. -/
theorem bare_render {d : Definition} {settings : Settings} {t : Table}
    (compiles : d.compile settings = .ok t) :
    bare (render settings t) = write settings.indentWidth
      (((Style.of settings t).pieces t.skeleton).map Piece.bare) := by
  have c := Definition.compiled_of_compile compiles
  have names := Definition.named_of_defect?_eq_none (Definition.defect?_of_compile compiles)
  have messages : Unquoted (Style.of settings t).messages := by
    have process := unquoted_of_isIdentifier names.process
    rw [← c.process_eq] at process
    exact process.append (by decide)
  have sent : ∀ a ∈ t.actions, ∀ q ∈ a.references, Unquoted q.2 := by
    intro a ha q hq
    obtain ⟨m, hm, named⟩ := ((c.admits_actions a ha).references q hq).exists_mem
    rw [c.messages_eq] at hm
    rw [← named]
    exact unquoted_of_isIdentifier (names.message_isIdentifier c.wellFormed hm)
  rw [render, bare_write, Style.bare_pieces messages sent]

/-- Definitions that differ in their free texts only have source texts with as many lines, and line by line
these differ in the contents of literals only. -/
theorem bareLines_of_skeleton {d d' : Definition} {settings : Settings} {t t' : Table}
    (compiles : d.compile settings = .ok t) (compiles' : d'.compile settings = .ok t')
    (same : d.skeleton = d'.skeleton) :
    (lines (generate settings t).content).length = (lines (generate settings t').content).length
      ∧ bareLines (generate settings t).content = bareLines (generate settings t').content := by
  have tables := Definition.skeleton_of_compile compiles compiles' same
  have style : Style.of settings t = Style.of settings t' := by
    have process : t.skeleton.process = t'.skeleton.process := by rw [tables]
    change t.process = t'.process at process
    rw [Style.of, process, Style.of]
  have content : ∀ t, (generate settings t).content = render settings t := fun t => by
    simp only [generate, Generated.ofContent]
  have left : bare (render settings t) = bare (render settings t') := by
    rw [bare_render compiles, bare_render compiles', tables, style]
  have alike : bareLines (generate settings t).content = bareLines (generate settings t').content := by
    rw [content, content, bareLines_eq, bareLines_eq, left]
  have many := congrArg List.length alike
  rw [bareLines, bareLines, List.length_map, List.length_map] at many
  exact ⟨many, alike⟩

/-- A poster, with one text wherever any may stand: a guard, a loop, a branch, an approval and work. -/
def poster (text : String) : Definition where
  name := "Poster"
  steps := [⟨"Draft", text, none, some ⟨text, text⟩⟩, .ofName "Choose", .ofName "Print", .ofName "Hang"]
  stateType := none
  loops := [⟨"Proof", text, 3, "Draft", "Draft", none, none⟩]
  branches := [⟨"BySize", "Choose", ⟨text, text, .enumerated, [text]⟩, some "Print", none,
    [⟨.literal text, "Large", [⟨"Glue", text, none, none⟩], false⟩, ⟨.otherwise, "Small", [], false⟩]⟩]
  approvals := [.failing ⟨"Editor", text, "Print", []⟩]
  forks := []
  handlers := []

/-- A text that would end its literal and its line, and go on as code, does not. -/
theorem bareLines_poster : ∃ t t', (poster "good").compile .default = .ok t
    ∧ (poster "\x22);\n\\\x22 + evil(\x22").compile .default = .ok t'
    ∧ (poster "good").skeleton = (poster "\x22);\n\\\x22 + evil(\x22").skeleton
    ∧ (lines (generate .default t).content).length = (lines (generate .default t').content).length
    ∧ bareLines (generate .default t).content = bareLines (generate .default t').content := by
  obtain ⟨t, compiles, _⟩ := Definition.exists_table (poster "good") .default (fun _ => true) (by
    decide +kernel)
  obtain ⟨t', compiles', _⟩ := Definition.exists_table (poster "\x22);\n\\\x22 + evil(\x22") .default
    (fun _ => true) (by decide +kernel)
  have same : (poster "good").skeleton = (poster "\x22);\n\\\x22 + evil(\x22").skeleton := rfl
  exact ⟨t, t', compiles, compiles', same, bareLines_of_skeleton compiles compiles' same⟩

end Workflow.Source
