import Workflow.Source.Render

/-!
Nesting of source texts.

A writer moves one level in behind a line that opens a brace and one level out in front of a line that closes one,
and at depth zero it can only stay where it is, so a brace too many would shift all that follows and go unnoticed.
Every function of the renderer gives balanced pieces, though: it closes the braces it opens and no others. So the
parts of a text are laid one by one, each from the depth of the part before it, and the text ends at depth zero.
-/

set_option autoImplicit false

namespace Workflow.Source

variable {front back inner pieces : List Piece}

/-! ## Balanced pieces -/

/-- Where nothing is laid, the depth stays. -/
@[simp] theorem depthAfter?_nil (depth : Nat) : depthAfter? depth [] = some depth :=
  rfl

/-- Behind an opening brace a writer is one level further in. -/
@[simp] theorem depthAfter?_opening (depth : Nat) (text : String) :
    depthAfter? depth (.opening text :: back) = depthAfter? (depth + 1) back :=
  rfl

/-- So it is behind a line that opens a block. -/
@[simp] theorem depthAfter?_block (depth : Nat) (text : String) :
    depthAfter? depth (.block text :: back) = depthAfter? (depth + 1) back :=
  rfl

/-- Behind a closing brace it is one level further out, which is said of depths above zero only. -/
@[simp] theorem depthAfter?_closing (depth : Nat) (rest : String) :
    depthAfter? (depth + 1) (.closing rest :: back) = depthAfter? depth back :=
  rfl

/-- Balanced pieces in front are passed over. -/
@[simp] theorem depthAfter?_append_of_balanced (h : Balanced front) (depth : Nat) :
    depthAfter? depth (front ++ back) = depthAfter? depth back := by
  rw [depthAfter?_append, h depth, Option.bind_some]

/-- So is a piece in front that is balanced by itself. -/
@[simp] theorem depthAfter?_cons_of_balanced {piece : Piece} (h : Balanced [piece]) (depth : Nat) :
    depthAfter? depth (piece :: back) = depthAfter? depth back :=
  depthAfter?_append_of_balanced h depth

@[simp] theorem balanced_nil : Balanced [] := fun _ => rfl

@[simp] theorem balanced_line (text : String) : Balanced [.line text] := fun _ => rfl

@[simp] theorem balanced_blank : Balanced [.blank] := fun _ => rfl

/-- A block around balanced pieces is balanced. -/
@[simp] theorem balanced_block (h : Balanced inner) (text rest : String) :
    Balanced (.block text :: (inner ++ [.closing rest])) := by
  intro depth
  rw [depthAfter?_block, depthAfter?_append_of_balanced h, depthAfter?_closing, depthAfter?_nil]

/-- A list of balanced parts is balanced. -/
@[simp] theorem balanced_flatMap {α : Type} {f : α → List Piece} {l : List α}
    (each : ∀ a ∈ l, Balanced (f a)) : Balanced (l.flatMap f) := by
  induction l with
  | nil => exact balanced_nil
  | cons first rest ih =>
    obtain ⟨here, further⟩ := List.forall_mem_cons.mp each
    rw [List.flatMap_cons]
    exact here.append (ih further)

/-- A line for each. -/
@[simp] theorem balanced_map {α : Type} {f : α → Piece} {l : List α}
    (each : ∀ a ∈ l, Balanced [f a]) : Balanced (l.map f) := by
  rw [List.map_eq_flatMap]
  exact balanced_flatMap each

/-! ## Laying balanced pieces -/

/-- What follows pieces is laid from the depth they lead to. -/
theorem lay_append {depth depth' : Nat} (width : Nat) (leads : depthAfter? depth front = some depth') :
    lay width depth (front ++ back) = lay width depth front ++ lay width depth' back := by
  fun_induction depthAfter? depth front with
  | case1 depth =>
    rw [Option.some.inj leads]
    rfl
  | case2 depth text rest ih | case3 depth rest ih | case4 depth text rest ih =>
    simp only [List.cons_append, lay, ih leads]
  | case5 depth text rest ih => simp only [List.cons_append, lay, Nat.succ_sub_one, ih leads]
  -- A brace closed at depth zero leads nowhere.
  | case6 => cases leads

/-- Pieces that bring a writer back to where it stood, at whatever depth: they close the braces they open, none of
them at depth zero, and what follows is laid as it would be in their place. -/
structure Neutral (pieces : List Piece) : Prop where
  balanced : Balanced pieces
  lay_append (width depth : Nat) (rest : List Piece) :
    lay width depth (pieces ++ rest) = lay width depth pieces ++ lay width depth rest

/-- For pieces to be neutral it is enough that they are balanced. -/
theorem neutral_iff : Neutral pieces ↔ Balanced pieces :=
  ⟨Neutral.balanced, fun h => ⟨h, fun width depth _ => lay_append width (h depth)⟩⟩

/-- Parts that are balanced are written one by one. -/
theorem write_flatten (width : Nat) {parts : List (List Piece)} (each : ∀ part ∈ parts, Balanced part) :
    write width parts.flatten = String.join (parts.map (write width)) := by
  induction parts with
  | nil => rfl
  | cons part rest ih =>
    obtain ⟨here, further⟩ := List.forall_mem_cons.mp each
    rw [List.flatten_cons, write, lay_append width (here 0), String.join_append, List.map_cons,
      String.join_cons, ← ih further]
    rfl

/-! ## The parts of a source text

The depth behind a part is counted brace by brace; the smaller parts it is made of are passed over by their own
lemmas. -/

namespace Style

variable (s : Style)

/-- A doc comment is a line, or nothing. -/
@[simp] theorem balanced_doc (text : String) : Balanced (s.doc text) := by
  unfold doc
  split
  · exact balanced_line _
  · exact balanced_nil

/-- The traits of a type are one line, with codecs or without. -/
@[simp] theorem balanced_derives (base : String) : Balanced (s.derives base) := by
  unfold derives
  split <;> exact balanced_line _

@[simp] theorem balanced_heading (title : String) : Balanced (heading title) := fun _ => rfl

@[simp] theorem balanced_send (receiver command : String) : Balanced [s.send receiver command] := balanced_line _

/-- A loop is left between braces of its own, however deep its exits are nested. -/
@[simp] theorem balanced_continuation (receiver : String) (k : Continuation) :
    Balanced (s.continuation receiver k) := by
  induction k generalizing receiver with
  | send command => exact s.balanced_send receiver command
  | complete => exact fun _ => rfl
  | fail => exact fun _ => rfl
  | loop c exit ih =>
    -- The exit is laid in the first of two blocks; the second one starts the body again.
    intro depth
    simp [continuation, ih "self"]
  | requestApproval r => exact fun _ => rfl

/-- A route has an arm for each value, one for all others, and braces around them. What an arm does is a
continuation and balanced as such. -/
@[simp] theorem balanced_route (r : Route) : Balanced (s.route r) := by
  have arms : Balanced (r.arms.flatMap fun a =>
      .block s!"{Text.quoted a.value} =>" :: (s.continuation "self" a.target ++ [.closing ""])) :=
    balanced_flatMap fun a _ => balanced_block (s.balanced_continuation "self" a.target) _ _
  intro depth
  cases fallback : r.fallback <;> simp [route, fallback, arms]

/-- Whatever a failure leads to is told in lines, without a brace. -/
@[simp] theorem balanced_failureTarget (r : FailureRoute) : Balanced (s.failureTarget r) := by
  unfold failureTarget
  split
  · exact fun _ => rfl
  · split <;> exact fun _ => rfl
  · exact fun _ => rfl

/-- A fork adds at most a line to what a failure does, and no brace. -/
@[simp] theorem balanced_routeFailure (r : FailureRoute) : Balanced (s.routeFailure r) := by
  intro depth
  cases fork : r.fork with
  | none => simp [routeFailure, fork]
  | some f => cases fast : f.failFast <;> simp [routeFailure, fork, fast]

/-- An instance is created with a line for each of its fields. -/
@[simp] theorem balanced_creation (fields : List Field) : Balanced (s.creation fields) := by
  intro depth
  simp [creation]

/-- Every action is balanced. Those that are laid out as other parts rest on the lemmas of those parts; in all
others the braces are counted. -/
@[simp] theorem balanced_action (fields : List Field) (a : Action) : Balanced (s.action fields a) := by
  intro depth
  cases a with
  | createInstance => exact s.balanced_creation fields depth
  | routeFailure r => exact s.balanced_routeFailure r depth
  | proceed k => exact s.balanced_continuation "self" k depth
  | route r => exact s.balanced_route r depth
  | decide approved rejected => simp [action]
  | startPaths fork commands => exact balanced_map (fun c _ => s.balanced_send "self" c) depth
  | resumeFailedStep targets =>
    have arms : Balanced (targets.flatMap fun t =>
        [.block s!"{Text.quoted t.step} =>", s.send "self" t.command, .closing ""]) :=
      balanced_flatMap fun t _ => balanced_block (s.balanced_send "self" t.command) _ _
    simp [action, arms]
  | _ => rfl

/-- In creating an instance, all actions but two are left out. -/
@[simp] theorem balanced_startAction (fields : List Field) (a : Action) :
    Balanced (s.startAction fields a) := by
  cases a with
  | createInstance => exact s.balanced_creation fields
  | proceed k => exact s.balanced_continuation "process" k
  | _ => exact balanced_nil

/-- A function closes its body, whatever the actions in it lay. -/
@[simp] theorem balanced_transition (fields : List Field) (x : Transition) :
    Balanced (s.transition fields x) := by
  intro depth
  simp [transition]

/-- So does the function that creates an instance. -/
@[simp] theorem balanced_startFactory (fields : List Field) (start : Transition) :
    Balanced (s.startFactory fields start) := by
  intro depth
  simp [startFactory]

/-- The opening section of a text is balanced. -/
@[simp] theorem balanced_header (t : Table) : Balanced (s.header t) := by
  intro depth
  simp [header]

/-- The type of phases is balanced: a line for each phase between its braces. -/
@[simp] theorem balanced_phaseType (t : Table) : Balanced (s.phaseType t) := by
  intro depth
  simp [phaseType]

/-- The type of one message is balanced. -/
@[simp] theorem balanced_messageStruct (m : MessageEntry) : Balanced (s.messageStruct m) := by
  intro depth
  simp [messageStruct]

/-- The types of messages are balanced, and so is the type that joins them. -/
@[simp] theorem balanced_messageTypes (t : Table) : Balanced (s.messageTypes t) := by
  intro depth
  simp [messageTypes]

@[simp] theorem balanced_processStruct (t : Table) : Balanced (s.processStruct t) := by
  intro depth
  simp [processStruct]

/-- A check of a loop is balanced. -/
@[simp] theorem balanced_exitCheck (c : ExitCheck) : Balanced (s.exitCheck c) := by
  intro depth
  simp [exitCheck]

/-- The dispatcher is balanced: one arm for each message that an instance consumes. -/
@[simp] theorem balanced_dispatcher (t : Table) : Balanced (s.dispatcher t) := by
  intro depth
  simp [dispatcher]

/-- The fallback for messages without an instance is balanced. -/
@[simp] theorem balanced_notFound (t : Table) : Balanced (s.notFound t) := by
  intro depth
  simp [notFound]

/-- The implementation of a process is balanced, since all of its functions are. -/
theorem balanced_processImpl (t : Table) : Balanced (s.processImpl t) := by
  intro depth
  simp [processImpl]

/-- The sections of a source text. -/
def sections (t : Table) : List (List Piece) :=
  [s.header t, s.phaseType t, s.messageTypes t, s.processStruct t, s.processImpl t]

/-- One after the other, the sections are the whole text. -/
theorem flatten_sections (t : Table) : (s.sections t).flatten = s.pieces t := by
  simp [sections, pieces]

/-- Every section is balanced by itself. -/
theorem balanced_of_mem_sections {t : Table} {part : List Piece} (h : part ∈ s.sections t) : Balanced part := by
  simp only [sections, List.mem_cons, List.not_mem_nil, or_false] at h
  rcases h with rfl | rfl | rfl | rfl | rfl
  · exact s.balanced_header t
  · exact s.balanced_phaseType t
  · exact s.balanced_messageTypes t
  · exact s.balanced_processStruct t
  · exact s.balanced_processImpl t

/-- So is the whole text. -/
theorem balanced_pieces (t : Table) : Balanced (s.pieces t) := by
  rw [← s.flatten_sections, ← List.flatMap_id]
  exact balanced_flatMap fun _ => s.balanced_of_mem_sections

end Style

/-- Rendering an action, a continuation, a transition or a section, whatever stands in it, brings a writer back to
the depth it had, with no brace closed at depth zero. So the whole text ends at depth zero, and its sections are
written one by one, each from depth zero. -/
theorem render_neutral (settings : Settings) (t : Table) :
    (∀ s : Style, (∀ receiver k, Neutral (s.continuation receiver k))
      ∧ (∀ fields a, Neutral (s.action fields a) ∧ Neutral (s.startAction fields a))
      ∧ (∀ fields x, Neutral (s.transition fields x) ∧ Neutral (s.startFactory fields x))
      ∧ (∀ m, Neutral (s.messageStruct m)) ∧ (∀ c, Neutral (s.exitCheck c))
      ∧ Neutral (s.dispatcher t) ∧ Neutral (s.notFound t)
      ∧ Neutral (s.header t) ∧ Neutral (s.phaseType t) ∧ Neutral (s.messageTypes t)
      ∧ Neutral (s.processStruct t) ∧ Neutral (s.processImpl t))
    ∧ depthAfter? 0 ((Style.of settings t).pieces t) = some 0
    ∧ render settings t = String.join (((Style.of settings t).sections t).map (write settings.indentWidth)) := by
  refine ⟨fun s => ?_, (Style.of settings t).balanced_pieces t 0, ?_⟩
  · simp only [neutral_iff]
    exact ⟨s.balanced_continuation, fun fields a => ⟨s.balanced_action fields a, s.balanced_startAction fields a⟩,
      fun fields x => ⟨s.balanced_transition fields x, s.balanced_startFactory fields x⟩,
      s.balanced_messageStruct, s.balanced_exitCheck, s.balanced_dispatcher t, s.balanced_notFound t,
      s.balanced_header t, s.balanced_phaseType t, s.balanced_messageTypes t, s.balanced_processStruct t,
      s.balanced_processImpl t⟩
  · rw [render, ← Style.flatten_sections]
    exact write_flatten settings.indentWidth fun _ => (Style.of settings t).balanced_of_mem_sections

end Workflow.Source
