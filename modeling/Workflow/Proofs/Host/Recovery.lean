import Workflow.Proofs.Host.Run

/-!
What a run says about a recovery that starts the failed step again.

A handler that is not terminal captures a failure when it is triggered, and at the end of its steps
starts a step again. An instance holds one captured failure at a time. This module reads captures and
restarts off the deliveries of a run, message by message, and says which moves they are.
-/

set_option autoImplicit false

namespace Workflow

/-! ## Captures and restarts -/

/-- What a delivery does for a handler. -/
inductive RecoveryEvent where
  /-- Its trigger captures the failure of a step. -/
  | captured (step : String)
  /-- The completion of its last step starts a step again. -/
  | restarted (step : String)
  deriving DecidableEq, Repr

namespace RecoveryEvent

/-- The steps whose failures are captured. -/
def captures (events : List RecoveryEvent) : List String :=
  events.filterMap fun
    | .captured step => some step
    | .restarted _ => none

/-- The steps that are started again. -/
def restarts (events : List RecoveryEvent) : List String :=
  events.filterMap fun
    | .captured _ => none
    | .restarted step => some step

/-- No failure is captured while a recovery is under way: whatever was captured before has been
started again. -/
def Apart (events : List RecoveryEvent) : Prop :=
  ∀ before step after, events = before ++ .captured step :: after →
    (captures before).length = (restarts before).length

variable (events : List RecoveryEvent) (step : String)

@[simp] theorem captures_nil : captures [] = [] := rfl

@[simp] theorem restarts_nil : restarts [] = [] := rfl

@[simp] theorem captures_append (more : List RecoveryEvent) :
    captures (events ++ more) = captures events ++ captures more :=
  List.filterMap_append

@[simp] theorem restarts_append (more : List RecoveryEvent) :
    restarts (events ++ more) = restarts events ++ restarts more :=
  List.filterMap_append

@[simp] theorem captures_captured : captures [.captured step] = [step] := rfl

@[simp] theorem restarts_captured : restarts [.captured step] = [] := rfl

@[simp] theorem captures_restarted : captures [.restarted step] = [] := rfl

@[simp] theorem restarts_restarted : restarts [.restarted step] = [step] := rfl

variable {events} {step}

theorem Apart.of_append {more : List RecoveryEvent} (apart : Apart (events ++ more)) :
    Apart events := by
  intro before step after split
  exact apart before step (after ++ more) (by rw [split]; simp)

theorem apart_append_iff {e : RecoveryEvent} : Apart (events ++ [e]) ↔ Apart events
    ∧ ∀ step, e = .captured step → (captures events).length = (restarts events).length := by
  constructor
  · intro apart
    refine ⟨apart.of_append, ?_⟩
    rintro step rfl
    exact apart events step [] rfl
  · rintro ⟨apart, even⟩ before step after split
    rcases List.eq_nil_or_concat after with rfl | ⟨after', last, rfl⟩
    · obtain ⟨rfl, same⟩ := List.append_inj' split rfl
      exact even step (List.cons.inj same).1
    · have grouped : events ++ [e] = (before ++ .captured step :: after') ++ [last] := by
        simpa using split
      obtain ⟨rfl, _⟩ := List.append_inj' grouped rfl
      exact apart before step after' rfl

theorem apart_nil : Apart [] := by
  intro before step after split
  cases before <;> cases split

end RecoveryEvent

/-- The completion of the last recovery step. -/
def Handler.lastCompletion? (g : Handler) : Option String :=
  g.steps.getLast?.map fun x => Name.completedEvent (Name.recoveryPhase g.id x.identifier)

namespace Host

/-- The failure that a delivery captures for a handler: the one its instance holds after the
trigger. -/
def captured? (h : Host) (g : Handler) (e : Delivery) : Option String :=
  if e.message.name = Name.failureTrigger g.id then
    (Store.get? e.message.instanceId (h.deliver e.before e.message).running).bind fun i =>
      i.failureContext.map FailureContext.failedStep
  else none

/-- The messages that a delivery queues for its instance. -/
def queued (h : Host) (e : Delivery) : List Message :=
  ((h.deliver e.before e.message).only e.message.instanceId).queue.drop
    (e.before.only e.message.instanceId).queue.length

/-- The steps that a delivery starts again for a handler, by their phases. -/
def restarted (h : Host) (d : Definition) (g : Handler) (e : Delivery) : List String :=
  if g.lastCompletion? = some e.message.name then
    (h.queued e).filterMap fun m => (d.sites.find? (·.startCommand = m.name)).map Site.phase
  else []

/-- What a delivery does for a handler. -/
def recoveryEvents (h : Host) (d : Definition) (g : Handler) (e : Delivery) : List RecoveryEvent :=
  ((h.captured? g e).toList.map .captured) ++ (h.restarted d g e).map .restarted

/-- What the deliveries to an instance do for a handler, in order. -/
def recovery (h : Host) (d : Definition) (g : Handler) (id : Key) (past : List Delivery) :
    List RecoveryEvent :=
  (past.filter fun e => e.message.instanceId = id).flatMap (h.recoveryEvents d g)

end Host

/-! ## Which tokens they are -/

namespace Compiled

variable {d : Definition} {h : Host} (c : Compiled d h.table) {id : Key} {tok : Token} {g : Handler}

include c

theorem eq_trigger_of_name (here : tok.In d) (declared : g ∈ d.handlers)
    (name : (tok.message d id).name = Name.failureTrigger g.id) :
    ∃ context, tok = .trigger g context := by
  have kind : tok.kind = .failureTrigger := by
    have own := c.kindOf?_message here id
    have there : (Token.trigger g ⟨"", "", "", none⟩).In d := declared
    have known : h.table.kindOf? (Name.failureTrigger g.id) = some .failureTrigger :=
      c.kindOf?_message there id
    rw [name, known] at own
    exact (Option.some.inj own).symm
  cases tok with
  | trigger g' context =>
    have same := c.entry_eq_of_message (c.wellFormed.mem_plan_iff.mpr (.handler here))
      (c.wellFormed.mem_plan_iff.mpr (.handler declared))
      (m := ⟨Name.failureTrigger g'.id, .failureTrigger, Text.sanitize g'.id⟩)
      (by simp [Entry.messages]) (List.mem_singleton_self _) name
    cases same
    exact ⟨context, rfl⟩
  | _ => cases kind

omit c in
/-- A site of a recovery is at one position of one recovery. -/
theorem eq_recovery_of_site {x : Spot} {k : Nat} {y : Step}
    (same : (Line.recovery g).siteAt d k y = x.site d) : x.line = .recovery g ∧ x.index = k := by
  obtain ⟨line, index, step⟩ := x
  rcases Line.siteAt_eq_or d line index step with eq | eq <;>
  · rw [Spot.site, eq] at same
    have ending := congrArg Site.ending same
    have position := congrArg Site.index same
    cases line <;> cases ending
    exact ⟨rfl, position.symm⟩

theorem eq_done_of_last (here : tok.In d) (declared : g ∈ d.handlers)
    (last : g.lastCompletion? = some (tok.message d id).name) :
    ∃ x update failure, tok = .done x update failure ∧ x.line = .recovery g
      ∧ x.index + 1 = g.steps.length := by
  obtain ⟨y, hy, name⟩ := Option.map_eq_some_iff.mp last
  have filled := List.length_pos_iff.mpr (c.wellFormed.handler_steps g declared)
  have there : (Spot.mk (.recovery g) (g.steps.length - 1) y).In d := by
    refine ⟨declared, ?_⟩
    rw [Line.steps, ← List.getLast?_eq_getElem?, hy]
  obtain ⟨x, update, failure, rfl, same⟩ := c.eq_done_of_name here there name
  obtain ⟨line, index⟩ := eq_recovery_of_site same
  have index : x.index = g.steps.length - 1 := index
  exact ⟨x, update, failure, rfl, line, by omega⟩

omit c in
theorem lastCompletion?_eq {x : Spot} (here : x.In d) (line : x.line = .recovery g)
    (last : x.index + 1 = g.steps.length) :
    g.lastCompletion? = some (Name.completedEvent (x.stem d)) := by
  have inside := here.2
  rw [line, Line.steps] at inside
  have final : g.steps.getLast? = some x.step := by
    rw [List.getLast?_eq_getElem?, ← inside]
    congr 1
    omega
  rw [Handler.lastCompletion?, final, Option.map_some, Spot.stem, line]
  rfl

/-! ## Which moves they are -/

section Moves

variable {s s' : Session} {toks left : List Token}

omit c in
theorem only_queue (tracked : Tracked d h id s toks) : (s.only id).queue = s.queue := by
  rw [Session.only, List.filter_eq_self, tracked.queue]
  intro m hm
  obtain ⟨tok, _, rfl⟩ := List.mem_map.mp hm
  simp

omit c in
/-- What a delivery queues is what it adds to the tokens that wait. -/
theorem queued_eq (tracked : Tracked d h id s toks) (after : Tracked d h id s' left)
    (result : h.deliver s (tok.message d id) = s') :
    h.queued ⟨s, tok.message d id⟩ = (left.drop toks.length).map (Token.message d id) := by
  rw [Host.queued, Token.message_instanceId, result, only_queue after, only_queue tracked, after.queue,
    tracked.queue, List.length_map, List.map_drop]

/-- Most deliveries do nothing for a handler. -/
theorem recoveryEvents_other (here : tok.In d) (declared : g ∈ d.handlers)
    (untriggered : ∀ context, tok ≠ .trigger g context)
    (unended : ∀ x update failure, tok = .done x update failure → x.line = .recovery g →
      x.index + 1 ≠ g.steps.length) :
    h.recoveryEvents d g ⟨s, tok.message d id⟩ = [] := by
  have captured : h.captured? g ⟨s, tok.message d id⟩ = none := by
    refine if_neg fun name => ?_
    obtain ⟨context, same⟩ := c.eq_trigger_of_name here declared name
    exact untriggered context same
  have restarted : h.restarted d g ⟨s, tok.message d id⟩ = [] := by
    refine if_neg fun last => ?_
    obtain ⟨x, update, failure, same, line, index⟩ := c.eq_done_of_last here declared last
    exact unended x update failure same line index
  rw [Host.recoveryEvents, captured, restarted]
  rfl

/-- A completion elsewhere does nothing for a handler. -/
theorem recoveryEvents_elsewhere {x : Spot} {update : Value} {failure : Option StepFailure}
    (here : (Token.done x update failure).In d) (declared : g ∈ d.handlers)
    (off : x.line ≠ .recovery g) :
    h.recoveryEvents d g ⟨s, (Token.done x update failure).message d id⟩ = [] := by
  refine c.recoveryEvents_other here declared (by simp) ?_
  intro x' update' failure' same line
  cases same
  exact absurd line off

/-- Neither does one inside a line. -/
theorem recoveryEvents_onward {x y : Spot} {update : Value} {failure : Option StepFailure}
    (here : (Token.done x update failure).In d) (declared : g ∈ d.handlers) (there : y.In d)
    (same : y.line = x.line) (after : y.index = x.index + 1) :
    h.recoveryEvents d g ⟨s, (Token.done x update failure).message d id⟩ = [] := by
  refine c.recoveryEvents_other here declared (by simp) ?_
  intro x' update' failure' eq line
  cases eq
  have inside := (List.getElem?_eq_some_iff.mp there.2).1
  rw [same, line, Line.steps] at inside
  omega

omit c in
/-- Neither does a delivery that finds no instance. -/
theorem recoveryEvents_lost (tracked : Tracked d h id s toks) (after : Tracked d h id s' toks)
    (gone : Store.get? id s'.running = none) (result : h.deliver s (tok.message d id) = s') :
    h.recoveryEvents d g ⟨s, tok.message d id⟩ = [] := by
  have captured : h.captured? g ⟨s, tok.message d id⟩ = none := by
    simp [Host.captured?, result, gone]
  have restarted : h.restarted d g ⟨s, tok.message d id⟩ = [] := by
    simp [Host.restarted, queued_eq tracked after result]
  rw [Host.recoveryEvents, captured, restarted]
  rfl

/-- The trigger captures its failure. -/
theorem recoveryEvents_capture {context : FailureContext} (declared : g ∈ d.handlers) {i : Instance}
    (stored : Store.get? id s'.running = some i) (held : i.failureContext = some context)
    (result : h.deliver s ((Token.trigger g context).message d id) = s') :
    h.recoveryEvents d g ⟨s, (Token.trigger g context).message d id⟩
      = [.captured context.failedStep] := by
  have here : (Token.trigger g context).In d := declared
  have captured : h.captured? g ⟨s, (Token.trigger g context).message d id⟩
      = some context.failedStep := by
    refine (if_pos rfl).trans ?_
    rw [Token.message_instanceId, result, stored]
    simp [held]
  have restarted : h.restarted d g ⟨s, (Token.trigger g context).message d id⟩ = [] := by
    refine if_neg fun last => ?_
    obtain ⟨x, update, failure, same, _⟩ := c.eq_done_of_last here declared last
    cases same
  rw [Host.recoveryEvents, captured, restarted]
  rfl

/-- The end of a recovery starts a step again. -/
theorem recoveryEvents_resume {x y : Spot} {update : Value} {failure : Option StepFailure}
    (here : (Token.done x update failure).In d) (line : x.line = .recovery g)
    (last : x.index + 1 = g.steps.length) (there : y.In d) (tracked : Tracked d h id s toks)
    (after : Tracked d h id s' (toks ++ [.start y]))
    (result : h.deliver s ((Token.done x update failure).message d id) = s') :
    h.recoveryEvents d g ⟨s, (Token.done x update failure).message d id⟩
      = [.restarted (y.phase d)] := by
  have declared : g ∈ d.handlers := Spot.recovery_mem here line
  have captured : h.captured? g ⟨s, (Token.done x update failure).message d id⟩ = none := by
    refine if_neg fun name => ?_
    obtain ⟨context, same⟩ := c.eq_trigger_of_name here declared name
    cases same
  -- the command is that of one site
  have found : (d.sites.find? (·.startCommand = ((Token.start y).message d id).name)).map Site.phase
      = some (y.phase d) := by
    have mem := there.site_mem c.wellFormed
    have named : (y.site d).startCommand = ((Token.start y).message d id).name := by
      rw [Site.startCommand, Spot.site_stem]
      rfl
    cases search : d.sites.find? (·.startCommand = ((Token.start y).message d id).name) with
    | none => simpa [named] using List.find?_eq_none.mp search _ mem
    | some z =>
      have same : z.startCommand = (y.site d).startCommand := by
        simpa [named] using List.find?_some search
      have one := c.site_eq_of_stem (List.mem_of_find?_eq_some search) mem
        (by simpa [Site.startCommand, Name.startCommand] using same)
      rw [Option.map_some, one, Spot.site_phase]
  have restarted : h.restarted d g ⟨s, (Token.done x update failure).message d id⟩
      = [y.phase d] := by
    refine (if_pos (lastCompletion?_eq here line last)).trans ?_
    rw [queued_eq tracked after result, List.drop_left, List.map_singleton, List.filterMap_cons, found]
    rfl
  rw [Host.recoveryEvents, captured, restarted]
  rfl

end Moves

end Compiled

/-! ## What is read off runs is read off instances -/

theorem Session.only_only (s : Session) (id : Key) : (s.only id).only id = s.only id := by
  simp [only, List.filter_filter]

/-- What a delivery does for a handler it does to one instance. -/
theorem Host.recoveryEvents_only {d : Definition} {h : Host} {g : Handler} {e : Delivery}
    (home : AtHome e.before) :
    h.recoveryEvents d g (e.only e.message.instanceId) = h.recoveryEvents d g e := by
  have result : h.deliver (e.before.only e.message.instanceId) e.message
      = (h.deliver e.before e.message).only e.message.instanceId :=
    (Host.only_deliver_self home rfl).symm
  have captured : h.captured? g (e.only e.message.instanceId) = h.captured? g e := by
    simp only [Host.captured?, Delivery.only, result, Session.get?_running_only]
  have queued : h.queued (e.only e.message.instanceId) = h.queued e := by
    simp only [Host.queued, Delivery.only, result, Session.only_only]
  have restarted : h.restarted d g (e.only e.message.instanceId) = h.restarted d g e := by
    simp only [Host.restarted, queued]
    rfl
  rw [Host.recoveryEvents, captured, restarted]
  rfl

theorem Host.recovery_eq {d : Definition} {h : Host} {g : Handler} {past : List Delivery}
    (home : ∀ e ∈ past, AtHome e.before) (id : Key) :
    h.recovery d g id past = (Delivery.own id past).flatMap (h.recoveryEvents d g) := by
  rw [Host.recovery, Delivery.own, List.flatMap_map]
  apply List.flatMap_congr
  intro e he
  obtain ⟨member, own⟩ := List.mem_filter.mp he
  rw [← Host.recoveryEvents_only (home e member), of_decide_eq_true own]

end Workflow
