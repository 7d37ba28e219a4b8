import Workflow.Proofs.Definition.RoundTrip
import Workflow.Table.Codec

/-!
Tables are read back from their values, and with them both formats in which a process is kept.

Every part of a table is written with all its fields, an absent option as null, and read back from that.
A continuation is read along the exits of its loops.
-/

set_option autoImplicit false

namespace Workflow

open Value

/-- What a field holds is read back: the counter by its payload, everything else by its name. -/
@[simp] theorem FieldKind.ofValue?_toValue (k : FieldKind) : FieldKind.ofValue? k.toValue = some k := by
  cases k with
  | iterationCounter loopPath => simp [ofValue?, toValue]
  | _ => rfl

@[simp] theorem Field.ofValue?_toValue (f : Field) : Field.ofValue? f.toValue = some f := by
  simp [ofValue?, toValue]

@[simp] theorem ExitCheck.ofValue?_toValue (c : ExitCheck) : ExitCheck.ofValue? c.toValue = some c := by
  simp [ofValue?, toValue]

/-- Each kind of message has a name of its own. -/
@[simp] theorem MessageKind.ofValue?_toValue (k : MessageKind) :
    MessageKind.ofValue? k.toValue = some k := by
  cases k <;> rfl

@[simp] theorem MessageEntry.ofValue?_toValue (m : MessageEntry) :
    MessageEntry.ofValue? m.toValue = some m := by
  simp [ofValue?, toValue]

/-- A path of a fork is read back with its phases and messages in order. -/
@[simp] theorem PathLayout.ofValue?_toValue (p : PathLayout) :
    PathLayout.ofValue? p.toValue = some p := by
  simp [ofValue?, toValue]

/-- A fork is read back with its paths in order. -/
@[simp] theorem ForkLayout.ofValue?_toValue (f : ForkLayout) :
    ForkLayout.ofValue? f.toValue = some f := by
  simp [ofValue?, toValue]

/-- Where a path reports is read back, numbers of any size included. -/
@[simp] theorem JoinTarget.ofValue?_toValue (j : JoinTarget) :
    JoinTarget.ofValue? j.toValue = some j := by
  simp [ofValue?, toValue]

@[simp] theorem ApprovalRequest.ofValue?_toValue (r : ApprovalRequest) :
    ApprovalRequest.ofValue? r.toValue = some r := by
  simp [ofValue?, toValue]

/-- The control of a loop is read back whatever exit is written beside it. -/
theorem LoopControl.ofFields?_toFields (c : LoopControl) (exit : Value) :
    LoopControl.ofFields? (c.toFields exit) = some c := by
  simp [ofFields?, toFields]

namespace Continuation

/-- A loop is read by its control and by whatever its exit is read as. -/
theorem ofValue?_loop (c : LoopControl) (exit : Value) :
    ofValue? (tagged "Loop" (.object (c.toFields exit))) = (ofValue? exit).map (.loop c) := by
  rw [tagged, ofValue?, if_pos rfl]
  split
  -- The exit stands among the fields of the control, so it is not missing.
  next found => simp [LoopControl.toFields, Keyed.get?] at found
  next found =>
    simp [LoopControl.toFields, Keyed.get?] at found
    rw [LoopControl.ofFields?_toFields, found, Option.bind_some]

/-- Every other alternative holds no continuation. -/
theorem ofValue?_tagged {name : String} (other : name ≠ "Loop") (payload : Value) :
    ofValue? (tagged name payload) = simpleOfValue? (tagged name payload) := by
  rw [tagged, ofValue?.eq_def]
  cases payload <;> simp [other]

/-- A bare name is no loop either. -/
theorem ofValue?_bare (name : String) : ofValue? (bare name) = simpleOfValue? (bare name) := by
  rw [bare, ofValue?.eq_def]

/-- A continuation is read back at any depth, by induction along the exits of its loops. -/
@[simp] theorem ofValue?_toValue (k : Continuation) : ofValue? k.toValue = some k := by
  induction k with
  | send command => simp [toValue, ofValue?_tagged, simpleOfValue?]
  | complete => simp [toValue, ofValue?_bare, simpleOfValue?]
  | fail => simp [toValue, ofValue?_bare, simpleOfValue?]
  | requestApproval request => simp [toValue, ofValue?_tagged, simpleOfValue?]
  | loop control exit ih => rw [toValue, ofValue?_loop, ih, Option.map_some]

/-- No continuation is written as null, so none is taken for a missing fallback. -/
theorem toValue_ne_null (k : Continuation) : k.toValue ≠ .null := by
  cases k <;> nofun

end Continuation

@[simp] theorem ValidationGuard.ofValue?_toValue (g : ValidationGuard) :
    ValidationGuard.ofValue? g.toValue = some g := by
  simp [ofValue?, toValue]

@[simp] theorem ForkFailure.ofValue?_toValue (f : ForkFailure) :
    ForkFailure.ofValue? f.toValue = some f := by
  simp [ofValue?, toValue]

/-- A fork's part in a failure is never written as null. -/
theorem ForkFailure.toValue_ne_null (f : ForkFailure) : f.toValue ≠ .null := nofun

/-- A failure route is read back; null is what was written for no handler and for no fork. -/
@[simp] theorem FailureRoute.ofValue?_toValue (r : FailureRoute) :
    FailureRoute.ofValue? r.toValue = some r := by
  simp [ofValue?, toValue, optional?_getD, ForkFailure.toValue_ne_null]

@[simp] theorem RouteKey.ofValue?_toValue (k : RouteKey) : RouteKey.ofValue? k.toValue = some k := by
  simp [ofValue?, toValue]

/-- An arm is read back with its target. -/
@[simp] theorem RouteArm.ofValue?_toValue (a : RouteArm) : RouteArm.ofValue? a.toValue = some a := by
  simp [ofValue?, toValue]

/-- A route is read back, with or without a fallback. -/
@[simp] theorem Route.ofValue?_toValue (r : Route) : Route.ofValue? r.toValue = some r := by
  simp [ofValue?, toValue, optional?_getD, Continuation.toValue_ne_null]

@[simp] theorem ResumeTarget.ofValue?_toValue (t : ResumeTarget) :
    ResumeTarget.ofValue? t.toValue = some t := by
  simp [ofValue?, toValue]

namespace Action

/-- An action with a payload is none of the actions without. -/
theorem ofValue?_tagged {name : String} (absent : Keyed.get? name bareNames = none)
    (payload : Value) : ofValue? (tagged name payload) = ofPayload? name payload := by
  simp [ofValue?, oneOf?_tagged absent]

/-- An action without payload is read by its name. -/
theorem ofValue?_bare {name : String} {a : Action} (found : Keyed.get? name bareNames = some a) :
    ofValue? (bare name) = some a := by
  simp [ofValue?, found]

/-- An action is read back: by its name alone, or else by its name and what it holds. -/
@[simp] theorem ofValue?_toValue (a : Action) : ofValue? a.toValue = some a := by
  cases a with
  | createInstance => exact ofValue?_bare rfl
  | applyUpdate => exact ofValue?_bare rfl
  | recordPendingApproval => exact ofValue?_bare rfl
  | clearPendingApproval => exact ofValue?_bare rfl
  | recordDecision => exact ofValue?_bare rfl
  | captureFailure => exact ofValue?_bare rfl
  | _ =>
    -- No action with a payload shares its name with one without.
    rw [toValue, ofValue?_tagged rfl]
    simp [ofPayload?]

end Action

/-- Each kind of transition has a name of its own. -/
@[simp] theorem TransitionKind.ofValue?_toValue (k : TransitionKind) :
    TransitionKind.ofValue? k.toValue = some k := by
  cases k <;> rfl

/-- A transition is read back with its actions in order. -/
@[simp] theorem Transition.ofValue?_toValue (t : Transition) :
    Transition.ofValue? t.toValue = some t := by
  simp [ofValue?, toValue]

@[simp] theorem Fallback.ofValue?_toValue (f : Fallback) : Fallback.ofValue? f.toValue = some f := by
  simp [ofValue?, toValue]

/-- A table is read back from its value. -/
@[simp] theorem Table.ofValue?_toValue (t : Table) : ofValue? t.toValue = some t := by
  simp [ofValue?, toValue]

/-- Both formats in which a process is kept lose nothing: every definition and every table, valid or
not, is read back from its value. -/
theorem definition_and_table_read_back (d : Definition) (t : Table) :
    Definition.ofValue? d.toValue = some d ∧ Table.ofValue? t.toValue = some t :=
  ⟨d.ofValue?_toValue, t.ofValue?_toValue⟩

end Workflow
