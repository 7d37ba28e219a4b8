import Workflow.Definition.Codec
import Workflow.Proofs.Value.Fields

/-!
Definitions are read back from their values.

Every part of a definition is read back from what is written of it, whether the definition is valid or
not. Parts that hold no part of their own kind are read field by field; an approval is read along its
escalation.
-/

set_option autoImplicit false

namespace Workflow

open Value

/-- A guard is read back. -/
@[simp] theorem Guard.ofValue?_toValue (g : Guard) : Guard.ofValue? g.toValue = some g := by
  simp [ofValue?, toValue]

/-- A guard is never written as null, so it is not taken for a missing one. -/
theorem Guard.toValue_ne_null (g : Guard) : g.toValue ≠ .null := nofun

/-- A step is read back, whether it has an occurrence and a guard or not. -/
@[simp] theorem Step.ofValue?_toValue (s : Step) : Step.ofValue? s.toValue = some s := by
  simp [ofValue?, toValue, optional?_present, Keyed.get?, get?_present_of_ne, Guard.toValue_ne_null]

/-- A loop is read back. Its parent is the last field, so nothing follows it where it is left out. -/
@[simp] theorem Loop.ofValue?_toValue (l : Loop) : Loop.ofValue? l.toValue = some l := by
  simp [ofValue?, toValue, optional?_present, optional?_last, Keyed.get?, get?_last_of_ne]

/-- Each kind of discriminator has a name of its own. -/
@[simp] theorem DiscriminatorKind.ofValue?_toValue (k : DiscriminatorKind) :
    DiscriminatorKind.ofValue? k.toValue = some k := by
  cases k <;> rfl

/-- A discriminator is read back, also one whose domain is left out. -/
@[simp] theorem Discriminator.ofValue?_toValue (x : Discriminator) :
    Discriminator.ofValue? x.toValue = some x := by
  simp [ofValue?, toValue, listed?_nonempty, Keyed.get?]

/-- A selector is read back; a literal may be spelt `Otherwise`. -/
@[simp] theorem Selector.ofValue?_toValue (s : Selector) : Selector.ofValue? s.toValue = some s := by
  cases s <;> simp [ofValue?, toValue]

@[simp] theorem Case.ofValue?_toValue (c : Case) : Case.ofValue? c.toValue = some c := by
  simp [ofValue?, toValue]

/-- A branch is read back with its cases in order. -/
@[simp] theorem Branch.ofValue?_toValue (b : Branch) : Branch.ofValue? b.toValue = some b := by
  simp [ofValue?, toValue, optional?_present, optional?_last, Keyed.get?, get?_last_of_ne]

@[simp] theorem Fork.pathOfValue?_pathToValue (steps : List Step) :
    Fork.pathOfValue? (Fork.pathToValue steps) = some steps := by
  simp [pathOfValue?, pathToValue]

/-- A fork is read back with its paths in order. -/
@[simp] theorem Fork.ofValue?_toValue (f : Fork) : Fork.ofValue? f.toValue = some f := by
  simp [ofValue?, toValue]

/-- The scope of a handler is read back; a trigger may be spelt `Workflow`. -/
@[simp] theorem Scope.ofValue?_toValue (s : Scope) : Scope.ofValue? s.toValue = some s := by
  cases s <;> simp [ofValue?, toValue]

@[simp] theorem Handler.ofValue?_toValue (h : Handler) : Handler.ofValue? h.toValue = some h := by
  simp [ofValue?, toValue]

/-- The gate is read back whatever escalation is written beside it. -/
theorem Gate.ofFields?_toFields (g : Gate) (escalation : Option Value) :
    Gate.ofFields? (g.toFields escalation) = some g := by
  simp [ofFields?, toFields, listed?_last]

/-- Among the fields of an approval, the escalation is what was put there. -/
theorem Gate.get?_escalation (g : Gate) (escalation : Option Value) :
    Keyed.get? "escalation" (g.toFields escalation) = escalation := by
  simp [toFields, get?_cons_of_ne, get?_present, get?_lastList_of_ne]

namespace Approval

/-- Where no escalation is written, a timeout fails the process. -/
theorem ofValue?_failing (g : Gate) :
    ofValue? (.object (g.toFields none)) = some (.failing g) := by
  rw [ofValue?, g.ofFields?_toFields, Option.bind_some]
  split
  next => rfl
  next => rfl
  -- Any other value of the field would have been found there.
  all_goals
    next _ found =>
      rw [g.get?_escalation] at found
      cases found

/-- An alternative of the escalation is read by its name. -/
theorem ofValue?_escalating (g : Gate) (name : String) (payload : Value) :
    ofValue? (.object (g.toFields (some (tagged name payload))))
      = if name = "Steps" then (payload.asList? Step.ofValue?).map (.running g)
        else if name = "Approval" then (ofValue? payload).map (.asking g)
        else none := by
  rw [ofValue?, g.ofFields?_toFields, Option.bind_some]
  split
  next found =>
    rw [g.get?_escalation] at found
    cases found
  next found =>
    rw [g.get?_escalation] at found
    cases found
  next found =>
    rw [g.get?_escalation] at found
    cases found
    rfl
  next _ other found =>
    -- The value is an object with one field, and that was the case before.
    rw [g.get?_escalation] at found
    cases found
    exact absurd rfl (other name payload)

/-- An approval is read back at any depth, by induction along its escalations. -/
@[simp] theorem ofValue?_toValue (a : Approval) : ofValue? a.toValue = some a := by
  induction a with
  | failing gate => rw [toValue, ofValue?_failing]
  | running gate steps => simp [toValue, ofValue?_escalating]
  | asking gate next ih => simp [toValue, ofValue?_escalating, ih]

end Approval

/-- A definition is read back from its value. -/
@[simp] theorem Definition.ofValue?_toValue (d : Definition) : ofValue? d.toValue = some d := by
  simp [ofValue?, toValue, listed?_nonempty, optional?_present, Keyed.get?, get?_nonempty_of_ne, get?_present_of_ne]

end Workflow
