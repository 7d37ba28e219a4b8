import Workflow.Definition
import Workflow.Value.Decoder

/-!
Definitions as values. Writing leaves out absent options and empty attachment lists; reading takes a
missing option or attachment list as absent or empty, refuses null for a list, and ignores fields it
does not know. An approval's escalation nests to any depth, and so do the values.
-/

set_option autoImplicit false

namespace Workflow

open Value

/-- A guard as a value: the condition that is asked, and what is said where it does not hold. -/
def Guard.toValue (g : Guard) : Value :=
  .object [("condition_id", .string g.conditionId), ("message", .string g.message)]

/-- A guard from a value. A guard without its condition or without its message is refused. -/
def Guard.ofValue? (v : Value) : Option Guard := do
  let fields ← v.asFields?
  let conditionId ← required? asString? "condition_id" fields
  let message ← required? asString? "message" fields
  return { conditionId, message }

/-- A step as a value. Only a step that occurs under a name of its own says so, and only a guarded one
has a validation. -/
def Step.toValue (s : Step) : Value :=
  .object (present "instance_name" (s.occurrence.map .string)
    ++ [("name", .string s.name)]
    ++ present "validation" (s.guard.map Guard.toValue)
    ++ [("work_type", .string s.workType)])

/-- A step from a value. Name and type of work must be there; without a validation the step is not
guarded. -/
def Step.ofValue? (v : Value) : Option Step := do
  let fields ← v.asFields?
  let name ← required? asString? "name" fields
  let workType ← required? asString? "work_type" fields
  let occurrence ← optional? asString? "instance_name" fields
  let guard ← optional? Guard.ofValue? "validation" fields
  return { name, workType, occurrence, guard }

/-- A loop as a value. Where the loop has no continuation or no parent, there is no field for it. -/
def Loop.toValue (l : Loop) : Value :=
  .object ([("condition_id", .string l.conditionId)]
    ++ present "continuation_step" (l.continuation.map .string)
    ++ [("first_body_step", .string l.firstStep), ("last_body_step", .string l.lastStep),
      ("max_iterations", ofUInt32 l.maxIterations), ("name", .string l.name)]
    ++ present "parent_loop" (l.parent.map .string))

/-- A loop from a value. A bound that does not fit 32 bits is refused, and so is a negative one. -/
def Loop.ofValue? (v : Value) : Option Loop := do
  let fields ← v.asFields?
  let name ← required? asString? "name" fields
  let conditionId ← required? asString? "condition_id" fields
  let maxIterations ← required? asUInt32? "max_iterations" fields
  let firstStep ← required? asString? "first_body_step" fields
  let lastStep ← required? asString? "last_body_step" fields
  let continuation ← optional? asString? "continuation_step" fields
  let parent ← optional? asString? "parent_loop" fields
  return { name, conditionId, maxIterations, firstStep, lastStep, continuation, parent }

/-- The kind of a discriminator as its bare name. -/
def DiscriminatorKind.toValue : DiscriminatorKind → Value
  | .enumerated => bare "Enumerated"
  | .computed => bare "Computed"

/-- The kind of a discriminator by its name. -/
def DiscriminatorKind.ofValue? : Value → Option DiscriminatorKind :=
  oneOf? [("Enumerated", .enumerated), ("Computed", .computed)]

/-- A discriminator as a value. A domain that is not known is left out. -/
def Discriminator.toValue (d : Discriminator) : Value :=
  .object (nonempty "domain" (d.domain.map .string)
    ++ [("field_path", .string d.fieldPath), ("kind", d.kind.toValue),
      ("type_name", .string d.typeName)])

/-- A discriminator from a value. Without a domain its values are not known, and the cases need not cover
them. -/
def Discriminator.ofValue? (v : Value) : Option Discriminator := do
  let fields ← v.asFields?
  let fieldPath ← required? asString? "field_path" fields
  let typeName ← required? asString? "type_name" fields
  let kind ← required? DiscriminatorKind.ofValue? "kind" fields
  let domain ← listed? asString? "domain" fields
  return { fieldPath, typeName, kind, domain }

/-- What selects a case: a literal with its text, or the bare `Otherwise`. -/
def Selector.toValue : Selector → Value
  | .literal value => tagged "Literal" (.string value)
  | .otherwise => bare "Otherwise"

/-- A selector from a value. `Otherwise` is also read where it is given null as payload, but with no
other payload. -/
def Selector.ofValue? (v : Value) : Option Selector := do
  let (name, payload) ← v.variant?
  if name = "Literal" then payload.asString?.map .literal
  else if name = "Otherwise" ∧ payload = .null then some .otherwise
  else none

/-- A case as a value, with all of its fields, so also where it has no steps. -/
def Case.toValue (c : Case) : Value :=
  .object [("is_terminal", .bool c.isTerminal), ("path_prefix", .string c.label),
    ("steps", .array (c.steps.map Step.toValue)), ("value", c.selector.toValue)]

/-- A case from a value. Nothing has a default: a case must say that it has no steps, and whether it
ends the process. -/
def Case.ofValue? (v : Value) : Option Case := do
  let fields ← v.asFields?
  let selector ← required? Selector.ofValue? "value" fields
  let label ← required? asString? "path_prefix" fields
  let steps ← required? (asList? Step.ofValue?) "steps" fields
  let isTerminal ← required? asBool? "is_terminal" fields
  return { selector, label, steps, isTerminal }

/-- A branch as a value. Without a step to rejoin at there is no field for one, and outside of loops none for
their names. -/
def Branch.toValue (b : Branch) : Value :=
  .object ([("cases", .array (b.cases.map Case.toValue)),
      ("discriminator", b.discriminator.toValue), ("id", .string b.id)]
    ++ present "loop_prefix" (b.loopScope.map .string)
    ++ [("previous_step", .string b.previousStep)]
    ++ present "rejoin_step" (b.rejoinStep.map .string))

/-- A branch from a value. The cases must be listed, in the order in which they are matched. -/
def Branch.ofValue? (v : Value) : Option Branch := do
  let fields ← v.asFields?
  let id ← required? asString? "id" fields
  let previousStep ← required? asString? "previous_step" fields
  let discriminator ← required? Discriminator.ofValue? "discriminator" fields
  let rejoinStep ← optional? asString? "rejoin_step" fields
  let loopScope ← optional? asString? "loop_prefix" fields
  let cases ← required? (asList? Case.ofValue?) "cases" fields
  return { id, previousStep, discriminator, rejoinStep, loopScope, cases }

/-- The fields of a gate, around those of its escalation. -/
def Gate.toFields (g : Gate) (escalation : Option Value) : List (String × Value) :=
  [("approver_type", .string g.approverType)]
    ++ present "escalation" escalation
    ++ [("name", .string g.name), ("preceding_step", .string g.precedingStep)]
    ++ nonempty "rejection_steps" (g.rejectionSteps.map Step.toValue)

/-- A gate from the fields of its approval, whatever they say about the escalation. The steps that a refusal
runs may be missing: there are none then. -/
def Gate.ofFields? (fields : List (String × Value)) : Option Gate := do
  let name ← required? asString? "name" fields
  let approverType ← required? asString? "approver_type" fields
  let precedingStep ← required? asString? "preceding_step" fields
  let rejectionSteps ← listed? Step.ofValue? "rejection_steps" fields
  return { name, approverType, precedingStep, rejectionSteps }

/-- An approval as a value. What follows a timeout is its escalation: none where the process fails,
otherwise steps or another approval. -/
def Approval.toValue : Approval → Value
  | .failing gate => .object (gate.toFields none)
  | .running gate steps =>
    .object (gate.toFields (some (tagged "Steps" (.array (steps.map Step.toValue)))))
  | .asking gate next => .object (gate.toFields (some (tagged "Approval" next.toValue)))

/-- An approval from a value. It is read along its escalations, each of which is a part of the value of
the one before it. No escalation and null are the same. -/
def Approval.ofValue? (v : Value) : Option Approval :=
  match v with
  | .object fields =>
    (Gate.ofFields? fields).bind fun gate =>
      match _hescalation : Keyed.get? "escalation" fields with
      | none => some (.failing gate)
      | some .null => some (.failing gate)
      | some (.object [(name, payload)]) =>
        if name = "Steps" then (payload.asList? Step.ofValue?).map (.running gate)
        else if name = "Approval" then (Approval.ofValue? payload).map (.asking gate)
        else none
      | some _ => none
  | _ => none
termination_by v
decreasing_by
  have hlt := sizeOf_get?_lt _hescalation
  simp only [Value.object.sizeOf_spec, List.cons.sizeOf_spec, Prod.mk.sizeOf_spec] at *
  omega

/-- One path of a fork. -/
def Fork.pathToValue (steps : List Step) : Value :=
  .object [("steps", .array (steps.map Step.toValue))]

/-- One path of a fork from a value. -/
def Fork.pathOfValue? (v : Value) : Option (List Step) := do
  let fields ← v.asFields?
  required? (asList? Step.ofValue?) "steps" fields

/-- A fork as a value, with its paths in order: the place of a path is its number. -/
def Fork.toValue (f : Fork) : Value :=
  .object [("fail_fast", .bool f.failFast), ("join_step", .string f.joinStep),
    ("paths", .array (f.paths.map Fork.pathToValue)), ("previous_step", .string f.previousStep)]

/-- A fork from a value. That it has two paths at least is for the search for defects to say. -/
def Fork.ofValue? (v : Value) : Option Fork := do
  let fields ← v.asFields?
  let previousStep ← required? asString? "previous_step" fields
  let paths ← required? (asList? Fork.pathOfValue?) "paths" fields
  let failFast ← required? asBool? "fail_fast" fields
  let joinStep ← required? asString? "join_step" fields
  return { previousStep, paths, failFast, joinStep }

/-- What a failure handler is for: the whole process, or one step by its name. -/
def Scope.toValue : Scope → Value
  | .workflow => bare "Workflow"
  | .step trigger => tagged "Step" (.string trigger)

/-- The scope of a failure handler from a value. `Workflow` has no payload but null. -/
def Scope.ofValue? (v : Value) : Option Scope := do
  let (name, payload) ← v.variant?
  if name = "Step" then payload.asString?.map .step
  else if name = "Workflow" ∧ payload = .null then some .workflow
  else none

/-- A failure handler as a value, with all of its fields. -/
def Handler.toValue (h : Handler) : Value :=
  .object [("id", .string h.id), ("is_terminal", .bool h.isTerminal), ("scope", h.scope.toValue),
    ("steps", .array (h.steps.map Step.toValue))]

/-- A failure handler from a value. It must say whether it ends the process or resumes the step that
failed. -/
def Handler.ofValue? (v : Value) : Option Handler := do
  let fields ← v.asFields?
  let id ← required? asString? "id" fields
  let scope ← required? Scope.ofValue? "scope" fields
  let steps ← required? (asList? Step.ofValue?) "steps" fields
  let isTerminal ← required? asBool? "is_terminal" fields
  return { id, scope, steps, isTerminal }

/-- A definition as a value. -/
def Definition.toValue (d : Definition) : Value :=
  .object (nonempty "approvals" (d.approvals.map Approval.toValue)
    ++ nonempty "branches" (d.branches.map Branch.toValue)
    ++ nonempty "failure_handlers" (d.handlers.map Handler.toValue)
    ++ nonempty "forks" (d.forks.map Fork.toValue)
    ++ nonempty "loops" (d.loops.map Loop.toValue)
    ++ [("name", .string d.name)]
    ++ present "state_type" (d.stateType.map .string)
    ++ [("steps", .array (d.steps.map Step.toValue))])

/-- A definition from a value. -/
def Definition.ofValue? (v : Value) : Option Definition := do
  let fields ← v.asFields?
  let name ← required? asString? "name" fields
  let steps ← required? (asList? Step.ofValue?) "steps" fields
  let stateType ← optional? asString? "state_type" fields
  let loops ← listed? Loop.ofValue? "loops" fields
  let branches ← listed? Branch.ofValue? "branches" fields
  let approvals ← listed? Approval.ofValue? "approvals" fields
  let forks ← listed? Fork.ofValue? "forks" fields
  let handlers ← listed? Handler.ofValue? "failure_handlers" fields
  return { name, steps, stateType, loops, branches, approvals, forks, handlers }

end Workflow
