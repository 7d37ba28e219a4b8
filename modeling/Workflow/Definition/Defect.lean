import Workflow.Claim
import Workflow.Definition.Nesting
import Workflow.Text.Blank
import Workflow.Text.Identifier
import Workflow.Text.Quoted

/-!
Defects: everything that can be wrong with a definition, and the search for the first one.

The search goes through the parts in a fixed order (steps, name, main line, loops, branches,
approvals, forks, handlers, conflicts between attachments), so a definition with several defects is
reported by one of them always. A definition is valid when the search finds nothing.
-/

set_option autoImplicit false

namespace Workflow

/-- A reason to refuse a definition. -/
inductive Defect where
  | emptyProcess
  | invalidIdentifier (name : String)
  | duplicateStep (scope step : String)
  | unknownStep (construct step : String)
  | invalidLoopBound (loop : String)
  | invertedLoopBody (loop : String)
  | duplicateLoop (path : String)
  | unknownParentLoop (loop parent : String)
  | ambiguousParentLoop (parent : String)
  | cyclicLoopNesting (loop : String)
  | loopOutsideParent (loop parent : String)
  | overlappingLoops (first second : String)
  | sharedLoopEnd (first second step : String)
  | emptyBranch (branch : String)
  | multipleOtherwise (branch : String)
  | duplicateCaseValue (branch value : String)
  | unknownCaseValue (branch value : String)
  | nonExhaustiveBranch (branch : String) (missing : List String)
  | loopScopeMismatch (branch scope expected : String)
  | duplicateBranch (branch : String)
  | duplicateApproval (approval : String)
  | tooFewForkPaths (step : String)
  | emptyForkPath (step : String) (path : Nat)
  | emptyRecoveryChain (handler : String)
  | emptyHandlerId
  | duplicateHandler (subject : String)
  | resumeInFailFastFork (fork handler : String)
  | conflictingAttachments (step first second : String)
  deriving DecidableEq, Repr

/-- The wording of a defect. -/
def Defect.message : Defect → String
  | .emptyProcess => "Process must have at least one step"
  | .invalidIdentifier name =>
    s!"Invalid identifier '{name}': expected a letter or '_' followed by letters, digits or '_'"
  | .duplicateStep scope step => s!"Duplicate step '{step}' in {scope}"
  | .unknownStep construct step => s!"{construct} references unknown step '{step}'"
  | .invalidLoopBound l => s!"Loop '{l}' must allow at least one iteration"
  | .invertedLoopBody l => s!"Loop '{l}' ends before it starts"
  | .duplicateLoop path => s!"Duplicate loop path: {path}"
  | .unknownParentLoop l parent => s!"Loop '{l}' references unknown parent loop '{parent}'"
  | .ambiguousParentLoop parent => s!"Parent loop name '{parent}' is ambiguous"
  | .cyclicLoopNesting l => s!"Loop '{l}' is its own ancestor"
  | .loopOutsideParent l parent =>
    s!"Loop '{l}' is not contained in the body of its parent '{parent}'"
  | .overlappingLoops first second => s!"Loops '{first}' and '{second}' overlap without being nested"
  | .sharedLoopEnd first second step =>
    s!"Loops '{first}' and '{second}' share last body step '{step}' but are not stacked"
  | .emptyBranch branch => s!"Branch '{branch}' has no cases"
  | .multipleOtherwise branch => s!"Branch '{branch}' declares more than one otherwise case"
  | .duplicateCaseValue branch value =>
    s!"Branch '{branch}' declares case value '{value}' more than once"
  | .unknownCaseValue branch value =>
    s!"Branch '{branch}' case '{value}' is not part of the discriminator domain"
  | .nonExhaustiveBranch branch missing =>
    s!"Branch '{branch}' does not cover discriminator values: {Text.quotedList missing}"
  | .loopScopeMismatch branch scope expected =>
    s!"Branch '{branch}' has loop prefix '{scope}' but its enclosing loops are '{expected}'"
  | .duplicateBranch branch => s!"Duplicate branch id: {branch}"
  | .duplicateApproval approval => s!"Duplicate approval name: {approval}"
  | .tooFewForkPaths step => s!"Fork after '{step}' needs at least two paths"
  | .emptyForkPath step path => s!"Fork after '{step}' has an empty path at index {path}"
  | .emptyRecoveryChain handler => s!"Failure handler '{handler}' has no recovery steps"
  | .emptyHandlerId => "Failure handler id must not be empty"
  | .duplicateHandler subject => s!"Duplicate failure handler for {subject}"
  | .resumeInFailFastFork fork handler =>
    s!"Failure handler '{handler}' resumes failed steps inside fail-fast fork '{fork}', "
      ++ "whose cancelled paths can never join"
  | .conflictingAttachments step first second =>
    s!"Step '{step}' carries conflicting control attachments: {first} and {second}"

/-- The values of a branch's domain that no literal takes. -/
def Branch.uncovered (b : Branch) : List String :=
  b.discriminator.domain.filter fun v => v ∉ b.literals.map Prod.fst

/-- The names of an approval's gates. -/
def Approval.gateNames (a : Approval) : List String :=
  a.chain.map (·.gate.name)

/-- What a handler is bound to, as text. -/
def Scope.text : Scope → String
  | .workflow => "the workflow scope"
  | .step trigger => s!"step '{trigger}'"

namespace Definition

/-- A defect unless a condition holds. -/
def demand (holds : Bool) (defect : Defect) : Option Defect :=
  if holds then none else some defect

/-- A name must be an identifier. -/
def identifierDefect? (name : String) : Option Defect :=
  demand (Text.isIdentifier name) (.invalidIdentifier name)

/-- The steps of one sequence must have distinct identifiers, given those before them. -/
def sequenceDefect? (scope : String) (seen : List String) : List Step → Option Defect
  | [] => none
  | s :: rest =>
    (identifierDefect? s.identifier).or <|
    (demand (s.identifier ∉ seen) (.duplicateStep scope s.identifier)).or <|
    sequenceDefect? scope (s.identifier :: seen) rest

/-- A named step must be on the main line. -/
def stepDefect? (d : Definition) (construct step : String) : Option Defect :=
  demand (d.indexOf? step).isSome (.unknownStep construct step)

/-- A step that may be named must be on the main line if it is. -/
def optionalStepDefect? (d : Definition) (construct : String) : Option String → Option Defect
  | none => none
  | some step => d.stepDefect? construct step

/-- A loop's body must lie within the body of its parent. -/
def containmentDefect? (d : Definition) (l : Loop) (parentName : String) : Option Defect :=
  match d.loopRange? l, d.parent? l with
  | some (first, last), some p =>
    match d.loopRange? p with
    | some (parentFirst, parentLast) =>
      demand (parentFirst ≤ first ∧ last ≤ parentLast) (.loopOutsideParent l.name parentName)
    | none => some (.loopOutsideParent l.name parentName)
  | _, _ => none

/-- A named parent must be one loop, must not lead back, and must contain the loop. -/
def parentDefect? (d : Definition) (l : Loop) : Option Defect :=
  match l.parent with
  | none => none
  | some parentName =>
    match d.loops.countP (·.name = parentName) with
    | 0 => some (.unknownParentLoop l.name parentName)
    | 1 =>
      (demand (!d.climbsBack l) (.cyclicLoopNesting l.name)).or <|
      d.containmentDefect? l parentName
    | _ => some (.ambiguousParentLoop parentName)

/-- A loop on its own. -/
def loopDefect? (d : Definition) (l : Loop) : Option Defect :=
  let construct := s!"Loop '{l.name}'"
  (identifierDefect? l.name).or <|
  (demand (l.maxIterations ≠ 0) (.invalidLoopBound l.name)).or <|
  (d.stepDefect? construct l.firstStep).or <|
  (d.stepDefect? construct l.lastStep).or <|
  (demand ((d.loopRange? l).all fun r => r.1 ≤ r.2) (.invertedLoopBody l.name)).or <|
  (d.optionalStepDefect? construct l.continuation).or <|
  d.parentDefect? l

/-- No two loops may have the same nesting path. -/
def loopPathDefect? (d : Definition) : Option Defect :=
  (Claim.clash? (d.loops.map fun l => (d.loopNames l, ()))).map fun (path, _, _) =>
    .duplicateLoop (String.intercalate "/" path)

/-- Whether two ranges of positions meet. -/
def rangesMeet : Option (Nat × Nat) → Option (Nat × Nat) → Bool
  | some (aFirst, aLast), some (bFirst, bLast) => aFirst ≤ bLast ∧ bFirst ≤ aLast
  | _, _ => false

/-- Two loops must lie apart unless one is an ancestor of the other. -/
def loopPairDefect? (d : Definition) (a b : Loop) : Option Defect :=
  let stacked := d.isAncestor a b || d.isAncestor b a
  (demand (a.lastStep ≠ b.lastStep || stacked) (.sharedLoopEnd a.name b.name a.lastStep)).or <|
  demand (!rangesMeet (d.loopRange? a) (d.loopRange? b) || stacked) (.overlappingLoops a.name b.name)

/-- Every loop against every later one. -/
def loopPairsDefect? (d : Definition) : List Loop → Option Defect
  | [] => none
  | a :: rest => (rest.findSome? (d.loopPairDefect? a)).or (d.loopPairsDefect? rest)

/-- The loops. -/
def loopsDefect? (d : Definition) : Option Defect :=
  (d.loops.findSome? d.loopDefect?).or <|
  d.loopPathDefect?.or <|
  d.loopPairsDefect? d.loops

/-- A branch's loop scope must spell the loops around its previous step. -/
def loopScopeDefect? (d : Definition) (b : Branch) : Option Defect :=
  match b.loopScope with
  | none => none
  | some scope =>
    let expected := String.intercalate "_" ((d.enclosingLoops b.previousStep).map Loop.name)
    (identifierDefect? scope).or <|
    demand (scope = expected) (.loopScopeMismatch b.id scope expected)

/-- The cases in order, given the literals and labels before them. -/
def casesDefect? (branch : String) (values labels : List String) : List Case → Option Defect
  | [] => none
  | c :: rest =>
    let repeated :=
      match c.selector with
      | .literal value => demand (value ∉ values) (.duplicateCaseValue branch value)
      | .otherwise => none
    let values' :=
      match c.selector with
      | .literal value => value :: values
      | .otherwise => values
    repeated.or <|
    (identifierDefect? c.label).or <|
    (demand (c.label ∉ labels) (.duplicateStep s!"branch '{branch}'" c.label)).or <|
    (sequenceDefect? s!"branch '{branch}' case '{c.selector.text}'" [] c.steps).or <|
    casesDefect? branch values' (c.label :: labels) rest

/-- A branch must have cases, and at most one for the rest. -/
def branchCasesDefect? (b : Branch) : Option Defect :=
  (demand (b.cases ≠ []) (.emptyBranch b.id)).or <|
  (demand (b.cases.countP (·.selector = .otherwise) ≤ 1) (.multipleOtherwise b.id)).or <|
  casesDefect? b.id [] [] b.cases

/-- A closed enumerated domain must hold every literal, and the cases must cover it. -/
def domainDefect? (b : Branch) : Option Defect :=
  if !b.discriminator.isEnumerated || b.discriminator.domain.isEmpty then none
  else
    let foreign := b.literals.find? fun p => p.1 ∉ b.discriminator.domain
    (foreign.map fun p => Defect.unknownCaseValue b.id p.1).or <|
    demand (b.fallback?.isSome || b.uncovered.isEmpty)
      (.nonExhaustiveBranch b.id b.uncovered)

/-- The branches in order, given the ids before them. -/
def branchesDefect? (d : Definition) (ids : List String) : List Branch → Option Defect
  | [] => none
  | b :: rest =>
    let construct := s!"Branch '{b.id}'"
    (identifierDefect? b.id).or <|
    (demand (b.id ∉ ids) (.duplicateBranch b.id)).or <|
    (d.stepDefect? construct b.previousStep).or <|
    (d.optionalStepDefect? construct b.rejoinStep).or <|
    (d.loopScopeDefect? b).or <|
    (branchCasesDefect? b).or <|
    (domainDefect? b).or <|
    d.branchesDefect? (b.id :: ids) rest

/-- One gate of an approval, with the steps a timeout of it runs. -/
def gateDefect? (a : Approval) : Option Defect :=
  (identifierDefect? a.gate.name).or <|
  (sequenceDefect? s!"approval '{a.gate.name}' escalation" [] a.escalationSteps).or <|
  sequenceDefect? s!"approval '{a.gate.name}' rejection" [] a.gate.rejectionSteps

/-- The gates of a chain in order, given the names before them. -/
def chainDefect? (names : List String) : List Approval → Option Defect
  | [] => none
  | a :: rest =>
    (gateDefect? a).or <|
    (demand (a.gate.name ∉ names) (.duplicateApproval a.gate.name)).or <|
    chainDefect? (a.gate.name :: names) rest

/-- The approvals in order, given the gate names before them. -/
def approvalsDefect? (d : Definition) (names : List String) : List Approval → Option Defect
  | [] => none
  | a :: rest =>
    (d.stepDefect? s!"Approval '{a.gate.name}'" a.gate.precedingStep).or <|
    (chainDefect? names a.chain).or <|
    d.approvalsDefect? (a.gateNames ++ names) rest

/-- A fork needs two paths, none of them empty, and distinct steps throughout. -/
def forkDefect? (d : Definition) (f : Fork) : Option Defect :=
  let construct := s!"Fork after '{f.previousStep}'"
  (d.stepDefect? construct f.previousStep).or <|
  (d.stepDefect? construct f.joinStep).or <|
  (demand (2 ≤ f.paths.length) (.tooFewForkPaths f.previousStep)).or <|
  ((f.paths.findIdx? (·.isEmpty)).map (.emptyForkPath f.previousStep)).or <|
  sequenceDefect? s!"fork after '{f.previousStep}'" [] f.paths.flatten

/-- The handlers in order, given the scopes before them. -/
def handlersDefect? (d : Definition) (scopes : List Scope) : List Handler → Option Defect
  | [] => none
  | h :: rest =>
    (demand (!Text.isBlank h.id) .emptyHandlerId).or <|
    (demand (h.steps ≠ []) (.emptyRecoveryChain h.id)).or <|
    (sequenceDefect? s!"failure handler '{h.id}'" [] h.steps).or <|
    (d.optionalStepDefect? s!"Failure handler '{h.id}'" h.trigger?).or <|
    (demand (h.scope ∉ scopes) (.duplicateHandler h.scope.text)).or <|
    d.handlersDefect? (h.scope :: scopes) rest

/-- Once a fail-fast fork has cancelled its other paths, resuming the failed step cannot complete
the join; so a process with one needs a handler that ends it. -/
def resumeDefect? (d : Definition) : Option Defect :=
  match d.handlers.find? (fun h => h.scope = .workflow && !h.isTerminal), d.forks.find? (·.failFast) with
  | some h, some f => some (.resumeInFailFastFork f.previousStep h.id)
  | _, _ => none

/-- Every attachment with the step it hangs on. Stacked loops share their last step and count
once. -/
def attachments (d : Definition) : List (String × String) :=
  ((d.loops.map Loop.lastStep).eraseDups.map (·, "loop end"))
    ++ d.branches.map (·.previousStep, "branch")
    ++ d.approvals.map (·.gate.precedingStep, "approval")
    ++ d.forks.map (·.previousStep, "fork")

/-- A step carries one attachment at most. -/
def conflictDefect? (d : Definition) : Option Defect :=
  (Claim.clash? d.attachments).map fun (step, first, second) =>
    .conflictingAttachments step first second

/-- The first defect of a definition. -/
def defect? (d : Definition) : Option Defect :=
  (demand (d.steps ≠ []) .emptyProcess).or <|
  (identifierDefect? d.name).or <|
  (sequenceDefect? "main line" [] d.steps).or <|
  d.loopsDefect?.or <|
  (d.branchesDefect? [] d.branches).or <|
  (d.approvalsDefect? [] d.approvals).or <|
  (d.forks.findSome? d.forkDefect?).or <|
  (d.handlersDefect? [] d.handlers).or <|
  d.resumeDefect?.or <|
  d.conflictDefect?

/-- Accept a definition or give its first defect. -/
def validate (d : Definition) : Except Defect Unit :=
  match d.defect? with
  | some defect => .error defect
  | none => .ok ()

/-- The definition itself, once it is valid. -/
def build (d : Definition) : Except Defect Definition :=
  d.validate.map fun _ => d

@[simp] theorem demand_eq_none_iff {holds : Bool} {defect : Defect} :
    demand holds defect = none ↔ holds = true := by
  cases holds <;> simp [demand]

/-- A definition is valid exactly when the search finds no defect. -/
theorem validate_eq_ok_iff (d : Definition) : d.validate = .ok () ↔ d.defect? = none := by
  unfold validate
  split <;> simp_all

end Definition

end Workflow
