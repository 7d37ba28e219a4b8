/-!
Process definitions: an ordered main line of steps, and the attachments that change where control
goes after one of them: loops, branches, approvals, forks and failure handlers.

A definition is plain data and may be wrong in many ways; `Workflow.Definition.Defect` says which.
Attachments name main-line steps by identifier.
-/

set_option autoImplicit false

namespace Workflow

/-- A predicate that must hold before a step may run, and what is reported when it does not. -/
structure Guard where
  conditionId : String
  message : String
  deriving DecidableEq, Repr

/-- A unit of work. The same work may appear more than once; then each occurrence is named apart. -/
structure Step where
  name : String
  workType : String
  occurrence : Option String
  guard : Option Guard
  deriving DecidableEq, Repr

/-- A step whose work type is its own name. -/
def Step.ofName (name : String) : Step :=
  ⟨name, name, none, none⟩

/-- The text that stands for the step in phases and messages. -/
def Step.identifier (s : Step) : String :=
  s.occurrence.getD s.name

/-- Whether the step may refuse to run. -/
def Step.isGuarded (s : Step) : Bool :=
  s.guard.isSome

/-- A bounded repetition of a contiguous run of main-line steps. -/
structure Loop where
  name : String
  /-- The condition that ends the loop. -/
  conditionId : String
  /-- How often the body may be traversed. -/
  maxIterations : UInt32
  firstStep : String
  lastStep : String
  /-- The step started on exit; without one the exit ends the process. -/
  continuation : Option String
  /-- The enclosing loop, by name. -/
  parent : Option String
  deriving DecidableEq, Repr

/-- Whether a discriminator ranges over the names of an enumeration or over computed values. -/
inductive DiscriminatorKind where
  | enumerated
  | computed
  deriving DecidableEq, Repr

/-- What a branch switches on: a dotted path into the state, and the values it can take where these
are known. -/
structure Discriminator where
  fieldPath : String
  typeName : String
  kind : DiscriminatorKind
  domain : List String
  deriving DecidableEq, Repr

/-- Whether the values are names of an enumeration. -/
def Discriminator.isEnumerated (d : Discriminator) : Bool :=
  d.kind = .enumerated

/-- When a case is taken. -/
inductive Selector where
  | literal (value : String)
  | otherwise
  deriving DecidableEq, Repr

/-- The selector as text. -/
def Selector.text : Selector → String
  | .literal value => value
  | .otherwise => "otherwise"

/-- One path of a branch. -/
structure Case where
  selector : Selector
  /-- What the names of the path's steps begin with. -/
  label : String
  steps : List Step
  /-- Whether the path ends the process instead of rejoining. -/
  isTerminal : Bool
  deriving DecidableEq, Repr

/-- An exclusive choice taken after a main-line step. -/
structure Branch where
  id : String
  previousStep : String
  discriminator : Discriminator
  /-- Where the paths meet again; without it they complete the process. -/
  rejoinStep : Option String
  /-- The joined names of the loops around the branch. -/
  loopScope : Option String
  cases : List Case
  deriving DecidableEq, Repr

/-- The cases that carry a literal, with it, in order. -/
def Branch.literals (b : Branch) : List (String × Case) :=
  b.cases.filterMap fun c =>
    match c.selector with
    | .literal value => some (value, c)
    | .otherwise => none

/-- The case that takes what no literal takes. -/
def Branch.fallback? (b : Branch) : Option Case :=
  b.cases.find? (·.selector = .otherwise)

/-- The case a discriminator value selects. -/
def Branch.select? (b : Branch) (value : String) : Option Case :=
  ((b.literals.find? (·.1 = value)).map (·.2)).or b.fallback?

/-- One approval point: who is asked, after which step, and what a refusal runs. -/
structure Gate where
  name : String
  approverType : String
  precedingStep : String
  rejectionSteps : List Step
  deriving DecidableEq, Repr

/-- A gate and what a timeout of it does. -/
inductive Approval where
  /-- A timeout fails the process. -/
  | failing (gate : Gate)
  /-- A timeout runs these steps. -/
  | running (gate : Gate) (steps : List Step)
  /-- A timeout asks for a further approval. -/
  | asking (gate : Gate) (next : Approval)
  deriving DecidableEq, Repr

namespace Approval

/-- The outermost gate. -/
def gate : Approval → Gate
  | .failing g => g
  | .running g _ => g
  | .asking g _ => g

/-- The steps a timeout of the outermost gate runs. -/
def escalationSteps : Approval → List Step
  | .running _ steps => steps
  | _ => []

/-- The approval a timeout of the outermost gate asks for. -/
def next? : Approval → Option Approval
  | .asking _ next => some next
  | _ => none

/-- Whether a timeout of the outermost gate fails the process. -/
def isTerminal : Approval → Bool
  | .failing _ => true
  | _ => false

/-- The approval and every further one it escalates to, outermost first. -/
def chain : Approval → List Approval
  | .failing g => [.failing g]
  | .running g steps => [.running g steps]
  | .asking g next => .asking g next :: next.chain

end Approval

/-- Parallel paths started together after one main-line step and joined before another. -/
structure Fork where
  previousStep : String
  paths : List (List Step)
  /-- Whether the first failure cancels the other paths. -/
  failFast : Bool
  joinStep : String
  deriving DecidableEq, Repr

/-- Which failures a handler takes. -/
inductive Scope where
  | workflow
  | step (trigger : String)
  deriving DecidableEq, Repr

/-- A recovery chain. -/
structure Handler where
  id : String
  scope : Scope
  steps : List Step
  /-- Whether the chain ends the process as failed instead of resuming the failed step. -/
  isTerminal : Bool
  deriving DecidableEq, Repr

/-- The step a handler is bound to. -/
def Handler.trigger? (h : Handler) : Option String :=
  match h.scope with
  | .workflow => none
  | .step trigger => some trigger

/-- Whether a failure of a step is within the handler's scope. -/
def Handler.appliesTo (h : Handler) (step : String) : Bool :=
  match h.scope with
  | .workflow => true
  | .step trigger => trigger = step

/-- A process as its author wrote it down. -/
structure Definition where
  name : String
  steps : List Step
  stateType : Option String
  loops : List Loop
  branches : List Branch
  approvals : List Approval
  forks : List Fork
  handlers : List Handler
  deriving DecidableEq, Repr

namespace Definition

/-- A definition with nothing in it yet. -/
def empty (name : String) : Definition :=
  ⟨name, [], none, [], [], [], [], []⟩

/-- Name the type of the state. -/
def withStateType (d : Definition) (stateType : String) : Definition :=
  { d with stateType := some stateType }

/-- Add steps at the end of the main line. -/
def addSteps (d : Definition) (steps : List Step) : Definition :=
  { d with steps := d.steps ++ steps }

/-- Attach a loop. -/
def addLoop (d : Definition) (l : Loop) : Definition :=
  { d with loops := d.loops ++ [l] }

/-- Attach a branch. -/
def addBranch (d : Definition) (b : Branch) : Definition :=
  { d with branches := d.branches ++ [b] }

/-- Attach an approval. -/
def addApproval (d : Definition) (a : Approval) : Definition :=
  { d with approvals := d.approvals ++ [a] }

/-- Attach a fork. -/
def addFork (d : Definition) (f : Fork) : Definition :=
  { d with forks := d.forks ++ [f] }

/-- Attach a failure handler. -/
def addHandler (d : Definition) (h : Handler) : Definition :=
  { d with handlers := d.handlers ++ [h] }

/-- The identifiers of the main line, in order. -/
def stepNames (d : Definition) : List String :=
  d.steps.map Step.identifier

/-- The first main-line step of an identifier. -/
def step? (d : Definition) (name : String) : Option Step :=
  d.steps.find? (·.identifier = name)

/-- Its position. -/
def indexOf? (d : Definition) (name : String) : Option Nat :=
  d.steps.findIdx? (·.identifier = name)

/-- The main-line step after it. -/
def successor? (d : Definition) (name : String) : Option Step :=
  (d.indexOf? name).bind fun i => d.steps[i + 1]?

/-- The handler bound to the whole process. -/
def workflowHandler? (d : Definition) : Option Handler :=
  d.handlers.find? (·.scope = .workflow)

/-- The handler a failure of a main-line step goes to: the one bound to the step before the one
bound to the process. -/
def handlerFor? (d : Definition) (step : String) : Option Handler :=
  (d.handlers.find? (·.trigger? = some step)).or d.workflowHandler?

end Definition

end Workflow
