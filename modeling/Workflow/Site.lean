import Workflow.Definition.Nesting
import Workflow.Name
import Workflow.Table

/-!
Sites: every occurrence of a step in a process, wherever it lives, with all that shapes its
transitions. A site knows its phase, the stem of its message names, the site after it in its own
sequence, and what follows the sequence's end.
-/

set_option autoImplicit false

namespace Workflow

/-- Where an occurrence of a step lives. -/
inductive Origin where
  | mainLine
  | branchPath
  | forkPath
  | escalation
  | rejection
  | recovery
  deriving DecidableEq, Repr

/-- The origin as text. -/
def Origin.label : Origin → String
  | .mainLine => "main line"
  | .branchPath => "branch path"
  | .forkPath => "fork path"
  | .escalation => "escalation chain"
  | .rejection => "rejection chain"
  | .recovery => "recovery chain"

/-- The end of a branch path. -/
structure PathEnd where
  branch : Branch
  path : Case
  deriving DecidableEq, Repr

/-- What follows the last step of a sequence. -/
inductive SequenceEnd where
  /-- The end of the main line or of a rejection chain. -/
  | complete
  | pathEnd (theEnd : PathEnd)
  | join (target : JoinTarget)
  /-- The end of an escalation chain: go on where the approval would have. -/
  | proceed (continuation : Continuation)
  | recovery (handler : Handler)
  deriving DecidableEq, Repr

/-- An occurrence of a step. -/
structure Site where
  step : Step
  origin : Origin
  /-- The phase set when the step starts. -/
  phase : String
  /-- What the names of the step's messages are built from. -/
  stem : String
  /-- The position in its sequence. -/
  index : Nat := 0
  /-- The stem of the next site of the sequence. -/
  next : Option String := none
  ending : SequenceEnd
  /-- The loops that end here, innermost first. -/
  loops : List Loop := []
  branch : Option Branch := none
  pathEnd : Option PathEnd := none
  approval : Option Approval := none
  fork : Option Fork := none
  /-- What a failure does to the fork the site is on. -/
  forkPath : Option ForkFailure := none
  /-- The handler a failure goes to. -/
  handler : Option Handler := none
  deriving DecidableEq, Repr

namespace Site

/-- Whether the sequence ends with this site. -/
def isLast (s : Site) : Bool := s.next.isNone

/-- The command that starts the site. -/
def startCommand (s : Site) : String := Name.startCommand s.stem

/-- The command that hands its work to the executor. -/
def workerCommand (s : Site) : String := Name.workerCommand s.stem

/-- The event that reports its result. -/
def completedEvent (s : Site) : String := Name.completedEvent s.stem

/-- The event that reports its refusal to run. -/
def validationFailedEvent (s : Site) : String := Name.validationFailedEvent s.stem

/-- The messages the site declares. -/
def messages (s : Site) : List MessageEntry :=
  [⟨s.startCommand, .startStep, s.phase⟩, ⟨s.workerCommand, .executeWorker, s.phase⟩,
    ⟨s.completedEvent, .stepCompleted, s.phase⟩]
    ++ if s.step.isGuarded then [⟨s.validationFailedEvent, .validationFailed, s.phase⟩] else []

/-- Positions and successors along one sequence. -/
def link (sites : List Site) : List Site :=
  sites.mapIdx fun i s => { s with index := i, next := sites[i + 1]?.map Site.stem }

@[simp] theorem length_link (sites : List Site) : (link sites).length = sites.length := by
  simp [link]

end Site

end Workflow
