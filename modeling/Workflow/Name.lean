import Workflow.Text.Identifier

/-!
Generated names. Every phase, message, counter and handler name is derived here and nowhere else,
from the names the definition gives, by concatenation alone.
-/

set_option autoImplicit false

namespace Workflow.Name

/-- The phase of an instance that has been created and nothing more. -/
def notStarted : String := "NotStarted"

/-- The phase of an instance that ran to its end. -/
def completed : String := "Completed"

/-- The phase of an instance whose last step failed. -/
def failed : String := "Failed"

/-- The phase of an instance a step refused to run on. -/
def validationFailed : String := "ValidationFailed"

/-- The phase of a main-line step: the loops around it, outermost first, then the step. -/
def stepPhase (loops : List String) (step : String) : String :=
  String.intercalate "_" (loops ++ [step])

/-- The phase of a step on a branch path. -/
def branchPhase (loopScope : Option String) (label step : String) : String :=
  match loopScope with
  | some scope => scope ++ "_" ++ label ++ "_" ++ step
  | none => label ++ "_" ++ step

/-- The phase of a step run when an approval times out. -/
def escalationPhase (approval step : String) : String :=
  approval ++ "Escalation_" ++ step

/-- The phase of a step run when an approval is refused. -/
def rejectionPhase (approval step : String) : String :=
  approval ++ "Rejection_" ++ step

/-- The phase of a recovery step. -/
def recoveryPhase (handlerId step : String) : String :=
  "FailureHandler_" ++ Text.sanitize handlerId ++ "_" ++ step

/-- The phase held while an approval is outstanding. -/
def awaitPhase (approval : String) : String :=
  "AwaitApproval_" ++ approval

/-- The command that starts a step, or a process. -/
def startCommand (subject : String) : String :=
  "Start" ++ subject ++ "Command"

/-- What the name of a work command begins with. -/
def workerLead : String := "Execute"

/-- What the name of a work command ends with. -/
def workerTail : String := "WorkerCommand"

/-- The command that hands a step's work to the executor. -/
def workerCommand (step : String) : String :=
  workerLead ++ step ++ workerTail

/-- The event that reports a step's result. -/
def completedEvent (step : String) : String :=
  step ++ "Completed"

/-- The event that reports a refusal to run. -/
def validationFailedEvent (step : String) : String :=
  step ++ "ValidationFailed"

/-- The event that asks for an approval. -/
def approvalRequested (approval : String) : String :=
  approval ++ "ApprovalRequested"

/-- The event that acknowledges a request. -/
def approvalPending (approval : String) : String :=
  approval ++ "ApprovalPending"

/-- The event that carries a decision. -/
def approvalDecided (approval : String) : String :=
  approval ++ "ApprovalDecided"

/-- The event that reports that no decision came. -/
def approvalTimedOut (approval : String) : String :=
  approval ++ "ApprovalTimedOut"

/-- The command that hands a failure to a handler. -/
def failureTrigger (handlerId : String) : String :=
  "StartFailureHandler_" ++ Text.sanitize handlerId ++ "Command"

/-- The nesting path of a loop, outermost first. The whole path keeps the names of equally named
loops under different parents apart. -/
def loopPath (loops : List String) : String :=
  String.join loops

/-- The counter of a loop's iterations. -/
def iterationCounter (loops : List String) : String :=
  loopPath loops ++ "IterationCount"

/-- The check whether a loop should end. -/
def exitCheck (loops : List String) : String :=
  "ShouldExit" ++ loopPath loops ++ "Loop"

/-- The fork after a step. -/
def forkId (previousStep : String) : String :=
  "Fork_" ++ previousStep

/-- The generated type of a process's phases. -/
def phaseType (process : String) : String :=
  process ++ "Phase"

/-- The generated type of a process's messages. -/
def messageType (process : String) : String :=
  process ++ "Message"

/-- The generated type of a process's instances. -/
def processType (process : String) : String :=
  process ++ "Process"

/-- The generated function that handles a message. -/
def handlerName (message : String) : String :=
  "handle_" ++ Text.snakeCase message

/-- The step a work command is for. -/
def workerStem? (command : String) : Option String :=
  let chars := command.toList
  let lead := workerLead.toList
  let tail := workerTail.toList
  if lead.isPrefixOf chars then
    let rest := chars.drop lead.length
    if tail.isSuffixOf rest then some (String.ofList (rest.take (rest.length - tail.length)))
    else none
  else none

end Workflow.Name
