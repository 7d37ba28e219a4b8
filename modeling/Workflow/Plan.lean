import Workflow.Claim
import Workflow.Site

/-!
The plan of a definition: its sites, gates and handlers in the order their transitions are listed,
each main-line step followed by the chains its attachment introduces, the handlers last. The plan
fixes every phase and message, and `Definition.claims` lists who claims which name.

Where several attachments name one step, the one declared last holds.
-/

set_option autoImplicit false

namespace Workflow

/-- One entry of the plan. -/
inductive Entry where
  | step (site : Site)
  /-- A gate, and where control goes once it is approved. -/
  | approval (gate : Approval) (approved : Continuation)
  | handler (handler : Handler)
  deriving DecidableEq, Repr

/-- The two spaces of generated names. -/
inductive Space where
  | phase
  | message
  deriving DecidableEq, Repr

namespace Entry

/-- Who claims the entry's names. -/
def owner : Entry → String
  | .step s => s!"{s.origin.label} step '{s.step.identifier}'"
  | .approval a _ => s!"approval '{a.gate.name}'"
  | .handler h => s!"failure handler '{h.id}'"

/-- The phases the entry introduces. -/
def phases : Entry → List String
  | .step s => [s.phase]
  | .approval a _ => [Name.awaitPhase a.gate.name]
  | .handler _ => []

/-- The messages the entry introduces. -/
def messages : Entry → List MessageEntry
  | .step s => s.messages
  | .approval a _ =>
    [⟨Name.approvalRequested a.gate.name, .approvalRequested, a.gate.name⟩,
      ⟨Name.approvalPending a.gate.name, .approvalPending, a.gate.name⟩,
      ⟨Name.approvalDecided a.gate.name, .approvalDecided, a.gate.name⟩,
      ⟨Name.approvalTimedOut a.gate.name, .approvalTimedOut, a.gate.name⟩]
  | .handler h => [⟨Name.failureTrigger h.id, .failureTrigger, Text.sanitize h.id⟩]

/-- The names the entry claims, phases first. -/
def claims (e : Entry) : List ((Space × String) × String) :=
  e.phases.map (fun p => ((.phase, p), e.owner))
    ++ e.messages.map fun m => ((.message, m.name), e.owner)

/-- The site of an entry that is one. -/
def site? : Entry → Option Site
  | .step s => some s
  | _ => none

end Entry

namespace Definition

/-- The step of an identifier that was declared last. -/
def latestStep? (d : Definition) (name : String) : Option Step :=
  d.steps.reverse.find? (·.identifier = name)

/-- The branch after a step. -/
def branchAfter? (d : Definition) (step : String) : Option Branch :=
  d.branches.reverse.find? (·.previousStep = step)

/-- The approval after a step. -/
def approvalAfter? (d : Definition) (step : String) : Option Approval :=
  d.approvals.reverse.find? (·.gate.precedingStep = step)

/-- The fork after a step. -/
def forkAfter? (d : Definition) (step : String) : Option Fork :=
  d.forks.reverse.find? (·.previousStep = step)

/-- The phase of each branch path's last step, with the path. -/
def pathEnds (d : Definition) : List (String × PathEnd) :=
  d.branches.flatMap fun b =>
    b.cases.filterMap fun c =>
      c.steps.getLast?.map fun s =>
        (Name.branchPhase b.loopScope c.label s.identifier, ⟨b, c⟩)

/-- The branch path that ends with a phase. -/
def pathEndAt? (d : Definition) (phase : String) : Option PathEnd :=
  (d.pathEnds.reverse.find? (·.1 = phase)).map (·.2)

/-- The phase of a main-line step. -/
def mainPhase (d : Definition) (step : String) : String :=
  Name.stepPhase ((d.enclosingLoops step).map Loop.name) step

/-- Where an approval hands control once it is approved. -/
def approved (d : Definition) (a : Approval) : Continuation :=
  match d.successor? a.gate.precedingStep with
  | some s => .send (Name.startCommand s.identifier)
  | none => .complete

/-- The main line, with attachments. -/
def mainLine (d : Definition) : List Site :=
  Site.link <| d.steps.map fun s =>
    let id := s.identifier
    { step := s, origin := .mainLine, phase := d.mainPhase id, stem := id, ending := .complete
      loops := d.loopsEndingAt id, branch := d.branchAfter? id, approval := d.approvalAfter? id
      fork := d.forkAfter? id, handler := d.handlerFor? id }

/-- The path of one case. The end of the path is looked up by its phase. -/
def caseSites (d : Definition) (b : Branch) (c : Case) : List Site :=
  let sites := Site.link <| c.steps.map fun s =>
    let phase := Name.branchPhase b.loopScope c.label s.identifier
    { step := s, origin := .branchPath, phase, stem := phase, ending := .pathEnd ⟨b, c⟩
      handler := d.workflowHandler? }
  sites.map fun s => if s.isLast then { s with pathEnd := d.pathEndAt? s.phase } else s

/-- The paths of a branch, case by case. -/
def branchSites (d : Definition) (b : Branch) : List Site :=
  b.cases.flatMap (d.caseSites b)

/-- Where a path of a fork reports. -/
def joinTarget (f : Fork) (path : Nat) : JoinTarget :=
  ⟨Name.forkId f.previousStep, path, f.paths.length, Name.startCommand f.joinStep⟩

/-- One path of a fork. -/
def pathSites (d : Definition) (f : Fork) (path : Nat) (steps : List Step) : List Site :=
  let join := joinTarget f path
  Site.link <| steps.map fun s =>
    { step := s, origin := .forkPath, phase := s.identifier, stem := s.identifier
      ending := .join join, forkPath := some ⟨join.fork, f.failFast, join⟩
      handler := d.workflowHandler? }

/-- The paths of a fork, one after another. -/
def forkSites (d : Definition) (f : Fork) : List Site :=
  (f.paths.mapIdx (d.pathSites f)).flatten

/-- The steps a timeout of a gate runs. -/
def escalationSites (d : Definition) (a : Approval) (approved : Continuation) : List Site :=
  Site.link <| a.escalationSteps.map fun s =>
    let phase := Name.escalationPhase a.gate.name s.identifier
    { step := s, origin := .escalation, phase, stem := phase, ending := .proceed approved
      handler := d.workflowHandler? }

/-- The steps a refusal at a gate runs. -/
def rejectionSites (d : Definition) (a : Approval) : List Site :=
  Site.link <| a.gate.rejectionSteps.map fun s =>
    let phase := Name.rejectionPhase a.gate.name s.identifier
    { step := s, origin := .rejection, phase, stem := phase, ending := .complete
      handler := d.workflowHandler? }

/-- The recovery steps of a handler. -/
def recoverySites (h : Handler) : List Site :=
  Site.link <| h.steps.map fun s =>
    let phase := Name.recoveryPhase h.id s.identifier
    { step := s, origin := .recovery, phase, stem := phase, ending := .recovery h }

/-- The entries of one gate. -/
def gateEntries (d : Definition) (approved : Continuation) (a : Approval) : List Entry :=
  .approval a approved
    :: ((d.escalationSites a approved).map .step ++ (d.rejectionSites a).map .step)

/-- The entries of one main-line site. -/
def siteEntries (d : Definition) (s : Site) : List Entry :=
  .step s
    :: ((s.branch.map fun b => (d.branchSites b).map .step).getD []
      ++ (s.fork.map fun f => (d.forkSites f).map .step).getD []
      ++ (s.approval.map fun a => a.chain.flatMap (d.gateEntries (d.approved a))).getD [])

/-- The entries of one handler. -/
def handlerEntries (h : Handler) : List Entry :=
  .handler h :: (recoverySites h).map .step

/-- All entries, in order. -/
def plan (d : Definition) : List Entry :=
  d.mainLine.flatMap d.siteEntries ++ d.handlers.flatMap handlerEntries

/-- All sites, in order. -/
def sites (d : Definition) : List Site :=
  d.plan.filterMap Entry.site?

/-- The message that starts the process. -/
def startMessage (d : Definition) : MessageEntry :=
  ⟨Name.startCommand d.name, .startProcess, d.name⟩

/-- The phases that close every list of phases. -/
def closingPhases : List String :=
  [Name.completed, Name.failed, Name.validationFailed]

/-- Every phase, in order. -/
def phases (d : Definition) : List String :=
  Name.notStarted :: d.plan.flatMap Entry.phases ++ closingPhases

/-- Every message, in order. -/
def messages (d : Definition) : List MessageEntry :=
  d.startMessage :: d.plan.flatMap Entry.messages

/-- Every name with its owner, in the order they are claimed: the reserved phases, the start of the
process, and then entry by entry. -/
def claims (d : Definition) : List ((Space × String) × String) :=
  (Name.notStarted :: closingPhases).map (fun p => ((.phase, p), "reserved phase"))
    ++ [((.message, d.startMessage.name), "process start")]
    ++ d.plan.flatMap Entry.claims

end Definition

end Workflow
