import Workflow.Definition.Codec
import Workflow.Host
import Workflow.Message.Codec
import Workflow.Settings.Document
import Workflow.Source.Render
import Workflow.Table.Codec
import Workflow.Value.Reader
import Workflow.Proofs.Definition.Nesting
import Workflow.Proofs.Plan.Line
import Workflow.Proofs.Plan.Entries
import Workflow.Proofs.Table.Compiled
import Workflow.Proofs.Plan.Next
import Workflow.Proofs.Table.Closed
import Workflow.Proofs.Machine.Completion
import Workflow.Proofs.Host.Projection
import Workflow.Proofs.Host.Token
import Workflow.Proofs.Host.Outcome
import Workflow.Proofs.Host.Delivery
import Workflow.Proofs.Host.Move
import Workflow.Proofs.Host.Tracked
import Workflow.Proofs.Host.Run
import Workflow.Proofs.Host.Sequential
import Workflow.Proofs.Host.Recovery
import Workflow.Proofs.Host.Forked
import Workflow.Proofs.Host.Resumption
import Workflow.Proofs.Host.Placement
import Workflow.Proofs.Host.Faults
import Workflow.Proofs.Host.Commit
import Workflow.Proofs.Host.Open
import Workflow.Proofs.Host.Join
import Workflow.Proofs.Host.Fate
import Workflow.Proofs.Host.Cancellation
import Workflow.Proofs.Host.Activation
import Workflow.Proofs.Host.Rounds
import Workflow.Proofs.Definition.LoopNames
import Workflow.Proofs.Machine.Frame
import Workflow.Proofs.Host.Requests
import Workflow.Proofs.Machine.Turns
import Workflow.Proofs.Host.Loops
import Workflow.Proofs.Definition.Bodies
import Workflow.Proofs.Table.LoopControls
import Workflow.Proofs.Host.Handling
import Workflow.Proofs.Host.Ledger
import Workflow.Proofs.Definition.Budget
import Workflow.Proofs.Host.Costs
import Workflow.Proofs.Host.Drain
import Workflow.Proofs.Host.Exits
import Workflow.Proofs.Host.Reentry
import Workflow.Proofs.Table.RoundTrip
import Workflow.Proofs.Host.Lifecycle
import Workflow.Proofs.Host.Isolation
import Workflow.Proofs.Table.Reordering
import Workflow.Proofs.Definition.Laminar
import Workflow.Proofs.Table.Skeleton
import Workflow.Proofs.Host.Guarded
import Workflow.Proofs.State.Interleaving
import Workflow.Proofs.Plan.Identifiers
import Workflow.Proofs.Source.Literals
import Workflow.Proofs.Source.Skeleton
import Workflow.Proofs.Text.SnakeCase
import Workflow.Proofs.Table.Identifiers
import Workflow.Proofs.Table.Refusals
import Workflow.Proofs.Machine.Branching
import Workflow.Proofs.Host.Escalation
import Workflow.Proofs.Text.Fingerprint
import Workflow.Proofs.Source.Balance
