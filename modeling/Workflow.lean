import Workflow.Calendar
import Workflow.Config
import Workflow.Graph.Builder
import Workflow.Graph.Document
import Workflow.Run.Script
import Workflow.Schema.Document
import Workflow.Schema.Sample
import Workflow.Step.Document
import Workflow.Proofs.Closing
import Workflow.Proofs.Confluence
import Workflow.Proofs.Rearrangement
import Workflow.Proofs.Shuffle
import Workflow.Proofs.SingleAssignment
import Workflow.Proofs.WellFormed
import Workflow.Proofs.Extension
import Workflow.Proofs.Doubles
import Workflow.Proofs.Parameters
import Workflow.Proofs.Repair
import Workflow.Proofs.Validation
import Workflow.Proofs.Reading
import Workflow.Proofs.Artifacts
import Workflow.Proofs.Cancellation
import Workflow.Proofs.SourcePort
import Workflow.Proofs.Countdown
import Workflow.Proofs.NullRequests
import Workflow.Proofs.GraphDocument
import Workflow.Proofs.PipelineDocument
import Workflow.Proofs.Precedence
import Workflow.Proofs.Confinement
import Workflow.Proofs.Handles
import Workflow.Proofs.Steps
import Workflow.Proofs.Indices
import Workflow.Proofs.Deliveries
import Workflow.Proofs.Stopping
import Workflow.Proofs.Selection
import Workflow.Proofs.Trimming
import Workflow.Proofs.Matching
import Workflow.Proofs.Rejoining
import Workflow.Proofs.Defects
import Workflow.Proofs.Prompts
import Workflow.Proofs.ValueDocument
import Workflow.Proofs.Fences
import Workflow.Proofs.Registration
import Workflow.Proofs.Guidance
import Workflow.Proofs.Positions
import Workflow.Proofs.Ports
import Workflow.Proofs.Paths
import Workflow.Proofs.Leaves
import Workflow.Proofs.DigitBits
import Workflow.Proofs.Payloads
