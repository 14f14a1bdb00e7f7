import Handover.Evaluation.Run
import Handover.Generation
import Handover.Program.Buffers
import Handover.Proofs.Ledger.Account
import Handover.Proofs.Computation
import Handover.Proofs.PlainErrors
import Handover.Proofs.Generation.LastUse
import Handover.Storage.Archive
import Handover.Graph.Listing
import Handover.Proofs.Check.Structure
import Handover.Proofs.Check.Passing
import Handover.Proofs.Generation.Faultless
import Handover.Proofs.Graph.Building
import Handover.Proofs.Check.Prediction
import Handover.Proofs.Ownership.Machine
import Handover.Proofs.Ownership.Separation
import Handover.Proofs.Check.Accepted
import Handover.Proofs.Ownership.Denotation
import Handover.Proofs.Ownership.Simulation
import Handover.Proofs.Ownership.Soundness
import Handover.Proofs.Ledger.Protocol
import Handover.Proofs.Evaluation.Binding
import Handover.Proofs.Storage.Reloading
import Handover.Proofs.Storage.Interrupted
import Handover.Proofs.Graph.Copying
import Handover.Proofs.Generation.Batch
import Handover.Proofs.Graph.Additions
import Handover.Proofs.Generation.ReachingDefinitions
import Handover.Proofs.Text.Template
import Handover.Proofs.Generation.Style
import Handover.Proofs.Generation.Layout
import Handover.Proofs.Generation.Strictness
import Handover.Proofs.Generation.UnusedValues
import Handover.Proofs.Evaluation.Pruning
import Handover.Proofs.Check.Verdict
import Handover.Proofs.Ledger.Journal
import Handover.Proofs.Generation.Statistics
import Handover.Proofs.Generation.ReturnedConstants
import Handover.Proofs.Generation.Signature
import Handover.Proofs.Ledger.Isolation
import Handover.Proofs.Check.IdentifierForms
import Handover.Proofs.Evaluation.Joining
import Handover.Proofs.Storage.Resaving
import Handover.Proofs.Literal.Denotation
import Handover.Proofs.Ledger.Predecessor
import Handover.Proofs.Text.Separators
