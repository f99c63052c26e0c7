import ProofStepper.Debugger.Operation
import ProofStepper.Main
import ProofStepper.Proofs.Debugger.Coherence
import ProofStepper.Proofs.Debugger.Images
import ProofStepper.Proofs.Graph.Drops
import ProofStepper.Proofs.Scheduler.Calls
import ProofStepper.Proofs.Trace.DepthFirst
import ProofStepper.Rpc.Http
import ProofStepper.Scheduler.Timeline
import ProofStepper.Proofs.Scheduler.Delivery
import ProofStepper.Proofs.Debugger.Places
import ProofStepper.Proofs.Debugger.Snapshots
import ProofStepper.Proofs.Debugger.Pages
import ProofStepper.Proofs.Debugger.Isolation
import ProofStepper.Proofs.Debugger.Traces
import ProofStepper.Proofs.Trace.Advanced
import ProofStepper.Proofs.Task.Sections
import ProofStepper.Proofs.Scheduler.Closing
import ProofStepper.Proofs.Scheduler.Removal
import ProofStepper.Proofs.Scheduler.Effort
import ProofStepper.Proofs.Scheduler.Verdicts
import ProofStepper.Proofs.Scheduler.Progress
import ProofStepper.Proofs.Rpc.Answers
import ProofStepper.Proofs.Json.Shape
import ProofStepper.Proofs.Rpc.Messages
import ProofStepper.Proofs.Graph.Descendants
import ProofStepper.Proofs.Trace.Suffix
import ProofStepper.Proofs.Trace.Repeats
import ProofStepper.Proofs.Json.Reading
import ProofStepper.Proofs.Json.Literals
import ProofStepper.Proofs.Json.Steady
import ProofStepper.Proofs.Json.Written
import ProofStepper.Proofs.Log.Records
import ProofStepper.Proofs.Log.Texts
import ProofStepper.Proofs.Trace.Confinement
import ProofStepper.Proofs.Trace.Extension
import ProofStepper.Proofs.Trace.Hidden
import ProofStepper.Proofs.Debugger.HeapRequests
import ProofStepper.Proofs.Graph.Grouping
import ProofStepper.Proofs.Json.Members
import ProofStepper.Proofs.Log.Decoding
import ProofStepper.Proofs.Debugger.Resets
import ProofStepper.Proofs.Scheduler.Alone
import ProofStepper.Proofs.Scheduler.Refusals
import ProofStepper.Proofs.Debugger.Revisions
import ProofStepper.Proofs.Heap.Image
import ProofStepper.Proofs.Heap.Store
