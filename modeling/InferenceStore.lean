import InferenceStore.Backend.Arithmetic
import InferenceStore.Backend.Plain
import InferenceStore.Backend.Probe
import InferenceStore.Engine.Session
import InferenceStore.Proofs.Queue.Selection
import InferenceStore.Proofs.Queue.Step
import InferenceStore.Proofs.Queue.Waking
import InferenceStore.Proofs.Queue.Signals
import InferenceStore.Proofs.Queue.Transparency
import InferenceStore.Proofs.Queue.Delivery
import InferenceStore.Proofs.Queue.Driver
import InferenceStore.Proofs.Command.Runs
import InferenceStore.Proofs.Dag.Course
import InferenceStore.Proofs.Dag.Grammar
import InferenceStore.Proofs.Dag.Persist
import InferenceStore.Proofs.Dag.Start
import InferenceStore.Proofs.Service.Clients
import InferenceStore.Proofs.Service.Graphs
import InferenceStore.Proofs.Service.Effects
import InferenceStore.Proofs.Queue.Counts
import InferenceStore.Proofs.Service.Instances
import InferenceStore.Proofs.Service.Reachable
import InferenceStore.Proofs.Dag.Dependencies
import InferenceStore.Proofs.Service.Failures
import InferenceStore.Proofs.Dag.Determinism
import InferenceStore.Proofs.Service.Submissions
import InferenceStore.Proofs.Service.Snapshot
import InferenceStore.Proofs.Service.Standalone
import InferenceStore.Proofs.Service.Driver
import InferenceStore.Proofs.Dag.Language
import InferenceStore.Proofs.Encoding.Recovery
import InferenceStore.Proofs.Service.Twins
import InferenceStore.Proofs.Service.Management
import InferenceStore.Proofs.Queue.Statistics
import InferenceStore.Proofs.Dag.Keys
import InferenceStore.Proofs.Service.Slots
import InferenceStore.Proofs.Service.Steps
import InferenceStore.Proofs.Service.Regular
import InferenceStore.Proofs.Queue.Heads
import InferenceStore.Proofs.Queue.WakeUp
import InferenceStore.Proofs.Tensor.Cutting
import InferenceStore.Proofs.Tensor.Rows
import InferenceStore.Proofs.Queue.Shares
import InferenceStore.Proofs.Encoding.Truncation
import InferenceStore.Proofs.Encoding.Rewriting
import InferenceStore.Proofs.Tensor.Representation
import InferenceStore.Proofs.Queue.Sums
import InferenceStore.Proofs.Command.Scopes
import InferenceStore.Proofs.Command.Deprecated
import InferenceStore.Proofs.Command.Storing
import InferenceStore.Proofs.Encoding.Migration
import InferenceStore.Proofs.Tensor.Texts
import InferenceStore.Proofs.Command.Tensors
import InferenceStore.Proofs.Dag.TensorOps
import InferenceStore.Proofs.Service.Commuting
import InferenceStore.Proofs.Keyspace.Slot
import InferenceStore.Proofs.Service.Blobs
