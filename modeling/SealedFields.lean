import SealedFields.Failure.Report
import SealedFields.Json.Tagged
import SealedFields.Log.Format
import SealedFields.Service.Batch
import SealedFields.Service.Computation
import SealedFields.Proofs.Cache.SingleFlight
import SealedFields.Proofs.Ciphertext.Accepted
import SealedFields.Proofs.Ciphertext.Compressed
import SealedFields.Proofs.Ciphertext.Unpacking
import SealedFields.Proofs.Ciphertext.Verified
import SealedFields.Proofs.Circuit.Acceptance
import SealedFields.Proofs.Circuit.Cycles
import SealedFields.Proofs.Circuit.Depth
import SealedFields.Proofs.Circuit.Ordering
import SealedFields.Proofs.Circuit.Progress
import SealedFields.Proofs.Circuit.RealizedDepth
import SealedFields.Proofs.Circuit.Reordering
import SealedFields.Proofs.Circuit.Schedule
import SealedFields.Proofs.Circuit.SuppliedPlans
import SealedFields.Proofs.Circuit.Writes
import SealedFields.Proofs.Engine.Closure
import SealedFields.Proofs.Engine.Faults
import SealedFields.Proofs.Engine.Neutral
import SealedFields.Proofs.Engine.Payloads
import SealedFields.Proofs.Engine.Reported
import SealedFields.Proofs.Engine.Rescaling
import SealedFields.Proofs.Engine.Several
import SealedFields.Proofs.FieldValue
import SealedFields.Proofs.Key.Binding
import SealedFields.Proofs.Key.FailClosed
import SealedFields.Proofs.Log.Redaction
import SealedFields.Proofs.Number.FloatBounds
import SealedFields.Proofs.Retry.Delays
import SealedFields.Proofs.Service.Accepted
import SealedFields.Proofs.Service.Batches
import SealedFields.Proofs.Service.Circuits
import SealedFields.Proofs.Service.Counting
