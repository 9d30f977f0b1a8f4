import RabitKV.Lib.Affine
import RabitKV.Lib.BitStream
import RabitKV.Lib.Checked
import RabitKV.Lib.Chunks
import RabitKV.Lib.Loads
import RabitKV.Lib.Profile
import RabitKV.Lib.Shadow
import RabitKV.Lib.Softmax
import RabitKV.Lib.Stores
import RabitKV.Lib.Trace
import RabitKV.Lib.Window
import RabitKV.Ageing
import RabitKV.Attention
import RabitKV.AttentionHelpers
import RabitKV.Bootstrap
import RabitKV.Bulk
import RabitKV.Canonical
import RabitKV.ChunkPlan
import RabitKV.Exact
import RabitKV.ExactReal
import RabitKV.FastAppend
import RabitKV.Forward
import RabitKV.Fp
import RabitKV.Inflight
import RabitKV.Int3Attention
import RabitKV.Int3Cache
import RabitKV.Int3Format
import RabitKV.Int3Serve
import RabitKV.Int3Spec
import RabitKV.Isolation
import RabitKV.Layout
import RabitKV.Lowbit
import RabitKV.Metadata
import RabitKV.Online
import RabitKV.Page
import RabitKV.PageKernel
import RabitKV.PageRef
import RabitKV.PlainOps
import RabitKV.Prefill
import RabitKV.Quant
import RabitKV.Registry
import RabitKV.Runtime
import RabitKV.Serve
import RabitKV.Sidecar
import RabitKV.Stage3b1
import RabitKV.Stage3c
import RabitKV.Storage
import RabitKV.Tail
import RabitKV.TwoModel
import RabitKV.Proofs.Ageing
import RabitKV.Proofs.Attention
import RabitKV.Proofs.Bfloat
import RabitKV.Proofs.Bootstrap
import RabitKV.Proofs.Bulk
import RabitKV.Proofs.Cancellation
import RabitKV.Proofs.Canonical
import RabitKV.Proofs.ChunkPlan
import RabitKV.Proofs.ErrorBound
import RabitKV.Proofs.Exact
import RabitKV.Proofs.ExactReal
import RabitKV.Proofs.FastAppend
import RabitKV.Proofs.FastCalls
import RabitKV.Proofs.Forward
import RabitKV.Proofs.ForwardPaths
import RabitKV.Proofs.Inflight
import RabitKV.Proofs.Int3Attention
import RabitKV.Proofs.Int3Cache
import RabitKV.Proofs.Int3Format
import RabitKV.Proofs.Int3Grid
import RabitKV.Proofs.Int3Launch
import RabitKV.Proofs.Int3Online
import RabitKV.Proofs.Int3Quant
import RabitKV.Proofs.Int3Race
import RabitKV.Proofs.Int3Serve
import RabitKV.Proofs.Isolation
import RabitKV.Proofs.Layout
import RabitKV.Proofs.Lives
import RabitKV.Proofs.Lowbit
import RabitKV.Proofs.Metadata
import RabitKV.Proofs.Online
import RabitKV.Proofs.Order
import RabitKV.Proofs.Page
import RabitKV.Proofs.PageKernel
import RabitKV.Proofs.PageRef
import RabitKV.Proofs.PlainOps
import RabitKV.Proofs.Prefill
import RabitKV.Proofs.Quant
import RabitKV.Proofs.Retry
import RabitKV.Proofs.Runtime
import RabitKV.Proofs.Serve
import RabitKV.Proofs.Served
import RabitKV.Proofs.Sidecar
import RabitKV.Proofs.Slots
import RabitKV.Proofs.Stage3b1
import RabitKV.Proofs.Stage3b1Views
import RabitKV.Proofs.Stage3c
import RabitKV.Proofs.Storage
import RabitKV.Proofs.Tail
import RabitKV.Proofs.TailValues
import RabitKV.Proofs.Tiles
import RabitKV.Proofs.TwoModel
