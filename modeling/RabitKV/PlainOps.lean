import RabitKV.ChunkPlan

/-!
# The plain operations on a runtime

Per-token append, bulk append, and a chunk plan of which only the first steps are applied. A plan
that is abandoned leaves the pages of its later steps in the cache.
-/

namespace RabitKV

/-- One operation with the tokens passed to it. -/
inductive PlainOp (H D : ℕ) where
  | append (cuda : Bool) (kvs : List (KV H D))
  | bulk (kvs : List (KV H D))
  | plan (kvs : List (KV H D)) (steps : ℕ) (pos : 0 < steps) (le : steps ≤ kvs.length)

namespace PlainOp

variable {H D : ℕ}

/-- The tokens passed to the operation. -/
def passed : PlainOp H D → List (KV H D)
  | append _ kvs => kvs
  | bulk kvs => kvs
  | plan kvs _ _ _ => kvs

/-- The tokens the runtime takes in. -/
def taken : PlainOp H D → List (KV H D)
  | append _ kvs => kvs
  | bulk kvs => kvs
  | plan kvs steps _ _ => kvs.take steps

variable {F ι : Type} [DecidableEq ι] (fp : Fp F Bf16) (row : List ι)

/-- The operation with the block table `row`. -/
def exec : PlainOp H D → SideM H D F (Physical ι) Unit
  | append cuda kvs => RabitKV.append fp cuda row (kvs.map Prod.fst) (kvs.map Prod.snd)
  | bulk kvs => bulkAppend fp row (kvs.map Prod.fst) (kvs.map Prod.snd)
  | plan kvs steps _ _ => do
    let plan ← chunkPlan fp row (kvs.map Prod.fst) (kvs.map Prod.snd)
    let _ ← applySteps 0 steps plan

/-- Operations one after another. -/
def execAll : List (PlainOp H D) → SideM H D F (Physical ι) Unit
  | [] => pure ()
  | op :: ops => do
    op.exec fp row
    execAll ops

/-- The tokens a list of operations takes in. -/
def total (ops : List (PlainOp H D)) : ℕ := (ops.map fun op => op.taken.length).sum

/-- The most tokens held before an operation and passed to it, from `held` tokens on. -/
def peak (held : ℕ) : List (PlainOp H D) → ℕ
  | [] => 0
  | op :: ops => max (held + op.passed.length) (peak (held + op.taken.length) ops)

end PlainOp

end RabitKV
