import RabitKV.Lib.Stores
import RabitKV.PageKernel

/-!
# Dense attention over a prompt

`context_attention_fwd`: a program of `_fwd_kernel` serves one block of query rows of one head. It
walks the keys of its sequence block by block with an online softmax in base 2. A key that a row may
not see takes part with the score `-1.0e8`, and the weights are rounded to the dtype of the values
before they meet them.

A row is modelled with the lanes of its own program. Tensors lie with any strides, the last
dimension contiguous, and queries may have another dtype than keys and values.
-/

namespace RabitKV

open Stores

/-- What `_fwd_kernel` uses besides `AttnFp`. -/
structure PrefillFp (F : Type) extends AttnFp F where
  exp2 : F → F

/-- `RCP_LN2` -/
def rcpLn2 : ℚ := 14426950216 / 10 ^ 10

/-- A tensor `[tokens, heads, head_dim]`. -/
structure Rows (Q : Type) where
  mem : ℕ → Q
  ptr : ℕ
  strideBs : ℕ
  strideH : ℕ

/-- The entry at `[t, h, d]`. -/
def Rows.get {Q : Type} (x : Rows Q) (t h d : ℕ) : Q :=
  x.mem (x.ptr + (t * x.strideBs + h * x.strideH + d))

/-- `x[start:]` -/
def Rows.drop {Q : Type} (x : Rows Q) (start : ℕ) : Rows Q :=
  { x with ptr := x.ptr + start * x.strideBs }

/-- The parameters of `_fwd_kernel`. -/
structure FwdArgs (F Q E : Type) where
  q : Rows Q
  k : Rows E
  v : Rows E
  smScale : F
  bStartLoc : ℕ → ℕ
  bSeqlen : ℕ → ℕ
  strideObs : ℕ
  strideOh : ℕ
  kvGroupNum : ℕ
  blockM : ℕ
  blockDmodel : ℕ
  blockN : ℕ
  isCausal : Bool
  slidingWindowQ : ℤ
  slidingWindowK : ℤ
  lk : ℕ

section Kernel

variable {F Q E : Type} (fp : PrefillFp F) (dtq : QDtype F Q) (dtv : QDtype F E)
  (a : FwdArgs F Q E) (curBatch curHead : ℕ)

/-- `q` -/
def loadFwdQ (posQ d : ℕ) : F :=
  if decide (posQ < a.bSeqlen curBatch) && decide (d < a.lk) then
    dtq.toF (a.q.get (a.bStartLoc curBatch + posQ) curHead d)
  else fp.lit 0

/-- `k`, `v` -/
def loadFwdKv (x : Rows E) (posK d : ℕ) : F :=
  if decide (posK < a.bSeqlen curBatch) && decide (d < a.lk) then
    dtv.toF (x.get (a.bStartLoc curBatch + posK) (curHead / a.kvGroupNum) d)
  else fp.lit 0

/-- `mask` -/
def FwdArgs.mask (posQ posK : ℕ) : Bool :=
  let mask := decide (posK < a.bSeqlen curBatch)
  let mask := if a.isCausal then mask && decide (posK ≤ posQ) else mask
  let mask := if 0 < a.slidingWindowQ then
    mask && decide ((posQ : ℤ) - posK ≤ a.slidingWindowQ) else mask
  if 0 < a.slidingWindowK then mask && decide ((posK : ℤ) - posQ ≤ a.slidingWindowK) else mask

/-- `qk` before the running maximum is taken off. -/
def fwdScore (posQ posK : ℕ) : F :=
  if a.mask curBatch posQ posK then
    fp.mul (fp.sum ((List.range a.blockDmodel).map fun d =>
      fp.mul (loadFwdQ fp dtq a curBatch curHead posQ d)
        (loadFwdKv fp dtv a curBatch curHead a.k posK d))) a.smScale
  else fp.lit (-(10 ^ 8))

/-- The body of the loop over the keys, for one row. -/
def fwdStep (posQ : ℕ) (st : Partial F) (startN : ℕ) : Partial F :=
  let qk := fun n => fwdScore fp dtq dtv a curBatch curHead posQ (startN + n)
  let mij := fp.maximum st.m (fp.amax ((List.range a.blockN).map qk))
  let p := fun n => fp.exp2 (fp.sub (qk n) mij)
  let alpha := fp.exp2 (fp.sub st.m mij)
  { m := mij
    l := fp.add (fp.mul st.l alpha) (fp.sum ((List.range a.blockN).map p))
    acc := fun d => fp.add (fp.mul (st.acc d) alpha) (fp.sum ((List.range a.blockN).map fun n =>
      fp.mul (dtv.toF (dtv.ofF (p n)))
        (loadFwdKv fp dtv a curBatch curHead a.v (startN + n) d))) }

/-- `end_n_limit` -/
def FwdArgs.endN (startM : ℕ) : ℕ :=
  let blockMask := if a.blockM * startM < a.bSeqlen curBatch then 1 else 0
  let endN := if a.isCausal then min (a.bSeqlen curBatch) ((startM + 1) * a.blockM)
    else a.bSeqlen curBatch
  blockMask * endN

/-- `m_i`, `l_i` and `acc` of one row after the loop. -/
def fwdRow (startM posQ : ℕ) : Partial F :=
  ((List.range (cdiv (a.endN curBatch startM) a.blockN)).map (· * a.blockN)).foldl
    (fwdStep fp dtq dtv a curBatch curHead posQ) ⟨fp.negInf, fp.lit 0, fun _ => fp.lit 0⟩

/-- One program of `_fwd_kernel`. -/
def fwdProgram (startM : ℕ) : List (ℕ × Q) :=
  let rows := (List.range a.blockM).map fun i => startM * a.blockM + i
  (rows.filter fun posQ => decide (posQ < a.bSeqlen curBatch)).flatMap fun posQ =>
    let row := fwdRow fp dtq dtv a curBatch curHead startM posQ
    ((List.range a.blockDmodel).filter fun d => decide (d < a.lk)).map fun d =>
      ((a.bStartLoc curBatch + posQ) * a.strideObs + curHead * a.strideOh + d,
        dtq.ofF (fp.div (row.acc d) row.l))

/-- `_fwd_kernel` on the grid `(batch, head, blocks)` -/
def fwdKernel (batch head blocks : ℕ) : List (ℕ × Q) :=
  (List.range batch).flatMap fun curBatch => (List.range head).flatMap fun curHead =>
    (List.range blocks).flatMap fun startM => fwdProgram fp dtq dtv a curBatch curHead startM

end Kernel

/-- What `context_attention_fwd` is called with. -/
structure ContextCall (F Q E : Type) where
  q : Rows Q
  k : Rows E
  v : Rows E
  qHeads : ℕ
  kvHeads : ℕ
  headDim : ℕ
  /-- The strides of `o`. -/
  strideObs : ℕ
  strideOh : ℕ
  bStartLoc : ℕ → ℕ
  bSeqLen : ℕ → ℕ
  batch : ℕ
  maxInputLen : ℕ
  isCausal : Bool
  softmaxScale : F
  slidingWindowQ : Option ℤ
  slidingWindowK : Option ℤ

section Launch

variable {F Q E : Type} (fp : PrefillFp F) (dtq : QDtype F Q) (dtv : QDtype F E) (block : ℕ)

/-- The parameters of the launch. -/
def ContextCall.args (c : ContextCall F Q E) : FwdArgs F Q E where
  q := c.q
  k := c.k
  v := c.v
  smScale := fp.mul c.softmaxScale (fp.lit rcpLn2)
  bStartLoc := c.bStartLoc
  bSeqlen := c.bSeqLen
  strideObs := c.strideObs
  strideOh := c.strideOh
  kvGroupNum := c.qHeads / c.kvHeads
  blockM := block
  blockDmodel := nextPowerOf2 c.headDim
  blockN := block
  isCausal := c.isCausal
  slidingWindowQ := c.slidingWindowQ.getD 0
  slidingWindowK := c.slidingWindowK.getD 0
  lk := c.headDim

/-- `context_attention_fwd`, whatever block size `get_block_size` gives: what it stores to `o`. -/
def contextAttentionFwd (c : ContextCall F Q E) : List (ℕ × Q) :=
  fwdKernel fp dtq dtv (c.args fp block) c.batch c.qHeads (cdiv c.maxInputLen block)

end Launch

end RabitKV
