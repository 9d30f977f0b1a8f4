import RabitKV.Prefill
import RabitKV.Registry
import RabitKV.Stage3c

/-!
# A forward pass with its outputs

`_forward_rabit_kv2` in full: each request of the batch moves its runtime on and fills its rows of
the output. A prompt at context 0 is appended in bulk and attended to densely, from the keys and
values themselves. A later chunk goes through one of the Stage 3C paths, a single token through the
fast append and decode attention, both over pages and tail.

The decoder checks in front of the batch are left out. Queries and outputs are contiguous
`[num_tokens, q_heads, head_size]`. The tail workspace is handed from call to call.
-/

namespace RabitKV

open Stores

/-- `rabit2_stage3c_impl()`, with the query block of `shared_decode`. -/
inductive Stage3cImpl
  | reference
  | tile32
  | sharedDecode (queryBlock : ℕ)

/-- What a pass of one layer is given, and what the tensors it allocates happen to hold. -/
structure Pass (F Q : Type) where
  query : ℕ → Q
  key : Rows Bf16
  value : Rows Bf16
  qHeads : ℕ
  scale : F
  impl : Stage3cImpl
  /-- `get_block_size(q.dtype)` -/
  block : ℕ
  fast : String → FastBuffers F
  junk : String → ℕ → Uninit F Q

/-- Token `t` of `key` and `value`. -/
def Pass.token {F Q : Type} (x : Pass F Q) (H D t : ℕ) : KV H D :=
  (fun h d => x.key.get t h d, fun h d => x.value.get t h d)

/-- The first `n` tokens. -/
def Pass.tokens {F Q : Type} (x : Pass F Q) (H D n : ℕ) : List (KV H D) :=
  (List.range n).map (x.token H D)

/-- The output tensor and the tail workspace. -/
structure Filled (F Q : Type) where
  out : ℕ → Q
  workspace : Option (Workspace F)

/-- `out[base:]` as a tensor of its own. -/
def viewAt {Q : Type} (out : ℕ → Q) (base : ℕ) : ℕ → Q := fun a => out (base + a)

/-- The tensor whose view from `base` on is `view`. -/
def putView {Q : Type} (out : ℕ → Q) (base : ℕ) (view : ℕ → Q) : ℕ → Q := fun a =>
  if base ≤ a then view (a - base) else out a

section Pass

variable {F Q : Type} (fp : PrefillFp F) (dt : QDtype F Q) (cuda : Bool) {H D : ℕ} (x : Pass F Q)

/-- The call of `context_attention_fwd` for the prompt of `qLen` tokens from token `q0` on. -/
def Pass.contextCall (H D q0 qLen : ℕ) : ContextCall F Q Bf16 where
  q := ⟨x.query, q0 * (x.qHeads * D), x.qHeads * D, D⟩
  k := x.key.drop q0
  v := x.value.drop q0
  qHeads := x.qHeads
  kvHeads := H
  headDim := D
  strideObs := x.qHeads * D
  strideOh := D
  bStartLoc := fun i => [0, qLen].getD i 0
  bSeqLen := fun i => [qLen].getD i 0
  batch := 1
  maxInputLen := qLen
  isCausal := true
  softmaxScale := x.scale
  slidingWindowQ := some (-1)
  slidingWindowK := some (-1)

/-- What the Stage 3C paths work with for the tokens from `q0` on. -/
def Pass.chunk (H D : ℕ) (reqId : String) (row : List ℕ) (q0 : ℕ) : Chunk H D F Q where
  layout := pageLayout groupSize H D D
  q := ⟨x.query, q0 * (x.qHeads * D)⟩
  qHeads := x.qHeads
  row := row
  softmaxScale := x.scale
  junk := x.junk reqId

variable (reqId : String) (row : List ℕ) (q0 : ℕ) (chunk : List (KV H D))

/-- A prompt: `rabit2_bulk_append_exact` and `context_attention_fwd`. -/
def attendPrompt (o : Filled F Q) : LiveM H D F ℕ (Filled F Q) := do
  onHeld (bulkAppend fp.toFp row (chunk.map Prod.fst) (chunk.map Prod.snd))
  let base := q0 * (x.qHeads * D)
  let stores := contextAttentionFwd fp dt ⟨fp.ofB, fp.toB⟩ x.block
    (x.contextCall H D q0 chunk.length)
  return { o with out := putView o.out base (storeAll (viewAt o.out base) stores) }

/-- A later chunk: the selected path, or the reference path if that does not apply. -/
def attendChunk (o : Filled F Q) : SideM H D F (Physical ℕ) (Filled F Q) := do
  let c : Chunk H D F Q := x.chunk H D reqId row q0
  let key := chunk.map Prod.fst
  let value := chunk.map Prod.snd
  let base := q0 * (x.qHeads * D)
  let view := viewAt o.out base
  let tiled ← match x.impl with
    | .reference => pure none
    | .tile32 => forwardTile32 fp.toAttnFp dt c cuda key value view o.workspace
    | .sharedDecode queryBlock =>
      forwardSharedDecode fp.toAttnFp dt c cuda queryBlock key value view o.workspace
  match tiled with
  | some run => return ⟨putView o.out base run.out, run.workspace⟩
  | none =>
    let run ← forwardReference fp.toAttnFp dt c key value view o.workspace
    return ⟨putView o.out base run.out, run.workspace⟩

/-- One token: `runtime.append`, then decode attention. -/
def attendToken (o : Filled F Q) : LiveM H D F ℕ (Filled F Q) := do
  fastDecodeAppend fp.toFp (x.fast reqId) cuda row (chunk.map Prod.fst) (chunk.map Prod.snd)
  let c : Chunk H D F Q := x.chunk H D reqId row q0
  let base := q0 * (x.qHeads * D)
  let s ← get
  let run ← MonadExcept.ofExcept (onlineDecodeAttention fp.toAttnFp dt (c.junk 0) c.layout
    (c.query 0) c.qHeads s.held.rest.cache row s.held.side s.held.rest.closedPages c.softmaxScale
    o.workspace)
  return ⟨putView o.out base (c.copyRows (viewAt o.out base) 0 1 run.out), run.workspace⟩

/-- The new tokens of a request that has its runtime. -/
def attendStep (contextLen : ℤ) (o : Filled F Q) : LiveM H D F ℕ (Filled F Q) :=
  if contextLen = 0 ∧ 1 < chunk.length then attendPrompt fp dt x row q0 chunk o
  else if 1 < chunk.length then onHeld (attendChunk fp dt cuda x reqId row q0 chunk o)
  else attendToken fp dt cuda x reqId row q0 chunk o

/-- The turn of one request in the loop over the active batch. -/
def attendRequest (contextLen : ℤ) (o : Filled F Q) : LayerM H D F ℕ (Filled F Q) := do
  if chunk.length = 0 then return o
  let layer ← get
  match bindRuntime reqId contextLen layer with
  | .error e => throw e
  | .ok rt => onRuntime reqId rt (attendStep fp dt cuda x reqId row q0 chunk contextLen o)

end Pass

section Batch

variable {F Q : Type} (fp : PrefillFp F) (dt : QDtype F Q) (cuda : Bool) {H D : ℕ} (x : Pass F Q)

/-- The loop from request `seqIdx` and token `q0` on, as in `forwardItems`. -/
def attendItems (blockTable : List (List ℕ)) (tokens : List (KV H D)) :
    ℤ → ℕ → List (String × ℤ × ℤ) → Filled F Q → LayerM H D F ℕ (Filled F Q)
  | _, _, [], o => return o
  | q0, seqIdx, (reqId, qLen, contextLen) :: rest, o => do
    let chunk := (tokens.drop q0.toNat).take qLen.toNat
    if chunk.length = 0 then attendItems blockTable tokens (q0 + qLen) (seqIdx + 1) rest o
    else
      match blockTable[seqIdx]? with
      | none => throw (if contextLen < 0 then
          s!"RABIT-2 invalid context length for {reqId}: {contextLen}"
          else "IndexError: index is out of bounds")
      | some row =>
        let o ← attendRequest fp dt cuda x reqId row q0.toNat chunk contextLen o
        attendItems blockTable tokens (q0 + qLen) (seqIdx + 1) rest o

/-- `_forward_rabit_kv2` -/
def forwardRabitKv2 (activeBatch : List (String × ℤ × ℤ)) (batch : BatchMeta ℕ)
    (numActualTokens : ℕ) (o : Filled F Q) : LayerM H D F ℕ (Filled F Q) := do
  if numActualTokens = 0 then return o
  match forwardBatch activeBatch batch numActualTokens with
  | .error e => throw e
  | .ok items =>
    attendItems fp dt cuda x batch.blockTable (x.tokens H D numActualTokens) 0 0 items o

end Batch

end RabitKV
