import RabitKV.AttentionHelpers
import RabitKV.Lib.Stores
import RabitKV.Lowbit

/-!
# Attention over the INT3 cache

`unified_attention_kvquant_k3`: a program of `_attn_int3_kernel` serves one block of query rows and
one KV head. It walks the paged cache tile by tile, cuts the three-bit codes out of two-byte
windows and keeps an online softmax per row. In 3D the tiles of a sequence are split into segments
whose partials `reduce_segments` merges.

Tensors are modelled address by address, with the strides the launcher passes. The outputs are not
scaled to FP8.
-/

namespace RabitKV

open Stores

/-- A tensor `[blocks, slots, heads, width]` and its strides. -/
structure PagedTensor (α : Type) where
  mem : ℕ → α
  stride0 : ℕ
  stride1 : ℕ
  stride2 : ℕ
  stride3 : ℕ

/-- One side of the cache, codes and scales; the scales have no last dimension. -/
structure Int3Side (F : Type) where
  cache : PagedTensor UInt8
  scale : ℕ → F
  strideBlk : ℕ
  strideSlot : ℕ
  strideHead : ℕ

/-- The parameters of `_attn_int3_kernel`. -/
structure Int3Args (F Q : Type) where
  query : ℕ → Q
  queryStride0 : ℕ
  queryStride1 : ℕ
  key : Int3Side F
  value : Int3Side F
  blockTables : ℕ → ℕ
  blockTableStride : ℕ
  blockSize : ℕ
  batch : Batch
  numQueryHeads : ℕ
  headSize : ℕ
  headSizePadded : ℕ
  tile : TileConsts
  scale : F
  softcap : Option F
  sinks : Option (ℕ → F)
  alibi : Option (Alibi F)
  qqBias : Option (QqBias F)
  mmPrefix : Option MmPrefix
  outputStride0 : ℕ
  outputStride1 : ℕ
  numSegments : ℕ

section Kernel

variable {F Q : Type} (fp : ScoreFp F) (dt : QDtype F Q) (a : Int3Args F Q)

section Row

/- One row `m` of the block `s` of query rows, for one KV head. -/
variable (s : SeqBlock) (kvHead m : ℕ)

/-- `query_pos` -/
def Int3Args.queryPos : ℕ := s.qBlockLocalIdx * a.tile.blockQ + m / a.tile.queriesPerKv

/-- `query_offset_0` -/
def Int3Args.queryOffset0 : ℕ := s.curStart + a.queryPos s m

/-- `query_offset_1` -/
def Int3Args.queryOffset1 : ℕ := kvHead * a.tile.queriesPerKv + m % a.tile.queriesPerKv

/-- `query_mask_0` -/
def Int3Args.queryMask0 : Bool := decide (a.queryPos s m < s.queryLen)

/-- `query_mask_1` -/
def Int3Args.queryMask1 : Bool := decide (a.queryOffset1 kvHead m < a.numQueryHeads)

/-- `Q` -/
def loadInt3Q (d : ℕ) : F :=
  if a.queryMask0 s m && a.queryMask1 kvHead m then
    dt.toF (a.query (a.queryOffset0 s m * a.queryStride0
      + a.queryOffset1 kvHead m * a.queryStride1 + d))
  else fp.lit 0

/-- `physical_block_idx` -/
def Int3Args.physicalBlock (seqOffset : ℕ) : ℕ :=
  a.blockTables (s.seqIdx * a.blockTableStride + seqOffset / a.blockSize)

/-- `tile_mask` -/
def Int3Args.tileMask (seqOffset : ℕ) : Bool :=
  decide (seqOffset < maxSeqPrefixLen a.tile s a.mmPrefix.isSome)

/-- `K_signed`, `V_signed` -/
def loadSigned (side : Int3Side F) (seqOffset d : ℕ) : F :=
  let addr0 := a.physicalBlock s seqOffset * side.cache.stride0 + kvHead * side.cache.stride2
    + seqOffset % a.blockSize * side.cache.stride1 + d * 3 / 8 * side.cache.stride3
  let lo := if a.tileMask s seqOffset then side.cache.mem addr0 else 0
  let hi := if a.tileMask s seqOffset then side.cache.mem (addr0 + side.cache.stride3) else 0
  let code := ((lo.toNat ||| hi.toNat <<< 8) >>> (d * 3 % 8)) &&& 7
  fp.sub (fp.lit code) (fp.lit 4)

/-- `k_scales`, `v_scales` -/
def loadScale (side : Int3Side F) (seqOffset : ℕ) : F :=
  if a.tileMask s seqOffset then
    side.scale (a.physicalBlock s seqOffset * side.strideBlk
      + seqOffset % a.blockSize * side.strideSlot + kvHead * side.strideHead)
  else fp.lit 1

/-- `S` before the mask. -/
def int3RawScore (seqOffset : ℕ) : F :=
  let rawDot := fp.sum ((List.range a.headSize).map fun d =>
    fp.mul (loadInt3Q fp dt a s kvHead m d) (loadSigned fp a s kvHead a.key seqOffset d))
  let sc := fp.mul (fp.mul (loadScale fp a s kvHead a.key seqOffset) a.scale) rawDot
  match a.softcap with
  | some x => applySoftcap fp sc x
  | none => sc

/-- `S`, with everything that is added to it. -/
def int3Score (seqOffset : ℕ) : F :=
  let queryPos := a.queryPos s m
  let seqMask := computeKvSeqMask a.tile.slidingWindow a.mmPrefix (s.contextLen + queryPos)
    seqOffset s.seqIdx
  let sc := if a.queryMask1 kvHead m && a.queryMask0 s m && seqMask then
    int3RawScore fp dt a s kvHead m seqOffset else fp.negInf
  let sc := match a.alibi with
    | some alibi =>
      let slope := if a.queryMask1 kvHead m then alibi.slope (a.queryOffset1 kvHead m)
        else fp.lit 0
      applyAlibiToScore fp sc slope alibi.useAlibiSqrt seqOffset s.contextLen queryPos
    | none => sc
  match a.qqBias with
  | some bias => fp.add sc (loadQqBiasTile fp bias queryPos seqOffset s.contextLen)
  | none => sc

/-- `V_signed` under `sw_mask` -/
def loadWindowedV (seqOffset d : ℕ) : F :=
  if 0 < a.tile.slidingWindow then
    let qposLo := s.qBlockLocalIdx * a.tile.blockQ
    if ((s.contextLen + qposLo : ℕ) : ℤ) - seqOffset < a.tile.slidingWindow then
      loadSigned fp a s kvHead a.value seqOffset d
    else fp.lit 0
  else loadSigned fp a s kvHead a.value seqOffset d

/-- The body of the tile loop, for tile `j`. -/
def int3Tile (st : Partial F) (j : ℕ) : Partial F :=
  let seqOffset := fun t => j * a.tile.tileSize + t
  let r := softmaxStep fp.toAttnFp a.tile.tileSize
    (fun t => int3Score fp dt a s kvHead m (seqOffset t)) st.m st.l
  let pv := fun t => fp.mul (r.p t) (loadScale fp a s kvHead a.value (seqOffset t))
  { m := r.m
    l := r.l
    acc := fun d => fp.add (fp.mul (st.acc d) r.alpha)
      (fp.sum ((List.range a.tile.tileSize).map fun t =>
        fp.mul (pv t) (loadWindowedV fp a s kvHead (seqOffset t) d))) }

/-- `M`, `L` and `acc` after the tile loop; the segment and its tile count in 3D. -/
def int3Row (segm : Option (ℕ × ℕ)) : Partial F :=
  let (loopLo, loopHi) := computeTileLoopBounds a.tile s a.mmPrefix.isSome segm
  (List.range' loopLo (loopHi - loopLo)).foldl (int3Tile fp dt a s kvHead m)
    { m := initSoftmaxM fp.toAttnFp a.sinks (a.queryOffset1 kvHead m) (a.queryMask1 kvHead m)
        (segm.map Prod.fst)
      l := fp.lit 1
      acc := fun _ => fp.lit 0 }

/-- The lanes `do_mask` leaves in. -/
def Int3Args.outDims : List ℕ :=
  (List.range a.headSizePadded).filter fun d => decide (d < a.headSize)

/-- The epilogue of one row in 2D. -/
def storeInt3Row : List (ℕ × Q) :=
  if a.queryMask0 s m && a.queryMask1 kvHead m then
    let st := int3Row fp dt a s kvHead m none
    a.outDims.map fun d => (a.queryOffset0 s m * a.outputStride0
      + a.queryOffset1 kvHead m * a.outputStride1 + d, dt.ofF (fp.div (st.acc d) st.l))
  else []

/-- The epilogue of one row in 3D, with `store_segm_reduce_scalars`. -/
def storeInt3Segm (segmIdx tilesPerSegment : ℕ) : List (Slot × F) :=
  if a.queryMask0 s m && a.queryMask1 kvHead m then
    let st := int3Row fp dt a s kvHead m (some (segmIdx, tilesPerSegment))
    let segmBase := a.queryOffset0 s m * (a.numQueryHeads * a.numSegments * a.headSizePadded)
      + a.queryOffset1 kvHead m * (a.numSegments * a.headSizePadded) + segmIdx * a.headSizePadded
    let segmOffset := a.queryOffset0 s m * (a.numQueryHeads * a.numSegments)
      + a.queryOffset1 kvHead m * a.numSegments + segmIdx
    (a.outDims.map fun d => (Slot.acc (segmBase + d), st.acc d))
      ++ [(Slot.m segmOffset, st.m), (Slot.l segmOffset, st.l)]
  else []

end Row

/-- `tiles_per_segment` -/
def Int3Args.tilesPerSegment (seqLen : ℕ) : ℕ := cdiv seqLen (a.numSegments * a.tile.tileSize)

/-- One program in 2D. -/
def int3Program (qBlockGlobalIdx kvHead : ℕ) : List (ℕ × Q) :=
  let s := resolveSeqAndQueryLen a.batch qBlockGlobalIdx a.tile.blockQ
  if s.queryLen ≤ s.qBlockLocalIdx * a.tile.blockQ then []
  else (List.range a.tile.blockM).flatMap fun m => storeInt3Row fp dt a s kvHead m

/-- One program in 3D. -/
def int3SegmProgram (qBlockGlobalIdx kvHead segmIdx : ℕ) : List (Slot × F) :=
  let s := resolveSeqAndQueryLen a.batch qBlockGlobalIdx a.tile.blockQ
  if s.queryLen ≤ s.qBlockLocalIdx * a.tile.blockQ then []
  else
    let tilesPerSegment := a.tilesPerSegment s.seqLen
    if s.seqLen ≤ segmIdx * tilesPerSegment * a.tile.tileSize then []
    else (List.range a.tile.blockM).flatMap fun m =>
      storeInt3Segm fp dt a s kvHead m segmIdx tilesPerSegment

/-- `_attn_int3_kernel` on the grid `(total_num_q_blocks, num_kv_heads)` -/
def attnInt3Kernel (qBlocks kvHeads : ℕ) : List (ℕ × Q) :=
  (List.range qBlocks).flatMap fun g => (List.range kvHeads).flatMap fun h =>
    int3Program fp dt a g h

/-- `_attn_int3_kernel` on the grid `(total_num_q_blocks, num_kv_heads, num_segments)` -/
def attnInt3SegmKernel (qBlocks kvHeads : ℕ) : List (Slot × F) :=
  (List.range qBlocks).flatMap fun g => (List.range kvHeads).flatMap fun h =>
    (List.range a.numSegments).flatMap fun segm => int3SegmProgram fp dt a g h segm

section Reduce

variable (mem : Slot → F) (queryTokenIdx queryHeadIdx : ℕ)

/-- `act_num_segments` -/
def actNumSegments : ℕ :=
  let seqLen := a.batch.seqLens (findSeqIdx a.batch queryTokenIdx a.tile.blockQ false)
  cdiv seqLen (a.tilesPerSegment seqLen * a.tile.tileSize)

/-- `segm_offset` -/
def Int3Args.segmOffset (segm : ℕ) : ℕ :=
  queryTokenIdx * (a.numQueryHeads * a.numSegments) + queryHeadIdx * a.numSegments + segm

/-- `segm_max` -/
def segmMax (segm : ℕ) : F :=
  if segm < actNumSegments a queryTokenIdx then
    mem (Slot.m (a.segmOffset queryTokenIdx queryHeadIdx segm))
  else fp.negInf

/-- `tl.exp(segm_max - overall_max)` -/
def segmWeight (segm : ℕ) : F :=
  let overallMax := fp.amax ((List.range a.numSegments).map
    (segmMax fp a mem queryTokenIdx queryHeadIdx))
  fp.exp (fp.sub (segmMax fp a mem queryTokenIdx queryHeadIdx segm) overallMax)

/-- `overall_expsum` -/
def overallExpsum : F :=
  fp.sum ((List.range a.numSegments).map fun segm => fp.mul
    (if segm < actNumSegments a queryTokenIdx then
      mem (Slot.l (a.segmOffset queryTokenIdx queryHeadIdx segm)) else fp.lit 0)
    (segmWeight fp a mem queryTokenIdx queryHeadIdx segm))

/-- `acc_sum` -/
def accSum (d : ℕ) : F :=
  fp.sum ((List.range a.numSegments).map fun segm => fp.mul
    (if segm < actNumSegments a queryTokenIdx ∧ d < a.headSize then
      mem (Slot.acc (queryTokenIdx * (a.numQueryHeads * a.numSegments * a.headSizePadded)
        + queryHeadIdx * (a.numSegments * a.headSizePadded) + segm * a.headSizePadded + d))
      else fp.lit 0)
    (segmWeight fp a mem queryTokenIdx queryHeadIdx segm))

/-- One program of `reduce_segments`. -/
def reduceSegmentsProgram : List (ℕ × Q) :=
  let expsum := overallExpsum fp a mem queryTokenIdx queryHeadIdx
  a.outDims.map fun d => (queryTokenIdx * a.outputStride0 + queryHeadIdx * a.outputStride1 + d,
    dt.ofF (if fp.eq expsum (fp.lit 0) then fp.lit 0
      else fp.div (accSum fp a mem queryTokenIdx queryHeadIdx d) expsum))

end Reduce

/-- `reduce_segments` on the grid `(num_tokens, num_query_heads)` -/
def reduceSegments (mem : Slot → F) (numTokens : ℕ) : List (ℕ × Q) :=
  (List.range numTokens).flatMap fun tok => (List.range a.numQueryHeads).flatMap fun qh =>
    reduceSegmentsProgram fp dt a mem tok qh

end Kernel

section Launch

/-- `_get_tile_size` -/
def getTileSize (headSize slidingWindow elementSize : ℕ) (isPrefill : Bool) : ℕ :=
  if slidingWindow = 1024 ∧ (headSize = 128 ∨ headSize = 256) then 32
  else if isPrefill then 32
  else if 2 ≤ elementSize then 16 else 32

/-- The buffers of the 3D path, as the call finds them, and when to use it. -/
structure SegmBuffers (F : Type) where
  seqThreshold3D : ℕ
  numParSoftmaxSegments : ℕ
  mem : Slot → F

/-- What a call of `unified_attention_kvquant_k3` hands over. -/
structure Int3Call (F Q : Type) where
  query : ℕ → Q
  queryStride0 : ℕ
  queryStride1 : ℕ
  numTokens : ℕ
  numQueryHeads : ℕ
  headSize : ℕ
  elementSize : ℕ
  key : Int3Side F
  value : Int3Side F
  blockSize : ℕ
  numKvHeads : ℕ
  batch : Batch
  maxSeqlenQ : ℕ
  softmaxScale : F
  /-- `window_size[0]` -/
  windowLeft : ℤ
  blockTable : ℕ → ℕ
  blockTableStride : ℕ
  softcap : F
  sinks : Option (ℕ → F)
  alibi : Option (Alibi F)
  qqBias : Option (QqBias F)
  mmPrefix : Option MmPrefix
  outStride0 : ℕ
  outStride1 : ℕ
  segm : Option (SegmBuffers F)
  isBatchInvariant : Bool

variable {F Q : Type} (fp : ScoreFp F) (dt : QDtype F Q) (c : Int3Call F Q)

/-- `num_queries_per_kv` -/
def Int3Call.queriesPerKv : ℕ := c.numQueryHeads / c.numKvHeads

/-- `BLOCK_M` -/
def Int3Call.blockM : ℕ := if c.queriesPerKv ≤ 16 then 16 else nextPowerOf2 c.queriesPerKv

/-- `BLOCK_Q` -/
def Int3Call.blockQ : ℕ := c.blockM / c.queriesPerKv

/-- `total_num_q_blocks` -/
def Int3Call.totalNumQBlocks : ℕ := c.numTokens / c.blockQ + c.batch.numSeqs

/-- The buffers, if `use_3d` -/
def Int3Call.use3d : Option (SegmBuffers F) :=
  c.segm.filter fun b => !(decide (1 < c.maxSeqlenQ) ||
    decide (b.seqThreshold3D < c.batch.numSeqs) || c.isBatchInvariant)

/-- The arguments of the kernels. -/
def Int3Call.args (useSoftcap is3d : Bool) (numSegments : ℕ) : Int3Args F Q where
  query := c.query
  queryStride0 := c.queryStride0
  queryStride1 := c.queryStride1
  key := c.key
  value := c.value
  blockTables := c.blockTable
  blockTableStride := c.blockTableStride
  blockSize := c.blockSize
  batch := c.batch
  numQueryHeads := c.numQueryHeads
  headSize := c.headSize
  headSizePadded := nextPowerOf2 c.headSize
  tile :=
    { tileSize := getTileSize c.headSize
        (if 0 ≤ c.windowLeft then (1 + c.windowLeft).toNat else 0) c.elementSize (!is3d)
      blockM := c.blockM
      blockQ := c.blockQ
      queriesPerKv := c.queriesPerKv
      slidingWindow := (1 + c.windowLeft).toNat }
  scale := c.softmaxScale
  softcap := if useSoftcap then some c.softcap else none
  sinks := c.sinks
  alibi := c.alibi
  qqBias := c.qqBias
  mmPrefix := c.mmPrefix
  outputStride0 := c.outStride0
  outputStride1 := c.outStride1
  numSegments := numSegments

/-- `unified_attention_kvquant_k3`: `out` after the launches. -/
def unifiedAttentionKvquantK3 (out : ℕ → Q) : ℕ → Q :=
  let useSoftcap := fp.lt (fp.lit 0) c.softcap
  match c.use3d with
  | some b =>
    let a := c.args useSoftcap true b.numParSoftmaxSegments
    let mem := storeAll b.mem (attnInt3SegmKernel fp dt a c.totalNumQBlocks c.numKvHeads)
    storeAll out (reduceSegments fp dt a mem c.numTokens)
  | none =>
    storeAll out (attnInt3Kernel fp dt (c.args useSoftcap false 1) c.totalNumQBlocks c.numKvHeads)

end Launch

end RabitKV
