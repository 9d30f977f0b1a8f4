import RabitKV.PageKernel

/-!
# The helpers of the unified attention kernels

`triton_attention_helpers.py`: which sequence and which block of query rows a program serves, which
tiles of keys it walks, which keys of a tile a query row sees, and the online softmax over the
tiles. A vector operation is written for one lane.

Lengths and positions are natural numbers: a batch has `query_start_loc[0] = 0` and counts the query
tokens of a sequence in its length. Only the window arithmetic can go below zero and is done over
the integers; `//` of Triton rounds towards zero there.
-/

namespace RabitKV

/-- What the scores use besides `AttnFp`. -/
structure ScoreFp (F : Type) extends AttnFp F where
  sqrt : F → F

/-- `query_start_len_ptr`, `seq_lens_ptr` and `num_seqs` -/
structure Batch where
  queryStartLen : ℕ → ℕ
  seqLens : ℕ → ℕ
  numSeqs : ℕ

section Search

/-- The loop of `find_seq_idx`. The fuel is what `right - left` can be at most. -/
def searchLoop (midVal : ℕ → ℕ) (targetIdx : ℕ) : ℕ → ℕ → ℕ → ℕ
  | 0, left, _ => left
  | fuel + 1, left, right =>
    if left < right then
      let mid := (left + right) / 2
      if midVal mid ≤ targetIdx then searchLoop midVal targetIdx fuel (mid + 1) right
      else searchLoop midVal targetIdx fuel left mid
    else left

/-- `mid_val` -/
def Batch.midVal (b : Batch) (blockQ : ℕ) (useQBlockMode : Bool) (mid : ℕ) : ℕ :=
  if useQBlockMode then b.queryStartLen mid / blockQ + mid else b.queryStartLen mid

/-- `find_seq_idx` -/
def findSeqIdx (b : Batch) (targetIdx blockQ : ℕ) (useQBlockMode : Bool) : ℕ :=
  searchLoop (b.midVal blockQ useQBlockMode) targetIdx b.numSeqs 0 b.numSeqs - 1

/-- What `resolve_seq_and_query_len` returns. -/
structure SeqBlock where
  seqIdx : ℕ
  qBlockLocalIdx : ℕ
  curStart : ℕ
  queryLen : ℕ
  seqLen : ℕ
deriving DecidableEq, Repr

/-- `resolve_seq_and_query_len` -/
def resolveSeqAndQueryLen (b : Batch) (qBlockGlobalIdx blockQ : ℕ) : SeqBlock :=
  let seqIdx := findSeqIdx b qBlockGlobalIdx blockQ true
  let qBlockStartIdx := b.queryStartLen seqIdx / blockQ + seqIdx
  { seqIdx
    qBlockLocalIdx := qBlockGlobalIdx - qBlockStartIdx
    curStart := b.queryStartLen seqIdx
    queryLen := b.queryStartLen (seqIdx + 1) - b.queryStartLen seqIdx
    seqLen := b.seqLens seqIdx }

/-- `context_len` -/
def SeqBlock.contextLen (s : SeqBlock) : ℕ := s.seqLen - s.queryLen

end Search

section Tiles

/-- `TILE_SIZE`, `BLOCK_M`, `BLOCK_Q`, `num_queries_per_kv` and `SLIDING_WINDOW` -/
structure TileConsts where
  tileSize : ℕ
  blockM : ℕ
  blockQ : ℕ
  queriesPerKv : ℕ
  slidingWindow : ℕ

/-- `max_seq_prefix_len` -/
def maxSeqPrefixLen (c : TileConsts) (s : SeqBlock) (useMmPrefix : Bool) : ℕ :=
  if useMmPrefix then s.seqLen
  else min (s.contextLen + s.qBlockLocalIdx * c.blockQ + (c.blockM - 1) / c.queriesPerKv + 1)
    s.seqLen

/-- `tile_start` and `tile_end` -/
def tileRange (c : TileConsts) (s : SeqBlock) (useMmPrefix : Bool) : ℕ × ℕ :=
  let numTiles := cdiv (maxSeqPrefixLen c s useMmPrefix) c.tileSize
  if 0 < c.slidingWindow ∧ useMmPrefix = false then
    let qposLo := s.qBlockLocalIdx * c.blockQ
    let qposHi := min (qposLo + (c.blockM - 1) / c.queriesPerKv) (s.queryLen - 1)
    let firstAllowedKey : ℤ := ((s.contextLen + qposLo : ℕ) : ℤ) - c.slidingWindow + 1
    let lastAllowedKey := s.contextLen + qposHi
    ((max 0 (firstAllowedKey.tdiv c.tileSize)).toNat,
      min (lastAllowedKey / c.tileSize + 1) numTiles)
  else (0, numTiles)

/-- `loop_lo` and `loop_hi` of `compute_tile_loop_bounds`; a segment and its tile count in 3D. -/
def computeTileLoopBounds (c : TileConsts) (s : SeqBlock) (useMmPrefix : Bool)
    (segm : Option (ℕ × ℕ)) : ℕ × ℕ :=
  let (tileStart, tileEnd) := tileRange c s useMmPrefix
  match segm with
  | some (segmIdx, tilesPerSegment) =>
    (max (segmIdx * tilesPerSegment) tileStart, min ((segmIdx + 1) * tilesPerSegment) tileEnd)
  | none => (tileStart, tileEnd)

end Tiles

section Mask

/-- `mm_prefix_range`, `[num_seqs, MAX_MM_RANGES, 2]` -/
structure MmPrefix where
  maxMmRanges : ℕ
  range : ℕ → ℤ

/-- `mm_mask` of one range. -/
def MmPrefix.mask (mm : MmPrefix) (queryAbsPos seqOffset seqIdx i : ℕ) : Bool :=
  let rangeStart := mm.range (seqIdx * mm.maxMmRanges * 2 + i * 2)
  let rangeEnd := mm.range (seqIdx * mm.maxMmRanges * 2 + i * 2 + 1)
  let isValid := decide (rangeStart < rangeEnd)
  let qInRange := decide (rangeStart ≤ queryAbsPos) && decide (queryAbsPos ≤ rangeEnd) && isValid
  let kInRange := decide (rangeStart ≤ seqOffset) && decide (seqOffset ≤ rangeEnd) && isValid
  qInRange && kInRange

/-- `compute_kv_seq_mask` with the defaults of its flags. -/
def computeKvSeqMask (slidingWindow : ℕ) (mmPrefix : Option MmPrefix)
    (queryAbsPos seqOffset seqIdx : ℕ) : Bool :=
  let seqMask := decide (seqOffset ≤ queryAbsPos)
  let seqMask := if 0 < slidingWindow then
    seqMask && decide ((queryAbsPos : ℤ) - seqOffset < slidingWindow) else seqMask
  match mmPrefix with
  | none => seqMask
  | some mm => (List.range mm.maxMmRanges).foldl
      (fun seqMask i => seqMask || mm.mask queryAbsPos seqOffset seqIdx i) seqMask

end Mask

section Scores

variable {F : Type} (fp : ScoreFp F)

/-- `apply_softcap` -/
def applySoftcap (s x : F) : F :=
  let sdiv := fp.div s x
  let p1 := fp.exp sdiv
  let p2 := fp.exp (fp.mul (fp.lit (-1)) sdiv)
  fp.div (fp.mul x (fp.sub p1 p2)) (fp.add p1 p2)

/-- `alibi_slopes` and `USE_ALIBI_SQRT` -/
structure Alibi (F : Type) where
  slope : ℕ → F
  useAlibiSqrt : Bool

/-- `alibi_offset` -/
def alibiOffset (useAlibiSqrt : Bool) (seqOffset contextLen queryPos : ℕ) : F :=
  if useAlibiSqrt then
    if seqOffset ≤ contextLen + queryPos then
      fp.mul (fp.lit (-1)) (fp.sqrt (fp.lit ((contextLen + queryPos - seqOffset : ℕ) : ℚ)))
    else fp.lit 0
  else fp.lit (((seqOffset : ℤ) - contextLen : ℤ) : ℚ)

/-- `apply_alibi_to_score` -/
def applyAlibiToScore (s alibiSlope : F) (useAlibiSqrt : Bool)
    (seqOffset contextLen queryPos : ℕ) : F :=
  fp.add s (fp.mul alibiSlope (alibiOffset fp useAlibiSqrt seqOffset contextLen queryPos))

/-- `qq_bias` and `qq_bias_stride_0` -/
structure QqBias (F : Type) where
  mem : ℕ → F
  stride0 : ℕ

/-- `load_qq_bias_tile` -/
def loadQqBiasTile (bias : QqBias F) (queryPos seqOffset contextLen : ℕ) : F :=
  if contextLen ≤ seqOffset ∧ seqOffset - contextLen < bias.stride0 then
    bias.mem (queryPos * bias.stride0 + (seqOffset - contextLen))
  else fp.lit 0

end Scores

section Softmax

variable {F : Type} (fp : AttnFp F)

/-- `init_softmax_M` of one row; the segment in 3D. -/
def initSoftmaxM (sinks : Option (ℕ → F)) (queryOffset1 : ℕ) (queryMask1 : Bool)
    (segm : Option ℕ) : F :=
  match sinks with
  | none => fp.negInf
  | some sink =>
    if segm = none ∨ segm = some 0 then
      if queryMask1 then sink queryOffset1 else fp.negInf
    else fp.negInf

/-- What `softmax_step` returns for one row of `n` scores. -/
structure SoftmaxStep (F : Type) where
  m : F
  l : F
  p : ℕ → F
  alpha : F

/-- `softmax_step` -/
def softmaxStep (n : ℕ) (s : ℕ → F) (m l : F) : SoftmaxStep F :=
  let mj := fp.maximum m (fp.amax ((List.range n).map s))
  -- a row with no key so far
  let mj := if fp.lt fp.negInf mj then mj else fp.lit 0
  let p := fun t => fp.exp (fp.sub (s t) mj)
  let lj := fp.sum ((List.range n).map p)
  let alpha := fp.exp (fp.sub m mj)
  { m := mj, l := fp.add (fp.mul l alpha) lj, p, alpha }

end Softmax

end RabitKV
