import RabitKV.ExactReal
import RabitKV.Int3Attention
import RabitKV.Lib.Softmax

/-!
# What attention over the INT3 cache is

`Int3Args.attention` is the softmax attention of one query row over the dequantised entries of the
paged cache: the keys the mask lets the row see, the scores with soft cap, ALiBi and query bias, and
a sink, where the head has one, as one more token whose value is zero. It knows nothing of tiles,
segments or blocks of rows.
-/

namespace RabitKV

open Softmax

/-- Exact arithmetic for the scores. -/
noncomputable def realScoreFp (toB : EReal → Bf16) (ofB : Bf16 → ℝ) : ScoreFp EReal where
  toAttnFp := realFp toB ofB
  sqrt := fun x => (Real.sqrt x.toReal : EReal)

section Map

variable {F G Q : Type} (f : F → G)

/-- The same tensors with other scalars. -/
@[simps]
def Int3Side.map (side : Int3Side F) : Int3Side G where
  cache := side.cache
  scale := fun i => f (side.scale i)
  strideBlk := side.strideBlk
  strideSlot := side.strideSlot
  strideHead := side.strideHead

@[simps]
def Alibi.map (alibi : Alibi F) : Alibi G := ⟨fun i => f (alibi.slope i), alibi.useAlibiSqrt⟩

@[simps]
def QqBias.map (bias : QqBias F) : QqBias G := ⟨fun i => f (bias.mem i), bias.stride0⟩

@[simps]
def Int3Args.map (a : Int3Args F Q) : Int3Args G Q where
  query := a.query
  queryStride0 := a.queryStride0
  queryStride1 := a.queryStride1
  key := a.key.map f
  value := a.value.map f
  blockTables := a.blockTables
  blockTableStride := a.blockTableStride
  blockSize := a.blockSize
  batch := a.batch
  numQueryHeads := a.numQueryHeads
  headSize := a.headSize
  headSizePadded := a.headSizePadded
  tile := a.tile
  scale := f a.scale
  softcap := a.softcap.map f
  sinks := a.sinks.map fun sink i => f (sink i)
  alibi := a.alibi.map (Alibi.map f)
  qqBias := a.qqBias.map (QqBias.map f)
  mmPrefix := a.mmPrefix
  outputStride0 := a.outputStride0
  outputStride1 := a.outputStride1
  numSegments := a.numSegments

@[simps]
def Int3Call.map (c : Int3Call F Q) : Int3Call G Q where
  query := c.query
  queryStride0 := c.queryStride0
  queryStride1 := c.queryStride1
  numTokens := c.numTokens
  numQueryHeads := c.numQueryHeads
  headSize := c.headSize
  elementSize := c.elementSize
  key := c.key.map f
  value := c.value.map f
  blockSize := c.blockSize
  numKvHeads := c.numKvHeads
  batch := c.batch
  maxSeqlenQ := c.maxSeqlenQ
  softmaxScale := f c.softmaxScale
  windowLeft := c.windowLeft
  blockTable := c.blockTable
  blockTableStride := c.blockTableStride
  softcap := f c.softcap
  sinks := c.sinks.map fun sink i => f (sink i)
  alibi := c.alibi.map (Alibi.map f)
  qqBias := c.qqBias.map (QqBias.map f)
  mmPrefix := c.mmPrefix
  outStride0 := c.outStride0
  outStride1 := c.outStride1
  segm := c.segm.map fun b => ⟨b.seqThreshold3D, b.numParSoftmaxSegments, fun i => f (b.mem i)⟩
  isBatchInvariant := c.isBatchInvariant

end Map

/-- Query tokens of sequence `i`. -/
def Batch.queryLen (b : Batch) (i : ℕ) : ℕ := b.queryStartLen (i + 1) - b.queryStartLen i

/-- Tokens of sequence `i` before its query tokens. -/
def Batch.contextLen (b : Batch) (i : ℕ) : ℕ := b.seqLens i - b.queryLen i

section Spec

variable {Q : Type} (a : Int3Args ℝ Q) (toF : Q → ℝ) (seq pos qh : ℕ)

/-- Where position `j` of a sequence lies: its block and its slot in the block. -/
def Int3Args.place (seq j : ℕ) : ℕ × ℕ :=
  (a.blockTables (seq * a.blockTableStride + j / a.blockSize), j % a.blockSize)

/-- The code of a cache entry, between -4 and 3. -/
def Int3Args.signedCode (side : Int3Side ℝ) (seq kvHead j d : ℕ) : ℤ :=
  unpackCode 3 (fun i => side.cache.mem ((a.place seq j).1 * side.cache.stride0
    + kvHead * side.cache.stride2 + (a.place seq j).2 * side.cache.stride1
    + i * side.cache.stride3)) d - 4

/-- The scale of a token and head. -/
def Int3Args.entryScale (side : Int3Side ℝ) (seq kvHead j : ℕ) : ℝ :=
  side.scale ((a.place seq j).1 * side.strideBlk + (a.place seq j).2 * side.strideSlot
    + kvHead * side.strideHead)

/-- A dequantised cache entry. -/
def Int3Args.entry (side : Int3Side ℝ) (seq kvHead j d : ℕ) : ℝ :=
  a.signedCode side seq kvHead j d * a.entryScale side seq kvHead j

/-- What ALiBi adds to the score of key `j`. -/
noncomputable def Int3Args.alibiBias (j : ℕ) : ℝ :=
  match a.alibi with
  | none => 0
  | some alibi => alibi.slope qh *
    let queryAbsPos := a.batch.contextLen seq + pos
    if alibi.useAlibiSqrt then
      if j ≤ queryAbsPos then -Real.sqrt (queryAbsPos - j : ℕ) else 0
    else ((j - a.batch.contextLen seq : ℤ) : ℝ)

/-- What the query bias adds to the score of key `j`. -/
def Int3Args.queryBias (j : ℕ) : ℝ :=
  match a.qqBias with
  | none => 0
  | some bias =>
    let contextLen := a.batch.contextLen seq
    if contextLen ≤ j ∧ j - contextLen < bias.stride0 then
      bias.mem (pos * bias.stride0 + (j - contextLen)) else 0

/-- `x * tanh(s / x)`, where there is a soft cap `x`. -/
noncomputable def cappedScore (softcap : Option ℝ) (s : ℝ) : ℝ :=
  match softcap with
  | none => s
  | some x => x * Real.tanh (s / x)

section Over

/- Attention over any keys and values `[kv_heads, positions, head_size]`. -/
variable (K V : ℕ → ℕ → ℕ → ℝ)

/-- The score of key `j`. -/
noncomputable def Int3Args.scoreOver (j : ℕ) : ℝ :=
  cappedScore a.softcap (a.scale * ∑ d ∈ Finset.range a.headSize,
      toF (a.query ((a.batch.queryStartLen seq + pos) * a.queryStride0 + qh * a.queryStride1 + d))
        * K (qh / a.tile.queriesPerKv) j d)
    + a.alibiBias seq pos qh j + a.queryBias seq pos j

/-- Whether the row sees key `j`. -/
def Int3Args.sees (j : ℕ) : Bool :=
  computeKvSeqMask a.tile.slidingWindow a.mmPrefix (a.batch.contextLen seq + pos) j seq

/-- The keys the row sees. -/
def Int3Args.keys : List ℕ := (List.range (a.batch.seqLens seq)).filter (a.sees seq pos)

/-- The score of a key or of the sink. -/
noncomputable def Int3Args.tokenScoreOver (t : Option ℕ) : ℝ :=
  t.elim (a.sinks.elim 0 fun sink => sink qh) (a.scoreOver toF seq pos qh K)

/-- The value of a key; the sink has none. -/
def Int3Args.tokenValueOver (d : ℕ) (t : Option ℕ) : ℝ :=
  t.elim 0 fun j => V (qh / a.tile.queriesPerKv) j d

/-- The sink, where there is one. -/
def Int3Args.sinkTokens : List (Option ℕ) := if a.sinks.isSome then [none] else []

/-- Softmax attention of query token `pos` of sequence `seq`, head `qh`. -/
noncomputable def Int3Args.attentionOver (d : ℕ) : ℝ :=
  attend (a.tokenScoreOver toF seq pos qh K) (a.tokenValueOver qh V d)
    (a.sinkTokens ++ (a.keys seq pos).map some)

end Over

/-- The score of a key or of the sink, for the keys of the cache. -/
noncomputable def Int3Args.tokenScore : Option ℕ → ℝ :=
  a.tokenScoreOver toF seq pos qh (a.entry a.key seq)

/-- The value of a key, for the values of the cache. -/
def Int3Args.tokenValue : ℕ → Option ℕ → ℝ := a.tokenValueOver qh (a.entry a.value seq)

/-- Softmax attention over the entries of the cache. -/
noncomputable def Int3Args.attention (d : ℕ) : ℝ :=
  a.attentionOver toF seq pos qh (a.entry a.key seq) (a.entry a.value seq) d

end Spec

section Call

variable {Q : Type} (c : Int3Call ℝ Q) (toF : Q → ℝ) (seq pos qh : ℕ)

open Classical in
/-- What the launches of a call are about, whichever path they take. -/
noncomputable def Int3Call.problem : Int3Args ℝ Q := c.args (decide (0 < c.softcap)) false 1

/-- Softmax attention of a query token and head of a call. -/
noncomputable def Int3Call.attention (d : ℕ) : ℝ := c.problem.attention toF seq pos qh d

/-- The same over any keys and values of the sequence. -/
noncomputable def Int3Call.attentionOver (K V : ℕ → ℕ → ℕ → ℝ) (d : ℕ) : ℝ :=
  c.problem.attentionOver toF seq pos qh K V d

end Call

end RabitKV
