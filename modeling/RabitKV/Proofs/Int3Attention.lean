import RabitKV.Lib.Chunks
import RabitKV.Proofs.Attention
import RabitKV.Proofs.Int3Grid
import RabitKV.Proofs.Int3Online
import RabitKV.Proofs.Lowbit

/-!
# A row of the INT3 attention kernel

The tiles a program walks hold every key one of its rows sees (`mem_tileRange`), a lane scores a key
it sees as attention does and any other with minus infinity (`int3Score_eq`), and a tile shows the
row the keys it sees there (`int3Tile_state`). So a row ends with the masses of all its keys and of
its sink, in 2D over the whole sequence and in 3D over its segment.
-/

namespace RabitKV

open Chunks Softmax Stores

section Mask

theorem foldl_or_eq_any {τ : Type*} (f : τ → Bool) : ∀ (l : List τ) (b : Bool),
    (l.foldl (fun b i => b || f i) b) = (b || l.any f)
  | [], b => by simp
  | i :: l, b => by simp [foldl_or_eq_any f l, Bool.or_assoc]

/-- What the mask of a row lets through. -/
theorem computeKvSeqMask_iff {window : ℕ} {mmPrefix : Option MmPrefix} {q j seq : ℕ} :
    computeKvSeqMask window mmPrefix q j seq = true ↔
      (j ≤ q ∧ (0 < window → q < j + window)) ∨
        ∃ mm ∈ mmPrefix, ∃ i < mm.maxMmRanges, mm.mask q j seq i = true := by
  have hwin : (if 0 < window then decide (j ≤ q) && decide ((q : ℤ) - j < window)
      else decide (j ≤ q)) = true ↔ j ≤ q ∧ (0 < window → q < j + window) := by
    split_ifs with h
    · simp only [Bool.and_eq_true, decide_eq_true_eq, h, true_implies]
      omega
    · simp [h]
  cases mmPrefix with
  | none => simpa [computeKvSeqMask] using hwin
  | some mm => simp [computeKvSeqMask, foldl_or_eq_any, hwin]

end Mask

section Row

variable {F Q : Type} (a : Int3Args F Q)

/-- What a launch assumes of its arguments. Bidirectional ranges end inside their sequence and come
without a sliding window. -/
structure Int3Args.Valid : Prop where
  batch : a.batch.Valid
  tile : 0 < a.tile.tileSize
  queries : 0 < a.tile.queriesPerKv
  mm : ∀ mm ∈ a.mmPrefix, a.tile.slidingWindow = 0 ∧ ∀ seq < a.batch.numSeqs,
    ∀ i < mm.maxMmRanges, mm.range (seq * mm.maxMmRanges * 2 + i * 2 + 1) < a.batch.seqLens seq

/-- Row `m` of block `qBlock` of sequence `seq` is query token `pos`, and head `qh` for the KV
head. -/
structure Int3Args.Serves (qBlock kvHead m seq pos qh : ℕ) : Prop where
  seq_lt : seq < a.batch.numSeqs
  row_lt : m < a.tile.blockM
  queryPos : qBlock * a.tile.blockQ + m / a.tile.queriesPerKv = pos
  pos_lt : pos < a.batch.queryLen seq
  queryHead : kvHead * a.tile.queriesPerKv + m % a.tile.queriesPerKv = qh
  head_lt : qh < a.numQueryHeads

variable {a} {qBlock kvHead m seq pos qh j : ℕ}

theorem Int3Args.Serves.kvHead_eq (hv : a.Valid) (hs : a.Serves qBlock kvHead m seq pos qh) :
    kvHead = qh / a.tile.queriesPerKv := by
  rw [← hs.queryHead, Nat.mul_comm, Nat.mul_add_div hv.queries,
    Nat.div_eq_of_lt (Nat.mod_lt _ hv.queries), Nat.add_zero]

theorem Int3Args.Serves.le_last (hs : a.Serves qBlock kvHead m seq pos qh) :
    pos ≤ qBlock * a.tile.blockQ + (a.tile.blockM - 1) / a.tile.queriesPerKv := by
  have hrow := hs.row_lt
  have hdiv : m / a.tile.queriesPerKv ≤ (a.tile.blockM - 1) / a.tile.queriesPerKv :=
    Nat.div_le_div_right (by omega)
  have := hs.queryPos
  omega

section Lanes

variable (hs : a.Serves qBlock kvHead m seq pos qh)
include hs

theorem Int3Args.Serves.queryPos_eq : a.queryPos (a.batch.rowBlock seq qBlock) m = pos :=
  hs.queryPos

theorem Int3Args.Serves.offset0 : a.queryOffset0 (a.batch.rowBlock seq qBlock) m
    = a.batch.queryStartLen seq + pos :=
  congrArg (a.batch.queryStartLen seq + ·) hs.queryPos

theorem Int3Args.Serves.offset1 : a.queryOffset1 kvHead m = qh := hs.queryHead

theorem Int3Args.Serves.mask0 : a.queryMask0 (a.batch.rowBlock seq qBlock) m = true := by
  rw [Int3Args.queryMask0, hs.queryPos_eq]
  exact decide_eq_true hs.pos_lt

theorem Int3Args.Serves.mask1 : a.queryMask1 kvHead m = true := by
  rw [Int3Args.queryMask1, hs.offset1]
  exact decide_eq_true hs.head_lt

end Lanes

section Map

variable {G : Type} (f : F → G) (s : SeqBlock)

@[simp] theorem Int3Args.map_queryPos : (a.map f).queryPos s m = a.queryPos s m := rfl

@[simp] theorem Int3Args.map_queryOffset0 : (a.map f).queryOffset0 s m = a.queryOffset0 s m := rfl

@[simp] theorem Int3Args.map_queryOffset1 :
    (a.map f).queryOffset1 kvHead m = a.queryOffset1 kvHead m := rfl

@[simp] theorem Int3Args.map_queryMask0 : (a.map f).queryMask0 s m = a.queryMask0 s m := rfl

@[simp] theorem Int3Args.map_queryMask1 :
    (a.map f).queryMask1 kvHead m = a.queryMask1 kvHead m := rfl

end Map

end Row

section Sees

variable {Q : Type} {a : Int3Args ℝ Q} {qBlock kvHead m seq pos qh j : ℕ}

/-- A row sees keys of its own sequence only. -/
theorem Int3Args.Valid.sees_lt (hv : a.Valid) (hseq : seq < a.batch.numSeqs)
    (hpos : pos < a.batch.queryLen seq) (hsees : a.sees seq pos j = true) :
    j < a.batch.seqLens seq := by
  have hctx := hv.batch.context_add_lt hseq hpos
  rcases computeKvSeqMask_iff.1 hsees with ⟨hle, -⟩ | ⟨mm, hmm, i, hi, hmask⟩
  · omega
  · have hend := (hv.mm mm hmm).2 seq hseq i hi
    simp only [MmPrefix.mask, Bool.and_eq_true, decide_eq_true_eq] at hmask
    omega

/-- A row sees itself. -/
theorem Int3Args.sees_self : a.sees seq pos (a.batch.contextLen seq + pos) = true :=
  computeKvSeqMask_iff.2 (.inl ⟨le_rfl, fun _ => by omega⟩)

/-- Without bidirectional ranges a row sees what the window leaves of its past. -/
theorem Int3Args.sees_causal (hmm : a.mmPrefix = none) (hsees : a.sees seq pos j = true) :
    j ≤ a.batch.contextLen seq + pos ∧
      (0 < a.tile.slidingWindow → a.batch.contextLen seq + pos < j + a.tile.slidingWindow) := by
  rcases computeKvSeqMask_iff.1 hsees with h | ⟨mm, hmem, -⟩
  · exact h
  · simp [hmm] at hmem

@[simp] theorem rowBlock_contextLen :
    (a.batch.rowBlock seq qBlock).contextLen = a.batch.contextLen seq := rfl

/-- Every key a row sees is loaded. -/
theorem Int3Args.Serves.lt_prefix (hv : a.Valid) (hs : a.Serves qBlock kvHead m seq pos qh)
    (hsees : a.sees seq pos j = true) :
    j < maxSeqPrefixLen a.tile (a.batch.rowBlock seq qBlock) a.mmPrefix.isSome := by
  have hlt := hv.sees_lt hs.seq_lt hs.pos_lt hsees
  unfold maxSeqPrefixLen
  cases hmm : a.mmPrefix with
  | some mm => simpa using hlt
  | none =>
    have hle := (Int3Args.sees_causal hmm hsees).1
    have hlast := hs.le_last
    simp only [Option.isSome_none, Bool.false_eq_true, if_false, rowBlock_contextLen, lt_min_iff,
      Batch.rowBlock_qBlockLocalIdx, Batch.rowBlock_seqLen]
    omega

theorem lt_div_succ_mul {n w : ℕ} (hw : 0 < w) (h : j ≤ n) : j < (n / w + 1) * w := by
  have := Nat.div_add_mod n w
  have := Nat.mod_lt n hw
  rw [Nat.add_mul, Nat.mul_comm (n / w)]
  omega

theorem lt_min_mul {x y w : ℕ} (hx : j < x * w) (hy : j < y * w) : j < min x y * w := by
  rcases min_choice x y with h | h <;> rw [h] <;> assumption

theorem toNat_tdiv_mul_le {x : ℤ} (w : ℕ) (h : x ≤ j) : (max 0 (x.tdiv w)).toNat * w ≤ j := by
  rcases le_total 0 x with hx | hx
  · lift x to ℕ using hx
    rw [← Int.ofNat_tdiv, max_eq_right (Int.natCast_nonneg _), Int.toNat_natCast]
    exact (Nat.div_mul_le_self x w).trans (Int.ofNat_le.1 h)
  · obtain ⟨n, rfl⟩ : ∃ n : ℕ, x = -n := ⟨x.natAbs, by omega⟩
    have hneg : max 0 ((-(n : ℤ)).tdiv w) = 0 := by
      rw [Int.neg_tdiv, ← Int.ofNat_tdiv]
      exact max_eq_left (neg_nonpos.2 (Int.natCast_nonneg _))
    rw [hneg, Int.toNat_zero, Nat.zero_mul]
    exact Nat.zero_le j

/-- The tiles a program walks hold every key its rows see. -/
theorem Int3Args.Serves.mem_tileRange (hv : a.Valid) (hs : a.Serves qBlock kvHead m seq pos qh)
    (hsees : a.sees seq pos j = true) :
    (tileRange a.tile (a.batch.rowBlock seq qBlock) a.mmPrefix.isSome).1 * a.tile.tileSize ≤ j ∧
      j < (tileRange a.tile (a.batch.rowBlock seq qBlock) a.mmPrefix.isSome).2
        * a.tile.tileSize := by
  have hprefix := (hs.lt_prefix hv hsees).trans_le (le_cdiv_mul hv.tile)
  unfold tileRange
  dsimp only
  split_ifs with hwin
  · have hmm : a.mmPrefix = none := by simpa using hwin.2
    obtain ⟨hle, hgt⟩ := Int3Args.sees_causal hmm hsees
    have hgt := hgt hwin.1
    have hlo : qBlock * a.tile.blockQ ≤ pos := hs.queryPos ▸ Nat.le_add_right _ _
    have hlast := hs.le_last
    have hpos := hs.pos_lt
    simp only [rowBlock_contextLen, Batch.rowBlock_qBlockLocalIdx, Batch.rowBlock_queryLen]
    refine ⟨toNat_tdiv_mul_le _ (by omega), lt_min_mul (lt_div_succ_mul hv.tile ?_) hprefix⟩
    omega
  · exact ⟨by simp, hprefix⟩

end Sees

section Scores

variable (toB : EReal → Bf16) (ofB : Bf16 → ℝ)

theorem realScoreFp_softcap (s x : ℝ) :
    applySoftcap (realScoreFp toB ofB) s x = (x * Real.tanh (s / x) : ℝ) := by
  have hpos : Real.exp (s / x) + Real.exp (-(s / x)) ≠ 0 := by positivity
  have htanh : x * Real.tanh (s / x) = x * (Real.exp (s / x) - Real.exp (-(s / x)))
      / (Real.exp (s / x) + Real.exp (-(s / x))) := by
    rw [Real.tanh_eq_sinh_div_cosh, Real.sinh_eq, Real.cosh_eq]
    field_simp
  have hdiv : (realScoreFp toB ofB).div s x = ((s / x : ℝ) : EReal) := (EReal.coe_div s x).symm
  have hneg : (realScoreFp toB ofB).mul ((realScoreFp toB ofB).lit (-1)) ((s / x : ℝ) : EReal)
      = ((-(s / x) : ℝ) : EReal) := by
    show ((((-1 : ℚ) : ℝ) : EReal)) * _ = _
    rw [← EReal.coe_mul]
    norm_num
  have hexp : ∀ y : ℝ, (realScoreFp toB ofB).exp y = (Real.exp y : ℝ) := realFp_exp toB ofB
  simp only [applySoftcap, hdiv, hneg, hexp, htanh]
  show ((x : EReal) * ((Real.exp (s / x) : EReal) - (Real.exp (-(s / x)) : EReal)))
    / ((Real.exp (s / x) : EReal) + (Real.exp (-(s / x)) : EReal)) = _
  simp only [← EReal.coe_sub, ← EReal.coe_add, ← EReal.coe_mul, ← EReal.coe_div]

theorem realScoreFp_signed (code : ℕ) : (realScoreFp toB ofB).sub
    ((realScoreFp toB ofB).lit code) ((realScoreFp toB ofB).lit 4)
      = (((code : ℤ) - 4 : ℤ) : ℝ) := by
  show (((code : ℚ) : ℝ) : EReal) - (((4 : ℚ) : ℝ) : EReal) = _
  rw [← EReal.coe_sub]
  norm_num

variable {Q : Type} {a : Int3Args ℝ Q} (toF : Q → ℝ) (ofF : EReal → Q)
  {qBlock kvHead m seq pos qh j : ℕ}

/-- A lane that was loaded holds the code of its entry. -/
theorem loadSigned_eq (side : Int3Side ℝ)
    (hj : j < maxSeqPrefixLen a.tile (a.batch.rowBlock seq qBlock) a.mmPrefix.isSome) (d : ℕ) :
    loadSigned (realScoreFp toB ofB) (a.map Real.toEReal) (a.batch.rowBlock seq qBlock) kvHead
      (side.map Real.toEReal) j d = ((a.signedCode side seq kvHead j d : ℝ) : EReal) := by
  have hmask : (a.map Real.toEReal).tileMask (a.batch.rowBlock seq qBlock) j = true :=
    decide_eq_true hj
  have hwindow := unpackCode_window (show 3 ≤ 8 by decide) (fun i => side.cache.mem
    ((a.place seq j).1 * side.cache.stride0 + kvHead * side.cache.stride2
      + (a.place seq j).2 * side.cache.stride1 + i * side.cache.stride3)) d
  simp only [Nat.succ_mul, ← Nat.add_assoc] at hwindow
  simp only [loadSigned, hmask, if_true, Int3Args.signedCode, hwindow]
  exact realScoreFp_signed toB ofB _

/-- A lane that was not loaded holds a number all the same. -/
theorem loadSigned_real (side : Int3Side ℝ) (s : SeqBlock) (kvHead j d : ℕ) :
    ∃ x : ℝ, loadSigned (realScoreFp toB ofB) (a.map Real.toEReal) s kvHead
      (side.map Real.toEReal) j d = x :=
  ⟨_, realScoreFp_signed toB ofB _⟩

theorem loadScale_eq (side : Int3Side ℝ)
    (hj : j < maxSeqPrefixLen a.tile (a.batch.rowBlock seq qBlock) a.mmPrefix.isSome) :
    loadScale (realScoreFp toB ofB) (a.map Real.toEReal) (a.batch.rowBlock seq qBlock) kvHead
      (side.map Real.toEReal) j = (a.entryScale side seq kvHead j : ℝ) := by
  have hmask : (a.map Real.toEReal).tileMask (a.batch.rowBlock seq qBlock) j = true :=
    decide_eq_true hj
  simp only [loadScale, hmask, if_true]
  rfl

theorem loadScale_real (side : Int3Side ℝ) (s : SeqBlock) (kvHead j : ℕ) :
    ∃ x : ℝ, loadScale (realScoreFp toB ofB) (a.map Real.toEReal) s kvHead
      (side.map Real.toEReal) j = x := by
  unfold loadScale
  split_ifs
  · exact ⟨_, rfl⟩
  · exact ⟨1, by simp [realScoreFp, realFp]⟩

/-- `alibi_slope * alibi_offset` -/
theorem realScoreFp_alibi (slope : ℝ) (useAlibiSqrt : Bool) (contextLen : ℕ) :
    (realScoreFp toB ofB).mul slope
      (alibiOffset (realScoreFp toB ofB) useAlibiSqrt j contextLen pos)
      = (slope * (if useAlibiSqrt then
          if j ≤ contextLen + pos then -Real.sqrt (contextLen + pos - j : ℕ) else 0
        else ((j - contextLen : ℤ) : ℝ)) : ℝ) := by
  have hoffset : alibiOffset (realScoreFp toB ofB) useAlibiSqrt j contextLen pos
      = ((if useAlibiSqrt then
          if j ≤ contextLen + pos then -Real.sqrt (contextLen + pos - j : ℕ) else 0
        else ((j - contextLen : ℤ) : ℝ) : ℝ) : EReal) := by
    unfold alibiOffset
    split_ifs
    · show (((-1 : ℚ) : ℝ) : EReal) * (Real.sqrt (((_ : ℚ) : ℝ) : EReal).toReal : EReal) = _
      rw [EReal.toReal_coe, ← EReal.coe_mul]
      norm_num
    · exact realFp_lit_zero toB ofB
    · show (((_ : ℚ) : ℝ) : EReal) = _
      rw [Rat.cast_intCast]
  rw [hoffset, EReal.coe_mul]
  rfl

theorem loadQqBiasTile_real (bias : QqBias ℝ) (contextLen : ℕ) :
    loadQqBiasTile (realScoreFp toB ofB) (bias.map Real.toEReal) pos j contextLen
      = ((if contextLen ≤ j ∧ j - contextLen < bias.stride0 then
        bias.mem (pos * bias.stride0 + (j - contextLen)) else 0 : ℝ) : EReal) := by
  unfold loadQqBiasTile
  split_ifs with h h' h'
  · rfl
  · exact absurd h h'
  · exact absurd h' h
  · exact realFp_lit_zero toB ofB

theorem sum_range_eq_list (n : ℕ) (f : ℕ → ℝ) :
    ∑ d ∈ Finset.range n, f d = ((List.range n).map f).sum := by
  rw [Finset.sum_eq_multiset_sum, Finset.range_val, Multiset.range, Multiset.map_coe,
    Multiset.sum_coe]

/-- The scaled dot product of a row with a key that was loaded. -/
theorem int3Dot_eq (hs : a.Serves qBlock kvHead m seq pos qh)
    (hj : j < maxSeqPrefixLen a.tile (a.batch.rowBlock seq qBlock) a.mmPrefix.isSome) :
    (realScoreFp toB ofB).mul ((realScoreFp toB ofB).mul
      (loadScale (realScoreFp toB ofB) (a.map Real.toEReal) (a.batch.rowBlock seq qBlock) kvHead
        (a.key.map Real.toEReal) j) (a.scale : EReal))
      ((realScoreFp toB ofB).sum ((List.range a.headSize).map fun d =>
        (realScoreFp toB ofB).mul (loadInt3Q (realScoreFp toB ofB) (realQ toF ofF)
          (a.map Real.toEReal) (a.batch.rowBlock seq qBlock) kvHead m d)
          (loadSigned (realScoreFp toB ofB) (a.map Real.toEReal) (a.batch.rowBlock seq qBlock)
            kvHead (a.key.map Real.toEReal) j d)))
      = ((a.scale * ∑ d ∈ Finset.range a.headSize,
        toF (a.query ((a.batch.queryStartLen seq + pos) * a.queryStride0 + qh * a.queryStride1 + d))
          * a.entry a.key seq kvHead j d : ℝ) : EReal) := by
  have hq : ∀ d, loadInt3Q (realScoreFp toB ofB) (realQ toF ofF) (a.map Real.toEReal)
      (a.batch.rowBlock seq qBlock) kvHead m d = (toF (a.query
        ((a.batch.queryStartLen seq + pos) * a.queryStride0 + qh * a.queryStride1 + d))
        : EReal) := by
    intro d
    simp only [loadInt3Q, Int3Args.map_queryMask0, Int3Args.map_queryMask1,
      Int3Args.map_queryOffset0, Int3Args.map_queryOffset1, hs.mask0, hs.mask1, hs.offset0,
      hs.offset1, Bool.and_self, if_true]
    rfl
  have hsum : (realScoreFp toB ofB).sum ((List.range a.headSize).map fun d =>
      (realScoreFp toB ofB).mul (loadInt3Q (realScoreFp toB ofB) (realQ toF ofF)
        (a.map Real.toEReal) (a.batch.rowBlock seq qBlock) kvHead m d)
        (loadSigned (realScoreFp toB ofB) (a.map Real.toEReal) (a.batch.rowBlock seq qBlock)
          kvHead (a.key.map Real.toEReal) j d))
      = ((∑ d ∈ Finset.range a.headSize,
        toF (a.query ((a.batch.queryStartLen seq + pos) * a.queryStride0 + qh * a.queryStride1 + d))
          * (a.signedCode a.key seq kvHead j d : ℝ) : ℝ) : EReal) := by
    simp only [hq, loadSigned_eq toB ofB a.key hj]
    show ((List.range a.headSize).map fun d => (_ : EReal) * (_ : EReal)).sum = _
    simp only [← EReal.coe_mul, coe_sum_map, sum_range_eq_list]
  rw [hsum, loadScale_eq toB ofB a.key hj]
  show (_ : EReal) * (a.scale : EReal) * _ = _
  rw [← EReal.coe_mul, ← EReal.coe_mul]
  congr 1
  simp only [Int3Args.entry, Finset.mul_sum]
  refine Finset.sum_congr rfl fun d _ => ?_
  ring

theorem int3RawScore_eq (hv : a.Valid) (hs : a.Serves qBlock kvHead m seq pos qh)
    (hsees : a.sees seq pos j = true) :
    int3RawScore (realScoreFp toB ofB) (realQ toF ofF) (a.map Real.toEReal)
      (a.batch.rowBlock seq qBlock) kvHead m j
      = (cappedScore a.softcap (a.scale * ∑ d ∈ Finset.range a.headSize,
        toF (a.query ((a.batch.queryStartLen seq + pos) * a.queryStride0 + qh * a.queryStride1 + d))
          * a.entry a.key seq (qh / a.tile.queriesPerKv) j d) : ℝ) := by
  have hdot := int3Dot_eq toB ofB toF ofF hs (hs.lt_prefix hv hsees)
  rw [← hs.kvHead_eq hv]
  unfold int3RawScore cappedScore
  cases hcap : a.softcap with
  | none =>
    simp only [Int3Args.map_softcap, hcap, Option.map_none]
    exact hdot
  | some x =>
    simp only [Int3Args.map_softcap, hcap, Option.map_some, ← realScoreFp_softcap toB ofB, ← hdot]
    rfl

/-- The score of a lane: what attention scores the key with, or minus infinity. -/
theorem int3Score_eq (hv : a.Valid) (hs : a.Serves qBlock kvHead m seq pos qh) (j : ℕ) :
    int3Score (realScoreFp toB ofB) (realQ toF ofF) (a.map Real.toEReal)
      (a.batch.rowBlock seq qBlock) kvHead m j
      = if a.sees seq pos j then (a.scoreOver toF seq pos qh (a.entry a.key seq) j : EReal)
        else ⊥ := by
  have hmask : computeKvSeqMask (a.map Real.toEReal).tile.slidingWindow
      (a.map Real.toEReal).mmPrefix ((a.batch.rowBlock seq qBlock).contextLen + pos) j
      (a.batch.rowBlock seq qBlock).seqIdx
      = a.sees seq pos j := rfl
  have hmasked : (if a.sees seq pos j = true then int3RawScore (realScoreFp toB ofB)
      (realQ toF ofF) (a.map Real.toEReal) (a.batch.rowBlock seq qBlock) kvHead m j
      else (realScoreFp toB ofB).negInf) = if a.sees seq pos j then
        (cappedScore a.softcap (a.scale * ∑ d ∈ Finset.range a.headSize,
        toF (a.query ((a.batch.queryStartLen seq + pos) * a.queryStride0 + qh * a.queryStride1 + d))
          * a.entry a.key seq (qh / a.tile.queriesPerKv) j d) : EReal) else ⊥ := by
    split_ifs with hsees
    · exact int3RawScore_eq toB ofB toF ofF hv hs hsees
    · rfl
  have hadd : ∀ x y : EReal, (realScoreFp toB ofB).add x y = x + y := fun _ _ => rfl
  simp only [int3Score, Int3Args.map_queryPos, Int3Args.map_queryMask0, Int3Args.map_queryMask1,
    Int3Args.map_queryOffset1, hs.queryPos_eq, hmask, hs.mask0, hs.mask1, Bool.true_and, hs.offset1,
    hmasked, Int3Args.scoreOver, Int3Args.alibiBias, Int3Args.queryBias, if_true,
    Int3Args.map_alibi, Int3Args.map_qqBias]
  rcases a.alibi with _ | alibi <;> rcases a.qqBias with _ | bias <;>
    simp only [Option.map_none, Option.map_some, applyAlibiToScore, hadd, Alibi.map_slope,
      Alibi.map_useAlibiSqrt, realScoreFp_alibi, loadQqBiasTile_real, rowBlock_contextLen] <;>
    split_ifs <;> simp

end Scores

section Loop

variable (toB : EReal → Bf16) (ofB : Bf16 → ℝ) {Q : Type} {a : Int3Args ℝ Q} (toF : Q → ℝ)
  (ofF : EReal → Q) {qBlock kvHead m seq pos qh : ℕ}

/-- The state of a row that has seen `tokens`. -/
abbrev Int3Args.RowState (a : Int3Args ℝ Q) (toF : Q → ℝ) (seq pos qh : ℕ) :
    List (Option ℕ) → Partial EReal → Prop :=
  SoftmaxState (a.tokenScore toF seq pos qh) (a.tokenValue seq qh)

/-- The keys a row sees among `n` positions from `start` on. -/
def Int3Args.keysIn (a : Int3Args ℝ Q) (seq pos start n : ℕ) : List (Option ℕ) :=
  ((List.range' start n).filter (a.sees seq pos)).map some

theorem loadWindowedV_real (hv : a.Valid) (hs : a.Serves qBlock kvHead m seq pos qh) (j d : ℕ) :
    ∃ y : ℝ, loadWindowedV (realScoreFp toB ofB) (a.map Real.toEReal) (a.batch.rowBlock seq qBlock)
        kvHead j d = y ∧
      (a.sees seq pos j = true → y = a.signedCode a.value seq kvHead j d) := by
  obtain ⟨y, hy⟩ := loadSigned_real toB ofB a.value (a.batch.rowBlock seq qBlock) kvHead j d
  have hsigned : a.sees seq pos j = true → y = a.signedCode a.value seq kvHead j d := fun hsees =>
    EReal.coe_injective (hy.symm.trans (loadSigned_eq toB ofB a.value (hs.lt_prefix hv hsees) d))
  unfold loadWindowedV
  dsimp only
  split_ifs with hwin hcut
  · exact ⟨y, hy, hsigned⟩
  · refine ⟨0, realFp_lit_zero toB ofB, fun hsees => absurd ?_ hcut⟩
    have hmm : a.mmPrefix = none := by
      rcases hmm : a.mmPrefix with _ | mm
      · rfl
      · exact absurd (hv.mm mm hmm).1 (Nat.pos_iff_ne_zero.1 hwin)
    have hgt := (Int3Args.sees_causal hmm hsees).2 hwin
    have hlo : qBlock * a.tile.blockQ ≤ pos := hs.queryPos ▸ Nat.le_add_right _ _
    simp only [rowBlock_contextLen, Batch.rowBlock_qBlockLocalIdx, Int3Args.map_tile]
    omega
  · exact ⟨y, hy, hsigned⟩

/-- The lanes of tile `j`. -/
theorem int3Tile_lanes (hv : a.Valid) (hs : a.Serves qBlock kvHead m seq pos qh) (j : ℕ) :
    TileLanes (a.tokenScore toF seq pos qh) (a.tokenValue seq qh) a.tile.tileSize
      (fun t => a.sees seq pos (j * a.tile.tileSize + t)) (fun t => some (j * a.tile.tileSize + t))
      (fun t => int3Score (realScoreFp toB ofB) (realQ toF ofF) (a.map Real.toEReal)
        (a.batch.rowBlock seq qBlock) kvHead m (j * a.tile.tileSize + t))
      (fun t => loadScale (realScoreFp toB ofB) (a.map Real.toEReal) (a.batch.rowBlock seq qBlock)
        kvHead (a.value.map Real.toEReal) (j * a.tile.tileSize + t))
      fun t d => loadWindowedV (realScoreFp toB ofB) (a.map Real.toEReal)
        (a.batch.rowBlock seq qBlock) kvHead (j * a.tile.tileSize + t) d := by
  refine ⟨fun t => int3Score_eq toB ofB toF ofF hv hs _, fun t d => ?_⟩
  obtain ⟨x, hx⟩ := loadScale_real toB ofB a.value (a.batch.rowBlock seq qBlock) kvHead
    (j * a.tile.tileSize + t)
  obtain ⟨y, hy, hval⟩ := loadWindowedV_real toB ofB hv hs (j * a.tile.tileSize + t) d
  refine ⟨x, y, hx, hy, fun hsees => ?_⟩
  have hscale : x = a.entryScale a.value seq kvHead (j * a.tile.tileSize + t) :=
    EReal.coe_injective (hx.symm.trans (loadScale_eq toB ofB a.value (hs.lt_prefix hv hsees)))
  rw [hval hsees, hscale, mul_comm]
  show _ = a.entry a.value seq (qh / a.tile.queriesPerKv) (j * a.tile.tileSize + t) d
  rw [← hs.kvHead_eq hv]
  rfl

theorem tileTokens_eq (j : ℕ) :
    tileTokens a.tile.tileSize (fun t => a.sees seq pos (j * a.tile.tileSize + t))
      (fun t => some (j * a.tile.tileSize + t))
      = a.keysIn seq pos (j * a.tile.tileSize) a.tile.tileSize := by
  rw [tileTokens, Int3Args.keysIn, List.range'_eq_map_range, List.filter_map, List.map_map]
  rfl

/-- One tile shows the row the keys it sees there. -/
theorem int3Tile_state (hv : a.Valid) (hs : a.Serves qBlock kvHead m seq pos qh)
    {tokens : List (Option ℕ)} {st : Partial EReal} (hst : a.RowState toF seq pos qh tokens st)
    (j : ℕ) :
    a.RowState toF seq pos qh (tokens ++ a.keysIn seq pos (j * a.tile.tileSize) a.tile.tileSize)
      (int3Tile (realScoreFp toB ofB) (realQ toF ofF) (a.map Real.toEReal)
        (a.batch.rowBlock seq qBlock) kvHead m st j) := by
  rw [← tileTokens_eq]
  exact hst.tile toB ofB (int3Tile_lanes toB ofB toF ofF hv hs j) rfl rfl fun _ => rfl

/-- The tile loop shows the row the keys it sees in the tiles. -/
theorem int3Loop_state (hv : a.Valid) (hs : a.Serves qBlock kvHead m seq pos qh)
    {tokens : List (Option ℕ)} {st : Partial EReal} (hst : a.RowState toF seq pos qh tokens st)
    (lo : ℕ) : ∀ n : ℕ,
    a.RowState toF seq pos qh
      (tokens ++ a.keysIn seq pos (lo * a.tile.tileSize) (n * a.tile.tileSize))
      ((List.range' lo n).foldl (int3Tile (realScoreFp toB ofB) (realQ toF ofF)
        (a.map Real.toEReal) (a.batch.rowBlock seq qBlock) kvHead m) st)
  | 0 => by simpa [Int3Args.keysIn] using hst
  | n + 1 => by
    have ih := int3Loop_state hv hs hst lo n
    have hnext := int3Tile_state toB ofB toF ofF hv hs ih (lo + n)
    have hkeys : a.keysIn seq pos (lo * a.tile.tileSize) (n * a.tile.tileSize)
        ++ a.keysIn seq pos ((lo + n) * a.tile.tileSize) a.tile.tileSize
        = a.keysIn seq pos (lo * a.tile.tileSize) ((n + 1) * a.tile.tileSize) := by
      rw [Int3Args.keysIn, Int3Args.keysIn, ← List.map_append, ← List.filter_append, Nat.add_mul,
        List.range'_append_1, ← Nat.succ_mul]
      rfl
    rw [List.append_assoc, hkeys] at hnext
    rw [List.range'_1_concat, List.foldl_append]
    exact hnext

/-- The sink counts once: in 2D, and in the first segment in 3D. -/
def Int3Args.sinkIn (a : Int3Args ℝ Q) (segm : Option ℕ) : List (Option ℕ) :=
  if segm = none ∨ segm = some 0 then a.sinkTokens else []

theorem int3Init_state (hs : a.Serves qBlock kvHead m seq pos qh) (segm : Option ℕ) :
    a.RowState toF seq pos qh (a.sinkIn segm)
      { m := initSoftmaxM (realScoreFp toB ofB).toAttnFp (a.map Real.toEReal).sinks
          ((a.map Real.toEReal).queryOffset1 kvHead m) ((a.map Real.toEReal).queryMask1 kvHead m)
          segm
        l := (realScoreFp toB ofB).lit 1
        acc := fun _ => (realScoreFp toB ofB).lit 0 } := by
  have hone : (realScoreFp toB ofB).lit 1 = 1 := by simp [realScoreFp, realFp]
  have hzero : (realScoreFp toB ofB).lit 0 = 0 := realFp_lit_zero toB ofB
  simp only [initSoftmaxM, Int3Args.map_queryMask1, Int3Args.map_queryOffset1, Int3Args.sinkIn,
    Int3Args.sinkTokens, Int3Args.map_sinks, hs.offset1, hs.mask1, if_true, hone, hzero]
  rcases hsink : a.sinks with _ | sink
  · simpa using SoftmaxState.fresh rfl rfl fun _ => rfl
  · simp only [Option.map_some, Option.isSome_some, if_true]
    split_ifs with hsegm
    · refine .shifted (sink qh) rfl ?_ fun d => ?_ <;>
        simp [mass, Int3Args.tokenScore, Int3Args.tokenScoreOver, Int3Args.tokenValue,
          Int3Args.tokenValueOver, hsink]
    · exact .fresh rfl rfl fun _ => rfl

theorem Int3Args.keys_eq (hv : a.Valid) (hseq : seq < a.batch.numSeqs)
    (hpos : pos < a.batch.queryLen seq) {start n : ℕ}
    (h : ∀ j, a.sees seq pos j = true → start ≤ j ∧ j < start + n) :
    a.keysIn seq pos start n = (a.keys seq pos).map some := by
  rw [Int3Args.keysIn, Int3Args.keys, List.range_eq_range']
  refine congrArg _ (filter_range'_congr fun j hj => ?_)
  have hlt := hv.sees_lt hseq hpos hj
  have := h j hj
  omega

/-- A row of a 2D program ends with everything attention sees. -/
theorem int3Row_state (hv : a.Valid) (hs : a.Serves qBlock kvHead m seq pos qh) :
    a.RowState toF seq pos qh (a.sinkTokens ++ (a.keys seq pos).map some)
      (int3Row (realScoreFp toB ofB) (realQ toF ofF) (a.map Real.toEReal)
        (a.batch.rowBlock seq qBlock) kvHead m none) := by
  have hloop := int3Loop_state toB ofB toF ofF hv hs (int3Init_state toB ofB toF hs none)
    (tileRange a.tile (a.batch.rowBlock seq qBlock) a.mmPrefix.isSome).1
    ((tileRange a.tile (a.batch.rowBlock seq qBlock) a.mmPrefix.isSome).2
      - (tileRange a.tile (a.batch.rowBlock seq qBlock) a.mmPrefix.isSome).1)
  rw [Int3Args.keys_eq hv hs.seq_lt hs.pos_lt fun j hj => ?_] at hloop
  · exact hloop
  · have hmem := hs.mem_tileRange hv hj
    rw [← Nat.add_mul]
    refine ⟨hmem.1, hmem.2.trans_le (Nat.mul_le_mul_right _ (by omega))⟩

/-- A row of a segment ends with what attention sees there. -/
theorem int3Row_segm_state (hv : a.Valid) (hs : a.Serves qBlock kvHead m seq pos qh)
    (segm tiles : ℕ) :
    a.RowState toF seq pos qh (a.sinkIn (some segm)
        ++ a.keysIn seq pos (segm * (tiles * a.tile.tileSize)) (tiles * a.tile.tileSize))
      (int3Row (realScoreFp toB ofB) (realQ toF ofF) (a.map Real.toEReal)
        (a.batch.rowBlock seq qBlock) kvHead m (some (segm, tiles))) := by
  set r := tileRange a.tile (a.batch.rowBlock seq qBlock) a.mmPrefix.isSome with hr
  have hloop := int3Loop_state toB ofB toF ofF hv hs (int3Init_state toB ofB toF hs (some segm))
    (max (segm * tiles) r.1) (min ((segm + 1) * tiles) r.2 - max (segm * tiles) r.1)
  have hkeys : a.keysIn seq pos (max (segm * tiles) r.1 * a.tile.tileSize)
      ((min ((segm + 1) * tiles) r.2 - max (segm * tiles) r.1) * a.tile.tileSize)
      = a.keysIn seq pos (segm * (tiles * a.tile.tileSize)) (tiles * a.tile.tileSize) := by
    refine congrArg _ (filter_range'_congr fun j hj => ?_)
    -- in numbers of tiles
    have hmem := hs.mem_tileRange hv hj
    rw [← hr] at hmem
    simp only [← Nat.mul_assoc, ← Nat.add_mul, ← Nat.le_div_iff_mul_le hv.tile,
      ← Nat.div_lt_iff_lt_mul hv.tile] at hmem ⊢
    rw [Nat.succ_mul]
    omega
  rw [hkeys] at hloop
  exact hloop

end Loop

end RabitKV
