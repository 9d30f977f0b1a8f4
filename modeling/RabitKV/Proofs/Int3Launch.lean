import RabitKV.Proofs.Int3Attention

/-!
# The launches over the INT3 cache

Every query token and head of a batch has a row, a row that passes the masks serves the token and
head it says, and outputs of different tokens and heads do not overlap. So the 2D kernel leaves
attention in the output. In 3D the partials of the segments do not overlap either, the segments
cover the sequence, and `reduce_segments` merges them into the same attention.
-/

namespace RabitKV

open Chunks Softmax Stores

section Grid

variable {F Q : Type}

/-- The grid and the output fit the arguments. -/
structure Int3Args.Fits (a : Int3Args F Q) (qBlocks kvHeads numTokens : ℕ) : Prop where
  valid : a.Valid
  blockQ : a.tile.blockQ = a.tile.blockM / a.tile.queriesPerKv
  blockM : a.tile.queriesPerKv ≤ a.tile.blockM
  heads : kvHeads * a.tile.queriesPerKv = a.numQueryHeads
  padded : a.headSize ≤ a.headSizePadded
  tokens : a.batch.queryStartLen a.batch.numSeqs ≤ numTokens
  grid : qBlocks = numTokens / a.tile.blockQ + a.batch.numSeqs
  outHead : a.headSize ≤ a.outputStride1
  outToken : a.numQueryHeads * a.outputStride1 ≤ a.outputStride0

/-- Where the output of a query token and head lies. -/
def Int3Args.outAddr (a : Int3Args F Q) (tok qh d : ℕ) : ℕ :=
  tok * a.outputStride0 + qh * a.outputStride1 + d

variable {a : Int3Args F Q} {qBlocks kvHeads numTokens qBlock kvHead m seq pos qh d : ℕ}

theorem Int3Args.mem_outDims (h : a.headSize ≤ a.headSizePadded) :
    d ∈ a.outDims ↔ d < a.headSize := by
  simp only [Int3Args.outDims, List.mem_filter, List.mem_range, decide_eq_true_eq]
  omega

namespace Int3Args.Fits

variable (hf : a.Fits qBlocks kvHeads numTokens)
include hf

theorem outAddr_inj {tok qh d tok' qh' d' : ℕ} (hqh : qh < a.numQueryHeads) (hd : d < a.headSize)
    (hqh' : qh' < a.numQueryHeads) (hd' : d' < a.headSize)
    (h : a.outAddr tok qh d = a.outAddr tok' qh' d') : tok = tok' ∧ qh = qh' ∧ d = d' := by
  have hrow : ∀ {q e : ℕ}, q < a.numQueryHeads → e < a.headSize →
      q * a.outputStride1 + e < a.outputStride0 := by
    intro q e hq he
    have hle : (q + 1) * a.outputStride1 ≤ a.numQueryHeads * a.outputStride1 :=
      Nat.mul_le_mul_right _ hq
    have := hf.outHead
    have := hf.outToken
    rw [Nat.succ_mul] at hle
    omega
  simp only [outAddr, Nat.add_assoc] at h
  obtain ⟨rfl, hrest⟩ := mul_add_inj (hrow hqh hd) (hrow hqh' hd') h
  exact ⟨rfl, mul_add_inj (hd.trans_le hf.outHead) (hd'.trans_le hf.outHead) hrest⟩

theorem blockQ_pos : 0 < a.tile.blockQ := by
  rw [hf.blockQ]
  exact Nat.div_pos hf.blockM hf.valid.queries

/-- The row of a block that serves a query token and head. -/
theorem serves (hseq : seq < a.batch.numSeqs) (hpos : pos < a.batch.queryLen seq)
    (hqh : qh < a.numQueryHeads) :
    a.Serves (pos / a.tile.blockQ) (qh / a.tile.queriesPerKv)
      (pos % a.tile.blockQ * a.tile.queriesPerKv + qh % a.tile.queriesPerKv) seq pos qh := by
  have hkv := hf.valid.queries
  have hmod := Nat.mod_lt qh hkv
  have hrow : (pos % a.tile.blockQ + 1) * a.tile.queriesPerKv ≤ a.tile.blockM := by
    refine (Nat.mul_le_mul_right _ (Nat.mod_lt pos hf.blockQ_pos)).trans ?_
    rw [hf.blockQ]
    exact Nat.div_mul_le_self _ _
  rw [Nat.succ_mul] at hrow
  refine ⟨hseq, by omega, ?_, hpos, ?_, hqh⟩
  · rw [mul_add_div hmod]
    exact Nat.div_add_mod' _ _
  · rw [mul_add_mod hmod]
    exact Nat.div_add_mod' _ _

/-- A row that passes the masks serves the token and head it says. -/
theorem serves_of_masks {g kvHead m : ℕ} (hn : 0 < a.batch.numSeqs) (hm : m < a.tile.blockM)
    (hmask : (a.queryMask0 (resolveSeqAndQueryLen a.batch g a.tile.blockQ) m
      && a.queryMask1 kvHead m) = true) :
    ∃ seq qBlock pos qh, resolveSeqAndQueryLen a.batch g a.tile.blockQ = a.batch.rowBlock seq qBlock
      ∧ a.Serves qBlock kvHead m seq pos qh := by
  rw [Bool.and_eq_true] at hmask
  rw [resolve_eq_rowBlock] at hmask ⊢
  exact ⟨_, _, _, _, rfl, hf.valid.batch.findSeqIdx_lt hn, hm, rfl, of_decide_eq_true hmask.1, rfl,
    of_decide_eq_true hmask.2⟩

end Int3Args.Fits

end Grid

section TwoD

variable (toB : EReal → Bf16) (ofB : Bf16 → ℝ) {Q : Type} {a : Int3Args ℝ Q} (toF : Q → ℝ)
  (ofF : EReal → Q) {qBlocks kvHeads numTokens qBlock kvHead m seq pos qh d : ℕ}

theorem Int3Args.tokens_ne_nil (hv : a.Valid) (hseq : seq < a.batch.numSeqs)
    (hpos : pos < a.batch.queryLen seq) :
    a.sinkTokens ++ (a.keys seq pos).map some ≠ [] := by
  have hmem : a.batch.contextLen seq + pos ∈ a.keys seq pos :=
    List.mem_filter.2 ⟨List.mem_range.2 (hv.batch.context_add_lt hseq hpos), Int3Args.sees_self⟩
  intro hnil
  have := (List.append_eq_nil_iff.1 hnil).2
  rw [List.map_eq_nil_iff] at this
  exact absurd hmem (this ▸ List.not_mem_nil)

/-- What a row of a 2D program stores. -/
theorem storeInt3Row_eq (hv : a.Valid) (hs : a.Serves qBlock kvHead m seq pos qh) :
    storeInt3Row (realScoreFp toB ofB) (realQ toF ofF) (a.map Real.toEReal)
      (a.batch.rowBlock seq qBlock) kvHead m
      = (a.map Real.toEReal).outDims.map fun d =>
        (a.outAddr (a.batch.queryStartLen seq + pos) qh d,
          ofF (a.attention toF seq pos qh d : ℝ)) := by
  have hstate := int3Row_state toB ofB toF ofF hv hs
  have hne := Int3Args.tokens_ne_nil hv hs.seq_lt hs.pos_lt
  simp only [storeInt3Row, Int3Args.map_queryMask0, Int3Args.map_queryMask1,
    Int3Args.map_queryOffset0, Int3Args.map_queryOffset1, hs.mask0, hs.mask1, Bool.and_self,
    if_true, hs.offset0, hs.offset1]
  refine List.map_congr_left fun d _ => Prod.ext rfl ?_
  exact congrArg ofF (hstate.div toB ofB hne d)

/-- Whatever a program stores is the attention of a query token and head of the batch. -/
theorem mem_int3Program (hf : a.Fits qBlocks kvHeads numTokens) (hn : 0 < a.batch.numSeqs)
    {g kvHead : ℕ} {w : ℕ × Q} (hw : w ∈ int3Program (realScoreFp toB ofB) (realQ toF ofF)
      (a.map Real.toEReal) g kvHead) :
    ∃ seq pos qh d, seq < a.batch.numSeqs ∧ pos < a.batch.queryLen seq ∧ qh < a.numQueryHeads ∧
      d < a.headSize ∧ w = (a.outAddr (a.batch.queryStartLen seq + pos) qh d,
        ofF (a.attention toF seq pos qh d : ℝ)) := by
  simp only [int3Program, Int3Args.map_batch, Int3Args.map_tile] at hw
  split_ifs at hw
  · exact absurd hw List.not_mem_nil
  obtain ⟨m, hm, hw⟩ := List.mem_flatMap.1 hw
  by_cases hmask : ((a.map Real.toEReal).queryMask0
      (resolveSeqAndQueryLen a.batch g a.tile.blockQ) m
      && (a.map Real.toEReal).queryMask1 kvHead m) = true
  · obtain ⟨seq, qBlock, pos, qh, hblock, hs⟩ :=
      hf.serves_of_masks hn (List.mem_range.1 hm) hmask
    rw [hblock, storeInt3Row_eq toB ofB toF ofF hf.valid hs] at hw
    obtain ⟨d, hd, rfl⟩ := List.mem_map.1 hw
    exact ⟨seq, pos, qh, d, hs.seq_lt, hs.pos_lt, hs.head_lt,
      (Int3Args.mem_outDims hf.padded).1 hd, rfl⟩
  · rw [storeInt3Row, if_neg hmask] at hw
    exact absurd hw List.not_mem_nil

/-- The 2D kernel leaves attention in the output of every query token and head. -/
theorem attnInt3Kernel_attention (hf : a.Fits qBlocks kvHeads numTokens) (out : ℕ → Q)
    (hseq : seq < a.batch.numSeqs) (hpos : pos < a.batch.queryLen seq) (hqh : qh < a.numQueryHeads)
    (hd : d < a.headSize) :
    storeAll out (attnInt3Kernel (realScoreFp toB ofB) (realQ toF ofF) (a.map Real.toEReal) qBlocks
      kvHeads) (a.outAddr (a.batch.queryStartLen seq + pos) qh d)
      = ofF (a.attention toF seq pos qh d : ℝ) := by
  have hserves := hf.serves hseq hpos hqh
  refine storeAll_of_forall out ?_ ?_
  · refine List.mem_map.2 ⟨(_, ofF (a.attention toF seq pos qh d : ℝ)), ?_, rfl⟩
    refine List.mem_flatMap.2 ⟨a.batch.blockIdx a.tile.blockQ seq (pos / a.tile.blockQ), ?_, ?_⟩
    · rw [List.mem_range, hf.grid]
      exact blockIdx_lt hf.valid.batch hseq hpos hf.tokens
    refine List.mem_flatMap.2 ⟨qh / a.tile.queriesPerKv, ?_, ?_⟩
    · rw [List.mem_range]
      exact Nat.div_lt_of_lt_mul (by rw [Nat.mul_comm, hf.heads]; exact hqh)
    have hblock : ¬ a.batch.queryLen seq ≤ pos / a.tile.blockQ * a.tile.blockQ :=
      Nat.not_le.2 ((Nat.div_mul_le_self _ _).trans_lt hpos)
    simp only [int3Program, Int3Args.map_batch, Int3Args.map_tile,
      resolve_rowBlock hf.valid.batch hseq hpos, Batch.rowBlock_queryLen,
      Batch.rowBlock_qBlockLocalIdx, if_neg hblock]
    refine List.mem_flatMap.2 ⟨_, List.mem_range.2 hserves.row_lt, ?_⟩
    rw [storeInt3Row_eq toB ofB toF ofF hf.valid hserves]
    exact List.mem_map.2 ⟨d, (Int3Args.mem_outDims hf.padded).2 hd, rfl⟩
  · intro w hw haddr
    obtain ⟨g, -, hw⟩ := List.mem_flatMap.1 hw
    obtain ⟨h, -, hw⟩ := List.mem_flatMap.1 hw
    obtain ⟨seq', pos', qh', d', hseq', hpos', hqh', hd', rfl⟩ :=
      mem_int3Program toB ofB toF ofF hf (Nat.zero_lt_of_lt hseq) hw
    obtain ⟨htok, rfl, rfl⟩ := hf.outAddr_inj hqh' hd' hqh hd haddr
    obtain ⟨rfl, rfl⟩ := token_inj hf.valid.batch hseq' hpos' hseq hpos htok
    rfl

end TwoD

section Segments

variable {Q : Type} {a : Int3Args ℝ Q} {seq pos : ℕ}

theorem Int3Args.flatMap_keysIn (w : ℕ) : ∀ n : ℕ,
    ((List.range n).flatMap fun s => a.keysIn seq pos (s * w) w) = a.keysIn seq pos 0 (n * w)
  | 0 => by simp [Int3Args.keysIn]
  | n + 1 => by
    have happend : List.range' 0 (n * w) ++ List.range' (n * w) w
        = List.range' 0 ((n + 1) * w) := by
      have h := List.range'_append_1 (s := 0) (m := n * w) (n := w)
      rwa [Nat.zero_add, ← Nat.succ_mul] at h
    rw [List.range_succ, List.flatMap_append, Int3Args.flatMap_keysIn w n, List.flatMap_singleton]
    simp only [Int3Args.keysIn]
    rw [← List.map_append, ← List.filter_append, happend]

/-- The segments together have seen the sink once and every key. -/
theorem Int3Args.flatMap_segments (hv : a.Valid) (hseq : seq < a.batch.numSeqs)
    (hpos : pos < a.batch.queryLen seq) {w act : ℕ} (hact : 0 < act)
    (hcover : a.batch.seqLens seq ≤ act * w) :
    ((List.range act).flatMap fun s => a.sinkIn (some s) ++ a.keysIn seq pos (s * w) w)
      = a.sinkTokens ++ (a.keys seq pos).map some := by
  have hkeys : a.keysIn seq pos 0 (act * w) = (a.keys seq pos).map some :=
    Int3Args.keys_eq hv hseq hpos fun j hj =>
      ⟨Nat.zero_le _, by have := hv.sees_lt hseq hpos hj; omega⟩
  obtain ⟨n, rfl⟩ := Nat.exists_eq_add_of_le' hact
  rw [← hkeys, ← Int3Args.flatMap_keysIn, List.range_succ_eq_map, List.flatMap_cons,
    List.flatMap_cons, List.append_assoc, List.flatMap_map, List.flatMap_map]
  have hfirst : a.sinkIn (some 0) = a.sinkTokens := by simp [Int3Args.sinkIn]
  have hrest : ∀ s, a.sinkIn (some (Nat.succ s)) = [] := fun s => by simp [Int3Args.sinkIn]
  simp only [hfirst, hrest, List.nil_append]

end Segments

section ThreeD

variable (toB : EReal → Bf16) (ofB : Bf16 → ℝ) {Q : Type} {a : Int3Args ℝ Q} (toF : Q → ℝ)
  (ofF : EReal → Q) {qBlocks kvHeads numTokens qBlock kvHead m seq pos qh segm d : ℕ}

theorem Int3Args.map_tilesPerSegment {F : Type} (f : ℝ → F) (n : ℕ) :
    (a.map f).tilesPerSegment n = a.tilesPerSegment n := rfl

/-- The row of the query token of sequence `seq`, after its segment. -/
noncomputable def int3Part (a : Int3Args ℝ Q) (seq qh segm : ℕ) : Partial EReal :=
  int3Row (realScoreFp toB ofB) (realQ toF ofF) (a.map Real.toEReal) (a.batch.rowBlock seq 0)
    (qh / a.tile.queriesPerKv) (qh % a.tile.queriesPerKv)
    (some (segm, a.tilesPerSegment (a.batch.seqLens seq)))

/-- What a segment of query token `tok` and head `qh` stores. -/
def segmStores {F : Type} (a : Int3Args F Q) (tok qh segm : ℕ) (p : Partial F) :
    List (Slot × F) :=
  (a.outDims.map fun d => (Slot.acc (tok * (a.numQueryHeads * a.numSegments * a.headSizePadded)
    + qh * (a.numSegments * a.headSizePadded) + segm * a.headSizePadded + d), p.acc d))
    ++ [(Slot.m (a.segmOffset tok qh segm), p.m), (Slot.l (a.segmOffset tok qh segm), p.l)]

/-- A sequence with one query token has one row per head. -/
theorem Int3Args.Serves.decode (hv : a.Valid) (hQ : 0 < a.tile.blockQ)
    (hone : a.batch.queryLen seq ≤ 1) (hs : a.Serves qBlock kvHead m seq pos qh) :
    qBlock = 0 ∧ kvHead = qh / a.tile.queriesPerKv ∧ m = qh % a.tile.queriesPerKv := by
  have hpos := hs.pos_lt
  have hzero : qBlock * a.tile.blockQ + m / a.tile.queriesPerKv = 0 := by
    rw [hs.queryPos]
    omega
  obtain ⟨hblock, hrow⟩ := Nat.add_eq_zero_iff.1 hzero
  have hm : m % a.tile.queriesPerKv = m :=
    Nat.mod_eq_of_lt ((Nat.div_eq_zero_iff_lt hv.queries).1 hrow)
  refine ⟨(Nat.mul_eq_zero.1 hblock).resolve_right (Nat.pos_iff_ne_zero.1 hQ), hs.kvHead_eq hv, ?_⟩
  rw [← hs.queryHead, Nat.mul_comm, Nat.mul_add_mod, hm, hm]

/-- A row of a 3D program stores its partial. -/
theorem storeInt3Segm_eq (hv : a.Valid) (hQ : 0 < a.tile.blockQ)
    (hone : a.batch.queryLen seq ≤ 1) (hs : a.Serves qBlock kvHead m seq pos qh) (segm : ℕ) :
    storeInt3Segm (realScoreFp toB ofB) (realQ toF ofF) (a.map Real.toEReal)
      (a.batch.rowBlock seq qBlock) kvHead m segm (a.tilesPerSegment (a.batch.seqLens seq))
      = segmStores (a.map Real.toEReal) (a.batch.queryStartLen seq + pos) qh segm
        (int3Part toB ofB toF ofF a seq qh segm) := by
  simp only [storeInt3Segm, Int3Args.map_queryMask0, Int3Args.map_queryMask1,
    Int3Args.map_queryOffset0, Int3Args.map_queryOffset1, hs.mask0, hs.mask1, Bool.and_self,
    if_true, hs.offset0, hs.offset1]
  obtain ⟨rfl, rfl, rfl⟩ := hs.decode hv hQ hone
  rfl

/-- Segments of different tokens, heads or numbers store to different slots. -/
theorem segmStores_inj {F : Type} {a : Int3Args F Q} (hpad : a.headSize ≤ a.headSizePadded)
    {tok qh segm tok' qh' segm' : ℕ} {p p' : Partial F} (hqh : qh < a.numQueryHeads)
    (hsegm : segm < a.numSegments) (hqh' : qh' < a.numQueryHeads) (hsegm' : segm' < a.numSegments)
    {w w' : Slot × F} (hw : w ∈ segmStores a tok qh segm p)
    (hw' : w' ∈ segmStores a tok' qh' segm' p') (h : w.1 = w'.1) :
    tok = tok' ∧ qh = qh' ∧ segm = segm' ∧ (p = p' → w.2 = w'.2) := by
  have hlt : ∀ {x y n k : ℕ}, x < n → y < k → x * k + y < n * k := fun {x y n k} hx hy => by
    have := Nat.mul_le_mul_right k hx
    rw [Nat.succ_mul] at this
    omega
  have hoffset : a.segmOffset tok qh segm = a.segmOffset tok' qh' segm' →
      tok = tok' ∧ qh = qh' ∧ segm = segm' := fun ho => by
    simp only [Int3Args.segmOffset, Nat.add_assoc] at ho
    obtain ⟨htok, hrest⟩ := mul_add_inj (hlt hqh hsegm) (hlt hqh' hsegm') ho
    exact ⟨htok, mul_add_inj hsegm hsegm' hrest⟩
  simp only [segmStores, List.mem_append, List.mem_map, List.mem_cons, List.not_mem_nil,
    or_false] at hw hw'
  rcases hw with ⟨d, hd, rfl⟩ | rfl | rfl <;> rcases hw' with ⟨d', hd', rfl⟩ | rfl | rfl <;>
    simp only [Slot.acc.injEq, Slot.m.injEq, Slot.l.injEq, reduceCtorEq] at h
  · have hP : d < a.headSizePadded := ((Int3Args.mem_outDims hpad).1 hd).trans_le hpad
    have hP' : d' < a.headSizePadded := ((Int3Args.mem_outDims hpad).1 hd').trans_le hpad
    simp only [Nat.add_assoc, Nat.mul_assoc a.numQueryHeads] at h
    obtain ⟨htok, hrest⟩ := mul_add_inj (hlt hqh (hlt hsegm hP)) (hlt hqh' (hlt hsegm' hP')) h
    obtain ⟨hhead, hrest⟩ := mul_add_inj (hlt hsegm hP) (hlt hsegm' hP') hrest
    obtain ⟨hsg, hd⟩ := mul_add_inj hP hP' hrest
    exact ⟨htok, hhead, hsg, fun hp => by rw [hp, hd]⟩
  · obtain ⟨rfl, rfl, rfl⟩ := hoffset h
    exact ⟨rfl, rfl, rfl, fun hp => congrArg Partial.m hp⟩
  · obtain ⟨rfl, rfl, rfl⟩ := hoffset h
    exact ⟨rfl, rfl, rfl, fun hp => congrArg Partial.l hp⟩

variable (hf : a.Fits qBlocks kvHeads numTokens)
  (hdec : ∀ i < a.batch.numSeqs, a.batch.queryLen i ≤ 1)
include hf hdec

/-- Whatever the 3D kernel stores is the partial of a segment. -/
theorem mem_attnInt3SegmKernel (hn : 0 < a.batch.numSeqs) {w : Slot × EReal}
    (hw : w ∈ attnInt3SegmKernel (realScoreFp toB ofB) (realQ toF ofF) (a.map Real.toEReal) qBlocks
      kvHeads) :
    ∃ seq pos qh segm, seq < a.batch.numSeqs ∧ pos < a.batch.queryLen seq ∧
      qh < a.numQueryHeads ∧ segm < a.numSegments ∧
      w ∈ segmStores (a.map Real.toEReal) (a.batch.queryStartLen seq + pos) qh segm
        (int3Part toB ofB toF ofF a seq qh segm) := by
  obtain ⟨g, -, hw⟩ := List.mem_flatMap.1 hw
  obtain ⟨h, -, hw⟩ := List.mem_flatMap.1 hw
  obtain ⟨segm, hsegm, hw⟩ := List.mem_flatMap.1 hw
  simp only [int3SegmProgram, Int3Args.map_batch, Int3Args.map_tile] at hw
  split_ifs at hw
  · exact absurd hw List.not_mem_nil
  · exact absurd hw List.not_mem_nil
  obtain ⟨m, hm, hw⟩ := List.mem_flatMap.1 hw
  by_cases hmask : ((a.map Real.toEReal).queryMask0
      (resolveSeqAndQueryLen a.batch g a.tile.blockQ) m
      && (a.map Real.toEReal).queryMask1 h m) = true
  · obtain ⟨seq, qBlock, pos, qh, hblock, hs⟩ :=
      hf.serves_of_masks hn (List.mem_range.1 hm) hmask
    rw [hblock] at hw
    have hstores := storeInt3Segm_eq toB ofB toF ofF hf.valid hf.blockQ_pos (hdec seq hs.seq_lt) hs
      segm
    exact ⟨seq, pos, qh, segm, hs.seq_lt, hs.pos_lt, hs.head_lt, List.mem_range.1 hsegm,
      hstores ▸ hw⟩
  · rw [storeInt3Segm, if_neg hmask] at hw
    exact absurd hw List.not_mem_nil

/-- The slots of a segment hold its partial after the 3D kernel. -/
theorem storeAll_attnInt3SegmKernel (mem : Slot → EReal) (hseq : seq < a.batch.numSeqs)
    (hpos : pos < a.batch.queryLen seq) (hqh : qh < a.numQueryHeads) (hsegm : segm < a.numSegments)
    (hact : segm * a.tilesPerSegment (a.batch.seqLens seq) * a.tile.tileSize
      < a.batch.seqLens seq) {w : Slot × EReal}
    (hw : w ∈ segmStores (a.map Real.toEReal) (a.batch.queryStartLen seq + pos) qh segm
      (int3Part toB ofB toF ofF a seq qh segm)) :
    storeAll mem (attnInt3SegmKernel (realScoreFp toB ofB) (realQ toF ofF) (a.map Real.toEReal)
      qBlocks kvHeads) w.1 = w.2 := by
  have hserves := hf.serves hseq hpos hqh
  refine storeAll_of_forall mem (List.mem_map.2 ⟨w, ?_, rfl⟩) ?_
  · refine List.mem_flatMap.2 ⟨a.batch.blockIdx a.tile.blockQ seq (pos / a.tile.blockQ), ?_, ?_⟩
    · rw [List.mem_range, hf.grid]
      exact blockIdx_lt hf.valid.batch hseq hpos hf.tokens
    refine List.mem_flatMap.2 ⟨qh / a.tile.queriesPerKv, ?_, ?_⟩
    · rw [List.mem_range]
      exact Nat.div_lt_of_lt_mul (by rw [Nat.mul_comm, hf.heads]; exact hqh)
    refine List.mem_flatMap.2 ⟨segm, List.mem_range.2 hsegm, ?_⟩
    have hblock : ¬ a.batch.queryLen seq ≤ pos / a.tile.blockQ * a.tile.blockQ :=
      Nat.not_le.2 ((Nat.div_mul_le_self _ _).trans_lt hpos)
    simp only [int3SegmProgram, Int3Args.map_batch, Int3Args.map_tile,
      resolve_rowBlock hf.valid.batch hseq hpos, Batch.rowBlock_queryLen,
      Batch.rowBlock_qBlockLocalIdx, if_neg hblock, Batch.rowBlock_seqLen,
      Int3Args.map_tilesPerSegment]
    rw [if_neg (Nat.not_le.2 hact)]
    refine List.mem_flatMap.2 ⟨_, List.mem_range.2 hserves.row_lt, ?_⟩
    have hstores := storeInt3Segm_eq toB ofB toF ofF hf.valid hf.blockQ_pos (hdec seq hseq) hserves
      segm
    exact hstores.symm ▸ hw
  · intro w' hw' hslot
    obtain ⟨seq', pos', qh', segm', hseq', hpos', hqh', hsegm', hw'⟩ :=
      mem_attnInt3SegmKernel toB ofB toF ofF hf hdec (Nat.zero_lt_of_lt hseq) hw'
    obtain ⟨htok, rfl, rfl, hval⟩ :=
      segmStores_inj (a := a.map Real.toEReal) hf.padded hqh' hsegm' hqh hsegm hw' hw hslot
    obtain ⟨rfl, rfl⟩ := token_inj hf.valid.batch hseq' hpos' hseq hpos htok
    exact hval rfl

omit hdec in
/-- The segments that hold something cover the sequence. -/
theorem Int3Args.Fits.actNumSegments_eq (hseq : seq < a.batch.numSeqs)
    (hpos : pos < a.batch.queryLen seq) (hns : 0 < a.numSegments) :
    let w := a.tilesPerSegment (a.batch.seqLens seq) * a.tile.tileSize
    let act := actNumSegments (a.map Real.toEReal) (a.batch.queryStartLen seq + pos)
    0 < act ∧ act ≤ a.numSegments ∧ a.batch.seqLens seq ≤ act * w ∧
      ∀ s < act, s * w < a.batch.seqLens seq := by
  have hfind : findSeqIdx a.batch (a.batch.queryStartLen seq + pos) a.tile.blockQ false = seq :=
    hf.valid.batch.findSeqIdx_token hseq hpos
  have hact : actNumSegments (a.map Real.toEReal) (a.batch.queryStartLen seq + pos)
      = cdiv (a.batch.seqLens seq)
        (a.tilesPerSegment (a.batch.seqLens seq) * a.tile.tileSize) := by
    simp only [actNumSegments, Int3Args.map_batch, Int3Args.map_tile, hfind,
      Int3Args.map_tilesPerSegment]
  have hlen : 0 < a.batch.seqLens seq := by
    have := hf.valid.batch.context_add_lt hseq hpos
    omega
  have hwhole : 0 < a.numSegments * a.tile.tileSize := Nat.mul_pos hns hf.valid.tile
  have hw : 0 < a.tilesPerSegment (a.batch.seqLens seq) * a.tile.tileSize :=
    Nat.mul_pos ((lt_cdiv_iff hwhole).2 (by simpa using hlen)) hf.valid.tile
  dsimp only
  rw [hact]
  refine ⟨(lt_cdiv_iff hw).2 (by simpa using hlen), cdiv_le hw ?_, le_cdiv_mul hw,
    fun s hs => (lt_cdiv_iff hw).1 hs⟩
  calc a.batch.seqLens seq
      ≤ a.tilesPerSegment (a.batch.seqLens seq) * (a.numSegments * a.tile.tileSize) :=
        le_cdiv_mul hwhole
    _ = a.numSegments * (a.tilesPerSegment (a.batch.seqLens seq) * a.tile.tileSize) := by ring

/-- What `reduce_segments` makes of the segments of a query token and head. -/
theorem reduceSegments_value (hns : 0 < a.numSegments) (mem : Slot → EReal)
    (hseq : seq < a.batch.numSeqs) (hpos : pos < a.batch.queryLen seq) (hqh : qh < a.numQueryHeads)
    (hd : d < a.headSize) :
    let mem' := storeAll mem (attnInt3SegmKernel (realScoreFp toB ofB) (realQ toF ofF)
      (a.map Real.toEReal) qBlocks kvHeads)
    let tok := a.batch.queryStartLen seq + pos
    let expsum := overallExpsum (realScoreFp toB ofB) (a.map Real.toEReal) mem' tok qh
    (if (realScoreFp toB ofB).eq expsum ((realScoreFp toB ofB).lit 0) then
      (realScoreFp toB ofB).lit 0
    else (realScoreFp toB ofB).div
      (accSum (realScoreFp toB ofB) (a.map Real.toEReal) mem' tok qh d) expsum)
      = (a.attention toF seq pos qh d : ℝ) := by
  intro mem' tok expsum
  obtain ⟨hact, hle, hcover, hin⟩ := hf.actNumSegments_eq hseq hpos hns
  set act := actNumSegments (a.map Real.toEReal) tok with hactDef
  set w := a.tilesPerSegment (a.batch.seqLens seq) * a.tile.tileSize with hw
  set tokens : ℕ → List (Option ℕ) :=
    fun s => a.sinkIn (some s) ++ a.keysIn seq pos (s * w) w with htokens
  have hall : (List.range act).flatMap tokens = a.sinkTokens ++ (a.keys seq pos).map some :=
    Int3Args.flatMap_segments hf.valid hseq hpos hact hcover
  have hne := Int3Args.tokens_ne_nil hf.valid hseq hpos
  have hstate : ∀ s,
      a.RowState toF seq pos qh (tokens s) (int3Part toB ofB toF ofF a seq qh s) := by
    intro s
    have hserves := hf.serves hseq hpos hqh
    have hpart := int3Row_segm_state toB ofB toF ofF hf.valid hserves s
      (a.tilesPerSegment (a.batch.seqLens seq))
    obtain ⟨hb, -, hm⟩ := hserves.decode hf.valid hf.blockQ_pos (hdec seq hseq)
    rw [hb, hm] at hpart
    exact hpart
  -- the slots of the segments that hold something
  have hslot : ∀ s < act, ∀ x ∈ segmStores (a.map Real.toEReal) tok qh s
      (int3Part toB ofB toF ofF a seq qh s), mem' x.1 = x.2 := fun s hs x hx =>
    storeAll_attnInt3SegmKernel toB ofB toF ofF hf hdec mem hseq hpos hqh (hs.trans_le hle)
      (by rw [Nat.mul_assoc]; exact hin s hs) hx
  have hmx : ∀ s, segmMax (realScoreFp toB ofB) (a.map Real.toEReal) mem' tok qh s
      = if s < act then (int3Part toB ofB toF ofF a seq qh s).m else ⊥ := by
    intro s
    unfold segmMax
    split_ifs with hs
    · exact hslot s hs _ (List.mem_append_right _ List.mem_cons_self)
    · rfl
  obtain ⟨M, hM⟩ := segments_max toB ofB hle (fun s _ => hstate s) hmx (hall ▸ hne)
  have hweight : ∀ s, segmWeight (realScoreFp toB ofB) (a.map Real.toEReal) mem' tok qh s
      = (realFp toB ofB).exp ((realFp toB ofB).sub
        (segmMax (realScoreFp toB ofB) (a.map Real.toEReal) mem' tok qh s) M) := fun s => by
    rw [← hM]
    rfl
  have hexpsum : expsum = (mass (a.tokenScore toF seq pos qh) (fun _ => 1) M
      (a.sinkTokens ++ (a.keys seq pos).map some) : ℝ) := by
    rw [← hall]
    simp only [expsum, overallExpsum, hweight]
    refine segments_sum toB ofB hle (fun s hs => ?_) fun s hs => ?_
    · rw [if_pos hs, hmx, if_pos hs]
      refine Eq.trans (congrArg (· * _) (hslot s hs _ (List.mem_append_right _
        (List.mem_cons_of_mem _ List.mem_cons_self)))) ((hstate s).rescale toB ofB M).1
    · rw [if_neg (Nat.not_lt.2 hs)]
      exact realFp_lit_zero toB ofB
  have haccSum : accSum (realScoreFp toB ofB) (a.map Real.toEReal) mem' tok qh d
      = (mass (a.tokenScore toF seq pos qh) (a.tokenValue seq qh d) M
        (a.sinkTokens ++ (a.keys seq pos).map some) : ℝ) := by
    rw [← hall]
    simp only [accSum, hweight]
    refine segments_sum toB ofB hle (fun s hs => ?_) fun s hs => ?_
    · rw [if_pos ⟨hs, hd⟩, hmx, if_pos hs]
      refine Eq.trans (congrArg (· * _) (hslot s hs _ (List.mem_append_left _
        (List.mem_map.2 ⟨d, (Int3Args.mem_outDims hf.padded).2 hd, rfl⟩))))
        (((hstate s).rescale toB ofB M).2 d)
    · rw [if_neg fun h => Nat.not_lt.2 hs h.1]
      exact realFp_lit_zero toB ofB
  have hpos' : expsum ≠ 0 := by
    rw [hexpsum]
    exact EReal.coe_ne_zero.2 (mass_one_pos _ M hne).ne'
  have heq : (realScoreFp toB ofB).eq expsum ((realScoreFp toB ofB).lit 0) = false := by
    rw [show (realScoreFp toB ofB).lit 0 = 0 from realFp_lit_zero toB ofB]
    exact decide_eq_false hpos'
  rw [heq, if_neg Bool.false_ne_true, hexpsum, haccSum, Int3Args.attention, Int3Args.attentionOver,
    attend_eq_mass_div _ _ M, EReal.coe_div]
  rfl

/-- The 3D kernel and the reduction leave attention in the output of every query token and head. -/
theorem reduceSegments_attention (hns : 0 < a.numSegments) (mem : Slot → EReal) (out : ℕ → Q)
    (hseq : seq < a.batch.numSeqs) (hpos : pos < a.batch.queryLen seq) (hqh : qh < a.numQueryHeads)
    (hd : d < a.headSize) :
    storeAll out (reduceSegments (realScoreFp toB ofB) (realQ toF ofF) (a.map Real.toEReal)
      (storeAll mem (attnInt3SegmKernel (realScoreFp toB ofB) (realQ toF ofF) (a.map Real.toEReal)
        qBlocks kvHeads)) numTokens) (a.outAddr (a.batch.queryStartLen seq + pos) qh d)
      = ofF (a.attention toF seq pos qh d : ℝ) := by
  have hvalue := reduceSegments_value toB ofB toF ofF hf hdec hns mem hseq hpos hqh hd
  have htok := hf.valid.batch.token_lt hf.tokens hseq hpos
  refine storeAll_of_forall out (List.mem_map.2 ⟨_, List.mem_flatMap.2 ⟨_, List.mem_range.2 htok,
    List.mem_flatMap.2 ⟨qh, List.mem_range.2 hqh, List.mem_map.2
      ⟨d, (Int3Args.mem_outDims hf.padded).2 hd, rfl⟩⟩⟩, rfl⟩) fun w hw haddr => ?_
  obtain ⟨tok, -, hw⟩ := List.mem_flatMap.1 hw
  obtain ⟨qh', hqh', hw⟩ := List.mem_flatMap.1 hw
  obtain ⟨d', hd', rfl⟩ := List.mem_map.1 hw
  obtain ⟨rfl, rfl, rfl⟩ := hf.outAddr_inj (List.mem_range.1 hqh')
    ((Int3Args.mem_outDims hf.padded).1 hd') hqh hd haddr
  exact congrArg ofF hvalue

end ThreeD

section Call

variable {F Q : Type}

/-- What `unified_attention_kvquant_k3` takes for granted: every KV head serves as many query heads,
the head size and the number of segments are powers of two, the output rows do not overlap, and
bidirectional ranges end inside their sequence and come without a sliding window. -/
structure Int3Call.Valid (c : Int3Call F Q) : Prop where
  batch : c.batch.Valid
  kvHeads : 0 < c.numKvHeads
  heads : c.numKvHeads ∣ c.numQueryHeads
  queryHeads : 0 < c.numQueryHeads
  headSize : ∃ k, c.headSize = 2 ^ k
  tokens : c.batch.queryStartLen c.batch.numSeqs ≤ c.numTokens
  maxSeqlenQ : ∀ i < c.batch.numSeqs, c.batch.queryLen i ≤ c.maxSeqlenQ
  window : -1 ≤ c.windowLeft
  mm : ∀ mm ∈ c.mmPrefix, c.windowLeft = -1 ∧ ∀ seq < c.batch.numSeqs,
    ∀ i < mm.maxMmRanges, mm.range (seq * mm.maxMmRanges * 2 + i * 2 + 1) < c.batch.seqLens seq
  outHead : c.headSize ≤ c.outStride1
  outToken : c.numQueryHeads * c.outStride1 ≤ c.outStride0
  segments : ∀ b ∈ c.segm, ∃ k, b.numParSoftmaxSegments = 2 ^ k

variable {c : Int3Call F Q}

theorem getTileSize_pos (headSize window elementSize : ℕ) (isPrefill : Bool) :
    0 < getTileSize headSize window elementSize isPrefill := by
  unfold getTileSize
  split_ifs <;> decide

theorem Int3Call.Valid.queriesPerKv_pos (hc : c.Valid) : 0 < c.queriesPerKv :=
  Nat.div_pos (Nat.le_of_dvd hc.queryHeads hc.heads) hc.kvHeads

theorem Int3Call.Valid.headSize_pos (hc : c.Valid) : 0 < c.headSize := by
  obtain ⟨k, hk⟩ := hc.headSize
  rw [hk]
  exact Nat.two_pow_pos k

theorem Int3Call.Valid.segments_pos (hc : c.Valid) : ∀ b ∈ c.segm, 0 < b.numParSoftmaxSegments := by
  intro b hb
  obtain ⟨k, hk⟩ := hc.segments b hb
  rw [hk]
  exact Nat.two_pow_pos k

theorem Int3Call.queriesPerKv_le_blockM : c.queriesPerKv ≤ c.blockM := by
  unfold Int3Call.blockM
  split_ifs with h
  · exact h
  · exact Nat.le_pow_clog one_lt_two _

/-- The arguments of a call fit its grid. -/
theorem Int3Call.Valid.fits (hc : c.Valid) (useSoftcap is3d : Bool) (numSegments : ℕ) :
    (c.args useSoftcap is3d numSegments).Fits c.totalNumQBlocks c.numKvHeads c.numTokens where
  valid :=
    { batch := hc.batch
      tile := getTileSize_pos _ _ _ _
      queries := hc.queriesPerKv_pos
      mm := fun mm hmm => by
        obtain ⟨hwindow, hranges⟩ := hc.mm mm hmm
        exact ⟨by simp [Int3Call.args, hwindow], hranges⟩ }
  blockQ := rfl
  blockM := Int3Call.queriesPerKv_le_blockM
  heads := Nat.mul_div_cancel' hc.heads
  padded := Nat.le_pow_clog one_lt_two _
  tokens := hc.tokens
  grid := rfl
  outHead := hc.outHead
  outToken := hc.outToken

theorem Int3Call.Valid.map {G : Type} (hc : c.Valid) (f : F → G) : (c.map f).Valid :=
  ⟨hc.batch, hc.kvHeads, hc.heads, hc.queryHeads, hc.headSize, hc.tokens, hc.maxSeqlenQ, hc.window,
    hc.mm, hc.outHead, hc.outToken, fun b hb => by
      obtain ⟨b', hb', rfl⟩ := Option.map_eq_some_iff.1 hb
      exact hc.segments b' hb'⟩

theorem Int3Call.map_args {G : Type} (f : F → G) (useSoftcap is3d : Bool) (numSegments : ℕ) :
    (c.map f).args useSoftcap is3d numSegments = (c.args useSoftcap is3d numSegments).map f := by
  cases useSoftcap <;> rfl

end Call

section Attention

variable {Q : Type} {c : Int3Call ℝ Q} (toB : EReal → Bf16) (ofB : Bf16 → ℝ) (toF : Q → ℝ)
  (ofF : EReal → Q)

open Classical in
theorem realScoreFp_useSoftcap : (realScoreFp toB ofB).lt ((realScoreFp toB ofB).lit 0)
    (c.map Real.toEReal).softcap = decide (0 < c.softcap) := by
  rw [show (realScoreFp toB ofB).lit 0 = 0 from realFp_lit_zero toB ofB]
  exact decide_eq_decide.2 EReal.coe_pos

theorem unifiedAttention_eq (hc : c.Valid) (out : ℕ → Q) {seq pos qh d : ℕ}
    (hseq : seq < c.batch.numSeqs) (hpos : pos < c.batch.queryLen seq) (hqh : qh < c.numQueryHeads)
    (hd : d < c.headSize) :
    unifiedAttentionKvquantK3 (realScoreFp toB ofB) (realQ toF ofF) (c.map Real.toEReal) out
      ((c.batch.queryStartLen seq + pos) * c.outStride0 + qh * c.outStride1 + d)
      = ofF (c.attention toF seq pos qh d : ℝ) := by
  classical
  unfold unifiedAttentionKvquantK3
  simp only [realScoreFp_useSoftcap, Int3Call.map_args]
  rcases huse : (c.map Real.toEReal).use3d with _ | b
  · exact attnInt3Kernel_attention toB ofB toF ofF (hc.fits _ false 1) out hseq hpos hqh hd
  · obtain ⟨hsegm, hcond⟩ := Option.filter_eq_some_iff.1 huse
    obtain ⟨b', hb', rfl⟩ := Option.map_eq_some_iff.1 hsegm
    have hdec : ∀ i < c.batch.numSeqs, c.batch.queryLen i ≤ 1 := by
      simp only [Bool.not_eq_true', Bool.or_eq_false_iff, decide_eq_false_iff_not] at hcond
      exact fun i hi => (hc.maxSeqlenQ i hi).trans (Nat.not_lt.1 hcond.1.1)
    exact reduceSegments_attention toB ofB toF ofF (hc.fits _ true _) hdec
      (hc.segments_pos b' hb') _ out hseq hpos hqh hd

/-- The launches store to the outputs of query tokens and heads only. -/
theorem unifiedAttention_frame (hc : c.Valid) (hn : 0 < c.batch.numSeqs) (out : ℕ → Q) {addr : ℕ}
    (haddr : ∀ tok < c.numTokens, ∀ qh < c.numQueryHeads, ∀ d < c.headSize,
      addr ≠ tok * c.outStride0 + qh * c.outStride1 + d) :
    unifiedAttentionKvquantK3 (realScoreFp toB ofB) (realQ toF ofF) (c.map Real.toEReal) out addr
      = out addr := by
  classical
  unfold unifiedAttentionKvquantK3
  simp only [realScoreFp_useSoftcap, Int3Call.map_args]
  rcases (c.map Real.toEReal).use3d with _ | b
  · refine storeAll_of_notMem out fun hmem => ?_
    obtain ⟨w, hw, rfl⟩ := List.mem_map.1 hmem
    obtain ⟨g, -, hw⟩ := List.mem_flatMap.1 hw
    obtain ⟨h, -, hw⟩ := List.mem_flatMap.1 hw
    obtain ⟨seq, pos, qh, d, hseq, hpos, hqh, hd, rfl⟩ :=
      mem_int3Program toB ofB toF ofF (hc.fits _ false 1) hn hw
    exact haddr _ (hc.batch.token_lt hc.tokens hseq hpos) qh hqh d hd rfl
  · refine storeAll_of_notMem out fun hmem => ?_
    obtain ⟨w, hw, rfl⟩ := List.mem_map.1 hmem
    obtain ⟨tok, htok, hw⟩ := List.mem_flatMap.1 hw
    obtain ⟨qh, hqh, hw⟩ := List.mem_flatMap.1 hw
    obtain ⟨d, hd, rfl⟩ := List.mem_map.1 hw
    have hf := hc.fits (decide (0 < c.softcap)) true b.numParSoftmaxSegments
    exact haddr tok (List.mem_range.1 htok) qh (List.mem_range.1 hqh) d
      ((Int3Args.mem_outDims hf.padded).1 hd) rfl

/-- Attention over the INT3 cache: whichever path is taken, each query token and head of the batch
gets the softmax attention over the dequantised entries of its sequence, and nothing but outputs is
stored to. -/
theorem unifiedAttentionKvquantK3_attention (hc : c.Valid) (hn : 0 < c.batch.numSeqs)
    (out : ℕ → Q) :
    (∀ seq < c.batch.numSeqs, ∀ pos < c.batch.queryLen seq, ∀ qh < c.numQueryHeads,
      ∀ d < c.headSize,
      unifiedAttentionKvquantK3 (realScoreFp toB ofB) (realQ toF ofF) (c.map Real.toEReal) out
        ((c.batch.queryStartLen seq + pos) * c.outStride0 + qh * c.outStride1 + d)
        = ofF (c.attention toF seq pos qh d : ℝ)) ∧
    ∀ addr, (∀ tok < c.numTokens, ∀ qh < c.numQueryHeads, ∀ d < c.headSize,
        addr ≠ tok * c.outStride0 + qh * c.outStride1 + d) →
      unifiedAttentionKvquantK3 (realScoreFp toB ofB) (realQ toF ofF) (c.map Real.toEReal) out addr
        = out addr :=
  ⟨fun _ hseq _ hpos _ hqh _ hd => unifiedAttention_eq toB ofB toF ofF hc out hseq hpos hqh hd,
    fun _ haddr => unifiedAttention_frame toB ofB toF ofF hc hn out haddr⟩

/-- Two sequences with two and one query tokens, two query heads on one KV head, a window of
eighteen keys over two blocks and a sink per head. -/
noncomputable def twoSequences : Int3Call ℝ ℝ where
  query := fun a => a
  queryStride0 := 32
  queryStride1 := 16
  numTokens := 3
  numQueryHeads := 2
  headSize := 16
  elementSize := 2
  key := ⟨⟨fun a => UInt8.ofNat (37 * a), 160, 10, 10, 1⟩, fun a => a + 1, 16, 1, 1⟩
  value := ⟨⟨fun a => UInt8.ofNat (11 * a + 5), 160, 10, 10, 1⟩, fun a => a, 16, 1, 1⟩
  blockSize := 16
  numKvHeads := 1
  batch := ⟨fun i => [0, 2, 3].getD i 3, fun i => [19, 2].getD i 0, 2⟩
  maxSeqlenQ := 2
  softmaxScale := 1
  windowLeft := 17
  blockTable := fun i => [2, 0, 1].getD i 3
  blockTableStride := 2
  softcap := 1
  sinks := some fun h => h
  alibi := none
  qqBias := none
  mmPrefix := none
  outStride0 := 32
  outStride1 := 16
  segm := none
  isBatchInvariant := false

theorem twoSequences_valid : twoSequences.Valid where
  batch := ⟨rfl, by decide, by decide⟩
  kvHeads := by decide
  heads := one_dvd _
  queryHeads := by decide
  headSize := ⟨4, rfl⟩
  tokens := le_rfl
  maxSeqlenQ := by decide
  window := show (-1 : ℤ) ≤ 17 by decide
  mm := fun mm hmm => by simp [twoSequences] at hmm
  outHead := le_rfl
  outToken := le_rfl
  segments := fun b hb => by simp [twoSequences] at hb

theorem unifiedAttentionKvquantK3_attention_two_sequences : twoSequences.Valid ∧
    unifiedAttentionKvquantK3 (realScoreFp realToBf16 bf16ToReal) (realQ id EReal.toReal)
      (twoSequences.map Real.toEReal) (fun _ => 0) ((twoSequences.batch.queryStartLen 0 + 1)
        * twoSequences.outStride0 + 1 * twoSequences.outStride1 + 3)
      = (twoSequences.attention id 0 1 1 3 : EReal).toReal :=
  ⟨twoSequences_valid, (unifiedAttentionKvquantK3_attention realToBf16 bf16ToReal id
    EReal.toReal twoSequences_valid (by decide) fun _ => 0).1 0 (by decide) 1 (by decide) 1
    (by decide) 3 (by decide)⟩

end Attention

end RabitKV
