import RabitKV.Proofs.Int3Launch

/-!
# Which programs of an INT3 launch store to the same address

A program has `BLOCK_M` rows for `BLOCK_Q` query tokens of `num_queries_per_kv` heads each. When the
heads do not fill the rows evenly, the rows left over hold the first token of the next block, which
the next program stores as well. Everything here holds for whatever the float operations are.
-/

namespace RabitKV

open Chunks Stores

variable {F Q : Type} (fp : ScoreFp F) (dt : QDtype F Q) {a : Int3Args F Q}
  {qBlocks kvHeads numTokens qBlock kvHead m seq pos qh d : ℕ}

section Rows

/-- The addresses a row stores to. -/
theorem mem_storeInt3Row (hpad : a.headSize ≤ a.headSizePadded)
    (hs : a.Serves qBlock kvHead m seq pos qh) {addr : ℕ} :
    addr ∈ (storeInt3Row fp dt a (a.batch.rowBlock seq qBlock) kvHead m).map Prod.fst ↔
      ∃ d < a.headSize, addr = a.outAddr (a.batch.queryStartLen seq + pos) qh d := by
  simp only [storeInt3Row, hs.mask0, hs.mask1, Bool.and_self, if_true, hs.offset0, hs.offset1,
    List.map_map, List.mem_map, Int3Args.mem_outDims hpad]
  exact exists_congr fun d => and_congr_right fun _ => eq_comm

/-- A row within the tokens of its block is known by its token and head. -/
theorem Int3Args.Serves.row_eq (hf : a.Fits qBlocks kvHeads numTokens)
    (hs : a.Serves qBlock kvHead m seq pos qh)
    (hrow : m / a.tile.queriesPerKv < a.tile.blockQ) :
    qBlock = pos / a.tile.blockQ ∧ kvHead = qh / a.tile.queriesPerKv ∧
      m = pos % a.tile.blockQ * a.tile.queriesPerKv + qh % a.tile.queriesPerKv := by
  have hmod : m % a.tile.queriesPerKv = qh % a.tile.queriesPerKv := by
    rw [← hs.queryHead, mul_add_mod (Nat.mod_lt _ hf.valid.queries)]
  have hdiv : pos / a.tile.blockQ = qBlock := by rw [← hs.queryPos, mul_add_div hrow]
  have hrem : pos % a.tile.blockQ = m / a.tile.queriesPerKv := by
    rw [← hs.queryPos, mul_add_mod hrow]
  refine ⟨hdiv.symm, hs.kvHead_eq hf.valid, ?_⟩
  rw [hrem, ← hmod]
  exact (Nat.div_add_mod' _ _).symm

/-- The program of a block is known by its sequence and its number there. -/
theorem eq_blockIdx_of_resolve (hb : a.batch.Valid) (hn : 0 < a.batch.numSeqs) {g : ℕ}
    (h : resolveSeqAndQueryLen a.batch g a.tile.blockQ = a.batch.rowBlock seq qBlock) :
    g = a.batch.blockIdx a.tile.blockQ seq qBlock := by
  have hle : a.batch.midVal a.tile.blockQ true (findSeqIdx a.batch g a.tile.blockQ true) ≤ g :=
    hb.midVal_findSeqIdx_le hn
  rw [resolve_eq_rowBlock] at h
  obtain ⟨rfl, rfl, -⟩ := SeqBlock.mk.inj h
  simp only [Batch.midVal, if_true] at hle
  exact (Nat.add_sub_cancel' hle).symm

end Rows

section Addresses

/-- Row `m` of program `(g, kvHead)` stores to `addr`. -/
structure RowStores (a : Int3Args F Q) (g kvHead m addr seq qBlock pos qh d : ℕ) : Prop where
  block : resolveSeqAndQueryLen a.batch g a.tile.blockQ = a.batch.rowBlock seq qBlock
  serves : a.Serves qBlock kvHead m seq pos qh
  dim : d < a.headSize
  addr : addr = a.outAddr (a.batch.queryStartLen seq + pos) qh d

variable (hf : a.Fits qBlocks kvHeads numTokens) (hn : 0 < a.batch.numSeqs)
include hf hn

theorem exists_rowStores {g : ℕ} (hm : m < a.tile.blockM) {w : ℕ × Q}
    (hw : w ∈ storeInt3Row fp dt a (resolveSeqAndQueryLen a.batch g a.tile.blockQ) kvHead m) :
    ∃ seq qBlock pos qh d, RowStores a g kvHead m w.1 seq qBlock pos qh d := by
  by_cases hmask : (a.queryMask0 (resolveSeqAndQueryLen a.batch g a.tile.blockQ) m
      && a.queryMask1 kvHead m) = true
  · obtain ⟨seq, qBlock, pos, qh, hblock, hs⟩ := hf.serves_of_masks hn hm hmask
    rw [hblock] at hw
    obtain ⟨d, hd, haddr⟩ :=
      (mem_storeInt3Row fp dt hf.padded hs).1 (List.mem_map_of_mem hw)
    exact ⟨seq, qBlock, pos, qh, d, hblock, hs, hd, haddr⟩
  · rw [storeInt3Row, if_neg hmask] at hw
    exact absurd hw List.not_mem_nil

/-- An address is stored to by one row, as long as no row lies beyond the tokens of its block. -/
theorem RowStores.unique {g g' kvHead' m' addr seq' qBlock' pos' qh' d' : ℕ}
    (hs : RowStores a g kvHead m addr seq qBlock pos qh d)
    (hs' : RowStores a g' kvHead' m' addr seq' qBlock' pos' qh' d')
    (hrow : m / a.tile.queriesPerKv < a.tile.blockQ)
    (hrow' : m' / a.tile.queriesPerKv < a.tile.blockQ) :
    g = g' ∧ kvHead = kvHead' ∧ m = m' := by
  obtain ⟨htok, rfl, rfl⟩ := hf.outAddr_inj hs.serves.head_lt hs.dim hs'.serves.head_lt hs'.dim
    (hs.addr.symm.trans hs'.addr)
  obtain ⟨rfl, rfl⟩ := token_inj hf.valid.batch hs.serves.seq_lt hs.serves.pos_lt
    hs'.serves.seq_lt hs'.serves.pos_lt htok
  obtain ⟨hq, hk, hm⟩ := hs.serves.row_eq hf hrow
  obtain ⟨hq', hk', hm'⟩ := hs'.serves.row_eq hf hrow'
  refine ⟨?_, hk.trans hk'.symm, hm.trans hm'.symm⟩
  rw [eq_blockIdx_of_resolve hf.valid.batch hn hs.block,
    eq_blockIdx_of_resolve hf.valid.batch hn hs'.block, hq, hq']

omit hf hn in
theorem nodup_storeInt3Row (s : SeqBlock) :
    ((storeInt3Row fp dt a s kvHead m).map Prod.fst).Nodup := by
  unfold storeInt3Row
  split_ifs
  · rw [List.map_map]
    exact (List.nodup_range.filter _).map fun d d' h => Nat.add_left_cancel h
  · exact List.nodup_nil

/-- No two rows of the launch store to one address, as long as none lies beyond its block. -/
theorem nodup_attnInt3Kernel (hrows : ∀ {qBlock kvHead m seq pos qh : ℕ},
      a.Serves qBlock kvHead m seq pos qh → m / a.tile.queriesPerKv < a.tile.blockQ) :
    ((attnInt3Kernel fp dt a qBlocks kvHeads).map Prod.fst).Nodup := by
  have hprogram : ∀ g h, ∀ w ∈ int3Program fp dt a g h, ∃ m ∈ List.range a.tile.blockM,
      w ∈ storeInt3Row fp dt a (resolveSeqAndQueryLen a.batch g a.tile.blockQ) h m := by
    intro g h w hw
    simp only [int3Program] at hw
    split_ifs at hw
    · exact absurd hw List.not_mem_nil
    · exact List.mem_flatMap.1 hw
  -- an address names its program and its row
  have hkey : ∀ {g g' h h' m m' : ℕ} {w w' : ℕ × Q}, m ∈ List.range a.tile.blockM →
      m' ∈ List.range a.tile.blockM →
      w ∈ storeInt3Row fp dt a (resolveSeqAndQueryLen a.batch g a.tile.blockQ) h m →
      w' ∈ storeInt3Row fp dt a (resolveSeqAndQueryLen a.batch g' a.tile.blockQ) h' m' →
      w.1 = w'.1 → g = g' ∧ h = h' ∧ m = m' := by
    intro g g' h h' m m' w w' hm hm' hw hw' heq
    obtain ⟨_, _, _, _, _, hs⟩ := exists_rowStores fp dt hf hn (List.mem_range.1 hm) hw
    obtain ⟨_, _, _, _, _, hs'⟩ := exists_rowStores fp dt hf hn (List.mem_range.1 hm') hw'
    exact RowStores.unique hf hn (heq ▸ hs) hs' (hrows hs.serves) (hrows hs'.serves)
  refine nodup_keys_flatMap List.nodup_range (fun g _ => ?_) fun g _ g' _ w hw w' hw' heq => ?_
  · refine nodup_keys_flatMap List.nodup_range (fun h _ => ?_) fun h _ h' _ w hw w' hw' heq => ?_
    · simp only [int3Program]
      split_ifs
      · exact List.nodup_nil
      · exact nodup_keys_flatMap List.nodup_range (fun m _ => nodup_storeInt3Row fp dt _)
          fun m hm m' hm' w hw w' hw' heq => (hkey hm hm' hw hw' heq).2.2
    · obtain ⟨m, hm, hw⟩ := hprogram g h w hw
      obtain ⟨m', hm', hw'⟩ := hprogram g h' w' hw'
      exact (hkey hm hm' hw hw' heq).2.1
  · obtain ⟨h, -, hw⟩ := List.mem_flatMap.1 hw
    obtain ⟨h', -, hw'⟩ := List.mem_flatMap.1 hw'
    obtain ⟨m, hm, hw⟩ := hprogram g h w hw
    obtain ⟨m', hm', hw'⟩ := hprogram g' h' w' hw'
    exact (hkey hm hm' hw hw' heq).1

omit hn in
theorem addr_mem_int3Program {g : ℕ}
    (hblock : resolveSeqAndQueryLen a.batch g a.tile.blockQ = a.batch.rowBlock seq qBlock)
    (hs : a.Serves qBlock kvHead m seq pos qh) (hd : d < a.headSize) :
    a.outAddr (a.batch.queryStartLen seq + pos) qh d
      ∈ (int3Program fp dt a g kvHead).map Prod.fst := by
  have hstart : ¬ a.batch.queryLen seq ≤ qBlock * a.tile.blockQ := by
    have := hs.pos_lt
    have := (Nat.le_add_right _ _).trans hs.queryPos.le
    omega
  simp only [int3Program, hblock, Batch.rowBlock_queryLen, Batch.rowBlock_qBlockLocalIdx,
    if_neg hstart, List.map_flatMap]
  exact List.mem_flatMap.2 ⟨m, List.mem_range.2 hs.row_lt,
    (mem_storeInt3Row fp dt hf.padded hs).2 ⟨d, hd, rfl⟩⟩

omit hn in
/-- The first row left over and the first row of the next block. -/
theorem not_nodup_attnInt3Kernel (hrest : ¬ a.tile.queriesPerKv ∣ a.tile.blockM)
    (hseq : seq < a.batch.numSeqs) (hlong : a.tile.blockQ < a.batch.queryLen seq)
    (hheads : 0 < a.numQueryHeads) (hd : 0 < a.headSize) :
    ¬ ((attnInt3Kernel fp dt a qBlocks kvHeads).map Prod.fst).Nodup := by
  have hQ := hf.blockQ_pos
  have hkv : 0 < kvHeads := Nat.pos_of_ne_zero fun h => by
    have := hf.heads
    simp [h] at this
    omega
  have hover : a.Serves 0 0 (a.tile.blockQ * a.tile.queriesPerKv) seq a.tile.blockQ 0 := by
    refine ⟨hseq, ?_, ?_, hlong, ?_, hheads⟩
    · have hne : a.tile.blockQ * a.tile.queriesPerKv ≠ a.tile.blockM := fun h =>
        hrest (h ▸ Nat.dvd_mul_left _ _)
      have hle : a.tile.blockQ * a.tile.queriesPerKv ≤ a.tile.blockM := by
        rw [hf.blockQ]
        exact Nat.div_mul_le_self _ _
      omega
    · rw [Nat.mul_div_cancel _ hf.valid.queries, Nat.zero_mul, Nat.zero_add]
    · rw [Nat.mul_mod_left, Nat.zero_mul]
  have hnext := hf.serves hseq hlong hheads
  have hblock0 : resolveSeqAndQueryLen a.batch (a.batch.blockIdx a.tile.blockQ seq
      (0 / a.tile.blockQ)) a.tile.blockQ = a.batch.rowBlock seq (0 / a.tile.blockQ) :=
    resolve_rowBlock hf.valid.batch hseq (hQ.trans hlong)
  have hblock1 : resolveSeqAndQueryLen a.batch (a.batch.blockIdx a.tile.blockQ seq
      (a.tile.blockQ / a.tile.blockQ)) a.tile.blockQ
      = a.batch.rowBlock seq (a.tile.blockQ / a.tile.blockQ) :=
    resolve_rowBlock hf.valid.batch hseq hlong
  have hlt : a.batch.blockIdx a.tile.blockQ seq (a.tile.blockQ / a.tile.blockQ)
      < numTokens / a.tile.blockQ + a.batch.numSeqs :=
    blockIdx_lt hf.valid.batch hseq hlong hf.tokens
  rw [Nat.zero_div] at hblock0
  rw [Nat.zero_div] at hnext
  refine not_nodup_keys_flatMap (i := a.batch.blockIdx a.tile.blockQ seq 0)
    (j := a.batch.blockIdx a.tile.blockQ seq (a.tile.blockQ / a.tile.blockQ)) ?_ (hf.grid ▸ hlt)
      ?_ ?_ (k := a.outAddr (a.batch.queryStartLen seq + a.tile.blockQ) 0 0)
  · simp [Batch.blockIdx, Nat.div_self hQ]
  · rw [List.map_flatMap]
    exact List.mem_flatMap.2
      ⟨0, List.mem_range.2 hkv, addr_mem_int3Program fp dt hf hblock0 hover hd⟩
  · rw [List.map_flatMap]
    exact List.mem_flatMap.2
      ⟨0, List.mem_range.2 hkv, addr_mem_int3Program fp dt hf hblock1 hnext hd⟩

end Addresses

section Call

variable {c : Int3Call F Q}

/-- The 2D launch stores to every address once exactly when the query heads of a KV head fill the
rows of a program, or no sequence has more query tokens than a program takes. -/
theorem attnInt3Kernel_nodup_iff (hc : c.Valid) (hn : 0 < c.batch.numSeqs) (useSoftcap : Bool) :
    ((attnInt3Kernel fp dt (c.args useSoftcap false 1) c.totalNumQBlocks
      c.numKvHeads).map Prod.fst).Nodup ↔
      c.queriesPerKv ∣ c.blockM ∨ ∀ seq < c.batch.numSeqs, c.batch.queryLen seq ≤ c.blockQ := by
  have hf := hc.fits useSoftcap false 1
  constructor
  · intro hnodup
    by_contra hc'
    push Not at hc'
    obtain ⟨hrest, seq, hseq, hlong⟩ := hc'
    exact not_nodup_attnInt3Kernel fp dt hf hrest hseq hlong hc.queryHeads hc.headSize_pos
      hnodup
  · intro h
    refine nodup_attnInt3Kernel fp dt hf hn fun {qBlock kvHead m seq pos qh} hs => ?_
    rcases h with hfill | hshort
    · have hrows : c.blockQ * c.queriesPerKv = c.blockM := Nat.div_mul_cancel hfill
      have hm : m < c.blockQ * c.queriesPerKv := hrows.symm ▸ hs.row_lt
      exact (Nat.div_lt_iff_lt_mul hc.queriesPerKv_pos).2 hm
    · calc m / c.queriesPerKv ≤ pos := (Nat.le_add_left _ _).trans hs.queryPos.le
        _ < c.batch.queryLen seq := hs.pos_lt
        _ ≤ c.blockQ := hshort seq hs.seq_lt

/-- Two query heads on a KV head fill the sixteen rows. -/
theorem attnInt3Kernel_nodup_two_heads : twoSequences.Valid ∧
    ((attnInt3Kernel (realScoreFp realToBf16 bf16ToReal) (realQ id EReal.toReal)
      ((twoSequences.map Real.toEReal).args true false 1) twoSequences.totalNumQBlocks
      twoSequences.numKvHeads).map Prod.fst).Nodup :=
  ⟨twoSequences_valid, (attnInt3Kernel_nodup_iff _ _ (twoSequences_valid.map Real.toEReal)
    (show 0 < twoSequences.batch.numSeqs by decide) true).2
    (.inl (show twoSequences.queriesPerKv ∣ twoSequences.blockM by decide))⟩

end Call

end RabitKV
