import RabitKV.Int3Serve
import RabitKV.Proofs.Int3Cache
import RabitKV.Proofs.Int3Launch

/-!
# Serving from the INT3 cache: what is attended over is what was written

A run of cache writes keeps every slot at the quantised token that was put there last
(`writeAll_refines`). An entry the attention kernel cuts out of the paged bytes is then the
quantised entry of the token (`entry_eq`), so attention over the cache is attention over the
quantised tokens.
-/

namespace RabitKV

open Softmax

section Writes

variable {F B : Type} (fp : Fp F B) {nb bs H D W : ℕ}

/-- A call as the scheduler makes it: distinct slots of the cache, no padding, and both indexed
assignments store every token. -/
structure Int3Write.Valid (nb bs : ℕ) (w : Int3Write H D F) : Prop where
  slots : SlotMapping nb bs w.slots
  noPadding : ∀ i, w.slots i ≠ -1
  keyOrder : w.keyOrder.Complete
  valueOrder : w.valueOrder.Complete

/-- A slot holds a quantised token. -/
structure SlotCache.HoldsRow (cache : SlotCache nb bs H W F) (a : Fin nb × Fin bs)
    (row : Int3Row H D F) : Prop where
  codes : ∀ h (j : Fin (packedDim D 3)) (hj : j.1 < W), cache.codes a h ⟨j, hj⟩ = row.packed h j
  scales : cache.scales a = row.scales

/-- Every slot holds the quantised token that was put there. -/
def Int3Cache.Refines (s : Int3Cache nb bs H W W F) (held : HeldTokens nb bs H D F) : Prop :=
  ∀ a k v, held a = some (k, v) →
    s.key.HoldsRow a (quantizeInt3 fp k) ∧ s.value.HoldsRow a (quantizeInt3 fp v)

theorem slotAt_iff {s : ℤ} {a : Fin nb × Fin bs} : SlotAt s a ↔ s = a.1 * bs + a.2 := by
  have hbs : (0 : ℤ) < bs := by have := a.2.2; omega
  constructor
  · rintro ⟨hdiv, hmod⟩
    rw [← hdiv, ← hmod, mul_comm]
    exact (Int.mul_ediv_add_emod s bs).symm
  · rintro rfl
    have hlt : ((a.2 : ℕ) : ℤ) < bs := by exact_mod_cast a.2.2
    constructor
    · rw [Int.add_comm, Int.add_mul_ediv_right _ _ hbs.ne',
        Int.ediv_eq_zero_of_lt (Int.natCast_nonneg _) hlt, zero_add]
    · rw [Int.add_comm, Int.add_mul_emod_self_right,
        Int.emod_eq_of_lt (Int.natCast_nonneg _) hlt]

variable {fp}

theorem WritesNamed.holdsRow_self {n : ℕ} {slots : Fin n → ℤ} {rows : Fin n → Int3Row H D F}
    {before after : SlotCache nb bs H W F} (h : WritesNamed slots rows before after) {i : Fin n}
    {a : Fin nb × Fin bs} (hi : SlotAt (slots i) a) : after.HoldsRow a (rows i) :=
  ⟨h.codes i a hi, h.scales i a hi⟩

theorem WritesNamed.holdsRow_other {n : ℕ} {slots : Fin n → ℤ} {rows : Fin n → Int3Row H D F}
    {before after : SlotCache nb bs H W F} (h : WritesNamed slots rows before after)
    {a : Fin nb × Fin bs} (ha : ∀ i, ¬ SlotAt (slots i) a) {row : Int3Row H D F}
    (hrow : before.HoldsRow a row) : after.HoldsRow a row := by
  obtain ⟨hcodes, hscales⟩ := h.other a ha
  exact ⟨fun hd j hj => by rw [hcodes]; exact hrow.codes hd j hj, hscales.trans hrow.scales⟩

/-- What a call puts into a slot. -/
theorem Int3Write.put_eq (w : Int3Write H D F) (held : HeldTokens nb bs H D F)
    (a : Fin nb × Fin bs) :
    (∃ i, SlotAt (w.slots i) a ∧ w.put held a = some (w.key i, w.value i)) ∨
      (∀ i, ¬ SlotAt (w.slots i) a) ∧ w.put held a = held a := by
  unfold Int3Write.put
  rcases hfind : (List.finRange w.n).find? fun i => decide (w.slots i = a.1 * bs + a.2) with _ | i
  · refine .inr ⟨fun i hi => ?_, rfl⟩
    have hnone := List.find?_eq_none.1 hfind i (List.mem_finRange i)
    exact hnone (decide_eq_true (slotAt_iff.1 hi))
  · have hslot : decide (w.slots i = a.1 * bs + a.2) = true := by simpa using List.find?_some hfind
    exact .inl ⟨i, slotAt_iff.2 (of_decide_eq_true hslot), rfl⟩

/-- One call. -/
theorem reshapeAndCache_refines (hD : 0 < D) (hW : packedDim D 3 ≤ W) {w : Int3Write H D F}
    (hw : w.Valid nb bs) {s : Int3Cache nb bs H W W F} {held : HeldTokens nb bs H D F}
    (hs : s.Refines fp held) :
    ∃ s', (reshapeAndCacheKvquantK3 fp w.slots w.keyOrder w.valueOrder w.key w.value).run s
        = .ok () s' ∧ s'.Refines fp (w.put held) := by
  have hwidth : int3PackedWidth w.n H D ≤ W := by
    unfold int3PackedWidth
    split_ifs <;> omega
  obtain ⟨k, hk, hkn⟩ := writePackedCache_named fp hw.slots w.key s.key hD hwidth
    (paddingHarmless_of_forall _ hw.noPadding) hw.keyOrder
  obtain ⟨v, hv, hvn⟩ := writePackedCache_named fp hw.slots w.value s.value hD hwidth
    (paddingHarmless_of_forall _ hw.noPadding) hw.valueOrder
  refine ⟨⟨k, v⟩, (reshapeAndCache_run fp).2 ⟨hk, hv⟩, fun a x y hxy => ?_⟩
  rcases w.put_eq held a with ⟨i, hi, hput⟩ | ⟨hnone, hput⟩
  · obtain ⟨rfl, rfl⟩ := Prod.mk.inj (Option.some.inj (hput.symm.trans hxy))
    exact ⟨hkn.holdsRow_self hi, hvn.holdsRow_self hi⟩
  · obtain ⟨hkey, hvalue⟩ := hs a x y (hput ▸ hxy)
    exact ⟨hkn.holdsRow_other hnone hkey, hvn.holdsRow_other hnone hvalue⟩

/-- A whole run. -/
theorem writeAll_refines (hD : 0 < D) (hW : packedDim D 3 ≤ W) :
    ∀ {writes : List (Int3Write H D F)}, (∀ w ∈ writes, w.Valid nb bs) →
      ∀ {s : Int3Cache nb bs H W W F} {held : HeldTokens nb bs H D F}, s.Refines fp held →
      ∃ s', (writeAll fp writes).run s = .ok () s' ∧ s'.Refines fp (heldAfter writes held)
  | [], _, s, held, hs => ⟨s, rfl, hs⟩
  | w :: writes, hvalid, s, held, hs => by
    obtain ⟨s₁, hrun₁, hs₁⟩ := reshapeAndCache_refines hD hW (hvalid w List.mem_cons_self) hs
    obtain ⟨s', hrun, hs'⟩ := writeAll_refines hD hW
      (fun w' hw' => hvalid w' (List.mem_cons_of_mem _ hw')) hs₁
    refine ⟨s', ?_, hs'⟩
    show (reshapeAndCacheKvquantK3 fp w.slots w.keyOrder w.valueOrder w.key w.value
      >>= fun _ => writeAll fp writes).run s = _
    rw [EStateM.run_bind, hrun₁]
    exact hrun

end Writes

section Entries

variable {B : Type} {fp : Fp ℝ B} {Q : Type} {a : Int3Args ℝ Q} {nb bs H D W : ℕ}
  {cache : SlotCache nb bs H W ℝ} {side : Int3Side ℝ} {p : Fin nb × Fin bs} {seq j : ℕ}

/-- The code cut out of the bytes of a slot is the code of the token. -/
theorem signedCode_eq (hview : side.Views cache) (hW : packedDim D 3 ≤ W)
    (hplace : a.place seq j = (p.1.1, p.2.1)) {x : Tok H D ℝ}
    (hrow : cache.HoldsRow p (quantizeInt3 fp x)) (h : Fin H) (d : Fin D) :
    a.signedCode side seq h j d = int3Code fp (x h) d - 4 := by
  have hcode : unpackCode 3 (ext (packRow 3 (int3Code fp (x h)))) d = int3Code fp (x h) d := by
    refine unpackCode_packRow (by decide) d ?_
    unfold int3Code
    omega
  have hbytes : unpackCode 3 (fun i => side.cache.mem ((a.place seq j).1 * side.cache.stride0
      + h * side.cache.stride2 + (a.place seq j).2 * side.cache.stride1 + i * side.cache.stride3)) d
      = unpackCode 3 (ext (packRow 3 (int3Code fp (x h)))) d := by
    refine unpackCode_congr fun i hi => ?_
    have hlt : i < packedDim D 3 := by
      have : d.1 < D := d.2
      unfold packedDim at hi ⊢
      omega
    rw [ext_of_lt _ hlt, hplace]
    exact (hview.codes p h ⟨i, hlt.trans_le hW⟩).trans (hrow.codes h ⟨i, hlt⟩ (hlt.trans_le hW))
  rw [Int3Args.signedCode, hbytes, hcode]

theorem entry_eq (hview : side.Views cache) (hW : packedDim D 3 ≤ W)
    (hplace : a.place seq j = (p.1.1, p.2.1)) {x : Tok H D ℝ}
    (hrow : cache.HoldsRow p (quantizeInt3 fp x)) {h d : ℕ} (hh : h < H) (hd : d < D) :
    a.entry side seq h j d = quantizedEntry fp x h d := by
  have hscale : a.entryScale side seq h j = int3Scale fp (x ⟨h, hh⟩) := by
    have hs := hview.scales p ⟨h, hh⟩
    rw [hrow.scales] at hs
    simp only [Int3Args.entryScale, hplace]
    exact hs
  rw [quantizedEntry, dif_pos ⟨hh, hd⟩, Int3Args.entry, hscale,
    signedCode_eq hview hW hplace hrow ⟨h, hh⟩ ⟨d, hd⟩]

end Entries

section Attention

variable {Q : Type}

theorem Int3Args.attentionOver_congr (a : Int3Args ℝ Q) (toF : Q → ℝ) (seq pos qh : ℕ)
    {K V K' V' : ℕ → ℕ → ℕ → ℝ} {d : ℕ} (hd : d < a.headSize)
    (hK : ∀ j < a.batch.seqLens seq, ∀ e < a.headSize,
      K (qh / a.tile.queriesPerKv) j e = K' (qh / a.tile.queriesPerKv) j e)
    (hV : ∀ j < a.batch.seqLens seq, ∀ e < a.headSize,
      V (qh / a.tile.queriesPerKv) j e = V' (qh / a.tile.queriesPerKv) j e) :
    a.attentionOver toF seq pos qh K V d = a.attentionOver toF seq pos qh K' V' d := by
  have hkey : ∀ t ∈ a.sinkTokens ++ (a.keys seq pos).map some,
      t = none ∨ ∃ j < a.batch.seqLens seq, t = some j := by
    intro t ht
    rcases List.mem_append.1 ht with ht | ht
    · unfold Int3Args.sinkTokens at ht
      split_ifs at ht
      · exact .inl (List.mem_singleton.1 ht)
      · exact absurd ht List.not_mem_nil
    · obtain ⟨j, hj, rfl⟩ := List.mem_map.1 ht
      exact .inr ⟨j, List.mem_range.1 (List.mem_filter.1 hj).1, rfl⟩
  refine attend_congr (fun t ht => ?_) fun t ht => ?_
  · rcases hkey t ht with rfl | ⟨j, hj, rfl⟩
    · rfl
    · simp only [Int3Args.tokenScoreOver, Option.elim_some, Int3Args.scoreOver]
      rw [Finset.sum_congr rfl fun e he => by rw [hK j hj e (Finset.mem_range.1 he)]]
  · rcases hkey t ht with rfl | ⟨j, hj, rfl⟩
    · rfl
    · exact hV j hj d hd

variable {B : Type} {fp : Fp ℝ B} {nb bs H D W : ℕ} {c : Int3Call ℝ Q}

/-- A call attends over the cache after a run: it sees both sides, and position `j` of a sequence
lies in the slot that holds token `tok seq j`. -/
structure Int3Call.Sees (c : Int3Call ℝ Q) (s : Int3Cache nb bs H W W ℝ)
    (held : HeldTokens nb bs H D ℝ) (tok : ℕ → ℕ → Tok H D ℝ × Tok H D ℝ) : Prop where
  key : c.key.Views s.key
  value : c.value.Views s.value
  heads : c.numKvHeads = H
  headSize : c.headSize = D
  blockSize : c.blockSize = bs
  slots : ∀ seq < c.batch.numSeqs, ∀ j < c.batch.seqLens seq, ∃ p : Fin nb × Fin bs,
    c.blockTable (seq * c.blockTableStride + j / bs) = p.1 ∧ j % bs = p.2 ∧
      held p = some (tok seq j)

variable (toB : EReal → Bf16) (ofB : Bf16 → ℝ) (toF : Q → ℝ) (ofF : EReal → Q)

variable (fp) in
/-- Serving from the INT3 cache: after any run of writes, attention of a step over the cache is
softmax attention over the tokens its slots were given last, each quantised once. -/
theorem writeAll_attention (hD : 0 < D) (hW : packedDim D 3 ≤ W)
    {writes : List (Int3Write H D ℝ)} (hwrites : ∀ w ∈ writes, w.Valid nb bs)
    (s : Int3Cache nb bs H W W ℝ) :
    ∃ s', (writeAll fp writes).run s = .ok () s' ∧
      ∀ (c : Int3Call ℝ Q) (tok : ℕ → ℕ → Tok H D ℝ × Tok H D ℝ), c.Valid →
        c.Sees s' (heldAfter writes fun _ => none) tok →
        ∀ (out : ℕ → Q) (seq pos qh d : ℕ), seq < c.batch.numSeqs → pos < c.batch.queryLen seq →
          qh < c.numQueryHeads → d < D →
          unifiedAttentionKvquantK3 (realScoreFp toB ofB) (realQ toF ofF) (c.map Real.toEReal) out
            ((c.batch.queryStartLen seq + pos) * c.outStride0 + qh * c.outStride1 + d)
            = ofF (c.attentionOver toF seq pos qh
              (fun h j e => quantizedEntry fp (tok seq j).1 h e)
              (fun h j e => quantizedEntry fp (tok seq j).2 h e) d : ℝ) := by
  have hempty : s.Refines fp (fun _ => none : HeldTokens nb bs H D ℝ) := fun _ _ _ h => by cases h
  obtain ⟨s', hrun, hs'⟩ := writeAll_refines hD hW hwrites hempty
  refine ⟨s', hrun, fun c tok hc hsees out seq pos qh d hseq hpos hqh hd => ?_⟩
  have hkv : qh / c.queriesPerKv < H := by
    rw [← hsees.heads, Nat.div_lt_iff_lt_mul hc.queriesPerKv_pos]
    exact hqh.trans_le (Nat.mul_div_cancel' hc.heads).ge
  have hplace : ∀ j < c.batch.seqLens seq, ∃ p : Fin nb × Fin bs,
      c.problem.place seq j = (p.1.1, p.2.1) ∧
        s'.key.HoldsRow p (quantizeInt3 fp (tok seq j).1) ∧
        s'.value.HoldsRow p (quantizeInt3 fp (tok seq j).2) := by
    intro j hj
    obtain ⟨p, hblock, hslot, hheld⟩ := hsees.slots seq hseq j hj
    refine ⟨p, ?_, hs' p _ _ hheld⟩
    rw [← hslot, ← hblock, ← hsees.blockSize]
    rfl
  rw [unifiedAttention_eq toB ofB toF ofF hc out hseq hpos hqh (hsees.headSize ▸ hd)]
  refine congrArg (fun x : ℝ => ofF x) (c.problem.attentionOver_congr toF seq pos qh
    (show d < c.headSize from hsees.headSize ▸ hd) (fun j hj e he => ?_) fun j hj e he => ?_)
  · obtain ⟨p, hp, hrow, -⟩ := hplace j hj
    exact entry_eq hsees.key hW hp hrow hkv (hsees.headSize ▸ he)
  · obtain ⟨p, hp, -, hrow⟩ := hplace j hj
    exact entry_eq hsees.value hW hp hrow hkv (hsees.headSize ▸ he)

/-- Real arithmetic for the writer. -/
noncomputable def writerFp : Fp ℝ ℝ where
  lit := fun x => x
  minimum := min
  maximum := max
  add := (· + ·)
  sub := (· - ·)
  mul := (· * ·)
  div := (· / ·)
  abs := abs
  lt := fun x y => open Classical in decide (x < y)
  eq := fun x y => open Classical in decide (x = y)
  round := roundHalfEven
  floor := Int.floor
  toB := id
  ofB := id

/-- A token whose entries count up from `c`. -/
def countTok (c : ℕ) : Tok 2 16 ℝ := fun h d => (c + 3 * h + d : ℕ)

/-- Three tokens for the slots 0, 1 and 2. -/
def firstWrite : Int3Write 2 16 ℝ :=
  ⟨3, fun i => i, fun i => countTok i, fun i => countTok (i + 5), tokenOrder 3, tokenOrder 3⟩

/-- Two tokens, one for the free slot 3 and one over what slot 1 held. -/
def secondWrite : Int3Write 2 16 ℝ :=
  ⟨2, fun i => 2 * i + 1, fun i => countTok (i + 10), fun i => countTok (i + 20), tokenOrder 2,
    tokenOrder 2⟩

theorem firstWrite_valid : firstWrite.Valid 2 2 where
  slots := ⟨by decide, by decide⟩
  noPadding := by decide
  keyOrder := tokenOrder_complete 3
  valueOrder := tokenOrder_complete 3

theorem secondWrite_valid : secondWrite.Valid 2 2 where
  slots := ⟨by decide, by decide⟩
  noPadding := by decide
  keyOrder := tokenOrder_complete 2
  valueOrder := tokenOrder_complete 2

/-- A side of two blocks with two slots as contiguous memory. -/
def pagedSide {F : Type} (cache : SlotCache 2 2 2 6 F) : Int3Side F :=
  ⟨⟨fun a => cache.codes (Fin.ofNat 2 (a / 24), Fin.ofNat 2 (a / 12)) (Fin.ofNat 2 (a / 6))
      (Fin.ofNat 6 a), 24, 12, 6, 1⟩,
    fun a => cache.scales (Fin.ofNat 2 (a / 4), Fin.ofNat 2 (a / 2)) (Fin.ofNat 2 a), 4, 2, 1⟩

theorem pagedSide_views {F : Type} (cache : SlotCache 2 2 2 6 F) :
    (pagedSide cache).Views cache where
  codes := by
    rintro ⟨⟨blk, hblk⟩, ⟨slot, hslot⟩⟩ ⟨h, hh⟩ ⟨j, hj⟩
    have hb : (blk * 24 + h * 6 + slot * 12 + j * 1) / 24 % 2 = blk := by omega
    have hs : (blk * 24 + h * 6 + slot * 12 + j * 1) / 12 % 2 = slot := by omega
    have hd : (blk * 24 + h * 6 + slot * 12 + j * 1) / 6 % 2 = h := by omega
    have he : (blk * 24 + h * 6 + slot * 12 + j * 1) % 6 = j := by omega
    simp only [pagedSide, Fin.ofNat, hb, hs, hd, he]
  scales := by
    rintro ⟨⟨blk, hblk⟩, ⟨slot, hslot⟩⟩ ⟨h, hh⟩
    have hb : (blk * 4 + slot * 2 + h * 1) / 4 % 2 = blk := by omega
    have hs : (blk * 4 + slot * 2 + h * 1) / 2 % 2 = slot := by omega
    have hd : (blk * 4 + slot * 2 + h * 1) % 2 = h := by omega
    simp only [pagedSide, Fin.ofNat, hb, hs, hd]

/-- A decode step of four query heads over a sequence of four tokens, the first two in block 1 and
the last two in block 0. -/
noncomputable def decodeCall (s : Int3Cache 2 2 2 6 6 ℝ) : Int3Call ℝ ℝ where
  query := fun a => a
  queryStride0 := 64
  queryStride1 := 16
  numTokens := 1
  numQueryHeads := 4
  headSize := 16
  elementSize := 2
  key := pagedSide s.key
  value := pagedSide s.value
  blockSize := 2
  numKvHeads := 2
  batch := ⟨fun i => min i 1, fun _ => 4, 1⟩
  maxSeqlenQ := 1
  softmaxScale := 1
  windowLeft := -1
  blockTable := fun i => 1 - i
  blockTableStride := 2
  softcap := 0
  sinks := none
  alibi := none
  qqBias := none
  mmPrefix := none
  outStride0 := 64
  outStride1 := 16
  segm := some ⟨1, 2, fun _ => 0⟩
  isBatchInvariant := false

theorem decodeCall_valid (s : Int3Cache 2 2 2 6 6 ℝ) : (decodeCall s).Valid where
  batch := ⟨rfl, fun i _ => by simp only [decodeCall]; omega, fun i _ => by
    simp only [decodeCall, Batch.queryLen]; omega⟩
  kvHeads := two_pos
  heads := ⟨2, rfl⟩
  queryHeads := four_pos
  headSize := ⟨4, rfl⟩
  tokens := le_rfl
  maxSeqlenQ := fun i _ => by simp only [decodeCall, Batch.queryLen]; omega
  window := le_rfl
  mm := fun mm hmm => by simp [decodeCall] at hmm
  outHead := le_rfl
  outToken := le_rfl
  segments := fun b hb => by
    obtain rfl := Option.some.inj hb
    exact ⟨1, rfl⟩

/-- The tokens of the sequence, the last one from the rewritten slot. -/
def decodeTokens (j : ℕ) : Tok 2 16 ℝ × Tok 2 16 ℝ :=
  [(countTok 2, countTok 7), (countTok 11, countTok 21), (countTok 0, countTok 5),
    (countTok 10, countTok 20)].getD j (countTok 0, countTok 0)

theorem decodeCall_sees (s : Int3Cache 2 2 2 6 6 ℝ) : (decodeCall s).Sees s
    (heldAfter [firstWrite, secondWrite] fun _ => none) fun _ => decodeTokens where
  key := pagedSide_views s.key
  value := pagedSide_views s.value
  heads := rfl
  headSize := rfl
  blockSize := rfl
  slots := fun seq hseq j hj => by
    obtain rfl : seq = 0 := by simpa [decodeCall] using hseq
    have hj : j < 4 := hj
    interval_cases j
    · exact ⟨(1, 0), rfl, rfl, rfl⟩
    · exact ⟨(1, 1), rfl, rfl, rfl⟩
    · exact ⟨(0, 0), rfl, rfl, rfl⟩
    · exact ⟨(0, 1), rfl, rfl, rfl⟩

theorem writeAll_attention_rewritten_slot : ∃ s' : Int3Cache 2 2 2 6 6 ℝ,
    (writeAll writerFp [firstWrite, secondWrite]).run ⟨⟨fun _ _ _ => 0, fun _ _ => 1⟩,
      ⟨fun _ _ _ => 0, fun _ _ => 1⟩⟩ = .ok () s' ∧
    unifiedAttentionKvquantK3 (realScoreFp realToBf16 bf16ToReal) (realQ id EReal.toReal)
      ((decodeCall s').map Real.toEReal) (fun _ => 0) (3 * 16 + 5)
      = ((decodeCall s').attentionOver id 0 0 3
        (fun h j e => quantizedEntry writerFp (decodeTokens j).1 h e)
        (fun h j e => quantizedEntry writerFp (decodeTokens j).2 h e) 5 : EReal).toReal := by
  obtain ⟨s', hrun, hattend⟩ := writeAll_attention writerFp realToBf16 bf16ToReal id
    EReal.toReal (show 0 < 16 by decide) (show packedDim 16 3 ≤ 6 by decide)
    (show ∀ w ∈ [firstWrite, secondWrite], w.Valid 2 2 by
      simpa using ⟨firstWrite_valid, secondWrite_valid⟩)
    ⟨⟨fun _ _ _ => 0, fun _ _ => 1⟩, ⟨fun _ _ _ => 0, fun _ _ => 1⟩⟩
  exact ⟨s', hrun, hattend _ _ (decodeCall_valid s') (decodeCall_sees s') (fun _ => 0) 0 0 3 5
    one_pos one_pos (show 3 < 4 by decide) (by decide)⟩

end Attention

end RabitKV
