import RabitKV.Proofs.Attention
import RabitKV.Proofs.Int3Format
import RabitKV.Proofs.Int3Launch
import RabitKV.Proofs.PageRef
import RabitKV.Stage3b1

/-!
# The Stage 3B1 encoder is the reference encoder

Each kernel fills its buffer whatever it held before, with the values of the reference quantizers
(`kPrimary_eq`, `rowsTo_kPack`, `vPrimary_eq`, `rowsTo_vPack`, `encodeMetaTriton_eq`), and the
copies tile the page (`copyPage_eq`). So the encoder is `encode_rabit2_page_ref` behind the layout
check.
-/

namespace RabitKV

open BitStream Chunks Softmax Stores

section Rows

variable {α : Type} {H n : ℕ}

/-- A contiguous buffer, row by row. -/
theorem flatTokens_rowsTo (mem : ℕ → α) (tokens : ℕ) :
    flatTokens (rowsTo H n mem tokens) = (List.range (tokens * H * n)).map mem :=
  flatTokens_range mem tokens

theorem rowsTo_map {β : Type} (f : α → β) (mem : ℕ → α) (tokens : ℕ) :
    rowsTo H n (fun a => f (mem a)) tokens = (rowsTo H n mem tokens).map (Tok.map f) := by
  rw [rowsTo, rowsTo, List.map_map]
  rfl

/-- What a kernel on the grid `(tokens, heads)` leaves in a contiguous buffer. -/
theorem rowsTo_storeAll_grid (junk : ℕ → α) (f : ℕ → ℕ → ℕ → α) (tokens : ℕ) {blockN : ℕ}
    (hn : n ≤ blockN) :
    rowsTo H n (storeAll junk ((List.range tokens).flatMap fun t => (List.range H).flatMap fun h =>
      ((List.range blockN).filter fun j => decide (j < n)).map fun j =>
        ((t * H + h) * n + j, f t h j))) tokens
      = (List.range tokens).map fun t (h : Fin H) (j : Fin n) => f t h j := by
  refine List.map_congr_left fun t ht => ?_
  funext h j
  rw [filter_range_lt hn]
  exact storeAll_grid junk f (List.mem_range.1 ht) h.2 j.2

end Rows

section Payloads

variable {F Q : Type} {fp : Fp F Bf16} {H D : ℕ} {toF : Q → F}

/-- The kernels round as `torch.round` does. -/
def RoundsToEven (fp : Fp F Bf16) : Prop := ∀ x, roundToEvenNonnegative fp x = fp.round x

theorem RoundsToEven.roundCode (hr : RoundsToEven fp) (levels : ℕ) (x mn sc : F) :
    roundCode fp levels x mn sc = fp.affineCode levels mn sc x := by
  unfold RabitKV.roundCode Fp.affineCode
  rw [hr]

variable (fp toF) in
/-- The K minima and scales, channel by channel. -/
theorem kPrimary_eq (junk : ℕ → F × F) (key : Strided Q) {blockD : ℕ} (hpos : 0 < blockD)
    (h : Fin H) (d : Fin D) :
    storeAll junk (kPrimaryKernel fp toF key H D blockD) (h * D + d)
      = (kMin fp (key.tokens toF groupSize H D) h d,
        kScale fp (key.tokens toF groupSize H D) h d) := by
  have hvalue : primaryOf fp 7 ((List.range 32).map fun t =>
      loadEntry fp toF key (decide (d.1 < D)) t h d)
      = (kMin fp (key.tokens toF groupSize H D) h d,
        kScale fp (key.tokens toF groupSize H D) h d) := by
    simp only [primaryOf, loadEntry, d.2, decide_true, if_true, kMin, kScale, Strided.tokens,
      List.map_map, Function.comp_def]
  have hlane : d.1 / blockD * blockD + d.1 % blockD = d := Nat.div_add_mod' _ _
  rw [← hvalue]
  refine storeAll_of_forall junk (List.mem_map_of_mem (a := (h * D + d.1, primaryOf fp 7
    ((List.range 32).map fun t => loadEntry fp toF key (decide (d.1 < D)) t h d))) ?_) ?_
  · refine List.mem_flatMap.2 ⟨h, List.mem_range.2 h.2, List.mem_flatMap.2 ⟨d / blockD, ?_, ?_⟩⟩
    · exact List.mem_range.2 ((lt_cdiv_iff hpos).2 (lt_of_le_of_lt (Nat.div_mul_le_self _ _) d.2))
    · refine List.mem_map.2 ⟨d, List.mem_filter.2 ⟨List.mem_map.2 ⟨d % blockD, ?_, hlane⟩, ?_⟩, rfl⟩
      · exact List.mem_range.2 (Nat.mod_lt _ hpos)
      · exact decide_eq_true d.2
  · intro w hw haddr
    obtain ⟨h', -, hw⟩ := List.mem_flatMap.1 hw
    obtain ⟨dBlock, -, hw⟩ := List.mem_flatMap.1 hw
    obtain ⟨d', hd', rfl⟩ := List.mem_map.1 hw
    have hlt : d' < D := of_decide_eq_true (List.mem_filter.1 hd').2
    obtain ⟨rfl, rfl⟩ := mul_add_inj hlt d.2 haddr
    rfl

/-- When the codes of a row fill whole bytes, no byte reads a lane outside it. -/
theorem kPackByte_of_dvd {n : ℕ} (h8 : 8 ∣ n) {x mn sc : ℕ → F} {codes : ℕ → ℕ}
    (hcode : ∀ d < n, kPackCode fp (x d) (mn d) (sc d) = codes d) {b : ℕ}
    (hb : b < packedDim n 3) : kPackByte fp x mn sc n (packedDim n 3) b = packByte 3 n codes b := by
  set lane : ℕ → ℕ := fun d => kPackLane fp x mn sc
    (decide (b < packedDim n 3) && decide (d < n)) d with hlane
  have hlt : ∀ d, lane d < 8 := fun d => by
    simp only [hlane, kPackLane, kPackCode]
    omega
  have hwindow : ∀ i, (fun i => if b * 8 / 3 + i < n + 4 then lane (b * 8 / 3 + i) else 0) i
      = if b * 8 / 3 + i < n + 4 then lane (b * 8 / 3 + i) else 0 := fun i => rfl
  have hwide := fourCodes_byte hwindow fun i _ => hlt i
  have hin : ∀ i < 4, b * 8 / 3 + i < n + 4 := fun i hi => by
    unfold packedDim at hb
    omega
  simp only [hin 0 (by decide), hin 1 (by decide), hin 2 (by decide), hin 3 (by decide),
    if_true] at hwide
  have hbyte : kPackByte fp x mn sc n (packedDim n 3) b = packByte 3 (n + 4) lane b := by
    rw [← hwide]
    simp only [kPackByte, List.range_succ, List.range_zero, List.nil_append, List.cons_append,
      List.foldl_cons, List.foldl_nil, Nat.mul_zero, Nat.shiftLeft_zero, Nat.zero_or, Nat.mul_one,
      Nat.reduceMul, hlane]
  apply UInt8.toNat_inj.1
  rw [hbyte, packByte_toNat (by decide), packByte_toNat (by decide)]
  refine word_congr fun k hk => ?_
  have hbit : 8 * b + k < n * 3 := by
    unfold packedDim at hb
    omega
  have hd : (8 * b + k) / 3 < n := by omega
  rw [codeBit, codeBit, if_pos hbit, if_pos (by omega), ← hcode _ hd]
  simp only [hlane, kPackLane, hb, hd, decide_true, Bool.and_true, if_true]

/-- The packed K rows are those of the reference. -/
theorem rowsTo_kPack (hr : RoundsToEven fp) (hD : D % groupSize = 0) (key : Strided Q)
    {primary : ℕ → F × F} (hprimary : ∀ (h : Fin H) (d : Fin D), primary (h * D + d)
      = (kMin fp (key.tokens toF groupSize H D) h d, kScale fp (key.tokens toF groupSize H D) h d))
    (junk : ℕ → UInt8) :
    rowsTo H (packedDim D 3) (storeAll junk (kPackKernel fp toF key primary groupSize H D
        (packedDim D 3) (nextPowerOf2 (packedDim D 3)))) groupSize
      = (k3State fp (key.tokens toF groupSize H D)).packed := by
  have hlen : (key.tokens toF groupSize H D).length = groupSize := by simp [Strided.tokens]
  have hpacked : (k3State fp (key.tokens toF groupSize H D)).packed
      = (kCodes fp (key.tokens toF groupSize H D)).map fun c h => packRow 3 (c h) := by
    simp only [k3State, seqGroups_of_length fp hlen, List.flatMap_singleton]
  have h8 : 8 ∣ D := by
    unfold groupSize at hD
    omega
  refine (rowsTo_storeAll_grid junk _ _ (le_nextPowerOf2 _)).trans ?_
  rw [hpacked, kCodes, List.map_map]
  conv_rhs => rw [Strided.tokens, List.map_map]
  refine List.map_congr_left fun t _ => ?_
  funext h b
  refine kPackByte_of_dvd h8 (fun d hd => ?_) b.2
  rw [hprimary h ⟨d, hd⟩, ext_of_lt _ hd]
  exact hr.roundCode 7 _ _ _

/-- Channel `d` of a row, as a masked load gives it. -/
theorem loadEntry_eq (value : Strided Q) (t : ℕ) (h : Fin H) (d : ℕ) :
    loadEntry fp toF value (decide (d < D)) t h d
      = vPad fp (fun d : Fin D => toF (value.get t h d)) d := by
  unfold loadEntry vPad
  by_cases hd : d < D
  · simp [hd]
  · simp [hd]

variable (fp toF) in
/-- The V minima and scales, group by group. -/
theorem vPrimary_eq (junk : ℕ → F × F) (value : Strided Q) {G t : ℕ} (ht : t < groupSize)
    (h : Fin H) (g : Fin G) :
    storeAll junk (vPrimaryKernel fp toF value groupSize H D G) ((t * H + h) * G + g)
      = (vMin fp (fun d : Fin D => toF (value.get t h d)) g,
        vScale fp (fun d : Fin D => toF (value.get t h d)) g) := by
  refine (storeAll_grid junk _ ht h.2 g.2).trans ?_
  simp only [loadEntry_eq]
  rfl

/-- The packed V rows are those of the reference. -/
theorem rowsTo_vPack (hr : RoundsToEven fp) (hD : D % groupSize = 0) (value : Strided Q)
    {primary : ℕ → F × F} (hprimary : ∀ t < groupSize, ∀ (h : Fin H) (g : Fin (vGroups D)),
      primary ((t * H + h) * vGroups D + g)
        = (vMin fp (fun d : Fin D => toF (value.get t h d)) g,
          vScale fp (fun d : Fin D => toF (value.get t h d)) g))
    (junk : ℕ → UInt8) :
    rowsTo H (vPackedDim D) (storeAll junk (vPackKernel fp toF value primary groupSize H D
        (vGroups D) (vPackedDim D) (nextPowerOf2 (vPackedDim D)))) groupSize
      = (value.tokens toF groupSize H D).map (v2Packed fp) := by
  rw [← funext (v2PackedDirect_eq fp)]
  refine (rowsTo_storeAll_grid junk _ _ (le_nextPowerOf2 _)).trans ?_
  conv_rhs => rw [Strided.tokens, List.map_map]
  refine List.map_congr_left fun t ht => ?_
  funext h b
  have hb := b.2
  have hd : b * 4 < D := by
    unfold vPackedDim packedDim vPaddedDim vGroups groupSize at hb
    unfold groupSize at hD
    omega
  have hg : b * 4 / 32 < vGroups D := by
    rw [vGroups_of_mod hD]
    exact Nat.div_lt_div_of_lt_of_dvd (Nat.dvd_of_mod_eq_zero hD) hd
  have hprim := hprimary t (List.mem_range.1 ht) h ⟨_, hg⟩
  have hcode : ∀ j < 4, roundCode fp 3
      (loadEntry fp toF value (decide (b * 4 + j < D)) t h (b * 4 + j))
      (vMin fp (fun d : Fin D => toF (value.get t h d)) (b * 4 / 32))
      (vScale fp (fun d : Fin D => toF (value.get t h d)) (b * 4 / 32))
      = vCode fp (fun d : Fin D => toF (value.get t h d)) (4 * b + j) := fun j hj => by
    have hgroup : (4 * b.1 + j) / groupSize = b * 4 / 32 := by
      unfold groupSize
      omega
    rw [loadEntry_eq, hr.roundCode, vCode, hgroup, Nat.mul_comm b.1 4]
  have h0 := hcode 0 (by decide)
  rw [Nat.add_zero, Nat.add_zero] at h0
  simp only [vPackByte, hprim, hb, decide_true, if_true, List.range_succ, List.range_zero,
    List.nil_append, List.cons_append, List.foldl_cons, List.foldl_nil, Nat.mul_zero, Nat.add_zero,
    Nat.shiftLeft_zero, Nat.zero_or, Nat.mul_one, Nat.reduceMul, Bool.true_and]
  rw [h0, hcode 1 (by decide), hcode 2 (by decide), hcode 3 (by decide)]
  rfl

end Payloads

section Metadata

variable {F : Type} {fp : Fp F Bf16}

/-- The bytes of a metadata section. -/
def MetaParts.bytes (p : MetaParts) : List UInt8 :=
  p.codes ++ tensorAsBytes p.mins ++ tensorAsBytes p.scales

theorem map_range_groups {α : Type} (f : ℕ → α) (n : ℕ) :
    (List.range (n * metadataGroupSize)).map f
      = (List.range n).flatMap fun g => (List.range 64).map fun i => f (g * 64 + i) := by
  rw [List.map_eq_flatMap, ← flatMap_range_mul]
  refine List.flatMap_congr fun g _ => ?_
  rw [← List.map_eq_flatMap]

theorem chunks_map_range (primary : ℕ → F) (n : ℕ) :
    chunks metadataGroupSize ((List.range (n * metadataGroupSize)).map primary)
      = (List.range n).map (metaLanes primary) := by
  rw [map_range_groups]
  exact chunks_flatMap (by decide) fun g _ => by simp

/-- The encoded metadata of whole groups, also of none. -/
theorem encodeMetadata_range (primary : ℕ → F) (n : ℕ) (shape : List ℕ) :
    encodeMetadataBlob (encodeMetadataUint8Group fp shape
        ((List.range (n * metadataGroupSize)).map primary))
      = ((List.range n).flatMap fun g => metaCodes fp (metaLanes primary g))
        ++ tensorAsBytes ((List.range n).map fun g => fp.toB (fp.amin (metaLanes primary g)))
        ++ tensorAsBytes ((List.range n).map fun g => fp.toB (metaScale fp (metaLanes primary g)))
      := by
  rcases Nat.eq_zero_or_pos n with rfl | hn
  · simp [encodeMetadataUint8Group, encodeMetadataBlob]
  · have hne : ¬ ((List.range (n * metadataGroupSize)).map primary).isEmpty = true := by
      simp [metadataGroupSize]
      omega
    have hpad : padLast fp ((List.range (n * metadataGroupSize)).map primary)
        = (List.range (n * metadataGroupSize)).map primary := padLast_of_dvd fp (by simp)
    rw [encodeMetadataUint8Group, if_neg hne]
    simp only [hpad, chunks_map_range, encodeMetadataBlob, List.map_map]
    rfl

/-- The metadata kernel writes the blob of the reference. -/
theorem encodeMetaTriton_eq (hr : RoundsToEven fp) (junk : MetaJunk) (primary : ℕ → F) (n : ℕ)
    (shape : List ℕ) :
    ∃ parts, encodeMetaTriton fp junk (n * metadataGroupSize) primary = .ok parts ∧
      parts.bytes = encodeMetadataBlob (encodeMetadataUint8Group fp shape
        ((List.range (n * metadataGroupSize)).map primary)) := by
  have hdiv : n * metadataGroupSize / metadataGroupSize = n := Nat.mul_div_cancel n (by decide)
  have hcodes : (List.range (n * metadataGroupSize)).map
      (storeAll junk.codes (metaCodeStores fp primary n))
      = (List.range n).flatMap fun g => metaCodes fp (metaLanes primary g) := by
    rw [map_range_groups]
    refine List.flatMap_congr fun g hg => ?_
    rw [metaCodes, metaLanes, List.map_map]
    refine List.map_congr_left fun i hi => ?_
    refine (storeAll_rows junk.codes _ (List.mem_range.1 hg) (List.mem_range.1 hi)).trans ?_
    rw [hr.roundCode]
    rfl
  have hsecondary : ∀ g < n, storeAll junk.secondary (metaSecondaryStores fp primary n) g
      = (fp.toB (fp.amin (metaLanes primary g)), fp.toB (metaScale fp (metaLanes primary g))) :=
    fun g hg => storeAll_range junk.secondary _ hg
  have hmap : ∀ f : Bf16 × Bf16 → Bf16,
      ((List.range n).map fun g => f (storeAll junk.secondary (metaSecondaryStores fp primary n) g))
        = (List.range n).map fun g => f (fp.toB (fp.amin (metaLanes primary g)),
          fp.toB (metaScale fp (metaLanes primary g))) := fun f =>
    List.map_congr_left fun g hg => by rw [hsecondary g (List.mem_range.1 hg)]
  unfold encodeMetaTriton
  rw [if_neg (not_not.2 (Nat.mul_mod_left n metadataGroupSize)), hdiv]
  refine ⟨_, rfl, ?_⟩
  rw [encodeMetadata_range, MetaParts.bytes, hcodes, hmap Prod.fst, hmap Prod.snd]

end Metadata

section Copies

variable {pre rest : List UInt8} {off : ℕ}

/-- A copy that starts where the written bytes end. -/
theorem sliceSet_at (h : off = pre.length) (blob : List UInt8) :
    sliceSet (pre ++ rest) off blob = (pre ++ blob) ++ rest.drop blob.length := by
  subst h
  unfold sliceSet
  rw [List.take_left, ← List.drop_drop, List.drop_left]

theorem copyParts_at (h : off = pre.length) (parts : MetaParts) :
    copyParts (pre ++ rest) off parts = (pre ++ parts.bytes) ++ rest.drop parts.bytes.length := by
  have hmins : off + parts.codes.length = (pre ++ parts.codes).length := by
    rw [h, List.length_append]
  have hscales : off + parts.codes.length + (tensorAsBytes parts.mins).length
      = (pre ++ parts.codes ++ tensorAsBytes parts.mins).length := by
    rw [h]
    simp only [List.length_append]
  unfold copyParts
  simp only []
  rw [sliceSet_at h, sliceSet_at hmins, sliceSet_at hscales, List.drop_drop, List.drop_drop]
  simp only [MetaParts.bytes, List.length_append, List.append_assoc]

/-- The parts, section by section. -/
def PageParts.blobs (p : PageParts) : PageBlobs :=
  ⟨p.kPayload, p.vPayload, p.kMin.bytes, p.kScale.bytes, p.vMin.bytes, p.vScale.bytes⟩

/-- Parts that fill their sections leave nothing of what the page held. -/
theorem copyPage_eq {bs H D : ℕ} {junk : List UInt8} {p : PageParts}
    (hfit : p.blobs.Fits (pageLayout bs H D D))
    (hjunk : junk.length = (pageLayout bs H D D).pageBytes) :
    copyPage junk (pageLayout bs H D D) p = p.blobs.bytes := by
  have h1 : (pageLayout bs H D D).vPayloadOffset = p.kPayload.length := hfit.kPayload.symm
  have h2 : (pageLayout bs H D D).kMinOffset = (p.kPayload ++ p.vPayload).length := by
    rw [List.length_append, ← h1, show p.vPayload.length = _ from hfit.vPayload]
    rfl
  have h3 : (pageLayout bs H D D).kScaleOffset
      = (p.kPayload ++ p.vPayload ++ p.kMin.bytes).length := by
    rw [List.length_append, ← h2, show p.kMin.bytes.length = _ from hfit.kMin]
    rfl
  have h4 : (pageLayout bs H D D).vMinOffset
      = (p.kPayload ++ p.vPayload ++ p.kMin.bytes ++ p.kScale.bytes).length := by
    rw [List.length_append, ← h3, show p.kScale.bytes.length = _ from hfit.kScale]
    rfl
  have h5 : (pageLayout bs H D D).vScaleOffset
      = (p.kPayload ++ p.vPayload ++ p.kMin.bytes ++ p.kScale.bytes ++ p.vMin.bytes).length := by
    rw [List.length_append, ← h4, show p.vMin.bytes.length = _ from hfit.vMin]
    rfl
  have hlen := length_bytes hfit
  have hstart : sliceSet junk 0 p.kPayload = p.kPayload ++ junk.drop p.kPayload.length :=
    (sliceSet_at rfl p.kPayload : sliceSet ([] ++ junk) 0 p.kPayload = _)
  unfold copyPage
  simp only [List.foldl_cons, List.foldl_nil]
  rw [show (pageLayout bs H D D).kPayloadOffset = 0 from rfl, hstart, sliceSet_at h1,
    copyParts_at h2, copyParts_at h3, copyParts_at h4, copyParts_at h5]
  simp only [List.drop_drop]
  rw [List.drop_of_length_le, List.append_nil]
  · rfl
  · rw [hjunk, ← hlen]
    simp only [PageParts.blobs, PageBlobs.bytes, List.length_append]
    omega

end Copies

theorem PageGroups.validate {H D kn vn : ℕ} (hg : PageGroups H D kn vn) :
    validateLayout (pageLayout groupSize H D D)
      = .ok (kn * metadataGroupSize, vn * metadataGroupSize, packedDim D 3, vPackedDim D) := by
  have hk : H * D % metadataGroupSize = 0 := by rw [hg.k, Nat.mul_mod_left]
  have hv : groupSize * H * (D / groupSize) % metadataGroupSize = 0 := by
    rw [hg.v, Nat.mul_mod_left]
  rw [← hg.k, ← hg.v, ← hg.vPackedDim_eq]
  simp [validateLayout, pageLayout, hg.dim, hk, hv]
  rfl

section Encoder

variable {F Q : Type} {fp : Fp F Bf16} {H D kn vn : ℕ} {toF : Q → F}

variable (toF) in
@[simp] theorem length_tokens (x : Strided Q) (n : ℕ) : (x.tokens toF n H D).length = n := by
  simp [Strided.tokens]

variable (fp) in
/-- The K metadata of one group, in the order the kernels store them. -/
theorem flatHeads_kMetadata {x : List (Tok H D F)} (hx : x.length = groupSize)
    (f : List (Tok H D F) → Tok H D F) (mem : ℕ → F)
    (hmem : ∀ (h : Fin H) (d : Fin D), mem (h * D + d) = f x h d) :
    flatHeads ((seqGroups fp x).map f) = (List.range (H * D)).map mem := by
  have hrow : rowsTo H D mem 1 = [f x] := by
    refine congrArg ([·]) ?_
    funext h d
    rw [rowAt, Nat.zero_mul, Nat.zero_add, hmem]
  have hflat := flatTokens_rowsTo (H := H) (n := D) mem 1
  rw [hrow, Nat.one_mul] at hflat
  rw [← hflat, seqGroups_of_length fp hx]
  simp [flatHeads, flatTokens]

/-- The V metadata of a page, in the order the kernels store them. -/
theorem flatTokens_vMetadata {G : ℕ} (value : Strided Q) (f : Tok H D F → Tok H G F) (mem : ℕ → F)
    (hmem : ∀ t < groupSize, ∀ (h : Fin H) (g : Fin G),
      mem ((t * H + h) * G + g) = f (fun h d => toF (value.get t h d)) h g) :
    flatTokens ((value.tokens toF groupSize H D).map f)
      = (List.range (groupSize * H * G)).map mem := by
  rw [← flatTokens_rowsTo, Strided.tokens, List.map_map]
  refine congrArg flatTokens (List.map_congr_left fun t ht => ?_)
  funext h g
  exact (hmem t (List.mem_range.1 ht) h g).symm

/-- The two K metadata sections. -/
theorem encodeMeta_kSections (hr : RoundsToEven fp) (hg : PageGroups H D kn vn)
    {x : List (Tok H D F)} (hx : x.length = groupSize) {kp : ℕ → F × F}
    (hkp : ∀ (h : Fin H) (d : Fin D), kp (h * D + d) = (kMin fp x h d, kScale fp x h d))
    (minJunk scaleJunk : MetaJunk) :
    ∃ km ks, encodeMetaTriton fp minJunk (kn * metadataGroupSize) (fun i => (kp i).1) = .ok km ∧
      encodeMetaTriton fp scaleJunk (kn * metadataGroupSize) (fun i => (kp i).2) = .ok ks ∧
      km.bytes = encodeMetadataBlob (k3State fp x).min ∧
      ks.bytes = encodeMetadataBlob (k3State fp x).scale := by
  have hmin := flatHeads_kMetadata fp hx (kMin fp) (fun i => (kp i).1)
    fun h d => by rw [hkp]
  have hscale := flatHeads_kMetadata fp hx (kScale fp) (fun i => (kp i).2)
    fun h d => by rw [hkp]
  rw [hg.k] at hmin hscale
  obtain ⟨km, hkm, hkmb⟩ := encodeMetaTriton_eq hr minJunk (fun i => (kp i).1) kn
    [1, H, (x.length + padTo groupSize x.length) / groupSize, 1, D]
  obtain ⟨ks, hks, hksb⟩ := encodeMetaTriton_eq hr scaleJunk (fun i => (kp i).2) kn
    [1, H, (x.length + padTo groupSize x.length) / groupSize, 1, D]
  rw [← hmin] at hkmb
  rw [← hscale] at hksb
  exact ⟨km, ks, hkm, hks, hkmb, hksb⟩

/-- The two V metadata sections. -/
theorem encodeMeta_vSections (hr : RoundsToEven fp) (hg : PageGroups H D kn vn) (value : Strided Q)
    {vp : ℕ → F × F} (hvp : ∀ t < groupSize, ∀ (h : Fin H) (g : Fin (vGroups D)),
      vp ((t * H + h) * vGroups D + g)
        = (vMin fp (fun d : Fin D => toF (value.get t h d)) g,
          vScale fp (fun d : Fin D => toF (value.get t h d)) g))
    (minJunk scaleJunk : MetaJunk) :
    ∃ vm vs, encodeMetaTriton fp minJunk (vn * metadataGroupSize) (fun i => (vp i).1) = .ok vm ∧
      encodeMetaTriton fp scaleJunk (vn * metadataGroupSize) (fun i => (vp i).2) = .ok vs ∧
      vm.bytes = encodeMetadataBlob
        (encodeVMetadata fp ((value.tokens toF groupSize H D).map (v2Min fp))) ∧
      vs.bytes = encodeMetadataBlob
        (encodeVMetadata fp ((value.tokens toF groupSize H D).map (v2Scale fp))) := by
  have hcount : groupSize * H * vGroups D = vn * metadataGroupSize := by
    rw [vGroups_of_mod hg.dim, hg.v]
  have hmin := flatTokens_vMetadata value (v2Min fp) (fun i => (vp i).1) fun t ht h g => by
    rw [hvp t ht]
    rfl
  have hscale := flatTokens_vMetadata value (v2Scale fp) (fun i => (vp i).2) fun t ht h g => by
    rw [hvp t ht]
    rfl
  rw [hcount] at hmin hscale
  obtain ⟨vm, hvm, hvmb⟩ := encodeMetaTriton_eq hr minJunk (fun i => (vp i).1) vn
    [((value.tokens toF groupSize H D).map (v2Min fp)).length, H, vGroups D, 1]
  obtain ⟨vs, hvs, hvsb⟩ := encodeMetaTriton_eq hr scaleJunk (fun i => (vp i).2) vn
    [((value.tokens toF groupSize H D).map (v2Scale fp)).length, H, vGroups D, 1]
  rw [← hmin] at hvmb
  rw [← hscale] at hvsb
  exact ⟨vm, vs, hvm, hvs, hvmb, hvsb⟩

variable (toF) in
/-- The kernels compute the parts of the reference, whatever their buffers held. -/
theorem tritonParts_eq (hr : RoundsToEven fp) (hg : PageGroups H D kn vn) (hD : 0 < D)
    (junk : EncodeJunk F) (key value : Strided Q) :
    ∃ parts, tritonParts fp toF junk key value groupSize H D D (groupSize * H * packedDim D 3)
        (groupSize * H * vPackedDim D) (kn * metadataGroupSize) (vn * metadataGroupSize)
        (packedDim D 3) (vPackedDim D) = .ok parts ∧
      parts.blobs = refBlobs fp (key.tokens toF groupSize H D) (value.tokens toF groupSize H D)
      := by
  have hblock : 0 < min 128 (nextPowerOf2 D) :=
    Nat.lt_min.2 ⟨by decide, lt_of_lt_of_le hD (le_nextPowerOf2 D)⟩
  have hkp := kPrimary_eq (H := H) (D := D) fp toF junk.kPrimary key hblock
  have hvp := fun t ht h g =>
    vPrimary_eq (D := D) (G := vGroups D) (H := H) (t := t) fp toF junk.vPrimary value ht h g
  have hkpay := congrArg flatTokens (rowsTo_kPack hr hg.dim key hkp junk.kPayload)
  have hvpay := congrArg flatTokens (rowsTo_vPack hr hg.dim value hvp junk.vPayload)
  rw [flatTokens_rowsTo] at hkpay hvpay
  obtain ⟨km, ks, hkm, hks, hkmb, hksb⟩ := encodeMeta_kSections hr hg
    (length_tokens toF key groupSize) hkp junk.kMin junk.kScale
  obtain ⟨vm, vs, hvm, hvs, hvmb, hvsb⟩ := encodeMeta_vSections hr hg value hvp junk.vMin
    junk.vScale
  unfold tritonParts
  simp only [← vGroups_of_mod hg.dim, hkm, hks, hvm, hvs, hkpay, hvpay]
  refine ⟨_, rfl, ?_⟩
  rw [PageParts.blobs, refBlobs, pageBlobs, hkmb, hksb, hvmb, hvsb]

variable (fp) in
theorem refBlobs_fits (hg : PageGroups H D kn vn) {key value : List (Tok H D F)}
    (hk : key.length = groupSize) (hv : value.length = groupSize) :
    (refBlobs fp key value).Fits (pageLayout groupSize H D D) := by
  have hcount : groupSize * H * cdiv D groupSize = vn * metadataGroupSize := by
    rw [← hg.v, ← vGroups_of_mod hg.dim]
    rfl
  refine (refBlobs_fits_iff fp dvd_rfl hk hv).2 ⟨?_, ?_⟩
  · rw [Nat.div_self groupSize_pos, Nat.one_mul, hg.k, Nat.mul_mod_left]
  · rw [hcount, Nat.mul_mod_left]

/-- The Triton encoder is the reference encoder behind the layout check: whatever the buffers hold,
it returns the same page, or the error of the check. -/
theorem encodeTriton_eq_ref {F Q : Type} {fp : Fp F Bf16} (hr : RoundsToEven fp) (toF : Q → F)
    (junk : EncodeJunk F) (cuda : Bool) {bs H D : ℕ} {layout : Rabit2PageLayout}
    (hl : rabit2PageLayout bs H D D = .ok layout) {given : Option Rabit2PageLayout}
    (hgiven : given = none ∨ given = some layout) (key value : Strided Q) :
    encodeRabit2PageTritonExperimental fp toF junk true given key value bs bs H D
      = (validateLayout layout).bind fun _ => encodeRabit2Page fp cuda given
        (key.tokens toF bs H D) (value.tokens toF bs H D) := by
  obtain ⟨rfl, -, -, -, hD, -⟩ := rabit2PageLayout_ok hl
  rcases hv : validateLayout (pageLayout bs H D D) with e | r
  · rcases hgiven with rfl | rfl
    · simp [encodeRabit2PageTritonExperimental, hl, hv, bind, Except.bind]
    · simp [encodeRabit2PageTritonExperimental, hv, bind, Except.bind, pure, Except.pure]
  · obtain ⟨rfl, -, -⟩ := aligned_of_validate hv
    obtain ⟨-, -, kn, vn, hg⟩ := pageGroups_of_validate hl hv
    obtain ⟨parts, hparts, hblobs⟩ := tritonParts_eq toF hr hg hD junk key value
    have hfit := refBlobs_fits fp hg (length_tokens toF key groupSize)
      (length_tokens toF value groupSize)
    have hcopy : copyPage ((List.range (pageLayout groupSize H D D).pageBytes).map junk.page)
        (pageLayout groupSize H D D) parts = parts.blobs.bytes :=
      copyPage_eq (hblobs ▸ hfit) (by simp)
    have hparts' : tritonParts fp toF junk key value (pageLayout groupSize H D D).blockSize
        (pageLayout groupSize H D D).numKvHeads (pageLayout groupSize H D D).headSizeK
        (pageLayout groupSize H D D).headSizeV (pageLayout groupSize H D D).kPayloadBytes
        (pageLayout groupSize H D D).vPayloadBytes (kn * metadataGroupSize)
        (vn * metadataGroupSize) (packedDim D 3) (vPackedDim D) = .ok parts := hparts
    have hshape : ¬ (groupSize ≠ (pageLayout groupSize H D D).blockSize ∨
        H ≠ (pageLayout groupSize H D D).numKvHeads ∨ D ≠ (pageLayout groupSize H D D).headSizeK) :=
      by simp [pageLayout]
    have href := encodeRabit2Page_eq fp cuda hl (length_tokens toF key groupSize)
      (length_tokens toF value groupSize) hgiven
    rw [Except.bind, href, assemblePage_ok refMismatch hfit, ← hblobs, ← hcopy]
    rcases hgiven with rfl | rfl
    · simp [encodeRabit2PageTritonExperimental, hl, hg.validate, hparts', hshape, bind, Except.bind,
        pure, Except.pure]
    · simp [encodeRabit2PageTritonExperimental, hg.validate, hparts', hshape, bind, Except.bind,
        pure, Except.pure]

end Encoder

theorem ratFp_roundsToEven : RoundsToEven ratFp := by
  intro x
  have hodd : ∀ n : ℤ, n % 2 ≠ 0 ↔ n % 2 = 1 := fun n => by omega
  simp only [roundToEvenNonnegative, ratFp, exactFp, roundHalfEven, Rat.cast_id, hodd, id,
    decide_eq_true_eq]
  rcases lt_trichotomy (x - ⌊x⌋) (1 / 2) with h | h | h
  · rw [if_neg h.not_gt, if_pos h, if_neg (not_or.2 ⟨h.not_gt, fun hc => h.ne hc.1⟩)]
  · simp [h]
  · rw [if_pos h, if_pos (.inl h)]

/-- Buffers as `torch.empty` may hand them out. -/
def dirtyJunk : EncodeJunk ℚ :=
  let parts : MetaJunk := ⟨fun _ => 3, fun _ => (4, 5)⟩
  ⟨fun a => (a, 1), fun _ => 1, fun a => (1, a), fun _ => 2, parts, parts, parts, parts,
    fun _ => 255⟩

/-- A transposed tensor of the production shape. -/
def transposedPage : Strided ℚ := ⟨fun a => a, 1, 4096, 32⟩

theorem encodeTriton_eq_ref_production : RoundsToEven ratFp ∧
    encodeRabit2PageTritonExperimental ratFp id dirtyJunk true none transposedPage transposedPage
        32 32 8 128
      = encodeRabit2Page ratFp true none (transposedPage.tokens id 32 8 128)
        (transposedPage.tokens id 32 8 128) := by
  have hl : rabit2PageLayout 32 8 128 128 = .ok (pageLayout 32 8 128 128) := rfl
  have hv : validateLayout (pageLayout 32 8 128 128) = .ok (1024, 1024, 48, 32) := rfl
  have henc := encodeTriton_eq_ref ratFp_roundsToEven id dirtyJunk true hl (.inl rfl)
    transposedPage transposedPage
  rw [hv, Except.bind] at henc
  exact ⟨ratFp_roundsToEven, henc⟩

end RabitKV
