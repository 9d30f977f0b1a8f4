import RabitKV.Page
import RabitKV.Proofs.Layout
import RabitKV.Proofs.Quant

/-!
# The page codec loses nothing

For a layout of `rabit2_page_layout` with metadata counts that are multiples of 64, the writers
never raise: the page is its six blobs one after the other (`assemblePage_ok`), and each section of
it is read back as what was written (`Recovered`). Decoding it gives the K region of its tokens and
the V values of its codes and metadata (`decode_pageOf`).
-/

namespace RabitKV

open Chunks

/-- Sections that follow one another from `start`, each filled by its blob. -/
def Contiguous : ℕ → List (String × List UInt8 × ℕ × ℕ) → Prop
  | _, [] => True
  | start, s :: rest =>
    s.2.2.1 = start ∧ s.2.1.length = s.2.2.2 ∧ Contiguous (start + s.2.2.2) rest

theorem sliceSet_append (pre blob : List UInt8) (n : ℕ) :
    sliceSet (pre ++ List.replicate (blob.length + n) 0) pre.length blob
      = pre ++ blob ++ List.replicate n 0 := by
  unfold sliceSet
  rw [List.take_left, ← List.drop_drop, List.drop_left, List.drop_replicate,
    Nat.add_sub_cancel_left]

/-- Writing contiguous sections into zeroes appends their blobs. -/
theorem foldlM_sections (mismatch : String → ℕ → ℕ → String) (n : ℕ) :
    ∀ (secs : List (String × List UInt8 × ℕ × ℕ)) (pre : List UInt8), Contiguous pre.length secs →
      secs.foldlM (fun page s =>
        if s.2.1.length ≠ s.2.2.2 then .error (mismatch s.1 s.2.1.length s.2.2.2)
        else .ok (sliceSet page s.2.2.1 s.2.1))
        (pre ++ List.replicate ((secs.map fun s => s.2.2.2).sum + n) 0)
        = Except.ok (ε := String) (pre ++ secs.flatMap (fun s => s.2.1) ++ List.replicate n 0)
  | [], pre, _ => by simp [pure, Except.pure]
  | s :: rest, pre, ⟨hoff, hlen, hrest⟩ => by
    rw [List.foldlM_cons, if_neg (not_not.2 hlen), hoff, List.map_cons, List.sum_cons, ← hlen,
      Nat.add_assoc, sliceSet_append]
    refine (foldlM_sections mismatch n rest (pre ++ s.2.1) ?_).trans ?_
    · rw [List.length_append, hlen]
      exact hrest
    · rw [List.flatMap_cons, List.append_assoc pre]

/-- The six blobs one after the other. -/
def PageBlobs.bytes (b : PageBlobs) : List UInt8 :=
  b.kPayload ++ b.vPayload ++ b.kMin ++ b.kScale ++ b.vMin ++ b.vScale

/-- Every blob has the size of its section. -/
structure PageBlobs.Fits (layout : Rabit2PageLayout) (b : PageBlobs) : Prop where
  kPayload : b.kPayload.length = layout.kPayloadBytes
  vPayload : b.vPayload.length = layout.vPayloadBytes
  kMin : b.kMin.length = layout.kMinBytes
  kScale : b.kScale.length = layout.kScaleBytes
  vMin : b.vMin.length = layout.vMinBytes
  vScale : b.vScale.length = layout.vScaleBytes

section Layout

variable {bs H Dk Dv : ℕ}

theorem pageBytes_eq : (pageLayout bs H Dk Dv).pageBytes
    = (pageLayout bs H Dk Dv).kPayloadBytes + (pageLayout bs H Dk Dv).vPayloadBytes
      + (pageLayout bs H Dk Dv).kMinBytes + (pageLayout bs H Dk Dv).kScaleBytes
      + (pageLayout bs H Dk Dv).vMinBytes + (pageLayout bs H Dk Dv).vScaleBytes := rfl

theorem pageSections_contiguous {b : PageBlobs} (h : b.Fits (pageLayout bs H Dk Dv)) :
    Contiguous 0 (pageSections (pageLayout bs H Dk Dv) b) := by
  refine ⟨rfl, h.kPayload, ?_, h.vPayload, ?_, h.kMin, ?_, h.kScale, ?_, h.vMin, ?_, h.vScale,
    trivial⟩ <;> simp [pageLayout]

/-- Blobs that fit are written without an error. -/
theorem assemblePage_ok (mismatch : String → ℕ → ℕ → String) {b : PageBlobs}
    (h : b.Fits (pageLayout bs H Dk Dv)) :
    assemblePage mismatch (pageLayout bs H Dk Dv) b = .ok b.bytes := by
  have hsum : ((pageSections (pageLayout bs H Dk Dv) b).map fun s => s.2.2.2).sum
      = (pageLayout bs H Dk Dv).pageBytes := by
    rw [pageBytes_eq]
    simp only [pageSections, List.map_cons, List.map_nil, List.sum_cons, List.sum_nil]
    omega
  have hrun := foldlM_sections mismatch 0 _ [] (pageSections_contiguous h)
  rw [hsum] at hrun
  refine hrun.trans ?_
  simp [pageSections, PageBlobs.bytes]

theorem slice_append {a b c : List UInt8} {i n : ℕ} (hi : a.length = i) (hn : b.length = n) :
    slice (a ++ b ++ c) i n = b := by
  unfold slice
  rw [List.append_assoc, List.drop_left' hi, List.take_left' hn]

/-- Each section of an assembled page is its blob. -/
theorem slices_bytes {b : PageBlobs} (h : b.Fits (pageLayout bs H Dk Dv)) :
    slice b.bytes (pageLayout bs H Dk Dv).kPayloadOffset (pageLayout bs H Dk Dv).kPayloadBytes
        = b.kPayload ∧
      slice b.bytes (pageLayout bs H Dk Dv).vPayloadOffset (pageLayout bs H Dk Dv).vPayloadBytes
        = b.vPayload ∧
      slice b.bytes (pageLayout bs H Dk Dv).kMinOffset (pageLayout bs H Dk Dv).kMinBytes
        = b.kMin ∧
      slice b.bytes (pageLayout bs H Dk Dv).kScaleOffset (pageLayout bs H Dk Dv).kScaleBytes
        = b.kScale ∧
      slice b.bytes (pageLayout bs H Dk Dv).vMinOffset (pageLayout bs H Dk Dv).vMinBytes
        = b.vMin ∧
      slice b.bytes (pageLayout bs H Dk Dv).vScaleOffset (pageLayout bs H Dk Dv).vScaleBytes
        = b.vScale := by
  obtain ⟨h1, h2, h3, h4, h5, h6⟩ := h
  simp only [pageLayout] at h1 h2 h3 h4 h5 h6
  unfold PageBlobs.bytes
  refine ⟨?_, ?_, ?_, ?_, ?_, ?_⟩
  · rw [List.append_assoc, List.append_assoc, List.append_assoc, List.append_assoc]
    exact slice_append (a := []) rfl h1
  · rw [List.append_assoc, List.append_assoc, List.append_assoc]
    exact slice_append h1 h2
  · rw [List.append_assoc, List.append_assoc]
    exact slice_append (by simp only [List.length_append, h1, h2]; rfl) h3
  · rw [List.append_assoc]
    exact slice_append (by simp only [List.length_append, h1, h2, h3]; rfl) h4
  · exact slice_append (by simp only [List.length_append, h1, h2, h3, h4]; rfl) h5
  · rw [← List.append_nil (_ ++ b.vScale)]
    exact slice_append (by simp only [List.length_append, h1, h2, h3, h4, h5]; rfl) h6

theorem length_bytes {b : PageBlobs} (h : b.Fits (pageLayout bs H Dk Dv)) :
    b.bytes.length = (pageLayout bs H Dk Dv).pageBytes := by
  rw [pageBytes_eq, ← h.kPayload, ← h.vPayload, ← h.kMin, ← h.kScale, ← h.vMin, ← h.vScale]
  simp only [PageBlobs.bytes, List.length_append]

end Layout

/-- Pages of `bs` tokens hold whole token groups, and both metadata are whole groups of 64. -/
structure WholeGroups (bs H D : ℕ) : Prop where
  seq : groupSize ∣ bs
  k : metadataGroupSize ∣ bs / groupSize * (H * D)
  v : metadataGroupSize ∣ bs * (H * vGroups D)

/-- Both metadata of a 32-token page are whole groups of 64. -/
structure Aligned (H D : ℕ) : Prop where
  k : metadataGroupSize ∣ H * D
  v : metadataGroupSize ∣ groupSize * (H * vGroups D)

theorem Aligned.wholeGroups {H D : ℕ} (ha : Aligned H D) : WholeGroups groupSize H D :=
  ⟨dvd_rfl, by rw [Nat.div_self groupSize_pos, Nat.one_mul]; exact ha.k, ha.v⟩

theorem aligned_of_validate {bs H D : ℕ} {r : ℕ × ℕ × ℕ × ℕ}
    (h : validateLayout (pageLayout bs H D D) = .ok r) :
    bs = groupSize ∧ Aligned H D ∧ D % groupSize = 0 := by
  obtain ⟨hbs, -, hmod, hk, hv⟩ := validateLayout_ok h
  have hbs' : bs = groupSize := hbs
  have hmod' : D % groupSize = 0 := hmod
  subst hbs'
  refine ⟨rfl, ⟨Nat.dvd_of_mod_eq_zero hk, ?_⟩, hmod'⟩
  rw [vGroups_of_mod hmod', ← Nat.mul_assoc]
  exact Nat.dvd_of_mod_eq_zero hv

theorem metadataBytes_of_dvd {n : ℕ} (h : metadataGroupSize ∣ n) :
    (n + metadataGroupSize - 1) / metadataGroupSize * metadataGroupSize
      + (n + metadataGroupSize - 1) / metadataGroupSize * 4 = rabit2EncodedMetadataBytes n := by
  obtain ⟨c, rfl⟩ := h
  unfold rabit2EncodedMetadataBytes cdiv metadataGroupSize
  split_ifs <;> omega

section Codec

variable {F : Type} (fp : Fp F Bf16) {H D : ℕ}

/-- The bytes of a page. -/
def pageOf (key : List (Tok H D Bf16)) (vPacked : List (Tok H (vPackedDim D) UInt8))
    (vMin vScale : List (Tok H (vGroups D) F)) : List UInt8 :=
  (pageBlobs (k3State fp (key.map (Tok.map fp.ofB))) vPacked (encodeVMetadata fp vMin)
    (encodeVMetadata fp vScale)).bytes

theorem seqGroups_of_length {x : List (Tok H D F)} (h : x.length = groupSize) :
    seqGroups fp x = [x] := by
  rw [seqGroups_of_dvd fp (by rw [h]), chunks_of_length (by decide) h]

theorem length_seqGroups_of_dvd {x : List (Tok H D F)} (h : groupSize ∣ x.length) :
    (seqGroups fp x).length = x.length / groupSize := by
  rw [seqGroups_of_dvd fp h, length_chunks]

theorem length_kMetadata {x : List (Tok H D F)} (hx : groupSize ∣ x.length)
    (f : List (Tok H D F) → Tok H D F) :
    (flatHeads ((seqGroups fp x).map f)).length = x.length / groupSize * (H * D) := by
  rw [length_flatHeads, List.length_map, length_seqGroups_of_dvd fp hx, Nat.mul_left_comm]

/-- Bytes of the blob of `n` metadata values. -/
def blobBytes (n : ℕ) : ℕ :=
  (n + metadataGroupSize - 1) / metadataGroupSize * metadataGroupSize
    + (n + metadataGroupSize - 1) / metadataGroupSize * 4

theorem length_blob (shape : List ℕ) (flat : List F) :
    (encodeMetadataBlob (encodeMetadataUint8Group fp shape flat)).length
      = blobBytes flat.length := by
  have hs := encodeMetadata_shaped fp shape flat
  rw [length_encodeMetadataBlob hs, hs.codes]
  rfl

theorem length_k3State_packed {x : List (Tok H D F)} (hx : groupSize ∣ x.length) :
    (k3State fp x).packed.length = x.length := by
  rw [length_k3State_packed_padded, padTo_eq_zero hx, Nat.add_zero]

section Sizes

variable {bs : ℕ} {x : List (Tok H D F)} {vPacked : List (Tok H (vPackedDim D) UInt8)}
  {vMin vScale : List (Tok H (vGroups D) F)}

/-- The blobs of a page of `bs` tokens fit its layout exactly if the metadata blobs do. -/
theorem pageBlobs_fits_iff (hseq : groupSize ∣ bs) (hx : x.length = bs) (hp : vPacked.length = bs)
    (hm : vMin.length = bs) (hs : vScale.length = bs) :
    (pageBlobs (k3State fp x) vPacked (encodeVMetadata fp vMin)
        (encodeVMetadata fp vScale)).Fits (pageLayout bs H D D) ↔
      blobBytes (bs / groupSize * (H * D)) = rabit2EncodedMetadataBytes (bs / groupSize * (H * D)) ∧
      blobBytes (bs * (H * vGroups D)) = rabit2EncodedMetadataBytes (bs * (H * vGroups D)) := by
  have hdvd : groupSize ∣ x.length := hx ▸ hseq
  have hk : ∀ (f : List (Tok H D F) → Tok H D F) shape, (encodeMetadataBlob
      (encodeMetadataUint8Group fp shape (flatHeads ((seqGroups fp x).map f)))).length
        = blobBytes (bs / groupSize * (H * D)) := fun f shape => by
    rw [length_blob, length_kMetadata fp hdvd, hx]
  have hv : ∀ {rows : List (Tok H (vGroups D) F)}, rows.length = bs →
      (encodeMetadataBlob (encodeVMetadata fp rows)).length = blobBytes (bs * (H * vGroups D)) :=
    fun {rows} hr => by rw [encodeVMetadata, length_blob, length_flatTokens, hr]
  have hkBytes : rabit2EncodedMetadataBytes (bs / groupSize * (H * D))
      = (pageLayout bs H D D).kMinBytes := by rw [← Nat.mul_assoc]; rfl
  have hvBytes : rabit2EncodedMetadataBytes (bs * (H * vGroups D))
      = (pageLayout bs H D D).vMinBytes := by rw [← Nat.mul_assoc]; rfl
  rw [hkBytes, hvBytes]
  constructor
  · intro h
    exact ⟨(hk _ _).symm.trans h.kMin, (hv hm).symm.trans h.vMin⟩
  · rintro ⟨hkm, hvm⟩
    refine ⟨?_, ?_, (hk _ _).trans hkm, (hk _ _).trans hkm, (hv hm).trans hvm, (hv hs).trans hvm⟩
    · simp only [pageBlobs]
      rw [length_flatTokens, length_k3State_packed fp hdvd, hx, ← Nat.mul_assoc]
      rfl
    · simp only [pageBlobs]
      rw [length_flatTokens, hp, ← Nat.mul_assoc]
      rfl

theorem pageBlobs_fits_of (hw : WholeGroups bs H D) (hx : x.length = bs) (hp : vPacked.length = bs)
    (hm : vMin.length = bs) (hs : vScale.length = bs) :
    (pageBlobs (k3State fp x) vPacked (encodeVMetadata fp vMin)
      (encodeVMetadata fp vScale)).Fits (pageLayout bs H D D) :=
  (pageBlobs_fits_iff fp hw.seq hx hp hm hs).2
    ⟨metadataBytes_of_dvd hw.k, metadataBytes_of_dvd hw.v⟩

end Sizes

theorem pageBlobs_fits (ha : Aligned H D) {key : List (Tok H D F)}
    {vPacked : List (Tok H (vPackedDim D) UInt8)} {vMin vScale : List (Tok H (vGroups D) F)}
    (hk : key.length = groupSize) (hp : vPacked.length = groupSize)
    (hm : vMin.length = groupSize) (hs : vScale.length = groupSize) :
    (pageBlobs (k3State fp key) vPacked (encodeVMetadata fp vMin)
      (encodeVMetadata fp vScale)).Fits (pageLayout groupSize H D D) :=
  pageBlobs_fits_of fp ha.wholeGroups hk hp hm hs

/-- Every page writer produces the page, whatever it would say of a mismatch. -/
theorem encodePageFromPrimary_ok (ha : Aligned H D) (mismatch : String → ℕ → ℕ → String)
    {key : List (Tok H D Bf16)} {vPacked : List (Tok H (vPackedDim D) UInt8)}
    {vMin vScale : List (Tok H (vGroups D) F)} (hk : key.length = groupSize)
    (hp : vPacked.length = groupSize) (hm : vMin.length = groupSize)
    (hs : vScale.length = groupSize) :
    encodePageFromPrimary fp mismatch (pageLayout groupSize H D D) key vPacked vMin vScale
      = .ok (pageOf fp key vPacked vMin vScale) := by
  have hne : ¬ (key.map (Tok.map fp.ofB)).length = 0 := by
    rw [List.length_map, hk]
    decide
  simp only [encodePageFromPrimary, quantizeK3SequenceAffine, if_neg hne]
  exact assemblePage_ok mismatch
    (pageBlobs_fits fp ha (by rw [List.length_map, hk]) hp hm hs)

theorem length_pageOf (ha : Aligned H D) {key : List (Tok H D Bf16)}
    {vPacked : List (Tok H (vPackedDim D) UInt8)} {vMin vScale : List (Tok H (vGroups D) F)}
    (hk : key.length = groupSize) (hp : vPacked.length = groupSize)
    (hm : vMin.length = groupSize) (hs : vScale.length = groupSize) :
    (pageOf fp key vPacked vMin vScale).length = (pageLayout groupSize H D D).pageBytes :=
  length_bytes (pageBlobs_fits fp ha (by rw [List.length_map, hk]) hp hm hs)

theorem reshapeBytes_flatTokens {n : ℕ} (rows : List (Tok H n UInt8)) :
    reshapeBytes rows.length H n (flatTokens rows) = rows := by
  unfold reshapeBytes
  refine List.ext_getElem (by simp) fun t ht ht' => ?_
  simp only [List.getElem_map, List.getElem_range]
  funext h j
  rw [List.getD_eq_getElem?_getD, getElem?_flatTokens, List.getElem?_eq_getElem ht']
  rfl

/-- The six sections of a page of `bs` tokens are read as given parts. -/
structure Recovered (bs : ℕ) (page : List UInt8) (kPacked : List (Tok H (packedDim D 3) UInt8))
    (vPacked : List (Tok H (vPackedDim D) UInt8)) (kMin kScale vMin vScale : Metadata Bf16) :
    Prop where
  length : page.length = (pageLayout bs H D D).pageBytes
  kPacked : reshapeBytes bs H (packedDim D 3) (slice page (pageLayout bs H D D).kPayloadOffset
    (pageLayout bs H D D).kPayloadBytes) = kPacked
  vPacked : reshapeBytes bs H (vPackedDim D) (slice page (pageLayout bs H D D).vPayloadOffset
    (pageLayout bs H D D).vPayloadBytes) = vPacked
  kMin : decodeMetadataBlob (slice page (pageLayout bs H D D).kMinOffset
    (pageLayout bs H D D).kMinBytes) [1, H, bs / groupSize, 1, D] = .ok kMin
  kScale : decodeMetadataBlob (slice page (pageLayout bs H D D).kScaleOffset
    (pageLayout bs H D D).kScaleBytes) [1, H, bs / groupSize, 1, D] = .ok kScale
  vMin : decodeMetadataBlob (slice page (pageLayout bs H D D).vMinOffset
    (pageLayout bs H D D).vMinBytes) [bs, H, vGroups D, 1] = .ok vMin
  vScale : decodeMetadataBlob (slice page (pageLayout bs H D D).vScaleOffset
    (pageLayout bs H D D).vScaleBytes) [bs, H, vGroups D, 1] = .ok vScale

section Sections

variable {bs : ℕ} {page : List UInt8} {kPacked : List (Tok H (packedDim D 3) UInt8)}
  {vPacked : List (Tok H (vPackedDim D) UInt8)} {kMin kScale vMin vScale : Metadata Bf16}

/-- Decoding a page dequantizes what its sections are read as. -/
theorem Recovered.decode (h : Recovered bs page kPacked vPacked kMin kScale vMin vScale) :
    decodeRabit2Page fp (pageLayout bs H D D) page
      = .ok (dequantizeK3SequenceAffine fp
          { packed := kPacked, tokens := bs, paddedTokens := bs, padSeq := 0
            min := kMin, scale := kScale },
        dequantizeV2FromPrimary fp vPacked (decodeMetadataUint8Group fp vMin)
          (decodeMetadataUint8Group fp vScale)) := by
  obtain ⟨hlen, rfl, rfl, h1, h2, h3, h4⟩ := h
  have hk : [1, (pageLayout bs H D D).numKvHeads, (pageLayout bs H D D).blockSize / groupSize, 1,
      (pageLayout bs H D D).headSizeK] = [1, H, bs / groupSize, 1, D] := rfl
  have hv : [(pageLayout bs H D D).blockSize, (pageLayout bs H D D).numKvHeads,
      vGroups (pageLayout bs H D D).headSizeV, 1] = [bs, H, vGroups D, 1] := rfl
  unfold decodeRabit2Page
  rw [if_neg (not_not.2 hlen)]
  simp only [hk, hv, h1, h2, h3, h4]
  rfl

end Sections

/-- Every part of an assembled page is recovered. -/
theorem recovered_bytes {bs : ℕ} (hw : WholeGroups bs H D) {x : List (Tok H D F)}
    {vPacked : List (Tok H (vPackedDim D) UInt8)} {vMin vScale : List (Tok H (vGroups D) F)}
    (hx : x.length = bs) (hp : vPacked.length = bs) (hm : vMin.length = bs)
    (hs : vScale.length = bs) :
    Recovered bs (pageBlobs (k3State fp x) vPacked (encodeVMetadata fp vMin)
        (encodeVMetadata fp vScale)).bytes
      (k3State fp x).packed vPacked (k3State fp x).min (k3State fp x).scale
      (encodeVMetadata fp vMin) (encodeVMetadata fp vScale) := by
  have hfits := pageBlobs_fits_of fp hw hx hp hm hs
  have hdvd : groupSize ∣ x.length := hx ▸ hw.seq
  obtain ⟨e1, e2, e3, e4, e5, e6⟩ := slices_bytes hfits
  have hkm : ∀ f : List (Tok H D F) → Tok H D F,
      (flatHeads ((seqGroups fp x).map f)).length = [1, H, bs / groupSize, 1, D].prod := fun f => by
    rw [length_kMetadata fp hdvd, hx]
    simp [Nat.mul_left_comm]
  have hshape : (x.length + padTo groupSize x.length) / groupSize = bs / groupSize := by
    rw [padTo_eq_zero hdvd, Nat.add_zero, hx]
  have hvm : ∀ {rows : List (Tok H (vGroups D) F)}, rows.length = bs →
      decodeMetadataBlob (encodeMetadataBlob (encodeVMetadata fp rows))
        [bs, H, vGroups D, 1] = .ok (encodeVMetadata fp rows) := fun {rows} hr => by
    unfold encodeVMetadata
    rw [hr]
    exact decodeMetadataBlob_encodeMetadata fp (by simp [length_flatTokens, hr])
  have hkr := reshapeBytes_flatTokens (k3State fp x).packed
  have hvr := reshapeBytes_flatTokens vPacked
  rw [length_k3State_packed fp hdvd, hx] at hkr
  rw [hp] at hvr
  refine ⟨length_bytes hfits, ?_, ?_, ?_, ?_, ?_, ?_⟩
  · rw [e1]
    exact hkr
  · rw [e2]
    exact hvr
  · rw [e3]
    simpa only [pageBlobs, k3State, hshape] using
      decodeMetadataBlob_encodeMetadata fp (hkm (RabitKV.kMin fp))
  · rw [e4]
    simpa only [pageBlobs, k3State, hshape] using
      decodeMetadataBlob_encodeMetadata fp (hkm (RabitKV.kScale fp))
  · rw [e5]
    exact hvm hm
  · rw [e6]
    exact hvm hs

theorem dequantize_recovered {x : List (Tok H D F)} (hx : groupSize ∣ x.length) :
    dequantizeK3SequenceAffine fp
        { packed := (k3State fp x).packed, tokens := x.length, paddedTokens := x.length, padSeq := 0
          min := (k3State fp x).min, scale := (k3State fp x).scale } = kRegion fp x := by
  simp only [kRegion, dequantizeK3SequenceAffine, k3State, padTo_eq_zero hx, Nat.add_zero]

/-- A page decodes to the K region of its tokens and the V values of its codes and metadata. -/
theorem decode_pageOf (ha : Aligned H D) {key : List (Tok H D Bf16)}
    {vPacked : List (Tok H (vPackedDim D) UInt8)} {vMin vScale : List (Tok H (vGroups D) F)}
    (hk : key.length = groupSize) (hp : vPacked.length = groupSize)
    (hm : vMin.length = groupSize) (hs : vScale.length = groupSize) :
    decodePage fp (pageOf fp key vPacked vMin vScale)
      = .ok (kRegion fp (key.map (Tok.map fp.ofB)),
        dequantizeV2FromPrimary fp vPacked (metaDecoded fp (flatTokens vMin))
          (metaDecoded fp (flatTokens vScale))) := by
  have hk' : (key.map (Tok.map fp.ofB)).length = groupSize := by rw [List.length_map, hk]
  have hregion := dequantize_recovered fp (x := key.map (Tok.map fp.ofB)) (hk' ▸ dvd_rfl)
  rw [hk'] at hregion
  have hmeta : ∀ rows : List (Tok H (vGroups D) F),
      decodeMetadataUint8Group fp (encodeVMetadata fp rows) = metaDecoded fp (flatTokens rows) :=
    fun rows => decodeMetadata_encode fp _ _
  refine ((recovered_bytes fp ha.wholeGroups hk' hp hm hs).decode fp).trans
    (congrArg Except.ok (Prod.ext hregion ?_))
  exact congrArg₂ (dequantizeV2FromPrimary fp vPacked) (hmeta _) (hmeta _)

end Codec

end RabitKV
