import RabitKV.Exact
import RabitKV.PageRef
import RabitKV.Proofs.Page

/-!
# Which pages the reference encodes, and what it keeps

The parts have the sizes of their sections exactly if both metadata counts are multiples of 64; then
the page is the parts one after the other, else the first part of another size is reported
(`encodeRabit2Page_eq`). A page that is returned is read back part by part.
-/

namespace RabitKV

open Chunks

section Sizes

theorem blobBytes_eq_iff (n : ℕ) :
    blobBytes n = rabit2EncodedMetadataBytes n ↔ n % metadataGroupSize = 0 := by
  unfold blobBytes rabit2EncodedMetadataBytes cdiv metadataGroupSize
  split_ifs <;> omega

/-- The first part of another size is reported. -/
theorem foldlM_mismatch (mismatch : String → ℕ → ℕ → String) :
    ∀ {secs : List (String × List UInt8 × ℕ × ℕ)} (page : List UInt8),
      (∃ s ∈ secs, s.2.1.length ≠ s.2.2.2) →
      ∃ s ∈ secs, s.2.1.length ≠ s.2.2.2 ∧
        secs.foldlM (fun page s =>
          if s.2.1.length ≠ s.2.2.2 then .error (mismatch s.1 s.2.1.length s.2.2.2)
          else .ok (sliceSet page s.2.2.1 s.2.1)) page
          = Except.error (mismatch s.1 s.2.1.length s.2.2.2)
  | [], _, h => by simp at h
  | s :: secs, page, h => by
    by_cases hs : s.2.1.length ≠ s.2.2.2
    · refine ⟨s, List.mem_cons_self, hs, ?_⟩
      rw [List.foldlM_cons, if_pos hs]
      rfl
    · have hrest : ∃ s ∈ secs, s.2.1.length ≠ s.2.2.2 := by
        simp only [List.mem_cons, exists_eq_or_imp] at h
        rcases h with h | h
        · exact absurd h hs
        · exact h
      obtain ⟨t, ht, hne, hrun⟩ := foldlM_mismatch mismatch (sliceSet page s.2.2.1 s.2.1) hrest
      refine ⟨t, List.mem_cons_of_mem _ ht, hne, ?_⟩
      rw [List.foldlM_cons, if_neg hs]
      exact hrun

theorem fits_iff_sections {layout : Rabit2PageLayout} {b : PageBlobs} :
    b.Fits layout ↔ ∀ s ∈ pageSections layout b, s.2.1.length = s.2.2.2 := by
  simp only [pageSections, List.forall_mem_cons, List.not_mem_nil, false_implies, implies_true,
    and_true]
  constructor
  · intro h
    exact ⟨h.1, h.2, h.3, h.4, h.5, h.6⟩
  · rintro ⟨h1, h2, h3, h4, h5, h6⟩
    exact ⟨h1, h2, h3, h4, h5, h6⟩

theorem assemblePage_error (mismatch : String → ℕ → ℕ → String) {layout : Rabit2PageLayout}
    {b : PageBlobs} (h : ¬ b.Fits layout) :
    ∃ name actual expected, actual ≠ expected ∧
      assemblePage mismatch layout b = .error (mismatch name actual expected) := by
  rw [fits_iff_sections] at h
  push Not at h
  obtain ⟨s, -, hne, hrun⟩ := foldlM_mismatch mismatch (List.replicate layout.pageBytes 0) h
  exact ⟨_, _, _, hne, hrun⟩

end Sizes

section Encode

variable {F : Type} (fp : Fp F Bf16) (cuda : Bool) {bs H D : ℕ} {layout : Rabit2PageLayout}
  {key value : List (Tok H D F)}

/-- The parts of the page of `key` and `value`. -/
def refBlobs (key value : List (Tok H D F)) : PageBlobs :=
  pageBlobs (k3State fp key) (value.map (v2Packed fp)) (encodeVMetadata fp (value.map (v2Min fp)))
    (encodeVMetadata fp (value.map (v2Scale fp)))

/-- The encoder past its checks, with or without the layout of the shape. -/
theorem encodeRabit2Page_eq (hl : rabit2PageLayout bs H D D = .ok layout) (hk : key.length = bs)
    (hv : value.length = bs) {given : Option Rabit2PageLayout}
    (hgiven : given = none ∨ given = some layout) :
    encodeRabit2Page fp cuda given key value
      = assemblePage refMismatch layout (refBlobs fp key value) := by
  obtain ⟨rfl, hpos, hdvd, -⟩ := rabit2PageLayout_ok hl
  have hone : ¬ (cuda = true ∧ value.length = 1 ∧ H = 8 ∧ D = 128) := fun h => by
    have hle := Nat.le_of_dvd hpos hdvd
    unfold groupSize at hle
    omega
  have hne : ¬ key.length = 0 := by omega
  have hprim : quantizeV2Primary fp cuda value = quantizeV2PrimaryRef fp value := if_neg hone
  have hblock : ¬ key.length ≠ (pageLayout bs H D D).blockSize := not_not.2 hk
  have hheads : ¬ (H ≠ (pageLayout bs H D D).numKvHeads ∨ D ≠ (pageLayout bs H D D).headSizeK) :=
    not_or.2 ⟨not_not.2 rfl, not_not.2 rfl⟩
  have hsize : ¬ D ≠ (pageLayout bs H D D).headSizeV := not_not.2 rfl
  unfold encodeRabit2Page quantizeK3SequenceAffine
  rw [if_neg (not_not.2 (hk.trans hv.symm)), hprim]
  subst hk
  rcases hgiven with rfl | rfl
  · simp only [hl, if_neg hne, bind, Except.bind, if_neg hblock, if_neg hheads, if_neg hsize]
    rfl
  · simp only [if_neg hne, bind, Except.bind, pure, Except.pure, if_neg hblock, if_neg hheads,
      if_neg hsize]
    rfl

theorem refBlobs_fits_iff (hdvd : groupSize ∣ bs) (hk : key.length = bs) (hv : value.length = bs) :
    (refBlobs fp key value).Fits (pageLayout bs H D D) ↔
      bs / groupSize * H * D % metadataGroupSize = 0 ∧
        bs * H * cdiv D groupSize % metadataGroupSize = 0 := by
  have hmap : ∀ {α : Type} (f : Tok H D F → α), (value.map f).length = bs := fun f => by
    rw [List.length_map, hv]
  rw [refBlobs, pageBlobs_fits_iff fp hdvd hk (hmap _) (hmap _) (hmap _), blobBytes_eq_iff,
    blobBytes_eq_iff, ← Nat.mul_assoc, ← Nat.mul_assoc]
  rfl

theorem encodeRabit2Page_layout {page : List UInt8}
    (h : encodeRabit2Page fp cuda none key value = .ok page) :
    key.length = value.length ∧ ∃ layout, rabit2PageLayout key.length H D D = .ok layout := by
  unfold encodeRabit2Page at h
  by_cases hlen : key.length = value.length
  · rw [if_neg (not_not.2 hlen)] at h
    rcases hl : rabit2PageLayout key.length H D D with e | layout
    · simp only [hl, bind, Except.bind] at h
      cases h
    · exact ⟨hlen, layout, rfl⟩
  · rw [if_pos hlen] at h
    cases h

/-- Layout and encoder agree: the sections tile the page, and the encoder returns a page exactly if
both metadata counts are multiples of 64, else it reports a part of another size. -/
theorem encodeRabit2Page_iff_aligned {bs H D : ℕ} {layout : Rabit2PageLayout}
    (hl : rabit2PageLayout bs H D D = .ok layout) :
    Tiles 0 (layoutSections layout) layout.pageBytes ∧
      ((layoutSections layout).Pairwise fun s t => s.1 + s.2 ≤ t.1) ∧
      (∀ a, (∃ s ∈ layoutSections layout, s.1 ≤ a ∧ a < s.1 + s.2) ↔ a < layout.pageBytes) ∧
      (∀ (F : Type) (fp : Fp F Bf16) (cuda : Bool) (given : Option Rabit2PageLayout)
          (key value : List (Tok H D F)), (given = none ∨ given = some layout) →
        key.length = bs → value.length = bs →
        ((∃ page, encodeRabit2Page fp cuda given key value = .ok page ∧
            page.length = layout.pageBytes) ↔
          bs / 32 * H * D % 64 = 0 ∧ bs * H * cdiv D 32 % 64 = 0) ∧
        (¬ (bs / 32 * H * D % 64 = 0 ∧ bs * H * cdiv D 32 % 64 = 0) →
          ∃ name actual expected, actual ≠ expected ∧
            encodeRabit2Page fp cuda given key value = .error (refMismatch name actual expected))) ∧
      ∀ r, validateLayout layout = .ok r →
        bs / 32 * H * D % 64 = 0 ∧ bs * H * cdiv D 32 % 64 = 0 := by
  obtain ⟨rfl, -, hdvd, -⟩ := rabit2PageLayout_ok hl
  have htiles := layoutSections_tiles bs H D D
  refine ⟨htiles, htiles.pairwise, fun a => by simpa using htiles.mem_iff, ?_, ?_⟩
  · intro F fp cuda given key value hgiven hk hv
    have heq := encodeRabit2Page_eq fp cuda hl hk hv hgiven
    have hfits := refBlobs_fits_iff fp hdvd hk hv
    have herror : ¬ (refBlobs fp key value).Fits (pageLayout bs H D D) → ∃ name actual expected,
        actual ≠ expected ∧ encodeRabit2Page fp cuda given key value
          = .error (refMismatch name actual expected) := fun hnot => by
      rw [heq]
      exact assemblePage_error refMismatch hnot
    refine ⟨⟨?_, fun h => ?_⟩, fun h => herror fun hf => h (hfits.1 hf)⟩
    · rintro ⟨page, hpage, -⟩
      by_contra hnot
      obtain ⟨name, actual, expected, -, he⟩ := herror fun hf => hnot (hfits.1 hf)
      rw [hpage] at he
      cases he
    · have hf := hfits.2 h
      exact ⟨_, heq.trans (assemblePage_ok refMismatch hf), length_bytes hf⟩
  · intro r hr
    obtain ⟨rfl, ha, -⟩ := aligned_of_validate hr
    have hw := ha.wholeGroups
    exact ⟨Nat.mod_eq_zero_of_dvd (by rw [Nat.mul_assoc]; exact hw.k),
      Nat.mod_eq_zero_of_dvd (by rw [Nat.mul_assoc]; exact hw.v)⟩

/-- The production layout, and one whose K metadata leave a part of a group of 64. -/
theorem encodeRabit2Page_iff_aligned_production :
    Tiles 0 (layoutSections (pageLayout 32 8 128 128)) (pageLayout 32 8 128 128).pageBytes ∧
      ∃ name actual expected, actual ≠ expected ∧
        encodeRabit2Page (H := 1) (D := 32) ratFp false none
          (List.replicate 32 fun _ _ => 0) (List.replicate 32 fun _ _ => 0)
          = .error (refMismatch name actual expected) := by
  have hbig : rabit2PageLayout 32 8 128 128 = .ok (pageLayout 32 8 128 128) := rfl
  have hodd : rabit2PageLayout 32 1 32 32 = .ok (pageLayout 32 1 32 32) := rfl
  exact ⟨(encodeRabit2Page_iff_aligned hbig).1,
    ((encodeRabit2Page_iff_aligned hodd).2.2.2.1 ℚ ratFp false none _ _ (.inl rfl)
      List.length_replicate List.length_replicate).2 (by decide)⟩

theorem unpack_k3State_packed (x : List (Tok H D F)) :
    (k3State fp x).packed.map (fun r h (d : Fin D) => unpackCode 3 (ext (r h)) d)
      = (seqGroups fp x).flatMap (kCodes fp) := by
  simp only [k3State, List.map_map]
  conv_rhs => rw [← List.map_id ((seqGroups fp x).flatMap (kCodes fp))]
  refine List.map_congr_left fun c hc => ?_
  obtain ⟨g, -, hg⟩ := List.mem_flatMap.1 hc
  funext h d
  exact unpackCode_packRow (by decide) d (kCodes_lt fp hg h d)

theorem refBlobs_recovered (hw : WholeGroups bs H D) (hk : key.length = bs)
    (hv : value.length = bs) :
    Recovered bs (refBlobs fp key value).bytes (k3State fp key).packed
      (quantizeV2PrimaryRef fp value).packed (k3State fp key).min (k3State fp key).scale
      (encodeVMetadata fp (quantizeV2PrimaryRef fp value).min)
      (encodeVMetadata fp (quantizeV2PrimaryRef fp value).scale) := by
  have hmap : ∀ {α : Type} (f : Tok H D F → α), (value.map f).length = bs := fun f => by
    rw [List.length_map, hv]
  exact recovered_bytes fp hw hk (hmap _) (hmap _) (hmap _)

/-- A page the encoder returns is read back part by part and decodes to what the quantizers decode
to; metadata and their blobs determine each other. -/
theorem encodeRabit2Page_roundtrip {F : Type} (fp : Fp F Bf16) :
    (∀ (cuda : Bool) {H D : ℕ} {key value : List (Tok H D F)} {page : List UInt8},
      encodeRabit2Page fp cuda none key value = .ok page →
      ∃ kState, quantizeK3SequenceAffine fp key = .ok kState ∧
        Recovered key.length page kState.packed (quantizeV2PrimaryRef fp value).packed kState.min
          kState.scale (encodeVMetadata fp (quantizeV2PrimaryRef fp value).min)
          (encodeVMetadata fp (quantizeV2PrimaryRef fp value).scale) ∧
        kState.packed.map (fun r h (d : Fin D) => unpackCode 3 (ext (r h)) d)
          = (seqGroups fp key).flatMap (kCodes fp) ∧
        (quantizeV2PrimaryRef fp value).packed.map
            (fun r h (d : Fin D) => unpackCode 2 (ext (r h)) d)
          = value.map (fun x h (d : Fin D) => vCode fp (x h) d) ∧
        decodeRabit2Page fp (pageLayout key.length H D D) page
          = .ok (dequantizeK3SequenceAffine fp kState,
              dequantizeV2FromPrimary fp (quantizeV2PrimaryRef fp value).packed
                (decodeMetadataUint8Group fp
                  (encodeVMetadata fp (quantizeV2PrimaryRef fp value).min))
                (decodeMetadataUint8Group fp
                  (encodeVMetadata fp (quantizeV2PrimaryRef fp value).scale)))) ∧
      (∀ (shape : List ℕ) (flat : List F), flat.length = shape.prod →
        decodeMetadataBlob (encodeMetadataBlob (encodeMetadataUint8Group fp shape flat)) shape
          = .ok (encodeMetadataUint8Group fp shape flat)) ∧
      ∀ (shape : List ℕ) (blob : List UInt8),
        blob.length = (shape.prod + 63) / 64 * 64 + (shape.prod + 63) / 64 * 4 →
        ∃ m, decodeMetadataBlob blob shape = .ok m ∧ encodeMetadataBlob m = blob := by
  refine ⟨fun cuda H D key value page henc => ?_,
    fun shape flat h => decodeMetadataBlob_encodeMetadata fp h,
    fun shape blob h => encodeMetadataBlob_decode h⟩
  obtain ⟨hlen, layout, hl⟩ := encodeRabit2Page_layout fp cuda henc
  obtain ⟨rfl, hpos, hdvd, -⟩ := rabit2PageLayout_ok hl
  have heq := encodeRabit2Page_eq fp cuda hl rfl hlen.symm (.inl rfl)
  have hfits : (refBlobs fp key value).Fits (pageLayout key.length H D D) := by
    by_contra hnot
    obtain ⟨name, actual, expected, -, he⟩ := assemblePage_error refMismatch hnot
    rw [← heq, henc] at he
    cases he
  rw [heq, assemblePage_ok refMismatch hfits] at henc
  cases henc
  have hcond := (refBlobs_fits_iff fp hdvd rfl hlen.symm).1 hfits
  have hw : WholeGroups key.length H D :=
    ⟨hdvd, by rw [← Nat.mul_assoc]; exact Nat.dvd_of_mod_eq_zero hcond.1,
      by rw [← Nat.mul_assoc]; exact Nat.dvd_of_mod_eq_zero hcond.2⟩
  have hrec := refBlobs_recovered fp hw rfl hlen.symm
  have hdec := (dequantize_recovered fp hdvd).trans (show kRegion fp key
    = dequantizeK3SequenceAffine fp (k3State fp key) from rfl)
  refine ⟨k3State fp key, if_neg (by omega), hrec, unpack_k3State_packed fp key, ?_, ?_⟩
  · simp only [quantizeV2PrimaryRef, List.map_map]
    refine List.map_congr_left fun x _ => ?_
    funext h d
    exact unpackCode_v2Packed fp x h d
  · exact (hrec.decode fp).trans (congrArg Except.ok (Prod.ext hdec rfl))

/-- Sixty-four tokens of one head, entry `d` of token `i` being `a * i + d`. -/
def slopeTokens (a : ℚ) : List (Tok 1 64 ℚ) :=
  (List.range 64).map fun (i : ℕ) _ d => a * i + (d : ℕ)

theorem length_slopeTokens (a : ℚ) : (slopeTokens a).length = 64 := by
  rw [slopeTokens, List.length_map, List.length_range]

/-- Two token groups of one head. -/
theorem encodeRabit2Page_roundtrip_two_groups :
    ∃ page, encodeRabit2Page ratFp false none (slopeTokens 1) (slopeTokens (-2)) = .ok page ∧
      ∃ kState, quantizeK3SequenceAffine ratFp (slopeTokens 1) = .ok kState ∧
        page.length = (pageLayout 64 1 64 64).pageBytes ∧
        decodeRabit2Page ratFp (pageLayout 64 1 64 64) page
          = .ok (dequantizeK3SequenceAffine ratFp kState, dequantizeV2FromPrimary ratFp
              (quantizeV2PrimaryRef ratFp (slopeTokens (-2))).packed
              (decodeMetadataUint8Group ratFp
                (encodeVMetadata ratFp (quantizeV2PrimaryRef ratFp (slopeTokens (-2))).min))
              (decodeMetadataUint8Group ratFp (encodeVMetadata ratFp
                (quantizeV2PrimaryRef ratFp (slopeTokens (-2))).scale))) := by
  have hl : rabit2PageLayout 64 1 64 64 = .ok (pageLayout 64 1 64 64) := rfl
  have heq := encodeRabit2Page_eq ratFp false hl (length_slopeTokens 1) (length_slopeTokens (-2))
    (.inl rfl)
  have hfits := (refBlobs_fits_iff ratFp (Dvd.intro 2 rfl) (length_slopeTokens 1)
    (length_slopeTokens (-2))).2 (by decide)
  have henc := heq.trans (assemblePage_ok refMismatch hfits)
  obtain ⟨kState, hq, hrec, -, -, hdec⟩ := (encodeRabit2Page_roundtrip ratFp).1 false henc
  rw [length_slopeTokens] at hrec hdec
  exact ⟨_, henc, kState, hq, hrec.length, hdec⟩

end Encode

end RabitKV
