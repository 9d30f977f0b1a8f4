import RabitKV.Exact
import RabitKV.PageKernel
import RabitKV.Proofs.Page

/-!
# The kernels read a page as the reference does

The loads of an entry, section by section, against `decode_rabit2_page_ref` on arbitrary bytes: the
two-byte window is the K3 code (`eval_kCodeLoad`), a metadata load is an entry of its blob
(`eval_metaEntry`), and so a page decodes to the values of its raw entries (`PageAt.decode`), which
are loaded from inside the page (`mem_addrs_kEntryLoad`, `mem_addrs_vEntryLoad`).
-/

namespace RabitKV

open BitStream Chunks Loads

/-- Entry `i` of a blob of `count` metadata values. -/
def blobEntry (blob : List UInt8) (count i : ℕ) : MetaEntry :=
  let pair := fun a => bf16OfBytes (blob.getD a 0) (blob.getD (a + 1) 0)
  { code := blob.getD i 0
    secMin := pair (count + i / metadataGroupSize * 2)
    secScale := pair (count + count / metadataGroupSize * 2 + i / metadataGroupSize * 2) }

/-- Every entry of a metadata blob of whole groups is decoded from its own bytes. -/
theorem decodeMetadata_blobEntry {blob : List UInt8} {shape : List ℕ} {n : ℕ}
    (hshape : shape.prod = n * metadataGroupSize)
    (hlen : blob.length = n * metadataGroupSize + n * 4) :
    ∃ m, decodeMetadataBlob blob shape = .ok m ∧
      ∀ {F : Type} (fp : Fp F Bf16), ∀ i < shape.prod, (decodeMetadataUint8Group fp m)[i]?
        = some ((blobEntry blob shape.prod i).value fp) := by
  have hpos : 0 < metadataGroupSize := by decide
  have hgroups : (shape.prod + metadataGroupSize - 1) / metadataGroupSize = n := by
    rw [hshape]
    unfold metadataGroupSize
    omega
  unfold decodeMetadataBlob
  simp only [hgroups, if_neg (not_not.2 hlen)]
  refine ⟨_, rfl, fun fp i hi => ?_⟩
  rw [hshape] at hi ⊢
  have hg : i / metadataGroupSize < n := Nat.div_lt_of_lt_mul (by rwa [Nat.mul_comm])
  have hmod : i % metadataGroupSize < metadataGroupSize := Nat.mod_lt _ hpos
  have hsplit := Nat.div_add_mod' i metadataGroupSize
  have hrow : (chunks metadataGroupSize (blob.take (n * metadataGroupSize)))[i / metadataGroupSize]?
      = some _ := getElem?_chunks (by
    rw [List.length_take, Nat.min_eq_left (by omega), Nat.mul_div_cancel _ hpos]
    exact hg)
  have hcode : (((blob.take (n * metadataGroupSize)).drop
      (i / metadataGroupSize * metadataGroupSize)).take metadataGroupSize)[i % metadataGroupSize]?
        = some (blob.getD i 0) := by
    rw [List.getElem?_take_of_lt hmod, List.getElem?_drop, hsplit, List.getElem?_take_of_lt hi,
      List.getD_eq_getElem?_getD, List.getElem?_eq_getElem (by omega)]
    rfl
  have hpair : ∀ (bytes : List UInt8) (start : ℕ),
      (∀ k, k < n * 2 → bytes[k]? = blob[start + k]?) → n * 2 ≤ bytes.length →
      (viewBf16 bytes)[i / metadataGroupSize]?
        = some (bf16OfBytes (blob.getD (start + i / metadataGroupSize * 2) 0)
          (blob.getD (start + i / metadataGroupSize * 2 + 1) 0)) := by
    intro bytes start hb hle
    rw [getElem?_viewBf16 (by omega)]
    simp only [List.getD_eq_getElem?_getD]
    rw [hb _ (by omega), hb _ (by omega), Nat.mul_comm 2, ← Nat.add_assoc]
  have hmin := hpair ((blob.take (n * metadataGroupSize + n * 2)).drop (n * metadataGroupSize))
    (n * metadataGroupSize)
    (fun k hk => by rw [List.getElem?_drop, List.getElem?_take_of_lt (by omega)])
    (by rw [List.length_drop, List.length_take]; omega)
  have hscale := hpair (blob.drop (n * metadataGroupSize + n * 2))
    (n * metadataGroupSize + n * 2) (fun k _ => List.getElem?_drop)
    (by rw [List.length_drop]; omega)
  conv_lhs => rw [← hsplit]
  refine (getElem?_decodeMetadata fp (Nat.sub_self _) (fun r => length_of_mem_chunks) hmod hrow
    hcode
    hmin hscale).trans ?_
  rw [blobEntry, Nat.mul_div_cancel _ hpos]
  rfl

section Loads

variable {cache : ℕ → UInt8}

theorem eval_u8Pair (addr : ℕ) :
    (u8PairToBf16 addr true).eval cache = bf16OfBytes (cache addr) (cache (addr + 1)) := by
  have hlo : (cache addr).toNat < 2 ^ 8 := (cache addr).toNat_lt
  have hhi : (cache (addr + 1)).toNat < 2 ^ 8 := (cache (addr + 1)).toNat_lt
  have h8 : (8 : UInt16).toNat % 16 = 8 := rfl
  simp only [u8PairToBf16, Load.eval_map₂, Load.eval_masked, if_true]
  apply UInt16.toNat_inj.1
  rw [bf16OfBytes, UInt16.toNat_or, UInt16.toNat_shiftLeft, UInt8.toNat_toUInt16,
    UInt8.toNat_toUInt16, UInt16.toNat_ofNat', h8, Nat.mod_eq_of_lt, or_shiftLeft hlo]
  · omega
  · rw [Nat.shiftLeft_eq]
    omega

theorem mem_addrs_u8Pair {addr a : ℕ} {mask : Bool} (h : a ∈ (u8PairToBf16 addr mask).addrs) :
    mask = true ∧ addr ≤ a ∧ a < addr + 2 := by
  simp only [u8PairToBf16, Load.addrs_map₂, List.mem_append, Load.mem_addrs_masked] at h
  rcases h with ⟨hm, rfl⟩ | ⟨hm, rfl⟩
  · exact ⟨hm, by omega, by omega⟩
  · exact ⟨hm, by omega, by omega⟩

/-- A metadata load reads its entry of the blob at `base`. -/
theorem eval_metaEntry {blob : List UInt8} {base n idx : ℕ}
    (hlen : blob.length = n * metadataGroupSize + n * 4)
    (hblob : ∀ j < blob.length, cache (base + j) = blob.getD j 0)
    (hidx : idx < n * metadataGroupSize) :
    (metaEntry base (n * metadataGroupSize) n idx true).eval cache
      = blobEntry blob (n * metadataGroupSize) idx := by
  have hg : idx / 64 < n := Nat.div_lt_of_lt_mul (by rw [Nat.mul_comm]; exact hidx)
  have hread : ∀ k, k < blob.length → ∀ a, a = base + k → cache a = blob.getD k 0 :=
    fun k hk a ha => by rw [ha, hblob k hk]
  simp only [metaEntry, Load.eval_map₂, Load.eval_masked, if_true, eval_u8Pair, blobEntry,
    Nat.mul_div_cancel n (show 0 < metadataGroupSize by decide)]
  rw [hread idx (by omega) _ rfl,
    hread (n * metadataGroupSize + idx / 64 * 2) (by omega) _ (by omega),
    hread (n * metadataGroupSize + idx / 64 * 2 + 1) (by omega) _ (by omega),
    hread (n * metadataGroupSize + n * 2 + idx / 64 * 2) (by omega) _ (by omega),
    hread (n * metadataGroupSize + n * 2 + idx / 64 * 2 + 1) (by omega) _ (by omega)]

/-- A metadata load reads inside the blob at `base`. -/
theorem mem_addrs_metaEntry {base n idx a : ℕ} {mask : Bool}
    (hidx : mask = true → idx < n * metadataGroupSize)
    (h : a ∈ (metaEntry base (n * metadataGroupSize) n idx mask).addrs) :
    base ≤ a ∧ a < base + (n * metadataGroupSize + n * 4) := by
  have hg : mask = true → idx / 64 < n := fun hm =>
    Nat.div_lt_of_lt_mul (by rw [Nat.mul_comm]; exact hidx hm)
  simp only [metaEntry, Load.addrs_map₂, List.mem_append, Load.mem_addrs_masked] at h
  rcases h with ⟨hm, rfl⟩ | h | h
  · have := hidx hm
    omega
  · obtain ⟨hm, hle, hlt⟩ := mem_addrs_u8Pair h
    have := hg hm
    omega
  · obtain ⟨hm, hle, hlt⟩ := mem_addrs_u8Pair h
    have := hg hm
    omega

end Loads

section Slices

variable {page : List UInt8} {off size i : ℕ}

theorem getD_slice (hi : i < size) : (slice page off size).getD i 0 = page.getD (off + i) 0 := by
  unfold slice
  rw [List.getD_eq_getElem?_getD, List.getElem?_take_of_lt hi, List.getElem?_drop,
    ← List.getD_eq_getElem?_getD]

theorem length_slice (h : off + size ≤ page.length) : (slice page off size).length = size := by
  rw [slice, List.length_take, List.length_drop]
  omega

end Slices

section Page

variable {H D : ℕ}

theorem getElem?_reshapeBytes {tokens n t : ℕ} (ht : t < tokens) (bytes : List UInt8) :
    (reshapeBytes tokens H n bytes)[t]?
      = some fun (h : Fin H) (j : Fin n) => bytes.getD ((t * H + h) * n + j) 0 := by
  rw [reshapeBytes, List.getElem?_map, List.getElem?_range ht]
  rfl

/-- Byte `j` of row `(t, h)` of a payload, zero past the row. -/
theorem ext_row (bytes : List UInt8) (n row j : ℕ) :
    ext (fun j : Fin n => bytes.getD (row * n + j) 0) j
      = if j < n then bytes.getD (row * n + j) 0 else 0 := by
  unfold ext
  split_ifs <;> rfl

variable {cache : ℕ → UInt8} {bytes : List UInt8} {base t h d : ℕ} (c : PageConsts) (page : ℕ)

/-- The K3 window of an entry, with its masked high byte, is the code the reference unpacks. -/
theorem eval_kCodeLoad (hd : d < c.headSize) (hdim : c.kPackedDim = packedDim c.headSize 3)
    (hbytes : ∀ j < c.kPackedDim, cache (page + c.kPayloadOffset
      + (t * c.numKvHeads + h) * c.kPackedDim + j)
        = bytes.getD ((t * c.numKvHeads + h) * c.kPackedDim + j) 0) :
    (kCodeLoad c page h t d).eval cache = unpackCode 3
      (ext fun j : Fin c.kPackedDim =>
        bytes.getD ((t * c.numKvHeads + h) * c.kPackedDim + j) 0) d := by
  have hlo : d * 3 / 8 < c.kPackedDim := by
    rw [hdim]
    unfold packedDim
    omega
  rw [unpackCode_window (by decide), ext_row, ext_row, if_pos hlo, ← hbytes _ hlo]
  simp only [kCodeLoad, Load.eval_map₂, Load.eval_masked, decide_eq_true hd, Bool.true_and, if_true]
  split_ifs with hhi hhi' hhi'
  · rw [← hbytes _ hhi', ← Nat.add_assoc]
    rfl
  · exact absurd (of_decide_eq_true hhi) hhi'
  · exact absurd (decide_eq_true hhi') hhi
  · rfl

/-- The V2 byte of an entry holds the code the reference unpacks. -/
theorem eval_vCodeLoad (hd : d < c.headSize) (hdim : d / 4 < c.vPackedDim)
    (hbytes : ∀ j < c.vPackedDim, cache (page + c.vPayloadOffset
      + (t * c.numKvHeads + h) * c.vPackedDim + j)
        = bytes.getD ((t * c.numKvHeads + h) * c.vPackedDim + j) 0) :
    (vCodeLoad c page h t d).eval cache = unpackCode 2
      (ext fun j : Fin c.vPackedDim =>
        bytes.getD ((t * c.numKvHeads + h) * c.vPackedDim + j) 0) d := by
  rw [unpackCode_two, ext_row, if_pos hdim, ← hbytes _ hdim]
  simp only [vCodeLoad, Load.eval_map, Load.eval_masked, decide_eq_true hd, if_true]

end Page

/-- Metadata of `n` groups fill a section of `n * 64 + n * 4` bytes. -/
theorem metadataBytes_groups (n : ℕ) : rabit2EncodedMetadataBytes (n * metadataGroupSize)
    = n * metadataGroupSize + n * 4 := by
  unfold rabit2EncodedMetadataBytes cdiv metadataGroupSize
  split_ifs <;> omega

section Layout

/-- The metadata groups of a 32-token page, K and V. -/
structure PageGroups (H D kn vn : ℕ) : Prop where
  dim : D % groupSize = 0
  k : H * D = kn * metadataGroupSize
  v : groupSize * H * (D / groupSize) = vn * metadataGroupSize

variable {H D kn vn : ℕ}

theorem PageGroups.vPackedDim_eq (hg : PageGroups H D kn vn) : packedDim D 2 = vPackedDim D := by
  have := hg.dim
  rw [vPackedDim, vPaddedDim, vGroups_of_mod this, Nat.div_mul_cancel (Nat.dvd_of_mod_eq_zero this)]

theorem PageGroups.bytes (hg : PageGroups H D kn vn) :
    (pageLayout groupSize H D D).kMinBytes = kn * metadataGroupSize + kn * 4 ∧
      (pageLayout groupSize H D D).vMinBytes = vn * metadataGroupSize + vn * 4 := by
  constructor
  · rw [← metadataBytes_groups, ← hg.k]
    simp [pageLayout]
  · rw [← metadataBytes_groups, ← hg.v, ← vGroups_of_mod hg.dim]
    rfl

theorem PageGroups.k_lt (hg : PageGroups H D kn vn) {h d : ℕ} (hh : h < H) (hd : d < D) :
    h * D + d < kn * metadataGroupSize := by
  rw [← hg.k]
  exact mul_add_lt hh hd

theorem PageGroups.v_lt (hg : PageGroups H D kn vn) {t h d : ℕ} (ht : t < groupSize) (hh : h < H)
    (hd : d < D) : (t * H + h) * (D / groupSize) + d / groupSize < vn * metadataGroupSize := by
  rw [← hg.v]
  refine mul_add_lt (mul_add_lt ht hh) (Nat.div_lt_div_of_lt_of_dvd ?_ hd)
  exact Nat.dvd_of_mod_eq_zero hg.dim

/-- The launch parameters for a validated layout. -/
def pageParams (qHeads H D : ℕ) : PageConsts :=
  pageConsts (pageLayout groupSize H D D) qHeads H D (packedDim D 2)

theorem PageGroups.counts (hg : PageGroups H D kn vn) (qHeads : ℕ) :
    (pageParams qHeads H D).kPrimaryCount = kn * metadataGroupSize ∧
      (pageParams qHeads H D).kMetaGroups = kn ∧
      (pageParams qHeads H D).vPrimaryCount = vn * metadataGroupSize ∧
      (pageParams qHeads H D).vMetaGroups = vn := by
  have hk : (pageParams qHeads H D).kPrimaryCount = kn * metadataGroupSize := hg.k
  have hv : (pageParams qHeads H D).vPrimaryCount = vn * metadataGroupSize := hg.v
  refine ⟨hk, ?_, hv, ?_⟩
  · exact (congrArg (· / metadataGroupSize) hk).trans (Nat.mul_div_cancel kn (by decide))
  · exact (congrArg (· / metadataGroupSize) hv).trans (Nat.mul_div_cancel vn (by decide))

/-- A layout accepted for the kernels, in terms of its groups. -/
theorem pageGroups_of_validate {bs Dk Dv : ℕ} {layout : Rabit2PageLayout} {r : ℕ × ℕ × ℕ × ℕ}
    (hl : rabit2PageLayout bs H Dk Dv = .ok layout) (hv : validateLayout layout = .ok r) :
    layout = pageLayout groupSize H Dk Dk ∧ Dk = Dv ∧ ∃ kn vn, PageGroups H Dk kn vn := by
  obtain ⟨rfl, -⟩ := rabit2PageLayout_ok hl
  obtain ⟨hbs, hdim, hmod, hk, hvn⟩ := validateLayout_ok hv
  have hbs' : bs = groupSize := hbs
  have hdim' : Dk = Dv := hdim
  subst hbs' hdim'
  obtain ⟨kn, hkn⟩ := Nat.dvd_of_mod_eq_zero hk
  obtain ⟨vn, hvn⟩ := Nat.dvd_of_mod_eq_zero hvn
  exact ⟨rfl, rfl, kn, vn, hmod, hkn.trans (Nat.mul_comm _ _), hvn.trans (Nat.mul_comm _ _)⟩

end Layout

section Decode

variable {H D kn vn : ℕ} {page : List UInt8} {cache : ℕ → UInt8} {base : ℕ}

/-- The page at `base` of the cache. -/
def PageAt (H D : ℕ) (page : List UInt8) (cache : ℕ → UInt8) (base : ℕ) : Prop :=
  page.length = (pageLayout groupSize H D D).pageBytes ∧
    ∀ i < (pageLayout groupSize H D D).pageBytes, cache (base + i) = page.getD i 0

theorem PageAt.section_read (hp : PageAt H D page cache base) {off size : ℕ}
    (hle : off + size ≤ (pageLayout groupSize H D D).pageBytes) {j : ℕ} (hj : j < size) :
    cache (base + off + j) = (slice page off size).getD j 0 := by
  rw [getD_slice hj, Nat.add_assoc, hp.2 _ (by omega)]

theorem PageAt.blob (hp : PageAt H D page cache base) {off size n : ℕ}
    (hle : off + size ≤ (pageLayout groupSize H D D).pageBytes)
    (hsize : size = n * metadataGroupSize + n * 4) {shape : List ℕ}
    (hshape : shape.prod = n * metadataGroupSize) :
    ∃ m, decodeMetadataBlob (slice page off size) shape = .ok m ∧
      ∀ i < n * metadataGroupSize,
        ∀ {F : Type} (fp : Fp F Bf16), (decodeMetadataUint8Group fp m).getD i (fp.lit 0)
          = ((metaEntry (base + off) (n * metadataGroupSize) n i true).eval cache).value fp := by
  have hlen : (slice page off size).length = size := length_slice (hp.1 ▸ hle)
  obtain ⟨m, hm, hdec⟩ := decodeMetadata_blobEntry hshape (hlen.trans hsize)
  refine ⟨m, hm, fun i hi F fp => ?_⟩
  rw [eval_metaEntry (hlen.trans hsize) (fun j hj => hp.section_read hle (hlen ▸ hj)) hi,
    List.getD_eq_getElem?_getD, hdec fp i (hshape ▸ hi), hshape]
  rfl

end Decode

section Decode

variable {H D kn vn : ℕ} {page : List UInt8} {cache : ℕ → UInt8} {base : ℕ}

/-- Every section lies inside the page. -/
theorem sections_le (H D : ℕ) : ∀ s ∈ layoutSections (pageLayout groupSize H D D),
    s.1 + s.2 ≤ (pageLayout groupSize H D D).pageBytes := by
  simp only [layoutSections, List.forall_mem_cons, List.not_mem_nil, false_imp_iff, implies_true,
    and_true, pageLayout]
  omega

/-- Row `row` of a payload of rows of `n` bytes. -/
theorem PageAt.row_read (hp : PageAt H D page cache base) {off size n rows : ℕ}
    (hle : off + size ≤ (pageLayout groupSize H D D).pageBytes) (hsize : size = rows * n)
    {row j : ℕ} (hrow : row < rows) (hj : j < n) :
    cache (base + off + row * n + j) = (slice page off size).getD (row * n + j) 0 := by
  rw [Nat.add_assoc]
  exact hp.section_read hle (hsize ▸ mul_add_lt hrow hj)

/-- One K token of a page whose sections are given. -/
theorem getElem?_dequantizeK3_page {F : Type} (fp : Fp F Bf16) {t : ℕ} (ht : t < groupSize)
    (bytes : List UInt8) (min scale : Metadata Bf16) :
    (dequantizeK3SequenceAffine fp
        { packed := reshapeBytes groupSize H (packedDim D 3) bytes, tokens := groupSize
          paddedTokens := groupSize, padSeq := 0, min := min, scale := scale })[t]?
      = some fun (h : Fin H) (d : Fin D) => fp.affineValue
          (unpackCode 3 (ext fun j : Fin (packedDim D 3) =>
            bytes.getD ((t * H + h) * packedDim D 3 + j) 0) d)
          ((decodeMetadataUint8Group fp scale).getD (h * D + d) (fp.lit 0))
          ((decodeMetadataUint8Group fp min).getD (h * D + d) (fp.lit 0)) := by
  simp only [dequantizeK3SequenceAffine]
  rw [List.getElem?_take_of_lt ht, List.getElem?_mapIdx, getElem?_reshapeBytes ht, Option.map_some,
    Nat.div_self groupSize_pos, Nat.div_eq_of_lt ht]
  simp only [Nat.mul_one, Nat.add_zero]

/-- One V token of a page whose sections are given. -/
theorem getElem?_dequantizeV2_page {F : Type} (fp : Fp F Bf16) {t : ℕ} (ht : t < groupSize)
    (bytes : List UInt8) (min scale : List F) :
    (dequantizeV2FromPrimary fp (reshapeBytes groupSize H (vPackedDim D) bytes) min scale)[t]?
      = some fun (h : Fin H) (d : Fin D) => fp.affineValue
          (unpackCode 2 (ext fun j : Fin (vPackedDim D) =>
            bytes.getD ((t * H + h) * vPackedDim D + j) 0) d)
          (scale.getD ((t * H + h) * vGroups D + d / groupSize) (fp.lit 0))
          (min.getD ((t * H + h) * vGroups D + d / groupSize) (fp.lit 0)) := by
  rw [dequantizeV2FromPrimary, List.getElem?_mapIdx, getElem?_reshapeBytes ht, Option.map_some]

theorem length_dequantize_page {F : Type} (fp : Fp F Bf16) (kBytes vBytes : List UInt8)
    (kMin kScale : Metadata Bf16) (vMin vScale : List F) :
    (dequantizeK3SequenceAffine fp
        { packed := reshapeBytes groupSize H (packedDim D 3) kBytes, tokens := groupSize
          paddedTokens := groupSize, padSeq := 0, min := kMin
          scale := kScale } : List (Tok H D F)).length = groupSize ∧
      (dequantizeV2FromPrimary fp (reshapeBytes groupSize H (vPackedDim D) vBytes) vMin
        vScale : List (Tok H D F)).length = groupSize := by
  simp [dequantizeK3SequenceAffine, dequantizeV2FromPrimary, reshapeBytes]

/-- What decodes to `key` and `value` tokens of the reference is what the kernels load. -/
theorem PageAt.decode (hg : PageGroups H D kn vn) (hp : PageAt H D page cache base) (qHeads : ℕ) :
    ∀ {F : Type} (fp : Fp F Bf16), ∃ key value : List (Tok H D F),
      decodeRabit2Page fp (pageLayout groupSize H D D) page = .ok (key, value) ∧
      key.length = groupSize ∧ value.length = groupSize ∧
      ∀ t < groupSize,
        key[t]? = some (fun (h : Fin H) (d : Fin D) =>
          ((kEntryLoad (pageParams qHeads H D) base h t d).eval cache).value fp) ∧
        value[t]? = some (fun (h : Fin H) (d : Fin D) =>
          ((vEntryLoad (pageParams qHeads H D) base h t d).eval cache).value fp) := by
  intro F fp
  obtain ⟨hkb, hvb⟩ := hg.bytes
  obtain ⟨hkc, hkg, hvc, hvg⟩ := hg.counts qHeads
  have hsec := sections_le H D
  simp only [layoutSections, List.forall_mem_cons, List.not_mem_nil, false_imp_iff, implies_true,
    and_true] at hsec
  obtain ⟨hs1, hs2, hs3, hs4, hs5, hs6⟩ := hsec
  have hkshape : [1, H, groupSize / groupSize, 1, D].prod = kn * metadataGroupSize := by
    rw [← hg.k]
    simp
  have hvshape : [groupSize, H, vGroups D, 1].prod = vn * metadataGroupSize := by
    rw [← hg.v, vGroups_of_mod hg.dim]
    simp [Nat.mul_assoc]
  obtain ⟨kMin, hkMin, hkMinV⟩ := hp.blob hs3 hkb hkshape
  obtain ⟨kScale, hkScale, hkScaleV⟩ := hp.blob hs4 hkb hkshape
  obtain ⟨vMin, hvMin, hvMinV⟩ := hp.blob hs5 hvb hvshape
  obtain ⟨vScale, hvScale, hvScaleV⟩ := hp.blob hs6 hvb hvshape
  have hrec : Recovered (H := H) (D := D) groupSize page _ _ kMin kScale vMin vScale :=
    ⟨hp.1, rfl, rfl, hkMin, hkScale, hvMin, hvScale⟩
  obtain ⟨hklen, hvlen⟩ := length_dequantize_page (H := H) (D := D) fp
    (slice page (pageLayout groupSize H D D).kPayloadOffset
      (pageLayout groupSize H D D).kPayloadBytes)
    (slice page (pageLayout groupSize H D D).vPayloadOffset
      (pageLayout groupSize H D D).vPayloadBytes)
    kMin kScale (decodeMetadataUint8Group fp vMin) (decodeMetadataUint8Group fp vScale)
  refine ⟨_, _, hrec.decode fp, hklen, hvlen, fun t ht => ⟨?_, ?_⟩⟩
  · refine (getElem?_dequantizeK3_page (H := H) (D := D) fp ht _ _ _).trans (congrArg some ?_)
    funext h d
    have hcode := eval_kCodeLoad (t := t) (h := h) (pageParams qHeads H D) base d.2 rfl
      fun j hj => hp.row_read hs1 rfl (mul_add_lt ht h.2) hj
    have hmask : decide (d.1 < (pageParams qHeads H D).headSize) = true := decide_eq_true d.2
    rw [hkMinV _ (hg.k_lt h.2 d.2), hkScaleV _ (hg.k_lt h.2 d.2)]
    simp only [kEntryLoad, Load.eval_map₂, RawEntry.value, hkc, hkg, hmask, hcode]
    rfl
  · refine (getElem?_dequantizeV2_page (H := H) (D := D) fp ht _ _ _).trans (congrArg some ?_)
    funext h d
    have hsize : (pageLayout groupSize H D D).vPayloadBytes = groupSize * H * packedDim D 2 := by
      rw [hg.vPackedDim_eq]
      rfl
    have hdim : d.1 / 4 < packedDim D 2 := by
      have := d.2
      unfold packedDim
      omega
    have hcode := eval_vCodeLoad (t := t) (h := h) (pageParams qHeads H D) base d.2 hdim
      fun j hj => hp.row_read hs2 hsize (mul_add_lt ht h.2) hj
    have hmask : decide (d.1 < (pageParams qHeads H D).headSize) = true := decide_eq_true d.2
    have hidx := hg.v_lt ht h.2 d.2
    rw [vGroups_of_mod hg.dim, hvMinV _ hidx, hvScaleV _ hidx, ← hg.vPackedDim_eq]
    simp only [vEntryLoad, Load.eval_map₂, RawEntry.value, hvc, hvg, hmask, hcode]
    rfl

end Decode

section Addresses

variable {H D kn vn qHeads base kvh t d a : ℕ}

/-- A K entry is loaded from inside the page. -/
theorem mem_addrs_kEntryLoad (hg : PageGroups H D kn vn) (hh : kvh < H) (ht : t < groupSize)
    (ha : a ∈ (kEntryLoad (pageParams qHeads H D) base kvh t d).addrs) :
    base ≤ a ∧ a < base + (pageLayout groupSize H D D).pageBytes := by
  obtain ⟨hkb, -⟩ := hg.bytes
  obtain ⟨hkc, hkg, -⟩ := hg.counts qHeads
  have hsec := sections_le H D
  simp only [layoutSections, List.forall_mem_cons] at hsec
  obtain ⟨hs1, -, hs3, hs4, -⟩ := hsec
  have hscale : (pageLayout groupSize H D D).kScaleBytes = kn * metadataGroupSize + kn * 4 := hkb
  have hrow : ∀ j < packedDim D 3, (t * H + kvh) * packedDim D 3 + j
      < (pageLayout groupSize H D D).kPayloadBytes := fun j hj =>
    mul_add_lt (mul_add_lt ht hh) hj
  have hbyte : d < D → d * 3 / 8 < packedDim D 3 := fun hd => by
    unfold packedDim
    omega
  have hidx : decide (d < (pageParams qHeads H D).headSize) = true →
      kvh * D + d < kn * metadataGroupSize := fun hm => hg.k_lt hh (of_decide_eq_true hm)
  simp only [kEntryLoad, kCodeLoad, Load.addrs_map₂, List.mem_append, Load.mem_addrs_masked, hkc,
    hkg, Bool.and_eq_true, decide_eq_true_eq] at ha
  rcases ha with (⟨hd, rfl⟩ | ⟨⟨-, hj⟩, rfl⟩) | ha | ha
  · have hlt : (t * (pageParams qHeads H D).numKvHeads + kvh) * (pageParams qHeads H D).kPackedDim
        + d * 3 / 8 < (pageLayout groupSize H D D).kPayloadBytes := hrow _ (hbyte hd)
    have hoff : (pageParams qHeads H D).kPayloadOffset
      = (pageLayout groupSize H D D).kPayloadOffset := rfl
    omega
  · have hlt : (t * (pageParams qHeads H D).numKvHeads + kvh) * (pageParams qHeads H D).kPackedDim
        + (d * 3 / 8 + 1) < (pageLayout groupSize H D D).kPayloadBytes := hrow _ hj
    have hoff : (pageParams qHeads H D).kPayloadOffset
      = (pageLayout groupSize H D D).kPayloadOffset := rfl
    omega
  · obtain ⟨hle, hlt⟩ := mem_addrs_metaEntry hidx ha
    have hoff : (pageParams qHeads H D).kMinOffset = (pageLayout groupSize H D D).kMinOffset := rfl
    omega
  · obtain ⟨hle, hlt⟩ := mem_addrs_metaEntry hidx ha
    have hoff : (pageParams qHeads H D).kScaleOffset
      = (pageLayout groupSize H D D).kScaleOffset := rfl
    omega

/-- A V entry is loaded from inside the page. -/
theorem mem_addrs_vEntryLoad (hg : PageGroups H D kn vn) (hh : kvh < H) (ht : t < groupSize)
    (ha : a ∈ (vEntryLoad (pageParams qHeads H D) base kvh t d).addrs) :
    base ≤ a ∧ a < base + (pageLayout groupSize H D D).pageBytes := by
  obtain ⟨-, hvb⟩ := hg.bytes
  obtain ⟨-, -, hvc, hvg⟩ := hg.counts qHeads
  have hsec := sections_le H D
  simp only [layoutSections, List.forall_mem_cons] at hsec
  obtain ⟨-, hs2, -, -, hs5, hs6, -⟩ := hsec
  have hscale : (pageLayout groupSize H D D).vScaleBytes = vn * metadataGroupSize + vn * 4 := hvb
  have hrow : ∀ j < packedDim D 2, (t * H + kvh) * packedDim D 2 + j
      < (pageLayout groupSize H D D).vPayloadBytes := fun j hj => by
    rw [hg.vPackedDim_eq] at hj ⊢
    exact mul_add_lt (mul_add_lt ht hh) hj
  have hbyte : d < D → d / 4 < packedDim D 2 := fun hd => by
    unfold packedDim
    omega
  have hidx : decide (d < (pageParams qHeads H D).headSize) = true →
      (t * H + kvh) * (D / groupSize) + d / groupSize < vn * metadataGroupSize := fun hm =>
    hg.v_lt ht hh (of_decide_eq_true hm)
  simp only [vEntryLoad, vCodeLoad, Load.addrs_map₂, Load.addrs_map, List.mem_append,
    Load.mem_addrs_masked, hvc, hvg, decide_eq_true_eq] at ha
  rcases ha with ⟨hd, rfl⟩ | ha | ha
  · have hlt : (t * (pageParams qHeads H D).numKvHeads + kvh) * (pageParams qHeads H D).vPackedDim
        + d / 4 < (pageLayout groupSize H D D).vPayloadBytes := hrow _ (hbyte hd)
    have hoff : (pageParams qHeads H D).vPayloadOffset
      = (pageLayout groupSize H D D).vPayloadOffset := rfl
    omega
  · obtain ⟨hle, hlt⟩ := mem_addrs_metaEntry hidx ha
    have hoff : (pageParams qHeads H D).vMinOffset = (pageLayout groupSize H D D).vMinOffset := rfl
    omega
  · obtain ⟨hle, hlt⟩ := mem_addrs_metaEntry hidx ha
    have hoff : (pageParams qHeads H D).vScaleOffset
      = (pageLayout groupSize H D D).vScaleOffset := rfl
    omega

end Addresses

/-- Both closed-page kernels compute the entries of `decode_rabit2_page_ref` from the same codes and
secondaries, whatever the page holds, and load nothing outside the page. `pageK` and `pageV` are the
values of the loaded entries. -/
theorem closedPage_entries {bs H Dk Dv : ℕ} {layout : Rabit2PageLayout} {r : ℕ × ℕ × ℕ × ℕ}
    (hl : rabit2PageLayout bs H Dk Dv = .ok layout) (hv : validateLayout layout = .ok r)
    {page : List UInt8} (hpage : page.length = layout.pageBytes) (cache : ℕ → UInt8)
    (physical qHeads : ℕ)
    (hcache : ∀ i < layout.pageBytes, cache (physical * layout.pageBytes + i) = page.getD i 0) :
    ∀ c ∈ [closedPageConsts layout qHeads layout.headSizeK,
        gqa4PageConsts layout qHeads layout.numKvHeads layout.headSizeV layout.headSizeK],
      (∀ {F : Type} (fp : Fp F Bf16), ∃ key value,
        decodeRabit2Page fp layout page = .ok (key, value) ∧
        ∀ t < 32, ∃ keyT valueT, key[t]? = some keyT ∧ value[t]? = some valueT ∧
          (∀ (h : Fin layout.numKvHeads) (d : Fin layout.headSizeK), keyT h d
            = ((kEntryLoad c (physical * c.pageBytes) h t d).eval cache).value fp) ∧
          ∀ (h : Fin layout.numKvHeads) (d : Fin layout.headSizeV), valueT h d
            = ((vEntryLoad c (physical * c.pageBytes) h t d).eval cache).value fp) ∧
      ∀ h < layout.numKvHeads, ∀ t < 32, ∀ d,
        ∀ a ∈ (kEntryLoad c (physical * c.pageBytes) h t d).addrs
            ++ (vEntryLoad c (physical * c.pageBytes) h t d).addrs,
          physical * layout.pageBytes ≤ a ∧ a < (physical + 1) * layout.pageBytes := by
  obtain ⟨rfl, rfl, kn, vn, hg⟩ := pageGroups_of_validate hl hv
  intro c hc
  have hparams : c = pageParams qHeads H Dk := by
    rcases List.mem_pair.1 hc with rfl | rfl <;> rfl
  subst hparams
  have hp : PageAt H Dk page cache (physical * (pageLayout groupSize H Dk Dk).pageBytes) :=
    ⟨hpage, hcache⟩
  refine ⟨fun {F} fp => ?_, fun h hh t ht d a ha => ?_⟩
  · obtain ⟨key, value, hdec, -, -, htok⟩ := hp.decode hg qHeads fp
    refine ⟨key, value, hdec, fun t ht => ?_⟩
    obtain ⟨hk, hv⟩ := htok t ht
    exact ⟨_, _, hk, hv, fun _ _ => rfl, fun _ _ => rfl⟩
  · rw [Nat.succ_mul]
    rcases List.mem_append.1 ha with ha | ha
    · exact mem_addrs_kEntryLoad hg hh ht ha
    · exact mem_addrs_vEntryLoad hg hh ht ha

/-- Memory without a constant stretch, for concrete runs. -/
def stripes (a : ℕ) : UInt8 := UInt8.ofNat (37 * a + 11)

/-- `n` bytes of it. -/
def stripedPage (start n : ℕ) : List UInt8 := (List.range n).map fun i => stripes (start + i)

@[simp] theorem length_stripedPage (start n : ℕ) : (stripedPage start n).length = n := by
  rw [stripedPage, List.length_map, List.length_range]

theorem getD_stripedPage {n i : ℕ} (start : ℕ) (hi : i < n) :
    stripes (start + i) = (stripedPage start n).getD i 0 := by
  simp [stripedPage, List.getD_eq_getElem?_getD, List.getElem?_range hi]

/-- The last token of a page with two heads, the fourth page of its cache. -/
theorem closedPage_entries_fourth_page : ∃ key value keyT valueT,
    decodeRabit2Page ratFp (pageLayout 32 2 32 32) (stripedPage
      (3 * (pageLayout 32 2 32 32).pageBytes) (pageLayout 32 2 32 32).pageBytes)
      = .ok (key, value) ∧
    key[31]? = some keyT ∧ value[31]? = some valueT ∧
    (∀ (h : Fin 2) (d : Fin 32),
      keyT h d = ((kEntryLoad (closedPageConsts (pageLayout 32 2 32 32) 4 32)
        (3 * (pageLayout 32 2 32 32).pageBytes) h 31 d).eval stripes).value ratFp ∧
      valueT h d = ((vEntryLoad (closedPageConsts (pageLayout 32 2 32 32) 4 32)
        (3 * (pageLayout 32 2 32 32).pageBytes) h 31 d).eval stripes).value ratFp) ∧
    ∀ a ∈ (kEntryLoad (closedPageConsts (pageLayout 32 2 32 32) 4 32)
          (3 * (pageLayout 32 2 32 32).pageBytes) 1 31 31).addrs
        ++ (vEntryLoad (closedPageConsts (pageLayout 32 2 32 32) 4 32)
          (3 * (pageLayout 32 2 32 32).pageBytes) 1 31 31).addrs,
      3 * (pageLayout 32 2 32 32).pageBytes ≤ a ∧
        a < (3 + 1) * (pageLayout 32 2 32 32).pageBytes := by
  obtain ⟨hentries, haddrs⟩ := closedPage_entries
    (show rabit2PageLayout 32 2 32 32 = .ok (pageLayout 32 2 32 32) from rfl) rfl
    (length_stripedPage (3 * (pageLayout 32 2 32 32).pageBytes) _) stripes 3 4
    (fun _ hi => getD_stripedPage _ hi) (closedPageConsts (pageLayout 32 2 32 32) 4 32)
    List.mem_cons_self
  obtain ⟨key, value, hdec, htok⟩ := hentries ratFp
  obtain ⟨keyT, valueT, hk, hv, hkey, hvalue⟩ := htok 31 (by decide)
  exact ⟨key, value, keyT, valueT, hdec, hk, hv, fun h d => ⟨hkey h d, hvalue h d⟩,
    haddrs 1 (by decide) 31 (by decide) 31⟩

end RabitKV
