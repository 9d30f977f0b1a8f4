import RabitKV.Metadata
import RabitKV.Proofs.Lowbit

/-!
# META8g64 is local to its groups

What a value decodes to depends only on the 64 values of its group (`metaDecoded`), and only the
last group is padded, so a cut at a multiple of 64 splits the metadata (`metaDecoded_append`).
The byte blob loses nothing (`decodeMetadataBlob_encode`).
-/

namespace RabitKV

open Chunks

section Groups

variable {F B : Type} (fp : Fp F B)

/-- One group of 64 after a round trip. -/
def groupDecoded (g : List F) : List F :=
  decodeGroup fp (metaCodes fp g) (fp.toB (metaScale fp g)) (fp.toB (fp.amin g))

/-- Metadata after a round trip. -/
def metaDecoded (flat : List F) : List F :=
  ((chunks metadataGroupSize (padLast fp flat)).flatMap (groupDecoded fp)).take flat.length

@[simp] theorem length_metaCodes (g : List F) : (metaCodes fp g).length = g.length := by
  simp [metaCodes]

@[simp] theorem length_groupDecoded (g : List F) : (groupDecoded fp g).length = g.length := by
  simp [groupDecoded, decodeGroup]

theorem length_padLast (flat : List F) :
    (padLast fp flat).length = flat.length + padTo metadataGroupSize flat.length := by
  simp [padLast]

theorem padLast_dvd (flat : List F) : metadataGroupSize ∣ (padLast fp flat).length := by
  rw [length_padLast]
  exact padTo_dvd (by decide) _

theorem length_flatMap_groupDecoded (l : List F) (h : metadataGroupSize ∣ l.length) :
    ((chunks metadataGroupSize l).flatMap (groupDecoded fp)).length = l.length := by
  rw [length_flatMap_of_length fun g hg => by
    rw [length_groupDecoded, length_of_mem_chunks hg], length_chunks, Nat.div_mul_cancel h]

@[simp] theorem length_metaDecoded (flat : List F) :
    (metaDecoded fp flat).length = flat.length := by
  unfold metaDecoded
  rw [List.length_take, length_flatMap_groupDecoded fp _ (padLast_dvd fp flat), length_padLast]
  omega

theorem zipWith_decodeGroup (gs : List (List F)) :
    List.zipWith (fun c (s : B × B) => decodeGroup fp c s.1 s.2) (gs.map (metaCodes fp))
      ((gs.map fun g => fp.toB (metaScale fp g)).zip (gs.map fun g => fp.toB (fp.amin g)))
      = gs.map (groupDecoded fp) := by
  induction gs with
  | nil => rfl
  | cons g gs ih =>
    simp only [List.map_cons, List.zip_cons_cons, List.zipWith_cons_cons, ih]
    rfl

/-- Encoding and decoding metadata decodes each group of 64 by itself. -/
theorem decodeMetadata_encode (shape : List ℕ) (flat : List F) :
    decodeMetadataUint8Group fp (encodeMetadataUint8Group fp shape flat) = metaDecoded fp flat := by
  rcases flat with _ | ⟨x, xs⟩
  · simp [decodeMetadataUint8Group, encodeMetadataUint8Group, metaDecoded]
  · simp only [decodeMetadataUint8Group, encodeMetadataUint8Group, metaDecoded,
      List.isEmpty_cons, Bool.false_eq_true, if_false]
    rw [zipWith_decodeGroup, ← List.flatMap_def,
      length_flatMap_groupDecoded fp _ (padLast_dvd fp _), length_padLast, Nat.add_sub_cancel]

theorem padLast_of_dvd {flat : List F} (h : metadataGroupSize ∣ flat.length) :
    padLast fp flat = flat := by
  simp [padLast, padTo_eq_zero h]

theorem padLast_append {xs : List F} (h : metadataGroupSize ∣ xs.length) (ys : List F) :
    padLast fp (xs ++ ys) = xs ++ padLast fp ys := by
  rcases ys.eq_nil_or_concat with rfl | ⟨ys, y, rfl⟩
  · rw [List.append_nil, padLast_of_dvd fp h]
    simp [padLast, padTo]
  · unfold padLast
    rw [List.length_append, padTo_add_of_dvd h, ← List.append_assoc, List.append_assoc xs]
    simp

/-- A cut at a multiple of 64 cuts the metadata. -/
theorem metaDecoded_append {xs : List F} (h : metadataGroupSize ∣ xs.length) (ys : List F) :
    metaDecoded fp (xs ++ ys) = metaDecoded fp xs ++ metaDecoded fp ys := by
  unfold metaDecoded
  rw [padLast_append fp h, padLast_of_dvd fp h, chunks_append (by decide) h, List.flatMap_append,
    List.length_append, List.take_append, length_flatMap_groupDecoded fp _ h,
    Nat.add_sub_cancel_left]
  congr 1
  rw [List.take_of_length_le (by rw [length_flatMap_groupDecoded fp _ h]; omega),
    List.take_of_length_le (by rw [length_flatMap_groupDecoded fp _ h])]

/-- A cut at a multiple of 64 cuts codes, minima and scales. -/
theorem encodeMetadata_append (shape sx sy : List ℕ) {xs : List F}
    (h : metadataGroupSize ∣ xs.length)
    (ys : List F) :
    (encodeMetadataUint8Group fp shape (xs ++ ys)).codes
        = (encodeMetadataUint8Group fp sx xs).codes ++ (encodeMetadataUint8Group fp sy ys).codes ∧
      (encodeMetadataUint8Group fp shape (xs ++ ys)).min
        = (encodeMetadataUint8Group fp sx xs).min ++ (encodeMetadataUint8Group fp sy ys).min ∧
      (encodeMetadataUint8Group fp shape (xs ++ ys)).scale
        = (encodeMetadataUint8Group fp sx xs).scale
          ++ (encodeMetadataUint8Group fp sy ys).scale := by
  rcases xs with _ | ⟨x, xs⟩
  · rcases ys with _ | ⟨y, ys⟩ <;> simp [encodeMetadataUint8Group]
  rcases ys with _ | ⟨y, ys⟩
  · simp [encodeMetadataUint8Group]
  · have hpad := padLast_append fp h (y :: ys)
    rw [List.cons_append] at hpad
    simp only [encodeMetadataUint8Group, List.cons_append, List.isEmpty_cons, Bool.false_eq_true,
      if_false, hpad, padLast_of_dvd fp h, ← List.map_append]
    rw [← chunks_append (by decide) h, List.cons_append]
    exact ⟨rfl, rfl, rfl⟩

@[simp] theorem metaDecoded_nil : metaDecoded fp [] = [] := by
  simp [metaDecoded]

/-- Rows whose lengths are multiples of 64 are decoded row by row. -/
theorem metaDecoded_flatMap {β : Type} {f : β → List F} : ∀ {l : List β},
    (∀ x ∈ l, metadataGroupSize ∣ (f x).length) →
    metaDecoded fp (l.flatMap f) = l.flatMap fun x => metaDecoded fp (f x)
  | [], _ => by simp
  | x :: l, h => by
    rw [List.flatMap_cons, List.flatMap_cons, metaDecoded_append fp (h x List.mem_cons_self),
      metaDecoded_flatMap fun y hy => h y (List.mem_cons_of_mem _ hy)]

/-- Compressed metadata of `n` values: whole rows of codes and one minimum and scale per row. -/
structure Metadata.Shaped (m : Metadata B) (n : ℕ) : Prop where
  rows : ∀ r ∈ m.codes, r.length = metadataGroupSize
  codes : m.codes.length = (n + metadataGroupSize - 1) / metadataGroupSize
  min : m.min.length = m.codes.length
  scale : m.scale.length = m.codes.length
  pad : m.pad = m.codes.length * metadataGroupSize - n

theorem encodeMetadata_shaped (shape : List ℕ) (flat : List F) :
    (encodeMetadataUint8Group fp shape flat).Shaped flat.length := by
  rcases flat with _ | ⟨x, xs⟩
  · constructor <;> simp [encodeMetadataUint8Group, metadataGroupSize]
  · have hlen : (padLast fp (x :: xs)).length / metadataGroupSize
        = ((x :: xs).length + metadataGroupSize - 1) / metadataGroupSize := by
      rw [length_padLast, add_padTo_div (by decide)]
    constructor
    · intro r hr
      simp only [encodeMetadataUint8Group, List.isEmpty_cons, Bool.false_eq_true, if_false,
        List.mem_map] at hr
      obtain ⟨g, hg, rfl⟩ := hr
      rw [length_metaCodes, length_of_mem_chunks hg]
    · simp only [encodeMetadataUint8Group, List.isEmpty_cons, Bool.false_eq_true, if_false,
        List.length_map, length_chunks]
      exact hlen
    · simp [encodeMetadataUint8Group]
    · simp [encodeMetadataUint8Group]
    · simp only [encodeMetadataUint8Group, List.isEmpty_cons, Bool.false_eq_true, if_false,
        List.length_map, length_chunks]
      rw [Nat.div_mul_cancel (padLast_dvd fp _), length_padLast, Nat.add_sub_cancel_left]

theorem encodeMetadata_origShape (shape : List ℕ) (flat : List F) :
    (encodeMetadataUint8Group fp shape flat).origShape = shape := by
  unfold encodeMetadataUint8Group
  split_ifs <;> rfl

end Groups

theorem bf16OfBytes_bf16Bytes (b : Bf16) :
    bf16OfBytes (UInt8.ofNat (b.toNat % 256)) (UInt8.ofNat (b.toNat / 256)) = b := by
  have hb := b.toNat_lt
  apply UInt16.toNat_inj.1
  rw [bf16OfBytes, UInt8.toNat_ofNat', UInt8.toNat_ofNat', UInt16.toNat_ofNat']
  omega

theorem bf16Bytes_bf16OfBytes (lo hi : UInt8) : bf16Bytes (bf16OfBytes lo hi) = [lo, hi] := by
  have hlo := lo.toNat_lt
  have hhi := hi.toNat_lt
  have h : (bf16OfBytes lo hi).toNat = lo.toNat + 256 * hi.toNat := by
    rw [bf16OfBytes, UInt16.toNat_ofNat']
    omega
  rw [bf16Bytes, h, show (lo.toNat + 256 * hi.toNat) % 256 = lo.toNat by omega,
    show (lo.toNat + 256 * hi.toNat) / 256 = hi.toNat by omega]
  simp

theorem length_tensorAsBytes (bs : List Bf16) : (tensorAsBytes bs).length = bs.length * 2 :=
  length_flatMap_of_length fun _ _ => rfl

theorem viewBf16_tensorAsBytes (bs : List Bf16) : viewBf16 (tensorAsBytes bs) = bs := by
  unfold viewBf16 tensorAsBytes
  rw [List.flatMap_def, chunks_flatten (by omega) (by simp [bf16Bytes]), List.map_map]
  conv_rhs => rw [← List.map_id bs]
  refine List.map_congr_left fun b _ => ?_
  exact bf16OfBytes_bf16Bytes b

theorem length_encodeMetadataBlob {m : Metadata Bf16} {n : ℕ} (h : m.Shaped n) :
    (encodeMetadataBlob m).length = m.codes.length * metadataGroupSize + m.codes.length * 4 := by
  unfold encodeMetadataBlob
  rw [List.length_append, List.length_append, length_tensorAsBytes, length_tensorAsBytes, h.min,
    h.scale, ← List.flatMap_id, length_flatMap_of_length (f := id) h.rows]
  omega

/-- The byte blob of compressed metadata decodes to the metadata. -/
theorem decodeMetadataBlob_encode {m : Metadata Bf16} (h : m.Shaped m.origShape.prod) :
    decodeMetadataBlob (encodeMetadataBlob m) m.origShape = .ok m := by
  have hlen := length_encodeMetadataBlob h
  have hcodes : m.codes.flatten.length
      = (m.origShape.prod + metadataGroupSize - 1) / metadataGroupSize * metadataGroupSize := by
    rw [← List.flatMap_id, length_flatMap_of_length (f := id) h.rows, h.codes]
  have hmin : (tensorAsBytes m.min).length
      = (m.origShape.prod + metadataGroupSize - 1) / metadataGroupSize * 2 := by
    rw [length_tensorAsBytes, h.min, h.codes]
  simp only [decodeMetadataBlob]
  rw [if_neg (not_not.2 (by rw [hlen, h.codes]))]
  congr 1
  have e1 : (encodeMetadataBlob m).take
      ((m.origShape.prod + metadataGroupSize - 1) / metadataGroupSize * metadataGroupSize)
      = m.codes.flatten := by
    unfold encodeMetadataBlob
    rw [List.append_assoc, List.take_left' hcodes]
  have e2 : ((encodeMetadataBlob m).take
      ((m.origShape.prod + metadataGroupSize - 1) / metadataGroupSize * metadataGroupSize
        + (m.origShape.prod + metadataGroupSize - 1) / metadataGroupSize * 2)).drop
      ((m.origShape.prod + metadataGroupSize - 1) / metadataGroupSize * metadataGroupSize)
      = tensorAsBytes m.min := by
    unfold encodeMetadataBlob
    rw [List.take_left' (by rw [List.length_append, hcodes, hmin]), List.drop_left' hcodes]
  have e3 : (encodeMetadataBlob m).drop
      ((m.origShape.prod + metadataGroupSize - 1) / metadataGroupSize * metadataGroupSize
        + (m.origShape.prod + metadataGroupSize - 1) / metadataGroupSize * 2)
      = tensorAsBytes m.scale := by
    unfold encodeMetadataBlob
    rw [List.drop_left' (by rw [List.length_append, hcodes, hmin])]
  rw [e1, e2, e3, chunks_flatten (by decide) h.rows, viewBf16_tensorAsBytes,
    viewBf16_tensorAsBytes, ← h.codes, ← h.pad]

theorem decodeMetadataBlob_encodeMetadata {F : Type} (fp : Fp F Bf16) {shape : List ℕ}
    {flat : List F} (h : flat.length = shape.prod) :
    decodeMetadataBlob (encodeMetadataBlob (encodeMetadataUint8Group fp shape flat)) shape
      = .ok (encodeMetadataUint8Group fp shape flat) := by
  have hs := encodeMetadata_shaped fp shape flat
  have hrt := decodeMetadataBlob_encode (m := encodeMetadataUint8Group fp shape flat)
    (by rwa [encodeMetadata_origShape, ← h])
  rwa [encodeMetadata_origShape] at hrt

theorem tensorAsBytes_viewBf16 (bytes : List UInt8) {k : ℕ} (h : bytes.length = 2 * k) :
    tensorAsBytes (viewBf16 bytes) = bytes := by
  have hpair : ∀ g ∈ chunks 2 bytes, bf16Bytes (bf16OfBytes (g.getD 0 0) (g.getD 1 0)) = g := by
    intro g hg
    rcases g with _ | ⟨lo, _ | ⟨hi, _ | ⟨x, g⟩⟩⟩
    · exact absurd (length_of_mem_chunks hg) (by simp)
    · exact absurd (length_of_mem_chunks hg) (by simp)
    · exact bf16Bytes_bf16OfBytes lo hi
    · exact absurd (length_of_mem_chunks hg) (by simp)
  unfold tensorAsBytes viewBf16
  rw [List.flatMap_map, List.flatMap_congr hpair, List.flatMap_id']
  exact flatten_chunks (by decide) h

/-- A blob of the accepted length is the blob of what it decodes to. -/
theorem encodeMetadataBlob_decode {blob : List UInt8} {shape : List ℕ}
    (h : blob.length = (shape.prod + metadataGroupSize - 1) / metadataGroupSize * metadataGroupSize
      + (shape.prod + metadataGroupSize - 1) / metadataGroupSize * 4) :
    ∃ m, decodeMetadataBlob blob shape = .ok m ∧ encodeMetadataBlob m = blob := by
  unfold decodeMetadataBlob
  simp only [if_neg (not_not.2 h)]
  generalize (shape.prod + metadataGroupSize - 1) / metadataGroupSize = groups at *
  refine ⟨_, rfl, ?_⟩
  have hcodes : (chunks metadataGroupSize (blob.take (groups * metadataGroupSize))).flatten
      = blob.take (groups * metadataGroupSize) := by
    refine flatten_chunks (k := groups) (by decide) ?_
    rw [List.length_take, Nat.min_eq_left (by omega), Nat.mul_comm]
  have hmin := tensorAsBytes_viewBf16 ((blob.take (groups * metadataGroupSize + groups * 2)).drop
    (groups * metadataGroupSize)) (k := groups) (by rw [List.length_drop, List.length_take]; omega)
  have hscale := tensorAsBytes_viewBf16 (blob.drop (groups * metadataGroupSize + groups * 2))
    (k := groups) (by rw [List.length_drop]; omega)
  have htake : blob.take (groups * metadataGroupSize)
      = (blob.take (groups * metadataGroupSize + groups * 2)).take
        (groups * metadataGroupSize) := by
    rw [List.take_take, Nat.min_eq_left (Nat.le_add_right _ _)]
  unfold encodeMetadataBlob
  simp only [hcodes, hmin, hscale]
  rw [htake, List.take_append_drop, List.take_append_drop]

theorem getElem?_viewBf16 {bytes : List UInt8} {k : ℕ} (hk : 2 * k + 1 < bytes.length) :
    (viewBf16 bytes)[k]?
      = some (bf16OfBytes (bytes.getD (2 * k) 0) (bytes.getD (2 * k + 1) 0)) := by
  have hrow : k < bytes.length / 2 := by omega
  unfold viewBf16
  rw [List.getElem?_map, getElem?_chunks hrow, Option.map_some, Nat.mul_comm k 2]
  simp only [List.getD_eq_getElem?_getD, List.getElem?_take_of_lt (show 0 < 2 by omega),
    List.getElem?_take_of_lt (show 1 < 2 by omega), List.getElem?_drop, Nat.add_zero]

section Entries

variable {F B : Type} (fp : Fp F B) {m : Metadata B}

theorem length_decodedGroup (hrows : ∀ r ∈ m.codes, r.length = metadataGroupSize) :
    ∀ r ∈ List.zipWith (fun c (s : B × B) => decodeGroup fp c s.1 s.2) m.codes (m.scale.zip m.min),
      r.length = metadataGroupSize := by
  intro r hr
  obtain ⟨k, hk⟩ := List.mem_iff_getElem?.1 hr
  obtain ⟨c, s, hc, -, rfl⟩ := List.getElem?_zipWith_eq_some.1 hk
  rw [decodeGroup, List.length_map]
  exact hrows c (List.mem_of_getElem? hc)

/-- A decoded value before the padding goes, from its code and the secondaries of its group. -/
theorem getElem?_decodedGroups (hrows : ∀ r ∈ m.codes, r.length = metadataGroupSize) {g j : ℕ}
    (hj : j < metadataGroupSize) {row : List UInt8} {code : UInt8} {secMin secScale : B}
    (hrow : m.codes[g]? = some row) (hcode : row[j]? = some code) (hmin : m.min[g]? = some secMin)
    (hscale : m.scale[g]? = some secScale) :
    (List.zipWith (fun c (s : B × B) => decodeGroup fp c s.1 s.2) m.codes
        (m.scale.zip m.min)).flatten[g * metadataGroupSize + j]?
      = some (fp.affineValue code.toNat (fp.ofB secScale) (fp.ofB secMin)) := by
  have hzip : (m.scale.zip m.min)[g]? = some (secScale, secMin) :=
    List.getElem?_zip_eq_some.2 ⟨hscale, hmin⟩
  have hgroup : (List.zipWith (fun c (s : B × B) => decodeGroup fp c s.1 s.2) m.codes
      (m.scale.zip m.min))[g]? = some (decodeGroup fp row secScale secMin) :=
    List.getElem?_zipWith_eq_some.2 ⟨row, (secScale, secMin), hrow, hzip, rfl⟩
  rw [getElem?_flatten (length_decodedGroup fp hrows) hj, hgroup, Option.bind_some, decodeGroup,
    List.getElem?_map, hcode]
  rfl

/-- An entry of unpadded metadata. -/
theorem getElem?_decodeMetadata (hpad : m.pad = 0)
    (hrows : ∀ r ∈ m.codes, r.length = metadataGroupSize) {g j : ℕ} (hj : j < metadataGroupSize)
    {row : List UInt8} {code : UInt8} {secMin secScale : B} (hrow : m.codes[g]? = some row)
    (hcode : row[j]? = some code) (hmin : m.min[g]? = some secMin)
    (hscale : m.scale[g]? = some secScale) :
    (decodeMetadataUint8Group fp m)[g * metadataGroupSize + j]?
      = some (fp.affineValue code.toNat (fp.ofB secScale) (fp.ofB secMin)) := by
  simp only [decodeMetadataUint8Group]
  rw [hpad, Nat.sub_zero, List.take_length]
  exact getElem?_decodedGroups fp hrows hj hrow hcode hmin hscale

/-- Each of the `n` values has a code and secondaries, and is decoded from them. -/
theorem Metadata.Shaped.getElem?_decode {n : ℕ} (h : m.Shaped n) {i : ℕ} (hi : i < n) :
    ∃ code secMin secScale, m.codes.flatten[i]? = some code ∧
      m.min[i / metadataGroupSize]? = some secMin ∧
      m.scale[i / metadataGroupSize]? = some secScale ∧
      (decodeMetadataUint8Group fp m)[i]?
        = some (fp.affineValue code.toNat (fp.ofB secScale) (fp.ofB secMin)) := by
  have hj : i % metadataGroupSize < metadataGroupSize := Nat.mod_lt _ (by decide)
  have hg : i / metadataGroupSize < m.codes.length := by
    rw [h.codes]
    unfold metadataGroupSize
    omega
  have hrow := List.getElem?_eq_getElem hg
  have hj' : i % metadataGroupSize < m.codes[i / metadataGroupSize].length := by
    rwa [h.rows _ (List.getElem_mem hg)]
  have hcode := List.getElem?_eq_getElem hj'
  have hmin := List.getElem?_eq_getElem (h.min ▸ hg)
  have hscale := List.getElem?_eq_getElem (h.scale ▸ hg)
  have hflat := getElem?_flatten h.rows (i := i / metadataGroupSize) hj
  rw [hrow, Option.bind_some, hcode, Nat.div_add_mod'] at hflat
  have hvalue := getElem?_decodedGroups fp h.rows hj hrow hcode hmin hscale
  rw [Nat.div_add_mod'] at hvalue
  refine ⟨_, _, _, hflat, hmin, hscale, ?_⟩
  have hlen : (List.zipWith (fun c (s : B × B) => decodeGroup fp c s.1 s.2) m.codes
      (m.scale.zip m.min)).flatten.length = m.codes.length * metadataGroupSize := by
    rw [← List.flatMap_id]
    refine (length_flatMap_of_length (f := id) (length_decodedGroup fp h.rows)).trans ?_
    simp [h.min, h.scale]
  have hn : n ≤ m.codes.length * metadataGroupSize := by
    rw [h.codes]
    unfold metadataGroupSize
    omega
  simp only [decodeMetadataUint8Group]
  rw [List.getElem?_take_of_lt, hvalue]
  rw [hlen, h.pad]
  omega

end Entries

end RabitKV
