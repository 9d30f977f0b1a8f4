import RabitKV.Quant
import RabitKV.Proofs.Metadata

/-!
# Quantized regions split at page cuts

`kRegion` and `vRegion` are what a region decodes to. When the head dimension is a multiple of 64
every metadata group of K lies in one head of one group of 32 tokens, so the region splits at every
multiple of 32 tokens (`kRegion_append`). V metadata runs over tokens first, so its region splits
wherever the metadata count before the cut is a multiple of 64 (`vRegion_append`).
-/

namespace RabitKV

open Chunks

section Region

variable {F B : Type} (fp : Fp F B) {H D : ℕ}

/-- What a region of K tokens decodes to. -/
def kRegion (x : List (Tok H D F)) : List (Tok H D F) :=
  dequantizeK3SequenceAffine fp (k3State fp x)

/-- What a region of V tokens decodes to. -/
def vRegion (x : List (Tok H D F)) : List (Tok H D F) :=
  dequantizeV2GroupAffine fp (v2State fp x)

end Region

section Index

variable {α β : Type}

/-- Entry `(h, g, j)` of rows stored head by head. -/
theorem getElem?_flatMap_heads {H n : ℕ} {rows : List β} {f : Fin H → β → List α}
    (hf : ∀ h, ∀ r ∈ rows, (f h r).length = n) (h : Fin H) {g j : ℕ} (hg : g < rows.length)
    (hj : j < n) :
    ((List.finRange H).flatMap fun h => rows.flatMap (f h))[(h * rows.length + g) * n + j]?
      = rows[g]?.bind fun r => (f h r)[j]? := by
  have hidx : (h * rows.length + g) * n + j = h * (rows.length * n) + (g * n + j) := by ring
  rw [hidx, getElem?_flatMap (fun h' _ => length_flatMap_of_length (hf h')) (mul_add_lt hg hj)]
  simp only [List.getElem?_eq_getElem (show h.1 < (List.finRange H).length by simp),
    List.getElem_finRange, Option.bind_some]
  exact getElem?_flatMap (hf h) hj

/-- Entry `(t, h, j)` of rows stored token by token. -/
theorem getElem?_flatTokens {H n : ℕ} (rows : List (Tok H n α)) {t : ℕ} (h : Fin H) (j : Fin n) :
    (flatTokens rows)[(t * H + h) * n + j]? = rows[t]?.map fun r => r h j := by
  have hidx : (t * H + h.1) * n + j.1 = t * (H * n) + (h * n + j) := by ring
  have hlen : ∀ r ∈ rows,
      ((List.finRange H).flatMap fun h => List.ofFn (r h)).length = H * n := fun r _ => by
    rw [length_flatMap_of_length fun h _ => List.length_ofFn, List.length_finRange]
  unfold flatTokens
  rw [hidx, getElem?_flatMap hlen (mul_add_lt h.2 j.2)]
  cases rows[t]? with
  | none => rfl
  | some r =>
    rw [Option.bind_some, getElem?_flatMap (fun h _ => List.length_ofFn) j.2]
    simp

theorem getElem?_flatHeads {H n : ℕ} (rows : List (Tok H n α)) (h : Fin H) {g : ℕ}
    (hg : g < rows.length) (j : Fin n) :
    (flatHeads rows)[(h * rows.length + g) * n + j]? = rows[g]?.map fun r => r h j := by
  unfold flatHeads
  rw [getElem?_flatMap_heads (f := fun h r => List.ofFn (r h)) (fun h r _ => List.length_ofFn) h hg
    j.2]
  rcases rows[g]? with _ | r
  · rfl
  · simp

theorem length_flatTokens {H n : ℕ} (rows : List (Tok H n α)) :
    (flatTokens rows).length = rows.length * (H * n) := by
  unfold flatTokens
  refine length_flatMap_of_length fun r _ => ?_
  rw [length_flatMap_of_length fun h _ => List.length_ofFn, List.length_finRange]

/-- Rows that lie one behind the other. -/
theorem flatTokens_range {H n : ℕ} (mem : ℕ → α) (tokens : ℕ) :
    flatTokens ((List.range tokens).map fun t (h : Fin H) (j : Fin n) => mem ((t * H + h) * n + j))
      = (List.range (tokens * H * n)).map mem := by
  have hheads : ∀ g : ℕ → List α, ((List.finRange H).flatMap fun h : Fin H => g h)
      = (List.range H).flatMap g := fun g => by
    rw [← List.map_coe_finRange_eq_range, List.flatMap_map]
  have hrow : ∀ r : ℕ, (List.ofFn fun j : Fin n => mem (r * n + j))
      = (List.range n).flatMap fun j => [mem (r * n + j)] := fun r => by
    rw [← List.map_eq_flatMap, List.ofFn_eq_map, ← List.map_coe_finRange_eq_range, List.map_map]
    rfl
  calc flatTokens ((List.range tokens).map
          fun t (h : Fin H) (j : Fin n) => mem ((t * H + h) * n + j))
      = (List.range tokens).flatMap fun t => (List.range H).flatMap fun h =>
          (List.range n).flatMap fun j => [mem ((t * H + h) * n + j)] := by
        rw [flatTokens, List.flatMap_map]
        refine List.flatMap_congr fun t _ => ?_
        rw [← hheads]
        exact List.flatMap_congr fun h _ => hrow (t * H + h)
    _ = (List.range (tokens * H)).flatMap fun r =>
          (List.range n).flatMap fun j => [mem (r * n + j)] :=
        flatMap_range_mul tokens H fun r => (List.range n).flatMap fun j => [mem (r * n + j)]
    _ = (List.range (tokens * H * n)).map mem := by
        rw [flatMap_range_mul (tokens * H) n fun a => [mem a], ← List.map_eq_flatMap]

theorem length_flatHeads {H n : ℕ} (rows : List (Tok H n α)) :
    (flatHeads rows).length = H * (rows.length * n) := by
  unfold flatHeads
  rw [length_flatMap_of_length fun h _ => length_flatMap_of_length fun r _ => List.length_ofFn,
    List.length_finRange]

theorem flatTokens_append {H n : ℕ} (xs ys : List (Tok H n α)) :
    flatTokens (xs ++ ys) = flatTokens xs ++ flatTokens ys :=
  List.flatMap_append

end Index

section K3

variable {F B : Type} (fp : Fp F B) {H D : ℕ}

theorem length_seqPad (x : List (Tok H D F)) :
    (seqPad fp x).length = x.length + padTo groupSize x.length := by
  simp [seqPad]

theorem length_seqGroups (x : List (Tok H D F)) :
    (seqGroups fp x).length = (x.length + padTo groupSize x.length) / groupSize := by
  rw [seqGroups, length_chunks, length_seqPad]

theorem length_of_mem_seqGroups {x g : List (Tok H D F)} (h : g ∈ seqGroups fp x) :
    g.length = groupSize :=
  length_of_mem_chunks h

@[simp] theorem length_kCodes (g : List (Tok H D F)) : (kCodes fp g).length = g.length := by
  simp [kCodes]

theorem length_k3State_packed_padded (x : List (Tok H D F)) :
    (k3State fp x : K3State H D B).packed.length = x.length + padTo groupSize x.length := by
  have hlen : ∀ g ∈ seqGroups fp x, (kCodes fp g).length = groupSize := fun g hg => by
    rw [length_kCodes, length_of_mem_seqGroups fp hg]
  simp only [k3State, List.length_map]
  rw [length_flatMap_of_length hlen, length_seqGroups]
  exact Nat.div_mul_cancel (padTo_dvd (by decide) _)

theorem seqGroups_append {xs : List (Tok H D F)} (h : groupSize ∣ xs.length)
    (ys : List (Tok H D F)) : seqGroups fp (xs ++ ys) = chunks groupSize xs ++ seqGroups fp ys := by
  unfold seqGroups seqPad
  rw [List.length_append, padTo_add_of_dvd h, List.append_assoc, chunks_append (by decide) h]

theorem seqGroups_of_dvd {xs : List (Tok H D F)} (h : groupSize ∣ xs.length) :
    seqGroups fp xs = chunks groupSize xs := by
  simp [seqGroups, seqPad, padTo_eq_zero h]

/-- One row of decoded metadata. -/
def rowDecoded {n : ℕ} (r : Fin n → F) (j : Fin n) : F :=
  (metaDecoded fp (List.ofFn r)).getD j (fp.lit 0)

/-- One group of 32 tokens, decoded with row-local metadata. -/
def kGroupDecoded (g : List (Tok H D F)) : List (Tok H D F) :=
  (kCodes fp g).map fun c h d =>
    fp.affineValue (c h d) (rowDecoded fp (kScale fp g h) d) (rowDecoded fp (kMin fp g h) d)

@[simp] theorem length_kGroupDecoded (g : List (Tok H D F)) :
    (kGroupDecoded fp g).length = g.length := by
  simp [kGroupDecoded]

theorem kCodes_lt {g : List (Tok H D F)} {c : Tok H D ℕ} (hc : c ∈ kCodes fp g) (h : Fin H)
    (d : Fin D) : c h d < 2 ^ 3 := by
  simp only [kCodes, List.mem_map] at hc
  obtain ⟨x, -, rfl⟩ := hc
  exact Nat.lt_succ_of_le (fp.affineCode_le 7 _ _ _)

/-- Entry `(h, g, d)` of decoded K metadata. -/
def kMetaAt (rows : List (Tok H D F)) (h : Fin H) (g : ℕ) (d : Fin D) : F :=
  (metaDecoded fp (flatHeads rows)).getD ((h * rows.length + g) * D + d) (fp.lit 0)

/-- The codes survive packing; the metadata are read by head, group and channel. -/
theorem kRegion_eq (x : List (Tok H D F)) :
    kRegion fp x = (((seqGroups fp x).flatMap (kCodes fp)).mapIdx fun p c (h : Fin H) (d : Fin D) =>
      fp.affineValue (c h d) (kMetaAt fp ((seqGroups fp x).map (kScale fp)) h (p / groupSize) d)
        (kMetaAt fp ((seqGroups fp x).map (kMin fp)) h (p / groupSize) d)).take x.length := by
  simp only [kRegion, dequantizeK3SequenceAffine, k3State, decodeMetadata_encode, kMetaAt,
    List.length_map, length_seqGroups]
  congr 1
  refine List.ext_getElem (by simp) fun p hp _ => ?_
  rw [List.length_mapIdx, List.length_map] at hp
  obtain ⟨g, -, hg⟩ := List.exists_of_mem_flatMap (List.getElem_mem hp)
  simp only [List.getElem_mapIdx, List.getElem_map]
  funext h d
  rw [unpackCode_packRow (by decide) d (kCodes_lt fp hg h d)]

/-- When rows are whole metadata groups, an entry is decoded from its own row. -/
theorem kMetaAt_of_dvd (hD : metadataGroupSize ∣ D) {rows : List (Tok H D F)} {g : ℕ}
    {r : Tok H D F} (hg : rows[g]? = some r) (h : Fin H) (d : Fin D) :
    kMetaAt fp rows h g d = rowDecoded fp (r h) d := by
  have hlen : ∀ h : Fin H, ∀ r ∈ rows, metadataGroupSize ∣ (List.ofFn (r h)).length :=
    fun h r _ => by rwa [List.length_ofFn]
  have hflat : metaDecoded fp (flatHeads rows)
      = (List.finRange H).flatMap fun h => rows.flatMap fun r =>
        metaDecoded fp (List.ofFn (r h)) := by
    unfold flatHeads
    rw [metaDecoded_flatMap fp fun h _ => ?_]
    · exact List.flatMap_congr fun h _ => metaDecoded_flatMap fp (hlen h)
    · rw [length_flatMap_of_length fun r _ => List.length_ofFn]
      exact hD.mul_left _
  have hlt : g < rows.length := (List.getElem?_eq_some_iff.1 hg).1
  unfold kMetaAt rowDecoded
  rw [hflat, List.getD_eq_getElem?_getD,
    getElem?_flatMap_heads (f := fun h r => metaDecoded fp (List.ofFn (r h)))
      (fun h r _ => by rw [length_metaDecoded, List.length_ofFn]) h hlt d.2, hg,
    Option.bind_some, List.getD_eq_getElem?_getD]

/-- A region is decoded group by group. -/
theorem kRegion_of_dvd (hD : metadataGroupSize ∣ D) (x : List (Tok H D F)) :
    kRegion fp x = ((seqGroups fp x).flatMap (kGroupDecoded fp)).take x.length := by
  rw [kRegion_eq]
  congr 1
  refine mapIdx_div_flatMap (φ := fun g (c : Tok H D ℕ) (h : Fin H) (d : Fin D) =>
    fp.affineValue (c h d) (kMetaAt fp ((seqGroups fp x).map (kScale fp)) h g d)
      (kMetaAt fp ((seqGroups fp x).map (kMin fp)) h g d))
    (fun g hg => by rw [length_kCodes, length_of_mem_seqGroups fp hg]) fun i g hg => ?_
  refine List.map_congr_left fun c _ => ?_
  funext h d
  rw [kMetaAt_of_dvd fp hD (r := kScale fp g) (by simp [hg]),
    kMetaAt_of_dvd fp hD (r := kMin fp g) (by simp [hg])]

theorem length_flatMap_kGroupDecoded {gs : List (List (Tok H D F))}
    (h : ∀ g ∈ gs, g.length = groupSize) :
    (gs.flatMap (kGroupDecoded fp)).length = gs.length * groupSize :=
  length_flatMap_of_length fun g hg => by rw [length_kGroupDecoded, h g hg]

/-- A cut at a multiple of 32 tokens cuts the region. -/
theorem kRegion_append (hD : metadataGroupSize ∣ D) {xs : List (Tok H D F)}
    (h : groupSize ∣ xs.length) (ys : List (Tok H D F)) :
    kRegion fp (xs ++ ys) = kRegion fp xs ++ kRegion fp ys := by
  have hlen : ((chunks groupSize xs).flatMap (kGroupDecoded fp)).length = xs.length := by
    rw [length_flatMap_kGroupDecoded fp fun g hg => length_of_mem_chunks hg, length_chunks,
      Nat.div_mul_cancel h]
  rw [kRegion_of_dvd fp hD, kRegion_of_dvd fp hD, kRegion_of_dvd fp hD, seqGroups_append fp h,
    seqGroups_of_dvd fp h, List.flatMap_append, List.length_append, List.take_append, hlen,
    Nat.add_sub_cancel_left, List.take_of_length_le (by omega), ← hlen, List.take_length]

@[simp] theorem length_kRegion (x : List (Tok H D F)) : (kRegion fp x).length = x.length := by
  rw [kRegion_eq, List.length_take, List.length_mapIdx,
    length_flatMap_of_length (n := groupSize) fun g hg => by
      rw [length_kCodes, length_of_mem_seqGroups fp hg],
    length_seqGroups, Nat.div_mul_cancel (padTo_dvd (by decide) _)]
  omega

end K3

section V2

variable {F B : Type} (fp : Fp F B) {H D : ℕ}

theorem vGroup_lt (d : Fin D) : d / groupSize < vGroups D := by
  have := d.2
  unfold vGroups groupSize
  omega

theorem lt_vPaddedDim (d : Fin D) : d.1 < vPaddedDim D := by
  have := d.2
  unfold vPaddedDim vGroups groupSize
  omega

/-- `_quantize_v2_primary_ref` and the oracle pad to the same width. -/
theorem vPaddedDim_eq (D : ℕ) : vPaddedDim D = D + padTo groupSize D := by
  unfold vPaddedDim vGroups padTo groupSize
  omega

theorem unpackCode_v2Packed (x : Tok H D F) (h : Fin H) (d : Fin D) :
    unpackCode 2 (ext (v2Packed fp x h)) d = vCode fp (x h) d :=
  unpackCode_packRow (by decide) (⟨d, lt_vPaddedDim d⟩ : Fin (vPaddedDim D))
    (Nat.lt_succ_of_le (fp.affineCode_le 3 _ _ _))

/-- Dequantization splits with its metadata. -/
theorem dequantizeV2FromPrimary_append (p₁ p₂ : List (Tok H (vPackedDim D) UInt8))
    {m₁ s₁ : List F} (m₂ s₂ : List F) (hm : m₁.length = p₁.length * (H * vGroups D))
    (hs : s₁.length = p₁.length * (H * vGroups D)) :
    dequantizeV2FromPrimary (D := D) fp (p₁ ++ p₂) (m₁ ++ m₂) (s₁ ++ s₂)
      = dequantizeV2FromPrimary fp p₁ m₁ s₁ ++ dequantizeV2FromPrimary fp p₂ m₂ s₂ := by
  unfold dequantizeV2FromPrimary
  rw [List.mapIdx_append]
  congr 1
  · refine List.ext_getElem (by simp) fun t ht _ => ?_
    rw [List.length_mapIdx] at ht
    simp only [List.getElem_mapIdx]
    funext h d
    have hlt : (t * H + h) * vGroups D + d / groupSize < p₁.length * (H * vGroups D) := by
      rw [← Nat.mul_assoc]
      exact mul_add_lt (mul_add_lt ht h.2) (vGroup_lt d)
    rw [List.getD_append _ _ _ _ (by omega), List.getD_append _ _ _ _ (by omega)]
  · refine List.ext_getElem (by simp) fun t ht _ => ?_
    simp only [List.getElem_mapIdx]
    funext h d
    have hidx : ((t + p₁.length) * H + h) * vGroups D + d / groupSize
        = p₁.length * (H * vGroups D) + ((t * H + h) * vGroups D + d / groupSize) := by ring
    rw [hidx, List.getD_append_right _ _ _ _ (by rw [hs]; exact Nat.le_add_right _ _),
      List.getD_append_right _ _ _ _ (by rw [hm]; exact Nat.le_add_right _ _), hm, hs,
      Nat.add_sub_cancel_left]

/-- What packed V tokens with uncompressed metadata decode to. -/
def vDecoded (packed : List (Tok H (vPackedDim D) UInt8))
    (qMin scale : List (Tok H (vGroups D) F)) :
    List (Tok H D F) :=
  dequantizeV2FromPrimary fp packed (metaDecoded fp (flatTokens qMin))
    (metaDecoded fp (flatTokens scale))

/-- A cut after whole metadata groups cuts the decoded tokens. -/
theorem vDecoded_append {n : ℕ} (hn : metadataGroupSize ∣ n * (H * vGroups D))
    {p₁ : List (Tok H (vPackedDim D) UInt8)} {m₁ s₁ : List (Tok H (vGroups D) F)}
    (hp : p₁.length = n) (hm : m₁.length = n) (hs : s₁.length = n)
    (p₂ : List (Tok H (vPackedDim D) UInt8)) (m₂ s₂ : List (Tok H (vGroups D) F)) :
    vDecoded (D := D) fp (p₁ ++ p₂) (m₁ ++ m₂) (s₁ ++ s₂)
      = vDecoded fp p₁ m₁ s₁ ++ vDecoded fp p₂ m₂ s₂ := by
  unfold vDecoded
  rw [flatTokens_append, flatTokens_append,
    metaDecoded_append fp (by rwa [length_flatTokens, hm]),
    metaDecoded_append fp (by rwa [length_flatTokens, hs]), dequantizeV2FromPrimary_append]
  · rw [length_metaDecoded, length_flatTokens, hm, hp]
  · rw [length_metaDecoded, length_flatTokens, hs, hp]

theorem vRegion_eq (x : List (Tok H D F)) :
    vRegion fp x = vDecoded fp (x.map (v2Packed fp)) (x.map (v2Min fp)) (x.map (v2Scale fp)) := by
  simp only [vRegion, dequantizeV2GroupAffine, v2State, decodeMetadata_encode, vDecoded]

/-- A cut after whole metadata groups cuts the region. -/
theorem vRegion_append {xs : List (Tok H D F)}
    (h : metadataGroupSize ∣ xs.length * (H * vGroups D)) (ys : List (Tok H D F)) :
    vRegion fp (xs ++ ys) = vRegion fp xs ++ vRegion fp ys := by
  rw [vRegion_eq, vRegion_eq, vRegion_eq, List.map_append, List.map_append, List.map_append]
  exact vDecoded_append fp h (List.length_map _) (List.length_map _) (List.length_map _) _ _ _

@[simp] theorem length_vRegion (x : List (Tok H D F)) : (vRegion fp x).length = x.length := by
  rw [vRegion_eq, vDecoded, dequantizeV2FromPrimary, List.length_mapIdx, List.length_map]

end V2

end RabitKV
