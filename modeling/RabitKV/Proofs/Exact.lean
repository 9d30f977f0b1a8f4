import RabitKV.Exact
import RabitKV.Proofs.Quant

/-!
# Reductions and metadata in exact arithmetic

Over the rationals `amin` and `amax` are the least and the greatest value, and an entry of decoded
metadata is read off its group of 64.
-/

namespace RabitKV

open Chunks

section Reductions

variable {B : Type} {toB : ℚ → B} {ofB : B → ℚ} {l : List ℚ} {m : ℚ}

theorem amin_exact (hm : m ∈ l) (hle : ∀ x ∈ l, m ≤ x) : (exactFp toB ofB).amin l = m := by
  rcases l with _ | ⟨x, xs⟩
  · cases hm
  · have hmin := List.min?_eq_some_iff.2 ⟨hm, hle⟩
    rw [List.min?_cons'] at hmin
    exact Option.some.inj hmin

theorem amax_exact (hm : m ∈ l) (hle : ∀ x ∈ l, x ≤ m) : (exactFp toB ofB).amax l = m := by
  rcases l with _ | ⟨x, xs⟩
  · cases hm
  · have hmax := List.max?_eq_some_iff.2 ⟨hm, hle⟩
    rw [List.max?_cons'] at hmax
    exact Option.some.inj hmax

end Reductions

section Entries

variable {F B : Type} (fp : Fp F B)

/-- What one value of a metadata group decodes to. -/
def metaValue (g : List F) (x : F) : F :=
  fp.affineValue (fp.affineCode 255 (fp.amin g) (metaScale fp g) x)
    (fp.ofB (fp.toB (metaScale fp g)))
    (fp.ofB (fp.toB (fp.amin g)))

theorem groupDecoded_eq (g : List F) : groupDecoded fp g = g.map (metaValue fp g) := by
  unfold groupDecoded decodeGroup metaCodes
  rw [List.map_map]
  refine List.map_congr_left fun x _ => ?_
  have hle := fp.affineCode_le 255 (fp.amin g) (metaScale fp g) x
  simp only [Function.comp_apply, metaValue]
  rw [UInt8.toNat_ofNat', Nat.mod_eq_of_lt (by omega)]

/-- The group of 64 that value `i` of the metadata belongs to, padding included. -/
def metaGroup (flat : List F) (i : ℕ) : List F :=
  ((padLast fp flat).drop (i / metadataGroupSize * metadataGroupSize)).take metadataGroupSize

/-- An entry of decoded metadata depends on its group only. -/
theorem getElem?_metaDecoded {flat : List F} {i : ℕ} (hi : i < flat.length) :
    (metaDecoded fp flat)[i]? = flat[i]?.map (metaValue fp (metaGroup fp flat i)) := by
  have hpos : 0 < metadataGroupSize := by decide
  have hlen : i < (padLast fp flat).length := by
    rw [length_padLast]
    omega
  have hrow : i / metadataGroupSize < (padLast fp flat).length / metadataGroupSize :=
    Nat.div_lt_div_of_lt_of_dvd (padLast_dvd fp flat) hlen
  have hmod := Nat.mod_lt i hpos
  have hsplit : i / metadataGroupSize * metadataGroupSize + i % metadataGroupSize = i :=
    Nat.div_add_mod' i metadataGroupSize
  unfold metaDecoded
  rw [List.getElem?_take_of_lt hi, ← hsplit,
    getElem?_flatMap (fun g hg => by rw [length_groupDecoded, length_of_mem_chunks hg]) hmod,
    getElem?_chunks hrow, Option.bind_some, groupDecoded_eq, List.getElem?_map,
    List.getElem?_take_of_lt hmod, List.getElem?_drop, hsplit, padLast,
    List.getElem?_append_left hi]
  rfl

/-- A value is in its group. -/
theorem mem_metaGroup {flat : List F} {i : ℕ} {x : F} (h : flat[i]? = some x) :
    x ∈ metaGroup fp flat i := by
  have hpos : 0 < metadataGroupSize := by decide
  have hi : i < flat.length := (List.getElem?_eq_some_iff.1 h).1
  refine List.mem_iff_getElem?.2 ⟨i % metadataGroupSize, ?_⟩
  rw [metaGroup, List.getElem?_take_of_lt (Nat.mod_lt _ hpos), List.getElem?_drop,
    Nat.div_add_mod', padLast, List.getElem?_append_left hi]
  exact h

theorem mem_metaGroup_iff {flat : List F} (hdvd : metadataGroupSize ∣ flat.length)
    {i : ℕ} {x : F} : x ∈ metaGroup fp flat i ↔
      ∃ j, j / metadataGroupSize = i / metadataGroupSize ∧ flat[j]? = some x := by
  have hpos : 0 < metadataGroupSize := by decide
  rw [metaGroup, padLast_of_dvd fp hdvd, List.mem_iff_getElem?]
  constructor
  · rintro ⟨j, hj⟩
    have hlt : j < metadataGroupSize := by
      have hlen := (List.getElem?_eq_some_iff.1 hj).1
      rw [List.length_take] at hlen
      omega
    rw [List.getElem?_take_of_lt hlt, List.getElem?_drop] at hj
    refine ⟨_, ?_, hj⟩
    rw [Nat.mul_comm, Nat.mul_add_div hpos, Nat.div_eq_of_lt hlt, Nat.add_zero]
  · rintro ⟨j, hj, hx⟩
    refine ⟨j % metadataGroupSize, ?_⟩
    rw [List.getElem?_take_of_lt (Nat.mod_lt _ hpos), List.getElem?_drop, ← hj,
      Nat.div_add_mod']
    exact hx

variable {H D : ℕ}

/-- A primary minimum or scale of K after its way through the metadata. -/
theorem kMetaAt_eq {rows : List (Tok H D F)} {r : Tok H D F} {g : ℕ} (hr : rows[g]? = some r)
    (h : Fin H) (d : Fin D) : kMetaAt fp rows h g d
      = metaValue fp (metaGroup fp (flatHeads rows) ((h * rows.length + g) * D + d)) (r h d) := by
  have hg : g < rows.length := (List.getElem?_eq_some_iff.1 hr).1
  have hflat := getElem?_flatHeads rows h hg d
  rw [hr, Option.map_some] at hflat
  rw [kMetaAt, List.getD_eq_getElem?_getD,
    getElem?_metaDecoded fp (List.getElem?_eq_some_iff.1 hflat).1, hflat]
  rfl

/-- A primary minimum or scale of V after its way through the metadata. -/
theorem vMeta_eq {rows : List (Tok H D F)} {r : Tok H D F} {t : ℕ} (hr : rows[t]? = some r)
    (h : Fin H) (g : Fin D) :
    (metaDecoded fp (flatTokens rows)).getD ((t * H + h) * D + g) (fp.lit 0)
      = metaValue fp (metaGroup fp (flatTokens rows) ((t * H + h) * D + g)) (r h g) := by
  have hflat := getElem?_flatTokens rows (t := t) h g
  rw [hr, Option.map_some] at hflat
  rw [List.getD_eq_getElem?_getD,
    getElem?_metaDecoded fp (List.getElem?_eq_some_iff.1 hflat).1, hflat]
  rfl

/-- The metadata index of channel `d` of head `h` of V token `t`. -/
def vIndex (H D t h d : ℕ) : ℕ := (t * H + h) * vGroups D + d / groupSize

/-- One decoded V token. -/
theorem getElem?_vRegion {x : List (Tok H D F)} {t : ℕ} {r : Tok H D F} (ht : x[t]? = some r) :
    (vRegion fp x)[t]? = some fun h (d : Fin D) => fp.affineValue (vCode fp (r h) d)
      (metaValue fp (metaGroup fp (flatTokens (x.map (v2Scale fp))) (vIndex H D t h d))
        (vScale fp (r h) (d / groupSize)))
      (metaValue fp (metaGroup fp (flatTokens (x.map (v2Min fp))) (vIndex H D t h d))
        (vMin fp (r h) (d / groupSize))) := by
  have hrow : ∀ {α : Type} (f : Tok H D F → α), (x.map f)[t]? = some (f r) := fun f => by
    rw [List.getElem?_map, ht, Option.map_some]
  rw [vRegion_eq, vDecoded, dequantizeV2FromPrimary, List.getElem?_mapIdx, hrow, Option.map_some]
  congr 1
  funext h d
  have hscale := vMeta_eq fp (hrow (v2Scale fp)) h ⟨d / groupSize, vGroup_lt d⟩
  have hmin := vMeta_eq fp (hrow (v2Min fp)) h ⟨d / groupSize, vGroup_lt d⟩
  dsimp only at hscale hmin ⊢
  rw [unpackCode_v2Packed, hscale, hmin]
  rfl

/-- The metadata index of channel `d` of head `h` of K token `t` among `n` groups. -/
def kIndex (D n t h d : ℕ) : ℕ := (h * n + t / groupSize) * D + d

/-- A token lies in its group. -/
theorem getElem?_seqGroups {x : List (Tok H D F)} {t : ℕ} {r : Tok H D F} (ht : x[t]? = some r) :
    ∃ g, (seqGroups fp x)[t / groupSize]? = some g ∧ g[t % groupSize]? = some r := by
  have hlt : t < x.length := (List.getElem?_eq_some_iff.1 ht).1
  have hpos : 0 < groupSize := groupSize_pos
  have hdvd : groupSize ∣ (seqPad fp x).length := by
    rw [length_seqPad]
    exact padTo_dvd groupSize_pos _
  have hrow : t / groupSize < (seqPad fp x).length / groupSize := by
    refine Nat.div_lt_div_of_lt_of_dvd hdvd ?_
    rw [length_seqPad]
    omega
  refine ⟨_, getElem?_chunks hrow, ?_⟩
  rw [List.getElem?_take_of_lt (Nat.mod_lt _ hpos), List.getElem?_drop, Nat.div_add_mod',
    seqPad, List.getElem?_append_left hlt]
  exact ht

/-- One decoded K token. -/
theorem getElem?_kRegion {x : List (Tok H D F)} {t : ℕ} {r : Tok H D F} (ht : x[t]? = some r)
    {g : List (Tok H D F)} (hg : (seqGroups fp x)[t / groupSize]? = some g)
    (hr : g[t % groupSize]? = some r) :
    (kRegion fp x)[t]? = some fun h d =>
      fp.affineValue (fp.affineCode 7 (kMin fp g h d) (kScale fp g h d) (r h d))
        (metaValue fp (metaGroup fp (flatHeads ((seqGroups fp x).map (kScale fp)))
          (kIndex D (seqGroups fp x).length t h d)) (kScale fp g h d))
        (metaValue fp (metaGroup fp (flatHeads ((seqGroups fp x).map (kMin fp)))
          (kIndex D (seqGroups fp x).length t h d)) (kMin fp g h d)) := by
  have hlt : t < x.length := (List.getElem?_eq_some_iff.1 ht).1
  have hmod : t % groupSize < groupSize := Nat.mod_lt _ groupSize_pos
  have hrow : ∀ f : List (Tok H D F) → Tok H D F,
      ((seqGroups fp x).map f)[t / groupSize]? = some (f g) := fun f => by
    rw [List.getElem?_map, hg, Option.map_some]
  have hcode : ((seqGroups fp x).flatMap (kCodes fp))[t]? = some fun h d =>
      fp.affineCode 7 (kMin fp g h d) (kScale fp g h d) (r h d) := by
    have hsplit := Nat.div_add_mod' t groupSize
    rw [← hsplit, getElem?_flatMap (fun g' hg' => by
      rw [kCodes, List.length_map, length_of_mem_seqGroups fp hg']) hmod, hg, Option.bind_some,
      kCodes, List.getElem?_map, hr, Option.map_some]
  rw [kRegion_eq, List.getElem?_take_of_lt hlt, List.getElem?_mapIdx, hcode, Option.map_some]
  congr 1
  funext h d
  rw [kMetaAt_eq fp (hrow (kScale fp)), kMetaAt_eq fp (hrow (kMin fp)), List.length_map,
    List.length_map]
  rfl

end Entries

end RabitKV
