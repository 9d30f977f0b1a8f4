import RabitKV.Proofs.ExactReal
import RabitKV.Proofs.PageKernel

/-!
# The shared workspace leaks nothing

The preparation kernels write only a part of the workspace, and the tail kernel reads only a part of
it (`TailCell.Used`). On that part the workspace agrees with the reference preparation whatever it
held before (`fastPrep_ok`): statistics and codes of the open keys (`kCodes_stored`), packed bytes
(`kPacked_stored`), and metadata with its last value repeated (`meta64_cell`). So the tail partials
are those of the reference (`emitTailPartial_open`).
-/

namespace RabitKV

open Stores Chunks Loads BitStream

section Codes

variable {F : Type} {fp : Fp F Bf16}

theorem evenCode_eq (hr : RoundsHalfEven fp) (levels : ℕ) (qMin scale x : F) :
    evenCode fp levels qMin scale x = fp.affineCode levels qMin scale x := by
  unfold evenCode Fp.affineCode
  rw [hr]

end Codes

section Pack

theorem packK3Byte_eq {kCodes : ℕ → UInt8} {D row b : ℕ} {codes : ℕ → ℕ}
    (hcode : ∀ i < D, (kCodes (row * D + i)).toNat = codes i) (hlt : ∀ i < D, codes i < 8)
    (hb : b < packedDim D 3) :
    packK3Byte kCodes D (packedDim D 3) row b = packByte 3 D codes b := by
  have hlane : ∀ i, (if decide (b < packedDim D 3) && decide (b * 8 / 3 + i < D) then
      (kCodes (row * D + b * 8 / 3 + i)).toNat else 0)
        = if b * 8 / 3 + i < D then codes (b * 8 / 3 + i) else 0 := by
    intro i
    by_cases hi : b * 8 / 3 + i < D
    · rw [if_pos (by simp [hb, hi]), if_pos hi, Nat.add_assoc, hcode _ hi]
    · rw [if_neg (by simp [hi]), if_neg hi]
  exact fourCodes_byte hlane hlt

end Pack

section Stats

variable {F : Type} {fp : Fp F Bf16} {H D : ℕ} {openK : List (Tok H D Bf16)}

theorem tensorPtr_eq {n : ℕ} {α : Type} {zero : α} {rows : List (Tok H n α)} {t : ℕ} {r : Tok H n α}
    (hr : rows[t]? = some r) (h : Fin H) (j : Fin n) :
    tensorPtr zero rows ((t * H + h) * n + j) = r h j := by
  rw [tensorPtr, List.getD_eq_getElem?_getD, getElem?_flatTokens, hr]
  rfl

/-- The only group of a short sequence is the padded sequence. -/
theorem seqGroups_of_short {x : List (Tok H D F)} (hpos : 0 < x.length)
    (hlt : x.length < groupSize) :
    seqGroups fp x = [seqPad fp x] := by
  refine chunks_of_length groupSize_pos ?_
  rw [length_seqPad]
  unfold padTo groupSize at *
  omega

/-- The keys of the open group in float32, padded to 32 tokens. -/
def openGroup (fp : Fp F Bf16) (openK : List (Tok H D Bf16)) : List (Tok H D F) :=
  seqPad fp (openK.map (Tok.map fp.ofB))

theorem length_openGroup (hpos : 0 < openK.length) (hlt : openK.length < groupSize) :
    (openGroup fp openK).length = groupSize := by
  rw [openGroup, length_seqPad, List.length_map]
  unfold padTo groupSize at *
  omega

theorem getElem?_openGroup (hpos : 0 < openK.length) (hlt : openK.length < groupSize) {t : ℕ}
    (ht : t < groupSize) : (openGroup fp openK)[t]? = some fun h d =>
      if hn : t < openK.length then fp.ofB (openK[t] h d) else fp.lit 0 := by
  unfold openGroup seqPad
  by_cases hn : t < openK.length
  · rw [List.getElem?_append_left (by rwa [List.length_map]), List.getElem?_map,
      List.getElem?_eq_getElem hn]
    simp only [hn, dif_pos]
    rfl
  · rw [List.getElem?_append_right (by rw [List.length_map]; omega), List.length_map,
      List.getElem?_replicate_of_lt (by unfold padTo groupSize at *; omega)]
    simp only [hn, dif_neg, not_false_iff]

/-- A lane of the statistics kernel is an entry of the padded open group. -/
theorem kStatsLane_eq (hpos : 0 < openK.length) (hlt : openK.length < groupSize) {t : ℕ}
    {g : Tok H D F} (hg : (openGroup fp openK)[t]? = some g) (ht : t < groupSize) (h : Fin H)
    (d : Fin D) :
    kStatsLane fp (tensorPtr 0 openK) openK.length H D (h * D + d) t = g h d := by
  rw [getElem?_openGroup hpos hlt ht] at hg
  cases hg
  unfold kStatsLane
  rw [mul_add_div d.2, mul_add_mod d.2]
  split_ifs with hn
  · rw [tensorPtr_eq (List.getElem?_eq_getElem hn)]
  · rfl

theorem kStatsLanes_eq (hpos : 0 < openK.length) (hlt : openK.length < groupSize) (h : Fin H)
    (d : Fin D) :
    (List.range 32).map (kStatsLane fp (tensorPtr 0 openK) openK.length H D (h * D + d))
      = (openGroup fp openK).map fun x => x h d := by
  have hlen : (openGroup fp openK).length = groupSize := length_openGroup hpos hlt
  refine List.ext_getElem (by simp [hlen]) fun t ht ht' => ?_
  rw [List.length_map] at ht'
  simp only [List.getElem_map, List.getElem_range]
  exact kStatsLane_eq hpos hlt (List.getElem?_eq_getElem ht') (by omega) h d

theorem kStats_eq (hpos : 0 < openK.length) (hlt : openK.length < groupSize) (h : Fin H)
    (d : Fin D) : kStats fp (tensorPtr 0 openK) openK.length H D (h * D + d)
      = (kMin fp (openGroup fp openK) h d, kScale fp (openGroup fp openK) h d) := by
  unfold kStats
  rw [kStatsLanes_eq hpos hlt]
  rfl

/-- A code the kernel leaves in `k_codes` is the reference's. -/
theorem kCodes_stored (hr : RoundsHalfEven fp) (hpos : 0 < openK.length)
    (hlt : openK.length < groupSize) (m : ℕ → UInt8) {t : ℕ} {c : Tok H D ℕ}
    (hc : (kCodes fp (openGroup fp openK))[t]? = some c) (h : Fin H) (d : Fin D) :
    storeAll m (kCodesStores fp (tensorPtr 0 openK) openK.length H D) ((t * H + h) * D + d)
      = UInt8.ofNat (c h d) := by
  have ht : t < groupSize := by
    have := (List.getElem?_eq_some_iff.1 hc).1
    rwa [length_kCodes, length_openGroup hpos hlt] at this
  obtain ⟨x, hx, rfl⟩ : ∃ x, (openGroup fp openK)[t]? = some x ∧ c = fun h d =>
      fp.affineCode 7 (kMin fp (openGroup fp openK) h d) (kScale fp (openGroup fp openK) h d)
        (x h d) := by
    rw [kCodes, List.getElem?_map, Option.map_eq_some_iff] at hc
    obtain ⟨x, hx, rfl⟩ := hc
    exact ⟨x, hx, rfl⟩
  refine storeAll_of_forall m (List.mem_map.2 ⟨_, List.mem_flatMap.2 ⟨h * D + d,
    List.mem_range.2 (mul_add_lt h.2 d.2), List.mem_map.2 ⟨t, List.mem_range.2 ht, rfl⟩⟩, ?_⟩) ?_
  · dsimp only
    rw [mul_add_div d.2, mul_add_mod d.2]
  · intro w hw hi
    obtain ⟨p, hp, hw⟩ := List.mem_flatMap.1 hw
    obtain ⟨t', ht', rfl⟩ := List.mem_map.1 hw
    dsimp only at hi ⊢
    have hD : 0 < D := Nat.pos_of_ne_zero fun h0 => absurd d.2 (by omega)
    obtain ⟨hrow, hd⟩ := mul_add_inj (Nat.mod_lt p hD) d.2 hi
    obtain ⟨rfl, hh⟩ := mul_add_inj
      (Nat.div_lt_of_lt_mul (by rw [Nat.mul_comm]; exact List.mem_range.1 hp)) h.2 hrow
    have hp' : p = h * D + d := by rw [← hh, ← hd, Nat.div_add_mod']
    rw [hp', kStats_eq hpos hlt, kStatsLane_eq hpos hlt hx ht, evenCode_eq hr]

/-- The minima and scales the kernel leaves are the reference's. -/
theorem kMin_stored (hpos : 0 < openK.length) (hlt : openK.length < groupSize) (m : ℕ → F)
    (h : Fin H) (d : Fin D) :
    storeAll m (kMinStores fp (tensorPtr 0 openK) openK.length H D) (h * D + d)
        = kMin fp (openGroup fp openK) h d ∧
      storeAll m (kScaleStores fp (tensorPtr 0 openK) openK.length H D) (h * D + d)
        = kScale fp (openGroup fp openK) h d := by
  have hp : h * D + d < H * D := mul_add_lt h.2 d.2
  have hstats : kStats fp (tensorPtr 0 openK) openK.length H D (h * D + d)
      = (kMin fp (openGroup fp openK) h d, kScale fp (openGroup fp openK) h d) :=
    kStats_eq hpos hlt h d
  exact ⟨(storeAll_range m _ hp).trans (congrArg Prod.fst hstats),
    (storeAll_range m _ hp).trans (congrArg Prod.snd hstats)⟩

theorem k3State_packed_open (hpos : 0 < openK.length) (hlt : openK.length < groupSize) :
    (k3State fp (openK.map (Tok.map fp.ofB))).packed
      = (kCodes fp (openGroup fp openK)).map fun c h => packRow 3 (c h) := by
  simp only [k3State]
  rw [seqGroups_of_short (by rwa [List.length_map]) (by rwa [List.length_map]),
    List.flatMap_singleton]
  rfl

/-- The bytes the kernel packs are the reference's. -/
theorem kPacked_stored (hr : RoundsHalfEven fp) (hpos : 0 < openK.length)
    (hlt : openK.length < groupSize) (m m' : ℕ → UInt8) {t : ℕ} (ht : t < groupSize) (h : Fin H)
    (j : Fin (packedDim D 3)) :
    (flatTokens (k3State fp (openK.map (Tok.map fp.ofB))).packed)[(t * H + h) * packedDim D 3 + j]?
      = some (storeAll m' (packK3Stores
          (storeAll m (kCodesStores fp (tensorPtr 0 openK) openK.length H D)) D (packedDim D 3)
          (nextPowerOf2 (packedDim D 3)) (groupSize * H)) ((t * H + h) * packedDim D 3 + j)) := by
  have hlen : t < (kCodes fp (openGroup fp openK)).length := by
    rwa [length_kCodes, length_openGroup hpos hlt]
  have hc := List.getElem?_eq_getElem hlen
  have hmem := List.getElem_mem hlen
  generalize (kCodes fp (openGroup fp openK))[t] = c at hc hmem
  have hcodes : ∀ i < D, ext (c h) i < 8 := fun i hi => by
    rw [ext_of_lt _ hi]
    exact kCodes_lt fp hmem h ⟨i, hi⟩
  have hstored : ∀ i < D, (storeAll m (kCodesStores fp (tensorPtr 0 openK) openK.length H D)
      ((t * H + h) * D + i)).toNat = ext (c h) i := fun i hi => by
    have hlt8 := hcodes i hi
    rw [kCodes_stored hr hpos hlt m hc h ⟨i, hi⟩, UInt8.toNat_ofNat', ← ext_of_lt (c h) hi]
    exact Nat.mod_eq_of_lt (by omega)
  have hbyte := packK3Byte_eq hstored hcodes j.2
  have hblock : j.1 < nextPowerOf2 (packedDim D 3) :=
    j.2.trans_le (Nat.le_pow_clog (by decide) _)
  rw [getElem?_flatTokens, k3State_packed_open hpos hlt, List.getElem?_map, hc, Option.map_some,
    Option.map_some]
  refine congrArg some (Eq.symm (storeAll_of_forall m' ?_ ?_))
  · refine List.mem_map.2 ⟨((t * H + h) * packedDim D 3 + j, _), List.mem_flatMap.2 ⟨t * H + h,
      List.mem_range.2 (mul_add_lt ht h.2), List.mem_map.2 ⟨j, List.mem_filter.2
        ⟨List.mem_range.2 hblock, decide_eq_true j.2⟩, rfl⟩⟩, rfl⟩
  · intro w hw hi
    obtain ⟨row, -, hw⟩ := List.mem_flatMap.1 hw
    obtain ⟨b, hb, rfl⟩ := List.mem_map.1 hw
    obtain ⟨rfl, rfl⟩ := mul_add_inj (of_decide_eq_true (List.mem_filter.1 hb).2) j.2 hi
    exact hbyte

end Stats

section Meta64

variable {F : Type} {fp : Fp F Bf16} {flat : List F} {data : ℕ → F}

/-- The groups of 64 of `n` values. -/
abbrev metaGroups (n : ℕ) : ℕ := (n + metadataGroupSize - 1) / metadataGroupSize

theorem length_padLast_eq (flat : List F) :
    (padLast fp flat).length = metaGroups flat.length * metadataGroupSize := by
  obtain ⟨k, hk⟩ := padLast_dvd fp flat
  have hlen := length_padLast fp flat
  have hlt := padTo_lt (show 0 < metadataGroupSize by decide) flat.length
  unfold metaGroups metadataGroupSize at *
  omega

theorem getElem?_padLast (hdata : ∀ i < flat.length, flat[i]? = some (data i))
    (hpos : 0 < flat.length) {i : ℕ} (hi : i < (padLast fp flat).length) :
    (padLast fp flat)[i]? = some (data (if i < flat.length then i else flat.length - 1)) := by
  unfold padLast at *
  rw [List.length_append, List.length_replicate] at hi
  by_cases hin : i < flat.length
  · rw [List.getElem?_append_left hin, if_pos hin, hdata i hin]
  · rw [List.getElem?_append_right (by omega), List.getElem?_replicate_of_lt (by omega), if_neg hin,
      List.getLast?_eq_getElem?, hdata _ (by omega)]
    rfl

/-- The lanes of program `g` are group `g` of the padded values. -/
theorem meta64Lanes_eq (hdata : ∀ i < flat.length, flat[i]? = some (data i))
    (hpos : 0 < flat.length) {g : ℕ} (hg : g < metaGroups flat.length) :
    (chunks metadataGroupSize (padLast fp flat))[g]?
      = some ((List.range 64).map (meta64Lane data flat.length g)) := by
  have hlen : (padLast fp flat).length = metaGroups flat.length * metadataGroupSize :=
    length_padLast_eq flat
  have hrow : g < (padLast fp flat).length / metadataGroupSize := by
    rw [hlen, Nat.mul_div_cancel _ (by decide)]
    exact hg
  have hend : ∀ j < 64, g * metadataGroupSize + j < (padLast fp flat).length := fun j hj => by
    rw [hlen]
    exact mul_add_lt hg hj
  rw [getElem?_chunks hrow]
  refine congrArg some (List.ext_getElem? fun j => ?_)
  by_cases hj : j < 64
  · rw [List.getElem?_take_of_lt hj, List.getElem?_drop, getElem?_padLast hdata hpos (hend j hj),
      List.getElem?_map, List.getElem?_range hj]
    rfl
  · rw [List.getElem?_take_eq_none (Nat.not_lt.1 hj), List.getElem?_eq_none (by simpa using hj)]

/-- Cells of a compressed metadata tensor of `n` values. -/
def MetaCell.InRange (n : ℕ) : MetaCell → Prop
  | .code i => i < n
  | .secMin g => g < metaGroups n
  | .secScale g => g < metaGroups n

/-- A cell the metadata kernel writes is the reference's, whatever was there. -/
theorem meta64_cell (hr : RoundsHalfEven fp) (shape : List ℕ)
    (hdata : ∀ i < flat.length, flat[i]? = some (data i)) (hpos : 0 < flat.length) (dst : MetaBufs)
    (which : TailMeta) {c : MetaCell} (hc : c.InRange flat.length) :
    (encodeMetadataUint8Group fp shape flat).cell? which c
      = some ((meta64Kernel fp data flat.length (metaGroups flat.length) dst).cell which c) := by
  have hne : flat.isEmpty = false := by
    rw [List.isEmpty_eq_false_iff]
    exact List.ne_nil_of_length_pos hpos
  have hgroup : ∀ {β : Type} (f : List F → β) {g : ℕ}, g < metaGroups flat.length →
      ((chunks metadataGroupSize (padLast fp flat)).map f)[g]?
        = some (f ((List.range 64).map (meta64Lane data flat.length g))) := fun f g hg => by
    rw [List.getElem?_map, meta64Lanes_eq hdata hpos hg, Option.map_some]
  simp only [encodeMetadataUint8Group, hne, Bool.false_eq_true, if_false]
  cases c with
  | code i =>
    have hmod : i % 64 < 64 := Nat.mod_lt _ (by decide)
    have hg : i / 64 < metaGroups flat.length := by
      have hi : i < flat.length := hc
      unfold metaGroups metadataGroupSize
      omega
    have hrows : ∀ r ∈ (chunks metadataGroupSize (padLast fp flat)).map (metaCodes fp),
        r.length = 64 := by
      intro r hrm
      obtain ⟨g, hg, rfl⟩ := List.mem_map.1 hrm
      rw [length_metaCodes, length_of_mem_chunks hg]
    have hstore := storeAll_rows dst.codes (fun g j => UInt8.ofNat (evenCode fp 255
      (meta64Stats fp data flat.length g).1 (meta64Stats fp data flat.length g).2
      (meta64Lane data flat.length g j))) hg hmod
    have href := getElem?_flatten hrows (i := i / 64) hmod
    rw [hgroup _ hg, Option.bind_some, metaCodes, List.getElem?_map, List.getElem?_map,
      List.getElem?_range hmod, Option.map_some, Option.map_some] at href
    rw [Nat.div_add_mod', evenCode_eq hr] at hstore
    rw [Nat.div_add_mod'] at href
    exact href.trans (congrArg some hstore.symm)
  | secMin g =>
    exact (hgroup _ hc).trans (congrArg some (storeAll_range dst.min
      (fun g => fp.toB (meta64Stats fp data flat.length g).1) hc).symm)
  | secScale g =>
    exact (hgroup _ hc).trans (congrArg some (storeAll_range dst.scale
      (fun g => fp.toB (meta64Stats fp data flat.length g).2) hc).symm)

end Meta64

section Reads

variable {F : Type} {fp : AttnFp F} {H D : ℕ}

/-- The prepared cells that belong to an open group of `n` tokens. -/
def TailCell.Used (H D n : ℕ) : TailCell → Prop
  | .kPacked i => ∃ t < n, ∃ (h : Fin H) (j : Fin (packedDim D 3)),
      i = (t * H + h) * packedDim D 3 + j
  | .entry .kMin c => c.InRange (H * D)
  | .entry .kScale c => c.InRange (H * D)
  | .entry .vMin c => c.InRange (n * (H * vGroups D))
  | .entry .vScale c => c.InRange (n * (H * vGroups D))

theorem div_lt_metaGroups {i n : ℕ} (hi : i < n) : i / 64 < metaGroups n := by
  unfold metaGroups metadataGroupSize
  omega

/-- A metadata load of the tail kernel reads a code and the secondaries of its group. -/
theorem mem_addrs_tailMeta {which : TailMeta} {idx n : ℕ} {mask : Bool} {c : TailCell}
    (hidx : mask = true → idx < n) (hc : c ∈ (tailMeta fp which idx mask).addrs) :
    ∃ e : MetaCell, c = .entry which e ∧ e.InRange n := by
  simp only [tailMeta, Load.addrs_map₂, List.mem_append, Load.mem_addrs_masked,
    Load.mem_addrs_guard, Load.addrs_map, Load.addrs_cell, List.mem_singleton] at hc
  rcases hc with ⟨hm, rfl⟩ | ⟨hm, rfl⟩ | ⟨hm, rfl⟩
  · exact ⟨_, rfl, hidx hm⟩
  · exact ⟨_, rfl, div_lt_metaGroups (hidx hm)⟩
  · exact ⟨_, rfl, div_lt_metaGroups (hidx hm)⟩

variable {qHeads kvh t d : ℕ} {openK recentK recentV : List (Tok H D Bf16)}
  {openVPacked : List (Tok H (vPackedDim D) UInt8)} {c : TailCell}

theorem mem_addrs_tailK (hh : kvh < H)
    (hc : c ∈ (tailK fp (tailArgs qHeads openK openVPacked recentK recentV) kvh t d).addrs) :
    c.Used H D openK.length := by
  have hidx : decide (d < D) = true → kvh * D + d < H * D := fun hm =>
    mul_add_lt hh (of_decide_eq_true hm)
  simp only [tailK, tailKCode, tailArgs, Load.addrs_map₂, List.mem_append, Load.mem_addrs_masked,
    Bool.and_eq_true] at hc
  rcases hc with (⟨⟨ht, hd⟩, rfl⟩ | ⟨⟨⟨ht, -⟩, hj⟩, rfl⟩) | hc | hc
  · have hlt : d < D := of_decide_eq_true hd
    refine ⟨t, of_decide_eq_true ht, ⟨kvh, hh⟩, ⟨d * 3 / 8, ?_⟩, rfl⟩
    unfold packedDim
    omega
  · exact ⟨t, of_decide_eq_true ht, ⟨kvh, hh⟩, ⟨d * 3 / 8 + 1, of_decide_eq_true hj⟩, rfl⟩
  · obtain ⟨e, rfl, he⟩ := mem_addrs_tailMeta hidx hc
    exact he
  · obtain ⟨e, rfl, he⟩ := mem_addrs_tailMeta hidx hc
    exact he

theorem mem_addrs_tailV (hD : D % groupSize = 0) (hh : kvh < H)
    (hc : c ∈ (tailV fp (tailArgs qHeads openK openVPacked recentK recentV) kvh t d).addrs) :
    c.Used H D openK.length := by
  have hidx : (decide (t < openK.length) && decide (d < D)) = true →
      (t * H + kvh) * (D / groupSize) + d / 32 < openK.length * (H * vGroups D) := fun hm => by
    simp only [Bool.and_eq_true, decide_eq_true_eq] at hm
    rw [← Nat.mul_assoc, vGroups_of_mod hD]
    exact mul_add_lt (mul_add_lt hm.1 hh)
      (Nat.div_lt_div_of_lt_of_dvd (Nat.dvd_of_mod_eq_zero hD) hm.2)
  simp only [tailV, tailArgs, Load.addrs_map₂, List.mem_append] at hc
  rcases hc with hc | hc
  · obtain ⟨e, rfl, he⟩ := mem_addrs_tailMeta hidx hc
    exact he
  · obtain ⟨e, rfl, he⟩ := mem_addrs_tailMeta hidx hc
    exact he

end Reads

section Prep

variable {F : Type} {fp : Fp F Bf16} {H D : ℕ} {openK : List (Tok H D Bf16)}

/-- One K statistic of the open group, in the order the metadata encoder sees it. -/
theorem getElem?_openStat (hpos : 0 < openK.length) (hlt : openK.length < groupSize)
    (f : List (Tok H D F) → Tok H D F) (h : Fin H) (d : Fin D) :
    (flatHeads ((seqGroups fp (openK.map (Tok.map fp.ofB))).map f))[h * D + d]?
      = some (f (openGroup fp openK) h d) := by
  rw [seqGroups_of_short (by rwa [List.length_map]) (by rwa [List.length_map])]
  have hget := getElem?_flatHeads [f (openGroup fp openK)] h (g := 0) Nat.zero_lt_one d
  rw [List.length_singleton, Nat.mul_one, Nat.add_zero] at hget
  exact hget

theorem length_openStat (hpos : 0 < openK.length) (hlt : openK.length < groupSize)
    (f : List (Tok H D F) → Tok H D F) :
    (flatHeads ((seqGroups fp (openK.map (Tok.map fp.ofB))).map f)).length = H * D := by
  rw [seqGroups_of_short (by rwa [List.length_map]) (by rwa [List.length_map]), length_flatHeads,
    List.map_singleton, List.length_singleton, Nat.one_mul]

/-- The metadata kernel on the statistics of the open group. -/
theorem openStat_cell (hr : RoundsHalfEven fp) (hpos : 0 < openK.length)
    (hlt : openK.length < groupSize) (hH : 0 < H) (hD : 0 < D) (shape : List ℕ)
    (f : List (Tok H D F) → Tok H D F) {data : ℕ → F}
    (hdata : ∀ (h : Fin H) (d : Fin D), data (h * D + d) = f (openGroup fp openK) h d)
    (dst : MetaBufs) (which : TailMeta) {c : MetaCell} (hc : c.InRange (H * D)) :
    (encodeMetadataUint8Group fp shape
        (flatHeads ((seqGroups fp (openK.map (Tok.map fp.ofB))).map f))).cell? which c
      = some ((meta64Kernel fp data (H * D) (metaGroups (H * D)) dst).cell which c) := by
  have hlen : (flatHeads ((seqGroups fp (openK.map (Tok.map fp.ofB))).map f)).length = H * D :=
    length_openStat hpos hlt f
  have hflat : ∀ i < (flatHeads ((seqGroups fp (openK.map (Tok.map fp.ofB))).map f)).length,
      (flatHeads ((seqGroups fp (openK.map (Tok.map fp.ofB))).map f))[i]? = some (data i) := by
    intro i hi
    rw [hlen] at hi
    have hh : i / D < H := Nat.div_lt_of_lt_mul (by rwa [Nat.mul_comm])
    have hd := hdata ⟨i / D, hh⟩ ⟨i % D, Nat.mod_lt i hD⟩
    rw [Nat.div_add_mod'] at hd
    rw [hd, ← getElem?_openStat hpos hlt f ⟨i / D, hh⟩ ⟨i % D, Nat.mod_lt i hD⟩, Nat.div_add_mod']
  have hcell := meta64_cell hr shape hflat (hlen ▸ Nat.mul_pos hH hD) dst which (hlen.symm ▸ hc)
  rwa [hlen] at hcell

theorem metaLaunch_ok (data : ℕ → F) {n : ℕ} (hn : 0 < n) (dst : MetaBufs) :
    metaLaunch fp data n dst = .ok (meta64Kernel fp data n (metaGroups n) dst) := by
  refine if_neg fun h0 => ?_
  unfold metadataGroupSize at h0
  omega

/-- The metadata kernel on primary V metadata. -/
theorem vMeta_cell (hr : RoundsHalfEven fp) {rows : List (Tok H (vGroups D) F)}
    (hpos : 0 < (flatTokens rows).length) (dst : MetaBufs) (which : TailMeta) {c : MetaCell}
    (hc : c.InRange (flatTokens rows).length) :
    (encodeVMetadata fp rows).cell? which c
      = some ((meta64Kernel fp (tensorPtr (fp.lit 0) rows) (flatTokens rows).length
        (metaGroups (flatTokens rows).length) dst).cell which c) := by
  refine meta64_cell hr _ (fun i hi => ?_) hpos dst which hc
  rw [tensorPtr, List.getD_eq_getElem?_getD, List.getElem?_eq_getElem hi, Option.getD_some]

variable {openVMin openVScale : List (Tok H (vGroups D) F)} {side : Sidecar H D F}

/-- The workspace after the fast preparation holds the reference's cells wherever the tail kernel
may look, whatever it held before. -/
theorem fastPrep_ok (hr : RoundsHalfEven fp) (junk : Workspace F) (hH : 0 < H) (hD : 0 < D)
    (hdim : D % groupSize = 0) (hk : side.openK = some openK) (hm : side.openVMin = some openVMin)
    (hs : side.openVScale = some openVScale) (hpos : 0 < openK.length)
    (hlt : openK.length < groupSize) (hlm : openVMin.length = openK.length)
    (hls : openVScale.length = openK.length) (ws : Option (Workspace F)) :
    ∃ ws', fastPrep fp junk side ws = .ok ws' ∧ ∀ c : TailCell, c.Used H D openK.length →
      referenceCell? (k3State fp (openK.map (Tok.map fp.ofB))) (encodeVMetadata fp openVMin)
        (encodeVMetadata fp openVScale) c = some (ws'.mem c) := by
  have hgroups : 0 < vGroups D := by
    unfold vGroups groupSize
    omega
  have hvlen : ∀ {rows : List (Tok H (vGroups D) F)}, rows.length = openK.length →
      (flatTokens rows).length = openK.length * (H * vGroups D) := fun {rows} h => by
    rw [length_flatTokens, h]
  have hvpos : 0 < openK.length * (H * vGroups D) := Nat.mul_pos hpos (Nat.mul_pos hH hgroups)
  obtain ⟨ws₀, hws⟩ : ∃ ws₀, tailWorkspace junk D ws = .ok ws₀ := by
    cases ws with
    | none => exact ⟨junk, if_neg (not_not.2 hdim)⟩
    | some ws => exact ⟨ws, rfl⟩
  simp only [fastPrep, hk, hm, hs, hws]
  refine ⟨_, by
    simp only [metaLaunch_ok _ (Nat.mul_pos hH hD), metaLaunch_ok _ ((hvlen hlm).symm ▸ hvpos),
      metaLaunch_ok _ ((hvlen hls).symm ▸ hvpos)]
    rfl, ?_⟩
  intro c hc
  rcases c with i | ⟨_ | _ | _ | _, e⟩
  · obtain ⟨t, ht, h, j, hi⟩ := hc
    rw [hi]
    exact kPacked_stored hr hpos hlt _ _ (ht.trans hlt) h j
  · exact openStat_cell hr hpos hlt hH hD _ (kMin fp)
      (fun h d => (kMin_stored hpos hlt ws₀.kMin h d).1) ws₀.kMinMeta .kMin hc
  · exact openStat_cell hr hpos hlt hH hD _ (kScale fp)
      (fun h d => (kMin_stored hpos hlt ws₀.kScale h d).2) ws₀.kScaleMeta .kScale hc
  · exact vMeta_cell hr ((hvlen hlm).symm ▸ hvpos) ws₀.vMinMeta .vMin ((hvlen hlm).symm ▸ hc)
  · exact vMeta_cell hr ((hvlen hls).symm ▸ hvpos) ws₀.vScaleMeta .vScale ((hvlen hls).symm ▸ hc)

end Prep

theorem kvHead_lt {qHeads H qh : ℕ} (hq : H ∣ qHeads) (hqh : qh < qHeads) :
    qh / (qHeads / H) < H := by
  obtain ⟨k, rfl⟩ := hq
  have hH : 0 < H := Nat.pos_of_mul_pos_right (by omega : 0 < H * k)
  rw [Nat.mul_div_cancel_left k hH]
  exact Nat.div_lt_of_lt_mul (by rwa [Nat.mul_comm])

section Emit

variable {F Q : Type} {fp : AttnFp F} {H D : ℕ} {openK recentK recentV : List (Tok H D Bf16)}
  {openVPacked : List (Tok H (vPackedDim D) UInt8)}

/-- The tail partials depend on the used cells only. -/
theorem emitTail_congr (dt : QDtype F Q) (q : QueryPtr Q) {qHeads : ℕ} (hq : H ∣ qHeads)
    (hdim : D % groupSize = 0) {mem mem' : TailMem}
    (hmem : ∀ c : TailCell, c.Used H D openK.length → mem c = mem' c) (ptrs : PartialPtrs)
    (segmentIdx : ℕ) (softmaxScale : F) :
    emitTail fp dt q (tailArgs qHeads openK openVPacked recentK recentV) mem ptrs segmentIdx
        softmaxScale
      = emitTail fp dt q (tailArgs qHeads openK openVPacked recentK recentV) mem' ptrs segmentIdx
        softmaxScale := by
  refine List.flatMap_congr fun qh hqh => ?_
  have hh : qh / (qHeads / H) < H := kvHead_lt hq (List.mem_range.1 hqh)
  have hk : ∀ t d,
      (tailK fp (tailArgs qHeads openK openVPacked recentK recentV) (qh / (qHeads / H)) t
        d).eval mem
        = (tailK fp (tailArgs qHeads openK openVPacked recentK recentV) (qh / (qHeads / H)) t
          d).eval mem' := fun t d =>
    Load.eval_congr _ fun c hc => hmem c (mem_addrs_tailK hh hc)
  have hv : ∀ t d,
      (tailV fp (tailArgs qHeads openK openVPacked recentK recentV) (qh / (qHeads / H)) t
        d).eval mem
        = (tailV fp (tailArgs qHeads openK openVPacked recentK recentV) (qh / (qHeads / H)) t
          d).eval mem' := fun t d =>
    Load.eval_congr _ fun c hc => hmem c (mem_addrs_tailV hdim hh hc)
  have hargs : (tailArgs qHeads openK openVPacked recentK recentV).numQHeads
      / (tailArgs qHeads openK openVPacked recentK recentV).numKvHeads = qHeads / H := rfl
  simp only [exactmetaTailProgram, hargs, hk, hv]

variable {openVMin openVScale : List (Tok H (vGroups D) F)}

/-- A sidecar with an open group and recent tokens. -/
def openSidecar (openK : List (Tok H D Bf16)) (openVPacked : List (Tok H (vPackedDim D) UInt8))
    (openVMin openVScale : List (Tok H (vGroups D) F)) (recentK recentV : List (Tok H D Bf16)) :
    Sidecar H D F :=
  ⟨some openK, some openVPacked, some openVMin, some openVScale, some recentK, some recentV⟩

/-- The tensors the reference prepares for an open group. -/
def referenceMem (fp : Fp F Bf16) (openK : List (Tok H D Bf16))
    (openVMin openVScale : List (Tok H (vGroups D) F)) : TailMem := fun c =>
  (referenceCell? (k3State fp (openK.map (Tok.map fp.ofB))) (encodeVMetadata fp openVMin)
    (encodeVMetadata fp openVScale) c).getD c.zero

theorem referencePrep_ok (hpos : 0 < openK.length) :
    referencePrep fp.toFp openK openVMin openVScale = .ok (referenceCell?
      (k3State fp.toFp (openK.map (Tok.map fp.ofB))) (encodeVMetadata fp.toFp openVMin)
      (encodeVMetadata fp.toFp openVScale)) := by
  have hne : ¬ (openK.map (Tok.map fp.ofB)).length = 0 := by
    rw [List.length_map]
    omega
  unfold referencePrep quantizeK3SequenceAffine
  rw [if_neg hne]
  rfl

/-- The fast preparation of a sidecar the code builds. -/
theorem fastPrep_open (hr : RoundsHalfEven fp.toFp) (hH : 0 < H) (hD : 0 < D)
    (hdim : D % groupSize = 0)
    (hw : (openSidecar openK openVPacked openVMin openVScale recentK recentV).WF)
    (junk : Workspace F) (ws : Option (Workspace F)) :
    0 < openK.length ∧ ∃ ws', fastPrep fp.toFp junk
        (openSidecar openK openVPacked openVMin openVScale recentK recentV) ws = .ok ws' ∧
      ∀ c : TailCell, c.Used H D openK.length → referenceCell?
        (k3State fp.toFp (openK.map (Tok.map fp.ofB))) (encodeVMetadata fp.toFp openVMin)
        (encodeVMetadata fp.toFp openVScale) c = some (ws'.mem c) := by
  have hpos : 0 < openK.length := List.length_pos_of_ne_nil fun h0 => hw.openK_ne (congrArg some h0)
  exact ⟨hpos, fastPrep_ok hr junk hH hD hdim rfl rfl rfl hpos hw.openK_lt
    (Option.some.inj hw.openVMin) (Option.some.inj hw.openVScale) ws⟩

/-- The tail partials of an open group are computed from the reference's tensors, whatever the
workspace held. -/
theorem emitTailPartial_open (hr : RoundsHalfEven fp.toFp) (hH : 0 < H) (hD : 0 < D)
    (hdim : D % groupSize = 0)
    (hw : (openSidecar openK openVPacked openVMin openVScale recentK recentV).WF)
    (junk : Workspace F) (ws : Option (Workspace F)) {qHeads : ℕ} (hq : H ∣ qHeads)
    (dt : QDtype F Q) (q : QueryPtr Q) (ptrs : PartialPtrs) (segmentIdx : ℕ) (softmaxScale : F) :
    ∃ ws', emitTailPartial fp dt junk q qHeads
        (openSidecar openK openVPacked openVMin openVScale recentK recentV) ptrs segmentIdx
        softmaxScale ws
      = .ok (emitTail fp dt q (tailArgs qHeads openK openVPacked recentK recentV)
        (referenceMem fp.toFp openK openVMin openVScale) ptrs segmentIdx softmaxScale,
        some ws') := by
  obtain ⟨-, ws', hws, hcells⟩ := fastPrep_open hr hH hD hdim hw junk ws
  unfold openSidecar at hws
  have hmem : ∀ c : TailCell, c.Used H D openK.length →
      ws'.mem c = referenceMem fp.toFp openK openVMin openVScale c := fun c hc => by
    rw [referenceMem, hcells c hc, Option.getD_some]
  refine ⟨ws', ?_⟩
  rw [← emitTail_congr dt q hq hdim hmem]
  simp only [emitTailPartial, openSidecar, hws]
  rfl

theorem emitTailPartialRef_open (hpos : 0 < openK.length) {qHeads : ℕ} (dt : QDtype F Q)
    (q : QueryPtr Q) (ptrs : PartialPtrs) (segmentIdx : ℕ) (softmaxScale : F) :
    emitTailPartialRef fp dt q qHeads
        (openSidecar openK openVPacked openVMin openVScale recentK recentV) ptrs segmentIdx
        softmaxScale
      = .ok (emitTail fp dt q (tailArgs qHeads openK openVPacked recentK recentV)
        (referenceMem fp.toFp openK openVMin openVScale) ptrs segmentIdx softmaxScale) := by
  simp only [emitTailPartialRef, openSidecar, referencePrep_ok hpos]
  rfl

end Emit

/-- After the fast preparation every cell of the shared workspace that the tail kernel loads is the
reference preparation's, whatever earlier calls left there, and the tail partials are those of the
Stage 4B1 emitter. -/
theorem fastPrep_eq_reference {F : Type} (fp : AttnFp F) (hr : RoundsHalfEven fp.toFp) {H D : ℕ}
    {layout : Rabit2PageLayout} (hl : runtimeInit H D D = .ok layout) {qHeads : ℕ}
    (hq : H ∣ qHeads) {openK recentK recentV : List (Tok H D Bf16)}
    {openVPacked : List (Tok H (vPackedDim D) UInt8)}
    {openVMin openVScale : List (Tok H (vGroups D) F)}
    (hw : (openSidecar openK openVPacked openVMin openVScale recentK recentV).WF)
    (junk : Workspace F) (ws : Option (Workspace F)) :
    ∃ cells ws', referencePrep fp.toFp openK openVMin openVScale = .ok cells ∧
      fastPrep fp.toFp junk (openSidecar openK openVPacked openVMin openVScale recentK recentV) ws
        = .ok ws' ∧
      (∀ qh < qHeads, ∀ t d, ∀ c ∈
        (tailK fp (tailArgs qHeads openK openVPacked recentK recentV) (qh / (qHeads / H)) t d).addrs
          ++ (tailV fp (tailArgs qHeads openK openVPacked recentK recentV) (qh / (qHeads / H))
            t d).addrs, cells c = some (ws'.mem c)) ∧
      ∀ {Q : Type} (dt : QDtype F Q) (q : QueryPtr Q) (ptrs : PartialPtrs) (segmentIdx : ℕ)
        (softmaxScale : F),
        (emitTailPartial fp dt junk q qHeads
            (openSidecar openK openVPacked openVMin openVScale recentK recentV) ptrs segmentIdx
            softmaxScale ws).map Prod.fst
          = emitTailPartialRef fp dt q qHeads
            (openSidecar openK openVPacked openVMin openVScale recentK recentV) ptrs segmentIdx
            softmaxScale := by
  obtain ⟨-, -, hH, hD, hdim⟩ := runtimeInit_ok hl
  obtain ⟨hpos, ws', hws, hcells⟩ := fastPrep_open hr hH hD hdim hw junk ws
  refine ⟨_, ws', referencePrep_ok hpos, hws, fun qh hqh t d c hc => ?_,
    fun dt q ptrs segmentIdx scale => ?_⟩
  · have hh : qh / (qHeads / H) < H := kvHead_lt hq hqh
    rcases List.mem_append.1 hc with hc | hc
    · exact hcells c (mem_addrs_tailK hh hc)
    · exact hcells c (mem_addrs_tailV hdim hh hc)
  · obtain ⟨ws'', hfast⟩ :=
      emitTailPartial_open hr hH hD hdim hw junk ws hq dt q ptrs segmentIdx scale
    rw [hfast, emitTailPartialRef_open hpos]
    rfl

/-- A workspace another call left. -/
noncomputable def usedWorkspace : Workspace EReal where
  kCodes := fun _ => 7
  kPacked := fun _ => 255
  kMin := fun _ => 1
  kScale := fun _ => 1
  kMinMeta := ⟨fun _ => 200, fun _ => 1, fun _ => 2⟩
  kScaleMeta := ⟨fun _ => 100, fun _ => 3, fun _ => 4⟩
  vMinMeta := ⟨fun _ => 50, fun _ => 5, fun _ => 6⟩
  vScaleMeta := ⟨fun _ => 25, fun _ => 7, fun _ => 8⟩

/-- Two open tokens of one head of 64 channels. -/
def twoOpenKeys : List (Tok 1 64 Bf16) :=
  [fun _ d => UInt16.ofNat (16256 + d), fun _ d => UInt16.ofNat (16512 - d)]

def twoOpenCodes : List (Tok 1 (vPackedDim 64) UInt8) :=
  [fun _ j => stripes j, fun _ j => stripes (j + 100)]

noncomputable def twoOpenMins : List (Tok 1 (vGroups 64) EReal) :=
  [fun _ g => -(g : ℕ), fun _ g => (g + 1 : ℕ)]

noncomputable def twoOpenScales : List (Tok 1 (vGroups 64) EReal) :=
  [fun _ g => (g + 1 : ℕ), fun _ g => (g + 3 : ℕ)]

/-- The open tokens and four recent ones. -/
noncomputable def twoOpenTokens : Sidecar 1 64 EReal :=
  openSidecar twoOpenKeys twoOpenCodes twoOpenMins twoOpenScales ((rampTokens 1 64 4).map Prod.fst)
    ((rampTokens 1 64 4).map Prod.snd)

theorem twoOpenTokens_wf : twoOpenTokens.WF :=
  ⟨rfl, rfl, rfl, by simp [twoOpenTokens, openSidecar, twoOpenKeys], by decide, rfl,
    by simp [twoOpenTokens, openSidecar, rampTokens], by decide⟩

/-- Four query heads on the KV head, in a workspace that another call left. -/
theorem fastPrep_eq_reference_two_open_tokens :
    ∃ cells ws', referencePrep bfloatFp.toFp twoOpenKeys twoOpenMins twoOpenScales = .ok cells ∧
      fastPrep bfloatFp.toFp usedWorkspace twoOpenTokens (some usedWorkspace) = .ok ws' ∧
      (∀ t d, ∀ c ∈
        (tailK bfloatFp (tailArgs 4 twoOpenKeys twoOpenCodes ((rampTokens 1 64 4).map Prod.fst)
            ((rampTokens 1 64 4).map Prod.snd)) (3 / (4 / 1)) t d).addrs
          ++ (tailV bfloatFp (tailArgs 4 twoOpenKeys twoOpenCodes ((rampTokens 1 64 4).map Prod.fst)
            ((rampTokens 1 64 4).map Prod.snd)) (3 / (4 / 1)) t d).addrs,
        cells c = some (ws'.mem c)) ∧
      ∀ (q : QueryPtr EReal) (ptrs : PartialPtrs),
        (emitTailPartial bfloatFp ⟨id, id⟩ usedWorkspace q 4 twoOpenTokens ptrs 2 1
            (some usedWorkspace)).map Prod.fst
          = emitTailPartialRef bfloatFp ⟨id, id⟩ q 4 twoOpenTokens ptrs 2 1 := by
  have hinit : runtimeInit 1 64 64 = .ok (pageLayout groupSize 1 64 64) := rfl
  obtain ⟨cells, ws', hcells, hws, hused, htail⟩ := fastPrep_eq_reference bfloatFp
    (realFp_roundsHalfEven _ _) hinit (Nat.one_dvd 4) twoOpenTokens_wf usedWorkspace
    (some usedWorkspace)
  exact ⟨cells, ws', hcells, hws, hused 3 (by decide), fun q ptrs => htail ⟨id, id⟩ q ptrs 2 1⟩

end RabitKV
