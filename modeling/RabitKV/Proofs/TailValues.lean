import RabitKV.Proofs.Slots
import RabitKV.Proofs.Tail

/-!
# The tail kernel decodes the tail

From the tensors the reference prepares, lane `t` of the tail kernel computes token `t` of
`tail_materialize`: an open token decoded and rounded to bfloat16 (`eval_tailK_open`,
`eval_tailV_open`), then a recent one (`eval_tail_recent`). So the tail partial is a partial over
the tokens of the tail.
-/

namespace RabitKV

open Chunks Loads BitStream

section Open

variable {F : Type} (fp : AttnFp F) {H D : ℕ}

/-- A metadata load of the tail kernel is an entry of the decoded metadata. -/
theorem eval_tailMeta {m : Metadata Bf16} {n idx : ℕ} (which : TailMeta) (mem : TailMem)
    (hm : m.Shaped n) (hidx : idx < n)
    (hmem : ∀ c, mem (.entry which c) = (m.cell? which c).getD (TailCell.zero (.entry which c))) :
    (tailMeta fp which idx true).eval mem
      = (decodeMetadataUint8Group fp.toFp m).getD idx (fp.lit 0) := by
  obtain ⟨code, secMin, secScale, hcode, hmin, hscale, hvalue⟩ := hm.getElem?_decode fp.toFp hidx
  have hc : mem (.entry which (.code idx)) = code := by
    rw [hmem, Metadata.cell?, hcode, Option.getD_some]
  have hsmin : mem (.entry which (.secMin (idx / 64))) = secMin := by
    rw [hmem, Metadata.cell?]
    exact congrArg (Option.getD · _) hmin
  have hsscale : mem (.entry which (.secScale (idx / 64))) = secScale := by
    rw [hmem, Metadata.cell?]
    exact congrArg (Option.getD · _) hscale
  simp only [tailMeta, Load.eval_map₂, Load.eval_masked, Load.eval_guard, Load.eval_map,
    Load.eval_cell, if_true, hc, hsmin, hsscale]
  rw [List.getD_eq_getElem?_getD, hvalue, Option.getD_some]

variable {fp} {openK : List (Tok H D Bf16)} {openVMin openVScale : List (Tok H (vGroups D) F)}
  {openVPacked : List (Tok H (vPackedDim D) UInt8)} {recentK recentV : List (Tok H D Bf16)}
  {qHeads t : ℕ}

/-- The K3 window of an open token. -/
theorem eval_tailKCode {row : Tok H (packedDim D 3) UInt8} (ht : t < openK.length)
    (hrow : (k3State fp.toFp (openK.map (Tok.map fp.ofB))).packed[t]? = some row) (h : Fin H)
    (d : Fin D) :
    (tailKCode (tailArgs qHeads openK openVPacked recentK recentV) h t d).eval
        (referenceMem fp.toFp openK openVMin openVScale) = unpackCode 3 (ext (row h)) d := by
  have hbyte : ∀ j : Fin (packedDim D 3), referenceMem fp.toFp openK openVMin openVScale
      (.kPacked ((t * H + h) * packedDim D 3 + j)) = row h j := fun j => by
    rw [referenceMem, referenceCell?, getElem?_flatTokens, hrow]
    rfl
  have hlo : d.1 * 3 / 8 < packedDim D 3 := by
    have := d.2
    unfold packedDim
    omega
  have hext : ext (row h) (d.1 * 3 / 8) = row h ⟨d.1 * 3 / 8, hlo⟩ := dif_pos hlo
  rw [unpackCode_window (by decide), hext, ← hbyte ⟨_, hlo⟩]
  have hmask : (decide (t < (tailArgs qHeads openK openVPacked recentK recentV).openLen)
      && decide (d.1 < (tailArgs qHeads openK openVPacked recentK recentV).headSize)) = true :=
    Bool.and_eq_true_iff.2 ⟨decide_eq_true ht, decide_eq_true d.2⟩
  simp only [tailKCode, Load.eval_map₂, Load.eval_masked, hmask, Bool.true_and, if_true]
  by_cases hhi : d.1 * 3 / 8 + 1 < (tailArgs qHeads openK openVPacked recentK recentV).kPackedDim
  · have hext' : ext (row h) (d.1 * 3 / 8 + 1) = row h ⟨_, hhi⟩ := dif_pos hhi
    rw [if_pos (decide_eq_true hhi), hext', ← hbyte ⟨_, hhi⟩]
    rfl
  · have hext' : ext (row h) (d.1 * 3 / 8 + 1) = 0 := dif_neg hhi
    rw [if_neg fun hc => hhi (of_decide_eq_true hc), hext']
    rfl

/-- One decoded key of the open group. -/
theorem getElem?_dequantizeK3_open {row : Tok H (packedDim D 3) UInt8} (ht : t < openK.length)
    (hlt : openK.length < groupSize)
    (hrow : (k3State fp.toFp (openK.map (Tok.map fp.ofB))).packed[t]? = some row) :
    (dequantizeK3SequenceAffine fp.toFp (k3State fp.toFp (openK.map (Tok.map fp.ofB))))[t]?
      = some fun (h : Fin H) (d : Fin D) => fp.affineValue (unpackCode 3 (ext (row h)) d)
        ((decodeMetadataUint8Group fp.toFp
          (k3State fp.toFp (openK.map (Tok.map fp.ofB))).scale).getD (h * D + d) (fp.lit 0))
        ((decodeMetadataUint8Group fp.toFp
          (k3State fp.toFp (openK.map (Tok.map fp.ofB))).min).getD (h * D + d) (fp.lit 0)) := by
  have htokens : (k3State fp.toFp (openK.map (Tok.map fp.ofB))).tokens = openK.length :=
    List.length_map ..
  have hgroups : (k3State fp.toFp (openK.map (Tok.map fp.ofB))).paddedTokens / groupSize = 1 := by
    simp only [k3State, List.length_map]
    unfold padTo groupSize at *
    omega
  simp only [dequantizeK3SequenceAffine, htokens, hgroups]
  rw [List.getElem?_take_of_lt ht, List.getElem?_mapIdx, hrow, Option.map_some,
    Nat.div_eq_of_lt (ht.trans hlt)]
  simp only [Nat.mul_one, Nat.add_zero]

/-- Lane `t` of the open group computes the decoded key, rounded. -/
theorem eval_tailK_open (ht : t < openK.length) (hlt : openK.length < groupSize) {key : Tok H D F}
    (hkey : (dequantizeK3SequenceAffine fp.toFp
      (k3State fp.toFp (openK.map (Tok.map fp.ofB))))[t]? = some key) (h : Fin H) (d : Fin D) :
    (tailK fp (tailArgs qHeads openK openVPacked recentK recentV) h t d).eval
        (referenceMem fp.toFp openK openVMin openVScale) = fp.ofB (fp.toB (key h d)) := by
  have hpos : 0 < openK.length := by omega
  have hlen : (k3State fp.toFp (openK.map (Tok.map fp.ofB))).packed.length = groupSize := by
    rw [k3State_packed_open hpos hlt, List.length_map, kCodes, List.length_map,
      length_openGroup hpos hlt]
  obtain ⟨row, hrow⟩ : ∃ row, (k3State fp.toFp (openK.map (Tok.map fp.ofB))).packed[t]?
      = some row := ⟨_, List.getElem?_eq_getElem (by omega)⟩
  rw [getElem?_dequantizeK3_open ht hlt hrow] at hkey
  cases hkey
  have hidx : h * D + d.1 < H * D := mul_add_lt h.2 d.2
  have hmeta : ∀ (f : List (Tok H D F) → Tok H D F) (shape : List ℕ),
      (encodeMetadataUint8Group fp.toFp shape
        (flatHeads ((seqGroups fp.toFp (openK.map (Tok.map fp.ofB))).map f))).Shaped (H * D) :=
    fun f shape => by
      have hshaped := encodeMetadata_shaped fp.toFp shape
        (flatHeads ((seqGroups fp.toFp (openK.map (Tok.map fp.ofB))).map f))
      rwa [length_openStat hpos hlt f] at hshaped
  have hmin := eval_tailMeta fp .kMin (referenceMem fp.toFp openK openVMin openVScale)
    (hmeta (kMin fp.toFp) _) hidx fun _ => rfl
  have hscale := eval_tailMeta fp .kScale (referenceMem fp.toFp openK openVMin openVScale)
    (hmeta (kScale fp.toFp) _) hidx fun _ => rfl
  have hmask : decide (d.1 < (tailArgs qHeads openK openVPacked recentK recentV).headSize) = true :=
    decide_eq_true d.2
  have hopen : t < (tailArgs qHeads openK openVPacked recentK recentV).openLen := ht
  simp only [tailK, Load.eval_map₂, hmask, if_pos hopen, eval_tailKCode ht hrow h d]
  exact congrArg₂ (roundedValue fp _) hscale hmin

/-- Lane `t` of the open group computes the decoded value, rounded. -/
theorem eval_tailV_open (hdim : D % groupSize = 0) (ht : t < openK.length)
    (hlm : openVMin.length = openK.length) (hls : openVScale.length = openK.length)
    {value : Tok H D F} (hvalue : (dequantizeV2FromPrimary fp.toFp openVPacked
      (decodeMetadataUint8Group fp.toFp (encodeVMetadata fp.toFp openVMin))
      (decodeMetadataUint8Group fp.toFp (encodeVMetadata fp.toFp openVScale)))[t]? = some value)
    (h : Fin H) (d : Fin D) :
    (tailV fp (tailArgs qHeads openK openVPacked recentK recentV) h t d).eval
        (referenceMem fp.toFp openK openVMin openVScale) = fp.ofB (fp.toB (value h d)) := by
  rw [dequantizeV2FromPrimary, List.getElem?_mapIdx] at hvalue
  obtain ⟨row, hrow, rfl⟩ := Option.map_eq_some_iff.1 hvalue
  have hpacked : packedDim D 2 = vPackedDim D := by
    rw [vPackedDim, vPaddedDim, vGroups_of_mod hdim,
      Nat.div_mul_cancel (Nat.dvd_of_mod_eq_zero hdim)]
  have hgroup : d.1 / 32 < vGroups D := by
    rw [vGroups_of_mod hdim]
    exact Nat.div_lt_div_of_lt_of_dvd (Nat.dvd_of_mod_eq_zero hdim) d.2
  have hbyte : d.1 / 4 < vPackedDim D := by
    have := d.2
    rw [← hpacked, packedDim]
    omega
  have hidx : (t * H + h) * vGroups D + d.1 / 32 < openK.length * (H * vGroups D) := by
    rw [← Nat.mul_assoc]
    exact mul_add_lt (mul_add_lt ht h.2) hgroup
  have hshaped : ∀ {rows : List (Tok H (vGroups D) F)}, rows.length = openK.length →
      (encodeVMetadata fp.toFp rows).Shaped (openK.length * (H * vGroups D)) :=
        fun {rows} hrows => by
    rw [← hrows, ← length_flatTokens]
    exact encodeMetadata_shaped _ _ _
  have hmin := eval_tailMeta fp .vMin (referenceMem fp.toFp openK openVMin openVScale)
    (hshaped hlm) hidx fun _ => rfl
  have hscale := eval_tailMeta fp .vScale (referenceMem fp.toFp openK openVMin openVScale)
    (hshaped hls) hidx fun _ => rfl
  have hmask : (decide (t < (tailArgs qHeads openK openVPacked recentK recentV).openLen)
      && decide (d.1 < (tailArgs qHeads openK openVPacked recentK recentV).headSize)) = true :=
    Bool.and_eq_true_iff.2 ⟨decide_eq_true ht, decide_eq_true d.2⟩
  have hload : (tailArgs qHeads openK openVPacked recentK recentV).openVPacked
      ((t * H + h) * packedDim D 2 + d.1 / 4) = ext (row h) (d.1 / 4) := by
    have hext : ext (row h) (d.1 / 4) = row h ⟨_, hbyte⟩ := dif_pos hbyte
    rw [hpacked, hext]
    exact tensorPtr_eq hrow h ⟨_, hbyte⟩
  have hopen : t < (tailArgs qHeads openK openVPacked recentK recentV).openLen := ht
  have hgroups : (tailArgs qHeads openK openVPacked recentK recentV).vGroups = vGroups D :=
    (vGroups_of_mod hdim).symm
  simp only [tailV, Load.eval_map₂, hmask, if_pos hopen, if_true, hgroups]
  rw [unpackCode_two, ← hload]
  exact congrArg₂ (roundedValue fp _) hscale hmin

/-- Lane `t` past the open group loads a recent token. -/
theorem eval_tail_recent {r : ℕ} (hr : r < recentK.length) {key value : Tok H D Bf16}
    (hkey : recentK[r]? = some key) (hvalue : recentV[r]? = some value) (mem : TailMem) (h : Fin H)
    (d : Fin D) :
    (tailK fp (tailArgs qHeads openK openVPacked recentK recentV) h (openK.length + r) d).eval mem
        = fp.ofB (key h d) ∧
      (tailV fp (tailArgs qHeads openK openVPacked recentK recentV) h (openK.length + r) d).eval mem
        = fp.ofB (value h d) := by
  have hnot : ¬ openK.length + r < (tailArgs qHeads openK openVPacked recentK recentV).openLen :=
    Nat.not_lt.2 (Nat.le_add_right _ _)
  have hsub : openK.length + r - (tailArgs qHeads openK openVPacked recentK recentV).openLen = r :=
    Nat.add_sub_cancel_left ..
  have hmask : (decide ((tailArgs qHeads openK openVPacked recentK recentV).openLen
        ≤ openK.length + r ∧ r < (tailArgs qHeads openK openVPacked recentK recentV).recentLen)
      && decide (d.1 < (tailArgs qHeads openK openVPacked recentK recentV).headSize)) = true :=
    Bool.and_eq_true_iff.2 ⟨decide_eq_true ⟨Nat.le_add_right _ _, hr⟩, decide_eq_true d.2⟩
  constructor
  · simp only [tailK, Load.eval_map₂, if_neg hnot, hsub, hmask, loadBf16, if_true]
    exact congrArg fp.ofB (tensorPtr_eq hkey h d)
  · simp only [tailV, Load.eval_map₂, if_neg hnot, hsub, hmask, loadBf16, if_true]
    exact congrArg fp.ofB (tensorPtr_eq hvalue h d)

end Open

/-- A sidecar with recent tokens only. -/
def recentSidecar {F : Type} {H D : ℕ} (recentK recentV : List (Tok H D Bf16)) : Sidecar H D F :=
  { recentK := some recentK, recentV := some recentV }

theorem Sidecar.WF.open_or_recent {F : Type} {H D : ℕ} {side : Sidecar H D F} (hw : side.WF)
    (hrecent : side.recentK ≠ none) :
    (∃ openK openVPacked openVMin openVScale recentK recentV,
      side = openSidecar openK openVPacked openVMin openVScale recentK recentV) ∨
    ∃ recentK recentV, side = recentSidecar recentK recentV := by
  obtain ⟨openK, openVPacked, openVMin, openVScale, recentK, recentV⟩ := side
  obtain ⟨hp, hm, hs, -, -, hr, -, -⟩ := hw
  rcases recentK with _ | recentK
  · exact absurd rfl hrecent
  obtain ⟨recentV, rfl, -⟩ := Option.map_eq_some_iff.1 hr
  rcases openK with _ | openK
  · obtain rfl := Option.map_eq_none_iff.1 hp
    obtain rfl := Option.map_eq_none_iff.1 hm
    obtain rfl := Option.map_eq_none_iff.1 hs
    exact Or.inr ⟨recentK, recentV, rfl⟩
  · obtain ⟨openVPacked, rfl, -⟩ := Option.map_eq_some_iff.1 hp
    obtain ⟨openVMin, rfl, -⟩ := Option.map_eq_some_iff.1 hm
    obtain ⟨openVScale, rfl, -⟩ := Option.map_eq_some_iff.1 hs
    exact Or.inl ⟨openK, openVPacked, openVMin, openVScale, recentK, recentV, rfl⟩

/-- The primitives with the kernels' rounding in place of `torch.round`. -/
def kernelAttnFp {F : Type} (fp : AttnFp F) : AttnFp F := { fp with toFp := kernelFp fp.toFp }

theorem roundsHalfEven_kernelAttnFp {F : Type} (fp : AttnFp F) :
    RoundsHalfEven (kernelAttnFp fp).toFp := fun _ => rfl

theorem kernelAttnFp_eq {F : Type} {fp : AttnFp F} (h : RoundsHalfEven fp.toFp) :
    kernelAttnFp fp = fp := by
  rw [kernelAttnFp, h.kernelFp_eq]

section Partial

variable {F Q : Type} (fp : AttnFp F) (dt : QDtype F Q) {H D : ℕ} (q : QueryPtr Q) (qHeads : ℕ)
  (softmaxScale : F)

/-- The partial of query head `qh` over the tail, from the tensors the reference prepares. -/
def tailPartial (side : Sidecar H D F) (qh : ℕ) : Partial F :=
  let recentK := side.recentK.getD []
  let recentV := side.recentV.getD []
  let kvh := qh / (qHeads / H)
  match side.openK with
  | none =>
    let load := fun rows t d => loadBf16 fp (tensorPtr 0 rows) ((t * H + kvh) * D + d)
      (decide (t < recentK.length) && decide (d < D))
    partialOf fp 4 (nextPowerOf2 D) (fun t => decide (t < recentK.length)) softmaxScale
      (loadQ fp dt q D qh true) (load recentK) (load recentV)
  | some openK =>
    let a := tailArgs qHeads openK (side.openVPacked.getD []) recentK recentV
    let mem := referenceMem fp.toFp openK (side.openVMin.getD []) (side.openVScale.getD [])
    partialOf fp 64 (nextPowerOf2 D) (fun t => decide (t < openK.length)
      || decide (openK.length ≤ t ∧ t - openK.length < recentK.length)) softmaxScale
      (loadQ fp dt q D qh true) (fun t d => (tailK fp a kvh t d).eval mem)
      fun t d => (tailV fp a kvh t d).eval mem

theorem emitTailPartial_kernelAttnFp (junk : Workspace F) (side : Sidecar H D F)
    (ptrs : PartialPtrs) (segmentIdx : ℕ) (ws : Option (Workspace F)) :
    emitTailPartial (kernelAttnFp fp) dt junk q qHeads side ptrs segmentIdx softmaxScale ws
      = emitTailPartial fp dt junk q qHeads side ptrs segmentIdx softmaxScale ws := rfl

variable {side : Sidecar H D F} {fp qHeads}

/-- The emitter stores the tail partial of every query head, whatever the workspace held. It rounds
with the kernels' own rounding only. -/
theorem emitTailPartial_ok (hH : 0 < H) (hD : 0 < D) (hdim : D % groupSize = 0) (hw : side.WF)
    (hrecent : side.recentK ≠ none) (hq : H ∣ qHeads) (junk : Workspace F) (ptrs : PartialPtrs)
    (segmentIdx : ℕ) (ws : Option (Workspace F)) :
    ∃ ws', emitTailPartial fp dt junk q qHeads side ptrs segmentIdx softmaxScale ws
      = .ok ((List.range qHeads).flatMap fun qh => storePartial ptrs D (nextPowerOf2 D)
        (segmentIdx * qHeads + qh) true
        (tailPartial (kernelAttnFp fp) dt q qHeads softmaxScale side qh), ws') := by
  rw [← emitTailPartial_kernelAttnFp]
  rcases hw.open_or_recent hrecent with ⟨openK, vp, vm, vs, rk, rv, rfl⟩ | ⟨rk, rv, rfl⟩
  · obtain ⟨ws', h⟩ := emitTailPartial_open
      (roundsHalfEven_kernelAttnFp fp) hH hD hdim hw junk ws hq
      dt q ptrs segmentIdx softmaxScale
    exact ⟨some ws', h⟩
  · exact ⟨ws, rfl⟩

/-- The lanes of a partial kernel hold the tokens `keys` and `values` of KV head `g`. -/
structure Lanes (keys values : List (Tok H D F)) (g : Fin H) (rows : ℕ) (valid : ℕ → Bool)
    (kval vval : ℕ → ℕ → F) : Prop where
  length_le : keys.length ≤ rows
  valid_eq : ∀ t < rows, valid t = decide (t < keys.length)
  key : ∀ {t : ℕ} {x : Tok H D F}, keys[t]? = some x → ∀ d : Fin D, kval t d = x g d
  value : ∀ {t : ℕ} {x : Tok H D F}, values[t]? = some x → ∀ d : Fin D, vval t d = x g d

end Partial

section Lanes

variable {F : Type} {fp : AttnFp F} {H D : ℕ} {openK recentK recentV : List (Tok H D Bf16)}
  {openVPacked : List (Tok H (vPackedDim D) UInt8)}
  {openVMin openVScale : List (Tok H (vGroups D) F)}

/-- The lanes of the recent tokens without an open group. -/
theorem recent_lanes (hrv : recentV.length = recentK.length) (hle : recentK.length ≤ 4)
    (g : Fin H) :
    Lanes (recentK.map (Tok.map fp.ofB)) (recentV.map (Tok.map fp.ofB)) g 4
      (fun t => decide (t < recentK.length))
      (fun t d => loadBf16 fp (tensorPtr 0 recentK) ((t * H + g) * D + d)
        (decide (t < recentK.length) && decide (d < D)))
      fun t d => loadBf16 fp (tensorPtr 0 recentV) ((t * H + g) * D + d)
        (decide (t < recentK.length) && decide (d < D)) := by
  have hload : ∀ {rows : List (Tok H D Bf16)}, rows.length = recentK.length → ∀ {t : ℕ}
      {x : Tok H D F}, (rows.map (Tok.map fp.ofB))[t]? = some x → ∀ d : Fin D,
      loadBf16 fp (tensorPtr 0 rows) ((t * H + g) * D + d)
        (decide (t < recentK.length) && decide (d.1 < D)) = x g d := by
    intro rows hrows t x hx d
    rw [List.getElem?_map] at hx
    obtain ⟨r, hr, rfl⟩ := Option.map_eq_some_iff.1 hx
    have ht : t < recentK.length := hrows ▸ (List.getElem?_eq_some_iff.1 hr).1
    rw [loadBf16, if_pos (by simp [ht]), tensorPtr_eq hr]
    rfl
  refine ⟨by simpa using hle, fun t _ => by rw [List.length_map], hload rfl, hload hrv⟩

/-- Lanes of decoded open tokens, rounded, and then of recent tokens. -/
theorem tail_lane {old : List (Tok H D F)} {recent : List (Tok H D Bf16)} {g : Fin H}
    {f : ℕ → Fin D → F}
    (hold : ∀ {t : ℕ} {x : Tok H D F}, old[t]? = some x → ∀ d, f t d = fp.ofB (fp.toB (x g d)))
    (hrecent : ∀ {r : ℕ} {x : Tok H D Bf16}, recent[r]? = some x →
      ∀ d, f (old.length + r) d = fp.ofB (x g d))
    {t : ℕ} {x : Tok H D F}
    (hx : ((old.map (Tok.map fp.toB) ++ recent).map (Tok.map fp.ofB))[t]? = some x) (d : Fin D) :
    f t d = x g d := by
  rw [List.getElem?_map] at hx
  obtain ⟨y, hy, rfl⟩ := Option.map_eq_some_iff.1 hx
  rcases Nat.lt_or_ge t old.length with ht | ht
  · rw [List.getElem?_append_left (by rwa [List.length_map]), List.getElem?_map] at hy
    obtain ⟨z, hz, rfl⟩ := Option.map_eq_some_iff.1 hy
    exact hold hz d
  · obtain ⟨r, rfl⟩ := Nat.exists_eq_add_of_le ht
    rw [List.getElem?_append_right (by rwa [List.length_map]), List.length_map,
      Nat.add_sub_cancel_left] at hy
    exact hrecent hy d

/-- The decoded keys of an open group. -/
def openKeys (fp : Fp F Bf16) (openK : List (Tok H D Bf16)) : List (Tok H D F) :=
  dequantizeK3SequenceAffine fp (k3State fp (openK.map (Tok.map fp.ofB)))

/-- The decoded values of an open group. -/
def openValues (fp : Fp F Bf16) (openVPacked : List (Tok H (vPackedDim D) UInt8))
    (openVMin openVScale : List (Tok H (vGroups D) F)) : List (Tok H D F) :=
  dequantizeV2FromPrimary fp openVPacked
    (decodeMetadataUint8Group fp (encodeVMetadata fp openVMin))
    (decodeMetadataUint8Group fp (encodeVMetadata fp openVScale))

theorem length_openKeys (hpos : 0 < openK.length) (hlt : openK.length < groupSize) :
    (openKeys fp.toFp openK).length = openK.length := by
  have hpacked : (k3State fp.toFp (openK.map (Tok.map fp.ofB))).packed.length = groupSize := by
    rw [k3State_packed_open hpos hlt, List.length_map, kCodes, List.length_map,
      length_openGroup hpos hlt]
  have htokens : (k3State fp.toFp (openK.map (Tok.map fp.ofB))).tokens = openK.length :=
    List.length_map ..
  rw [openKeys, dequantizeK3SequenceAffine, List.length_take, List.length_mapIdx, hpacked, htokens]
  omega

theorem length_openValues (openVMin openVScale : List (Tok H (vGroups D) F)) :
    (openValues fp.toFp openVPacked openVMin openVScale).length = openVPacked.length :=
  List.length_mapIdx ..

/-- The lanes of an open group and the recent tokens. -/
theorem open_lanes (hdim : D % groupSize = 0) {qHeads : ℕ}
    (hw : (openSidecar openK openVPacked openVMin openVScale recentK recentV).WF) (g : Fin H) :
    Lanes (((openKeys fp.toFp openK).map (Tok.map fp.toB) ++ recentK).map (Tok.map fp.ofB))
      (((openValues fp.toFp openVPacked openVMin openVScale).map (Tok.map fp.toB)
        ++ recentV).map (Tok.map fp.ofB)) g 64
      (fun t => decide (t < openK.length)
        || decide (openK.length ≤ t ∧ t - openK.length < recentK.length))
      (fun t d => (tailK fp (tailArgs qHeads openK openVPacked recentK recentV) g t d).eval
        (referenceMem fp.toFp openK openVMin openVScale))
      fun t d => (tailV fp (tailArgs qHeads openK openVPacked recentK recentV) g t d).eval
        (referenceMem fp.toFp openK openVMin openVScale) := by
  have hpos : 0 < openK.length := List.length_pos_of_ne_nil fun h0 => hw.openK_ne (congrArg some h0)
  have hlt : openK.length < groupSize := hw.openK_lt
  have hle : recentK.length ≤ residualTokens := hw.recentK_le
  have hrv : recentV.length = recentK.length := Option.some.inj hw.recentV
  have hlp : openVPacked.length = openK.length := Option.some.inj hw.openVPacked
  have hlk : (openKeys fp.toFp openK).length = openK.length := length_openKeys hpos hlt
  have hlv : (openValues fp.toFp openVPacked openVMin openVScale).length = openVPacked.length :=
    length_openValues openVMin openVScale
  refine ⟨?_, fun t _ => ?_,
    tail_lane (f := fun t d => (tailK fp (tailArgs qHeads openK openVPacked recentK recentV) g t
      d).eval (referenceMem fp.toFp openK openVMin openVScale)) (fun {t x} hx d => ?_)
      fun {r x} hx d => ?_,
    tail_lane (f := fun t d => (tailV fp (tailArgs qHeads openK openVPacked recentK recentV) g t
      d).eval (referenceMem fp.toFp openK openVMin openVScale)) (fun {t x} hx d => ?_)
      fun {r x} hx d => ?_⟩
  · rw [List.length_map, List.length_append, List.length_map, hlk]
    unfold groupSize residualTokens at *
    omega
  · rw [List.length_map, List.length_append, List.length_map, hlk, ← Bool.decide_or]
    exact decide_eq_decide.2 (by omega)
  · have ht : t < openK.length := hlk ▸ (List.getElem?_eq_some_iff.1 hx).1
    exact eval_tailK_open ht hlt hx g d
  · have hr := (List.getElem?_eq_some_iff.1 hx).1
    rw [hlk]
    exact (eval_tail_recent hr hx (List.getElem?_eq_getElem (hrv ▸ hr)) _ g d).1
  · have ht : t < openK.length := hlp ▸ hlv ▸ (List.getElem?_eq_some_iff.1 hx).1
    exact eval_tailV_open hdim ht (Option.some.inj hw.openVMin) (Option.some.inj hw.openVScale) hx
      g d
  · have hr : r < recentK.length := hrv ▸ (List.getElem?_eq_some_iff.1 hx).1
    rw [hlv, hlp]
    exact (eval_tail_recent hr (List.getElem?_eq_getElem hr) hx _ g d).2

theorem tailMaterialize_open (hpos : 0 < openK.length) :
    tailMaterialize fp.toFp ⟨fun x => fp.ofB (fp.toB x), fp.ofB⟩
        (openSidecar openK openVPacked openVMin openVScale recentK recentV)
      = .ok (((openKeys fp.toFp openK).map (Tok.map fp.toB) ++ recentK).map (Tok.map fp.ofB),
        ((openValues fp.toFp openVPacked openVMin openVScale).map (Tok.map fp.toB)
          ++ recentV).map (Tok.map fp.ofB)) := by
  have hne : ¬ (openK.map (Tok.map fp.ofB)).length = 0 := by
    rw [List.length_map]
    omega
  simp only [tailMaterialize, decodeOpen, openSidecar, decodeOpenGroup, quantizeK3SequenceAffine,
    if_neg hne, List.map_append, List.map_map]
  rfl

variable {side : Sidecar H D F}

/-- The tokens of the tail in bfloat16, and the tail partials as partials over them. -/
theorem tail_tokens (fp : AttnFp F) (qHeads : ℕ) (hdim : D % groupSize = 0) (hw : side.WF)
    (hrecent : side.recentK ≠ none) :
    ∃ keys values : List (Tok H D Bf16),
      tailMaterialize fp.toFp ⟨fun x => fp.ofB (fp.toB x), fp.ofB⟩ side
        = .ok (keys.map (Tok.map fp.ofB), values.map (Tok.map fp.ofB)) ∧
      keys.length = lenOpt side.openK + lenOpt side.recentK ∧ values.length = keys.length ∧
      ∀ {Q : Type} (dt : QDtype F Q) (q : QueryPtr Q) (softmaxScale : F) (qh : ℕ) (g : Fin H),
        qh / (qHeads / H) = g → ∃ rows valid kval vval,
          tailPartial fp dt q qHeads softmaxScale side qh = partialOf fp rows (nextPowerOf2 D)
            valid softmaxScale (loadQ fp dt q D qh true) kval vval ∧
          Lanes (keys.map (Tok.map fp.ofB)) (values.map (Tok.map fp.ofB)) g rows valid
            kval vval := by
  rcases hw.open_or_recent hrecent with ⟨openK, vp, vm, vs, rk, rv, rfl⟩ | ⟨rk, rv, rfl⟩
  · have hpos : 0 < openK.length :=
      List.length_pos_of_ne_nil fun h0 => hw.openK_ne (congrArg some h0)
    have hlk : (openKeys fp.toFp openK).length = openK.length := length_openKeys hpos hw.openK_lt
    have hlv : (openValues fp.toFp vp vm vs).length = vp.length := length_openValues vm vs
    have hlp : vp.length = openK.length := Option.some.inj hw.openVPacked
    have hrv : rv.length = rk.length := Option.some.inj hw.recentV
    refine ⟨_, _, tailMaterialize_open hpos, ?_, ?_, fun dt q scale qh g hg => ?_⟩
    · rw [List.length_append, List.length_map, hlk]
      rfl
    · rw [List.length_append, List.length_append, List.length_map, List.length_map, hlk, hlv, hlp,
        hrv]
    · refine ⟨_, _, _, _, rfl, ?_⟩
      rw [hg]
      exact open_lanes hdim hw g
  · have hrv : rv.length = rk.length := Option.some.inj hw.recentV
    refine ⟨rk, rv, rfl, (Nat.zero_add _).symm, hrv, fun dt q scale qh g hg => ?_⟩
    refine ⟨_, _, _, _, rfl, ?_⟩
    rw [hg]
    exact recent_lanes hrv hw.recentK_le g

end Lanes

end RabitKV
