import RabitKV.Exact
import RabitKV.Storage
import RabitKV.Proofs.Layout
import RabitKV.Proofs.Quant

/-!
# The published bytes are the bytes of the state

Rows of a head dimension divisible by 32 need no rounding, and compressed metadata has the size
`meta` gives it (`metadataStorageBytes_encode`), so the formula and the tensors agree; at whole
pages both are a number of pages.
-/

namespace RabitKV

open Chunks

section Tensors

variable {F B : Type} (fp : Fp F B) {H D : ℕ}

theorem metadataStorageBytes_encode (shape : List ℕ) (flat : List F) :
    metadataStorageBytes (encodeMetadataUint8Group fp shape flat : Metadata B)
      = logicalMeta flat.length := by
  have hs : (encodeMetadataUint8Group fp shape flat : Metadata B).Shaped flat.length :=
    encodeMetadata_shaped fp shape flat
  have hflat : (encodeMetadataUint8Group fp shape flat : Metadata B).codes.flatten.length
      = (encodeMetadataUint8Group fp shape flat : Metadata B).codes.length * metadataGroupSize := by
    rw [← List.flatMap_id]
    exact length_flatMap_of_length (f := id) hs.rows
  have hdiv := add_padTo_div (show 0 < metadataGroupSize by decide) flat.length
  have hmul := Nat.div_mul_cancel (padTo_dvd (show 0 < metadataGroupSize by decide) flat.length)
  simp only [metadataStorageBytes, logicalMeta, hflat, hs.min, hs.scale, hs.codes]
  rw [hdiv] at hmul ⊢
  omega

theorem length_kMeta (x : List (Tok H D F)) (f : List (Tok H D F) → Tok H D F) :
    (flatHeads ((seqGroups fp x).map f)).length
      = H * ((x.length + padTo groupSize x.length) / groupSize) * D := by
  rw [length_flatHeads, List.length_map, length_seqGroups]
  ring

theorem packedRow_three {D : ℕ} (hD : D % groupSize = 0) (rows : ℕ) :
    rows * (H * packedDim D 3) = (rows * H * D * 3 + 7) / 8 := by
  obtain ⟨e, rfl⟩ := Nat.dvd_of_mod_eq_zero hD
  have hdim : packedDim (groupSize * e) 3 = 12 * e := by
    unfold packedDim groupSize
    omega
  have hrow : rows * H * (groupSize * e) * 3 = 8 * (rows * (H * (12 * e))) := by
    unfold groupSize
    ring
  rw [hdim, hrow]
  omega

theorem packedRow_two (D rows : ℕ) :
    rows * (H * vPackedDim D) = (rows * H * (D + padTo groupSize D) * 2 + 7) / 8 := by
  obtain ⟨e, he⟩ := padTo_dvd (show 0 < groupSize by decide) D
  have hdim : packedDim (groupSize * e) 2 = 8 * e := by
    unfold packedDim groupSize
    omega
  have hrow : rows * H * (groupSize * e) * 2 = 8 * (rows * (H * (8 * e))) := by
    unfold groupSize
    ring
  rw [vPackedDim, vPaddedDim_eq, he, hdim, hrow]
  omega

theorem k3State_breakdown (hD : D % groupSize = 0) (x : List (Tok H D F)) :
    let st : K3State H D B := k3State fp x
    (quantizedTensorBreakdown st.packed st.min st.scale).payload
        = ((x.length + padTo groupSize x.length) * H * D * 3 + 7) / 8 ∧
      (quantizedTensorBreakdown st.packed st.min st.scale).metadata
        = 2 * logicalMeta (H * ((x.length + padTo groupSize x.length) / groupSize) * D) := by
  refine ⟨?_, ?_⟩
  · simp only [quantizedTensorBreakdown, Nat.mul_one]
    rw [length_flatTokens, length_k3State_packed_padded, packedRow_three hD]
  · simp only [quantizedTensorBreakdown, k3State]
    rw [metadataStorageBytes_encode, metadataStorageBytes_encode, length_kMeta, length_kMeta]
    ring

theorem v2State_breakdown (x : List (Tok H D F)) :
    let st : V2State H D B := v2State fp x
    (quantizedTensorBreakdown st.packed st.min st.scale).payload
        = (x.length * H * (D + padTo groupSize D) * 2 + 7) / 8 ∧
      (quantizedTensorBreakdown st.packed st.min st.scale).metadata
        = 2 * logicalMeta (x.length * H * ((D + padTo groupSize D) / groupSize)) := by
  have hgroups : vGroups D = (D + padTo groupSize D) / groupSize :=
    (add_padTo_div (show 0 < groupSize by decide) D).symm
  refine ⟨?_, ?_⟩
  · simp only [quantizedTensorBreakdown, v2State, Nat.mul_one]
    rw [length_flatTokens, List.length_map, packedRow_two]
  · simp only [quantizedTensorBreakdown, v2State]
    rw [metadataStorageBytes_encode, metadataStorageBytes_encode, length_flatTokens,
      length_flatTokens, List.length_map, List.length_map, ← hgroups, Nat.mul_assoc]
    ring

end Tensors

section State

variable {F B E : Type} (fp : Fp F B) {H D : ℕ} (toF : E → F) (toB : E → B)

theorem quantizeRabit2KvFrom_ok {key value : List (Tok H D E)} (hlen : key.length = value.length) :
    ∃ st, quantizeRabit2KvFrom fp toF toB key value = .ok st ∧
      st.oldK = (if key.length - min key.length residualTokens = 0 then none else
        some (k3State fp ((key.take (key.length - min key.length residualTokens)).map
          (Tok.map toF)))) ∧
      st.oldV = (if key.length - min key.length residualTokens = 0 then none else
        some (v2State fp ((value.take (key.length - min key.length residualTokens)).map
          (Tok.map toF)))) ∧
      st.recentK.length = min key.length residualTokens ∧
      st.recentV.length = min key.length residualTokens := by
  unfold quantizeRabit2KvFrom
  rw [if_neg (not_not.2 hlen)]
  by_cases h0 : key.length - min key.length residualTokens = 0
  · simp only [h0, if_true]
    exact ⟨_, rfl, rfl, rfl, by simp; omega, by simp; omega⟩
  · have hk : ((key.take (key.length - min key.length residualTokens)).map
        (Tok.map toF)).length ≠ 0 := by
      rw [List.length_map, List.length_take]
      omega
    have hv : ((value.take (key.length - min key.length residualTokens)).map
        (Tok.map toF)).length ≠ 0 := by
      rw [List.length_map, List.length_take]
      omega
    simp only [h0, if_false, quantizeK3SequenceAffine, quantizeV2GroupAffine, if_neg hk, if_neg hv]
    exact ⟨_, rfl, rfl, rfl, by simp; omega, by simp; omega⟩

/-- One layer of the formula is the storage of the state. -/
theorem quantizeRabit2KvFrom_storage (hdim : D % groupSize = 0) {key value : List (Tok H D E)}
    {n : ℕ} (hk : key.length = n) (hv : value.length = n) :
    ∃ st, quantizeRabit2KvFrom fp toF toB key value = .ok st ∧
      rabit2StateStorageBytes st =
        { payload := (logicalBytes n 1 H D).kPayload + (logicalBytes n 1 H D).vPayload
          metadata := (logicalBytes n 1 H D).kMeta + (logicalBytes n 1 H D).vMeta
          residual := (logicalBytes n 1 H D).residual
          total := (logicalBytes n 1 H D).total } := by
  obtain ⟨st, hst, hoK, hoV, hrK, hrV⟩ :=
    quantizeRabit2KvFrom_ok fp toF toB (hk.trans hv.symm)
  refine ⟨st, hst, ?_⟩
  rw [hk] at hoK hoV hrK hrV
  have hres : (flatTokens st.recentK).length * 2 + (flatTokens st.recentV).length * 2
      = min n residualTokens * H * D * 2 * 2 := by
    rw [length_flatTokens, length_flatTokens, hrK, hrV]
    ring
  by_cases h0 : n - min n residualTokens = 0
  · rw [if_pos h0] at hoK hoV
    simp [rabit2StateStorageBytes, logicalBytes, hoK, hoV, h0, hres]
  · rw [if_neg h0] at hoK hoV
    have hlenK : ((key.take (n - min n residualTokens)).map (Tok.map toF)).length
        = n - min n residualTokens := by
      rw [List.length_map, List.length_take]
      omega
    have hlenV : ((value.take (n - min n residualTokens)).map (Tok.map toF)).length
        = n - min n residualTokens := by
      rw [List.length_map, List.length_take]
      omega
    have hK := k3State_breakdown fp hdim ((key.take (n - min n residualTokens)).map (Tok.map toF))
    have hV := v2State_breakdown fp ((value.take (n - min n residualTokens)).map (Tok.map toF))
    simp only [hlenK, hlenV] at hK hV
    simp only [rabit2StateStorageBytes, logicalBytes, hoK, hoV, hres, hK, hV, ne_eq, h0,
      not_false_eq_true, if_true, Nat.one_mul, StorageBytes.mk.injEq, true_and]
    omega

end State

section Pages

theorem logicalMeta_mul (c : ℕ) : logicalMeta (metadataGroupSize * c) = 68 * c := by
  simp only [logicalMeta, padTo_eq_zero (Nat.dvd_mul_right metadataGroupSize c)]
  unfold metadataGroupSize
  omega

theorem rabit2EncodedMetadataBytes_mul (c : ℕ) :
    rabit2EncodedMetadataBytes (metadataGroupSize * c) = 68 * c := by
  unfold rabit2EncodedMetadataBytes cdiv metadataGroupSize
  split <;> omega

theorem pageBytes_of_groups {H e m : ℕ} (hm : H * e = 2 * m) :
    (pageLayout 32 H (groupSize * e) (groupSize * e)).pageBytes = 1552 * m := by
  have hcdiv : cdiv (groupSize * e) groupSize = e := by
    unfold cdiv groupSize
    omega
  have hthree : 32 * H * packedDim (groupSize * e) 3 = 768 * m := by
    calc 32 * H * packedDim (groupSize * e) 3 = 384 * (H * e) := by
          rw [show packedDim (groupSize * e) 3 = 12 * e by unfold packedDim groupSize; omega]
          ring
      _ = 768 * m := by omega
  have htwo : 32 * H * packedDim (e * groupSize) 2 = 512 * m := by
    calc 32 * H * packedDim (e * groupSize) 2 = 256 * (H * e) := by
          rw [show packedDim (e * groupSize) 2 = 8 * e by unfold packedDim groupSize; omega]
          ring
      _ = 512 * m := by omega
  have hk : 32 / groupSize * H * (groupSize * e) = metadataGroupSize * m := by
    calc 32 / groupSize * H * (groupSize * e) = 32 * (H * e) := by
          unfold groupSize
          ring
      _ = metadataGroupSize * m := by
          unfold metadataGroupSize
          omega
  have hv : 32 * H * e = metadataGroupSize * m := by
    rw [Nat.mul_assoc, hm]
    unfold metadataGroupSize
    omega
  simp only [pageLayout, hcdiv, hthree, htwo, hk, hv, rabit2EncodedMetadataBytes_mul]
  omega

/-- The bytes of one layer's old region when it is `P` whole groups of tokens. -/
theorem logicalBytes_old {H e m P n : ℕ} (hm : H * e = 2 * m) (hn : n = groupSize * P + 4)
    (hP : 0 < P) :
    (logicalBytes n 1 H (groupSize * e)).kPayload + (logicalBytes n 1 H (groupSize * e)).vPayload
      + (logicalBytes n 1 H (groupSize * e)).kMeta + (logicalBytes n 1 H (groupSize * e)).vMeta
      = P * (1552 * m) := by
  have hold : n - min n residualTokens = groupSize * P := by
    unfold residualTokens
    omega
  have hne : groupSize * P ≠ 0 := by
    unfold groupSize
    omega
  have hD : groupSize * e % groupSize = 0 := Nat.mul_mod_right _ _
  have hdim : vPackedDim (groupSize * e) = 8 * e := by
    unfold vPackedDim vPaddedDim vGroups packedDim groupSize
    omega
  have hthree : (groupSize * P * H * (groupSize * e) * 3 + 7) / 8 = 768 * (P * m) := by
    rw [← packedRow_three hD]
    calc groupSize * P * (H * packedDim (groupSize * e) 3) = 384 * P * (H * e) := by
          rw [show packedDim (groupSize * e) 3 = 12 * e by unfold packedDim groupSize; omega]
          unfold groupSize
          ring
      _ = 768 * (P * m) := by
          rw [hm]
          ring
  have htwo : (groupSize * P * H * (groupSize * e + padTo groupSize (groupSize * e)) * 2 + 7) / 8
      = 512 * (P * m) := by
    rw [← packedRow_two, hdim]
    calc groupSize * P * (H * (8 * e)) = 256 * P * (H * e) := by
          unfold groupSize
          ring
      _ = 512 * (P * m) := by
          rw [hm]
          ring
  have hk : H * (groupSize * P / groupSize) * (groupSize * e) = metadataGroupSize * (P * m) := by
    rw [Nat.mul_div_cancel_left P (by decide)]
    calc H * P * (groupSize * e) = 32 * P * (H * e) := by
          unfold groupSize
          ring
      _ = metadataGroupSize * (P * m) := by
          rw [hm]
          unfold metadataGroupSize
          ring
  have hv : groupSize * P * H * (groupSize * e / groupSize) = metadataGroupSize * (P * m) := by
    rw [Nat.mul_div_cancel_left e (by decide)]
    calc groupSize * P * H * e = 32 * P * (H * e) := by
          unfold groupSize
          ring
      _ = metadataGroupSize * (P * m) := by
          rw [hm]
          unfold metadataGroupSize
          ring
  have hpad : padTo groupSize (groupSize * e) = 0 := padTo_eq_zero (Nat.dvd_mul_right _ _)
  have hpadP : padTo groupSize (groupSize * P) = 0 := padTo_eq_zero (Nat.dvd_mul_right _ _)
  simp only [hpad, Nat.add_zero] at htwo
  simp only [logicalBytes, hold, ne_eq, hne, not_false_eq_true, if_true, hpad, hpadP, Nat.add_zero,
    hthree, htwo, hk, hv, logicalMeta_mul, Nat.one_mul]
  ring

end Pages

/-- `logical_bytes` reports the bytes of the state of any sequence, layer by layer, and at whole
pages the bytes of its pages. -/
theorem logicalBytes_eq_storage {F B : Type} (fp : Fp F B) {H D : ℕ} (hH : 0 < H) (hD : 0 < D)
    (hdim : D % 32 = 0) (n layers : ℕ) :
    (∀ {E : Type} (toF : E → F) (toB : E → B) (key value : List (Tok H D E)), key.length = n →
      value.length = n → ∃ st, quantizeRabit2KvFrom fp toF toB key value = .ok st ∧
        (logicalBytes n layers H D).kPayload + (logicalBytes n layers H D).vPayload
          = layers * (rabit2StateStorageBytes st).payload ∧
        (logicalBytes n layers H D).kMeta + (logicalBytes n layers H D).vMeta
          = layers * (rabit2StateStorageBytes st).metadata ∧
        (logicalBytes n layers H D).residual = layers * (rabit2StateStorageBytes st).residual ∧
        (logicalBytes n layers H D).total = layers * (rabit2StateStorageBytes st).total) ∧
      (36 ≤ n → (n - 4) % 32 = 0 → H * D % 64 = 0 →
        ∃ layout, rabit2PageLayout 32 H D D = .ok layout ∧
          (logicalBytes n layers H D).total - (logicalBytes n layers H D).residual
            = layers * ((n - 4) / 32) * layout.pageBytes ∧
          4 * layout.pageBytes = 97 * H * D) := by
  refine ⟨fun toF toB key value hk hv => ?_, fun hn36 hmod hHD => ?_⟩
  · obtain ⟨st, hst, hbytes⟩ := quantizeRabit2KvFrom_storage fp toF toB hdim hk hv
    refine ⟨st, hst, ?_⟩
    rw [hbytes]
    simp only [logicalBytes, Nat.one_mul]
    exact ⟨by ring, by ring, trivial, by ring⟩
  · obtain ⟨e, rfl⟩ := Nat.dvd_of_mod_eq_zero hdim
    obtain ⟨m, hm⟩ : ∃ m, H * e = 2 * m := by
      have hassoc : H * (32 * e) = 32 * (H * e) := by ring
      rw [hassoc] at hHD
      exact ⟨H * e / 2, by omega⟩
    obtain ⟨P, hP⟩ : ∃ P, n - 4 = 32 * P := Nat.dvd_of_mod_eq_zero hmod
    have hdiv : (n - 4) / 32 = P := by omega
    have hpage : (pageLayout 32 H (32 * e) (32 * e)).pageBytes = 1552 * m := pageBytes_of_groups hm
    have hold := logicalBytes_old hm (n := n) (P := P) (by unfold groupSize; omega) (by omega)
    have hlayout : rabit2PageLayout 32 H (32 * e) (32 * e)
        = .ok (pageLayout 32 H (32 * e) (32 * e)) := by
      unfold rabit2PageLayout
      rw [if_neg (by decide), if_neg (by omega), if_neg (by omega)]
      rfl
    refine ⟨_, hlayout, ?_, ?_⟩
    · have hlayers : (logicalBytes n layers H (32 * e)).total
          - (logicalBytes n layers H (32 * e)).residual
          = layers * ((logicalBytes n 1 H (32 * e)).kPayload
            + (logicalBytes n 1 H (32 * e)).vPayload
            + (logicalBytes n 1 H (32 * e)).kMeta + (logicalBytes n 1 H (32 * e)).vMeta) := by
        simp only [logicalBytes, Nat.add_sub_cancel, Nat.one_mul]
        ring
      rw [hlayers, hdiv, hpage, Nat.mul_assoc]
      exact congrArg (layers * ·) hold
    · calc 4 * (pageLayout 32 H (32 * e) (32 * e)).pageBytes = 97 * 32 * (2 * m) := by
            rw [hpage]
            ring
        _ = 97 * H * (32 * e) := by
            rw [← hm]
            ring

theorem logicalBytes_eq_storage_one_page :
    (∃ st : Rabit2Kv 2 32 Bf16, quantizeRabit2KvFrom ratFp id ratFp.toB
        (List.replicate 36 fun _ _ => 0) (List.replicate 36 fun _ _ => 0) = .ok st ∧
      (logicalBytes 36 3 2 32).kPayload + (logicalBytes 36 3 2 32).vPayload
        = 3 * (rabit2StateStorageBytes st).payload ∧
      (logicalBytes 36 3 2 32).kMeta + (logicalBytes 36 3 2 32).vMeta
        = 3 * (rabit2StateStorageBytes st).metadata ∧
      (logicalBytes 36 3 2 32).residual = 3 * (rabit2StateStorageBytes st).residual ∧
      (logicalBytes 36 3 2 32).total = 3 * (rabit2StateStorageBytes st).total) ∧
      ∃ layout, rabit2PageLayout 32 2 32 32 = .ok layout ∧
        (logicalBytes 36 3 2 32).total - (logicalBytes 36 3 2 32).residual
          = 3 * ((36 - 4) / 32) * layout.pageBytes ∧
        4 * layout.pageBytes = 97 * 2 * 32 := by
  obtain ⟨hstate, hpages⟩ := logicalBytes_eq_storage ratFp (show 0 < 2 by decide)
    (show 0 < 32 by decide) (by decide) 36 3
  exact ⟨hstate id ratFp.toB _ _ List.length_replicate List.length_replicate,
    hpages (by decide) (by decide) (by decide)⟩

end RabitKV
