import RabitKV.Proofs.ErrorBound

/-!
# Quantization keeps the order inside a group

A step that is coded with 63 unrelated steps comes back positive: the minimum of the group is
positive, and the code only adds to it (`metaDecoded_pos`). So a decoded entry grows with its code,
and the code with the entry.
-/

namespace RabitKV

open Affine Chunks

section Exact

variable {B : Type} (toB : ℚ → B) (ofB : B → ℚ)

theorem affineCode_mono {levels : ℕ} {mn scale x y : ℚ} (hs : 0 < scale) (hxy : x ≤ y) :
    (exactFp toB ofB).affineCode levels mn scale x
      ≤ (exactFp toB ofB).affineCode levels mn scale y := by
  have hquot : (x - mn) / scale ≤ (y - mn) / scale := by gcongr
  have hround := roundHalfEven_nearest.monotone hquot
  refine Int.toNat_le_toNat ?_
  exact max_le_max le_rfl (min_le_min le_rfl hround)

variable {toB ofB} (hpos : ∀ x, 0 < x → 0 < ofB (toB x))

include hpos

/-- A positive value of a positive group comes back positive. -/
theorem metaValue_pos {g : List ℚ} (hg : ∀ v ∈ g, 0 < v) {v : ℚ} (hv : v ∈ g) :
    0 < metaValue (exactFp toB ofB) g v := by
  have hmin : 0 < (exactFp toB ofB).amin g := by
    rcases g with _ | ⟨y, ys⟩
    · cases hv
    · exact hg _ (List.min?_eq_some_iff.1 List.min?_cons').1
  have hle : (exactFp toB ofB).amin g ≤ (exactFp toB ofB).amax g :=
    (amin_le_of_mem hv).trans (le_amax_of_mem hv)
  have hscale : 0 < metaScale (exactFp toB ofB) g :=
    (affineScale_spec toB ofB (by norm_num) (by norm_num) (by norm_num) hle).1
  rw [metaValue, affineValue_exact]
  exact add_pos_of_nonneg_of_pos (mul_nonneg (Nat.cast_nonneg _) (hpos _ hscale).le) (hpos _ hmin)

theorem metaDecoded_pos {flat : List ℚ} (hflat : ∀ v ∈ flat, 0 < v) :
    ∀ v ∈ metaDecoded (exactFp toB ofB) flat, 0 < v := by
  have hpad : ∀ v ∈ padLast (exactFp toB ofB) flat, 0 < v := by
    intro v hv
    rcases List.mem_append.1 hv with hv | hv
    · exact hflat v hv
    · obtain ⟨hne, rfl⟩ := List.mem_replicate.1 hv
      rcases flat.eq_nil_or_concat with rfl | ⟨l, a, rfl⟩
      · exact absurd rfl hne
      · rw [List.concat_eq_append, List.getLast?_concat]
        exact hflat a (by simp)
  intro v hv
  obtain ⟨g, hg, hvg⟩ := List.exists_of_mem_flatMap (List.mem_of_mem_take hv)
  rw [groupDecoded_eq] at hvg
  obtain ⟨w, hw, rfl⟩ := List.mem_map.1 hvg
  exact metaValue_pos hpos (fun u hu => hpad u (mem_of_mem_chunks hg hu)) hw

end Exact

section Regions

variable {B : Type} {toB : ℚ → B} {ofB : B → ℚ} {H D : ℕ}

theorem kScale_pos (g : List (Tok H D ℚ)) (hg : g ≠ []) (h : Fin H) (d : Fin D) :
    0 < kScale (exactFp toB ofB) g h d := by
  obtain ⟨r, hr⟩ := List.exists_mem_of_ne_nil g hg
  have hmem := List.mem_map_of_mem (f := fun x : Tok H D ℚ => x h d) hr
  exact (affineScale_spec toB ofB (by norm_num) (by norm_num) (by norm_num)
    ((amin_le_of_mem hmem).trans (le_amax_of_mem hmem))).1

theorem vScale_pos (x : Fin D → ℚ) (g : ℕ) : 0 < vScale (exactFp toB ofB) x g := by
  have hmem : vPad (exactFp toB ofB) x (g * groupSize) ∈ vGroup (exactFp toB ofB) x g :=
    List.mem_map.2 ⟨0, by decide, rfl⟩
  exact (affineScale_spec toB ofB (by norm_num) (by norm_num) (by norm_num)
    ((amin_le_of_mem hmem).trans (le_amax_of_mem hmem))).1

variable (toB ofB) in
theorem kScales_pos (x : List (Tok H D ℚ)) :
    ∀ v ∈ flatHeads ((seqGroups (exactFp toB ofB) x).map (kScale (exactFp toB ofB))), 0 < v := by
  intro v hv
  simp only [flatHeads, List.mem_flatMap, List.mem_map, List.mem_ofFn] at hv
  obtain ⟨h, -, r, ⟨g, hg, rfl⟩, d, rfl⟩ := hv
  refine kScale_pos g (fun hnil => ?_) h d
  have hlen := length_of_mem_seqGroups (exactFp toB ofB) hg
  rw [hnil] at hlen
  cases hlen

variable (toB ofB) in
theorem vScales_pos (x : List (Tok H D ℚ)) :
    ∀ v ∈ flatTokens (x.map (v2Scale (exactFp toB ofB))), 0 < v := by
  intro v hv
  simp only [flatTokens, List.mem_flatMap, List.mem_map, List.mem_ofFn] at hv
  obtain ⟨r, ⟨t, -, rfl⟩, h, -, g, rfl⟩ := hv
  exact vScale_pos (t h) g

/-- Two values coded alike keep their order when the decoded step is positive. -/
theorem affineValue_mono {levels : ℕ} {mn scale scale' mn' x y : ℚ} (hs : 0 < scale)
    (hs' : 0 < scale') (hxy : x ≤ y) :
    (exactFp toB ofB).affineValue ((exactFp toB ofB).affineCode levels mn scale x) scale' mn'
      ≤ (exactFp toB ofB).affineValue
        ((exactFp toB ofB).affineCode levels mn scale y) scale' mn' := by
  have hcode : ((exactFp toB ofB).affineCode levels mn scale x : ℚ)
      ≤ (exactFp toB ofB).affineCode levels mn scale y := by
    exact_mod_cast affineCode_mono toB ofB hs hxy
  rw [affineValue_exact, affineValue_exact]
  gcongr

variable (hpos : ∀ x, 0 < x → 0 < ofB (toB x))

include hpos

/-- A decoded step of one group of the metadata is positive. -/
theorem metaGroup_value_pos {flat : List ℚ} (hflat : ∀ v ∈ flat, 0 < v) {i : ℕ} {v : ℚ}
    (hi : flat[i]? = some v) :
    0 < metaValue (exactFp toB ofB) (metaGroup (exactFp toB ofB) flat i) v := by
  refine metaDecoded_pos hpos hflat _ (List.mem_of_getElem? (i := i) ?_)
  rw [getElem?_metaDecoded _ (List.getElem?_eq_some_iff.1 hi).1, hi, Option.map_some]

theorem kRegion_mono {x : List (Tok H D ℚ)} {i j : ℕ} (hij : i / groupSize = j / groupSize)
    {ri rj yi yj : Tok H D ℚ} (hi : x[i]? = some ri) (hj : x[j]? = some rj)
    (hyi : (kRegion (exactFp toB ofB) x)[i]? = some yi)
    (hyj : (kRegion (exactFp toB ofB) x)[j]? = some yj) (h : Fin H) (d : Fin D)
    (hle : ri h d ≤ rj h d) : yi h d ≤ yj h d := by
  obtain ⟨g, hg, hri⟩ := getElem?_seqGroups (exactFp toB ofB) hi
  obtain ⟨g', hg', hrj⟩ := getElem?_seqGroups (exactFp toB ofB) hj
  obtain rfl : g = g' := Option.some.inj (hg.symm.trans (hij ▸ hg'))
  rw [getElem?_kRegion (exactFp toB ofB) hi hg hri] at hyi
  rw [getElem?_kRegion (exactFp toB ofB) hj hg' hrj] at hyj
  obtain rfl := Option.some.inj hyi
  obtain rfl := Option.some.inj hyj
  have hindex : kIndex D (seqGroups (exactFp toB ofB) x).length j h d
      = kIndex D (seqGroups (exactFp toB ofB) x).length i h d := by
    rw [kIndex, kIndex, hij]
  have hflat := getElem?_flatHeads
    ((seqGroups (exactFp toB ofB) x).map (kScale (exactFp toB ofB))) h
    (g := i / groupSize) (by
      rw [List.length_map]
      exact (List.getElem?_eq_some_iff.1 hg).1) d
  rw [List.getElem?_map, hg, Option.map_some, Option.map_some, List.length_map] at hflat
  have hne : g ≠ [] := List.ne_nil_of_mem (List.mem_of_getElem? hri)
  dsimp only
  rw [hindex]
  exact affineValue_mono (kScale_pos g hne h d)
    (metaGroup_value_pos hpos (kScales_pos toB ofB x) hflat) hle

theorem vRegion_mono {x : List (Tok H D ℚ)} {t : ℕ} {r y : Tok H D ℚ} (ht : x[t]? = some r)
    (hy : (vRegion (exactFp toB ofB) x)[t]? = some y) (h : Fin H) {d d' : Fin D}
    (hd : d.1 / groupSize = d'.1 / groupSize) (hle : r h d ≤ r h d') : y h d ≤ y h d' := by
  rw [getElem?_vRegion (exactFp toB ofB) ht] at hy
  obtain rfl := Option.some.inj hy
  have hindex : vIndex H D t h d' = vIndex H D t h d := by
    rw [vIndex, vIndex, hd]
  have hflat := getElem?_flatTokens (x.map (v2Scale (exactFp toB ofB))) (t := t) h
    ⟨d / groupSize, vGroup_lt d⟩
  rw [List.getElem?_map, ht, Option.map_some, Option.map_some] at hflat
  have hpad : ∀ d : Fin D, vPad (exactFp toB ofB) (r h) d = r h d := fun d => dif_pos d.2
  dsimp only
  rw [hindex, vCode, vCode, hpad, hpad, ← hd]
  exact affineValue_mono (vScale_pos (r h) _)
    (metaGroup_value_pos hpos (vScales_pos toB ofB x) hflat) hle

/-- Inside a group the decoded entries are ordered as the entries, K by tokens and V by channels,
and no decoded step is zero or negative. -/
theorem rabit2_order_preserved :
    (∀ x : List (Tok H D ℚ), x ≠ [] → ∃ st,
      quantizeK3SequenceAffine (exactFp toB ofB) x = .ok st ∧
      (dequantizeK3SequenceAffine (exactFp toB ofB) st).length = x.length ∧
      (∀ (i j : ℕ) (ri rj yi yj : Tok H D ℚ), i / groupSize = j / groupSize →
        x[i]? = some ri → x[j]? = some rj →
        (dequantizeK3SequenceAffine (exactFp toB ofB) st)[i]? = some yi →
        (dequantizeK3SequenceAffine (exactFp toB ofB) st)[j]? = some yj →
        ∀ (h : Fin H) (d : Fin D), ri h d ≤ rj h d → yi h d ≤ yj h d) ∧
      ∀ s ∈ decodeMetadataUint8Group (exactFp toB ofB) st.scale, 0 < s) ∧
    (∀ x : List (Tok H D ℚ), x ≠ [] → ∃ st,
      quantizeV2GroupAffine (exactFp toB ofB) x = .ok st ∧
      (dequantizeV2GroupAffine (exactFp toB ofB) st).length = x.length ∧
      (∀ (t : ℕ) (r y : Tok H D ℚ), x[t]? = some r →
        (dequantizeV2GroupAffine (exactFp toB ofB) st)[t]? = some y →
        ∀ (h : Fin H) (d d' : Fin D), d.1 / groupSize = d'.1 / groupSize → r h d ≤ r h d' →
          y h d ≤ y h d') ∧
      ∀ s ∈ decodeMetadataUint8Group (exactFp toB ofB) st.scale, 0 < s) := by
  have hne : ∀ x : List (Tok H D ℚ), x ≠ [] → ¬ x.length = 0 :=
    fun x hx h0 => hx (List.length_eq_zero_iff.1 h0)
  refine ⟨fun x hx => ?_, fun x hx => ?_⟩
  · refine ⟨k3State (exactFp toB ofB) x, if_neg (hne x hx), length_kRegion _ x, ?_, ?_⟩
    · exact fun i j ri rj yi yj hij hi hj hyi hyj => kRegion_mono hpos hij hi hj hyi hyj
    · rw [k3State, decodeMetadata_encode]
      exact metaDecoded_pos hpos (kScales_pos toB ofB x)
  · refine ⟨v2State (exactFp toB ofB) x, if_neg (hne x hx), length_vRegion _ x, ?_, ?_⟩
    · exact fun t r y ht hy h d d' => vRegion_mono hpos ht hy h
    · rw [v2State, decodeMetadata_encode]
      exact metaDecoded_pos hpos (vScales_pos toB ofB x)

end Regions

theorem rabit2_order_preserved_two_channels :
    (∀ x, 0 < x → 0 < id (upRound x)) ∧
    ∃ st y, quantizeV2GroupAffine (exactFp upRound id) [fun (_ : Fin 1) (d : Fin 2) => (d : ℚ)]
        = .ok st ∧
      (dequantizeV2GroupAffine (exactFp upRound id) st)[0]? = some y ∧ y 0 0 ≤ y 0 1 := by
  have hpos : ∀ x, 0 < x → 0 < id (upRound x) := by
    intro x hx
    rw [id, upRound]
    positivity
  obtain ⟨st, hst, hlen, horder, -⟩ := (rabit2_order_preserved (H := 1) (D := 2) hpos).2
    [fun _ d => (d : ℚ)] (List.cons_ne_nil _ _)
  obtain ⟨y, hy⟩ : ∃ y, (dequantizeV2GroupAffine (exactFp upRound id) st)[0]? = some y :=
    ⟨_, List.getElem?_eq_getElem (by rw [hlen]; decide)⟩
  exact ⟨hpos, st, y, hst, hy, horder 0 _ y rfl hy 0 0 1 rfl (by norm_num)⟩

end RabitKV
