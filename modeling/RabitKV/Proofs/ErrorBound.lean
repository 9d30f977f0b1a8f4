import RabitKV.Lib.Affine
import RabitKV.Proofs.Exact

/-!
# How far a decoded entry is from the original

In exact arithmetic no clamp of the quantizers is ever active, so each code is the nearest one. A
primary scale or minimum comes back from its metadata group within `metaError`, and an entry within
half its primary step plus what the errors of the step and of the minimum add up to.
-/

namespace RabitKV

open Affine Chunks

theorem roundHalfEven_nearest {K : Type} [Field K] [LinearOrder K] [IsStrictOrderedRing K]
    [FloorRing K] : Nearest (roundHalfEven : K → ℤ) := by
  intro x
  have hlow := Int.floor_le x
  have hhigh := Int.lt_floor_add_one x
  have hhalf : ((1 / 2 : ℚ) : K) = 1 / 2 := by norm_num
  unfold roundHalfEven
  rw [hhalf]
  split_ifs with h
  · have hfrac : 1 / 2 ≤ x - ⌊x⌋ := by
      rcases h with h | h
      · exact h.le
      · exact h.1.ge
    push_cast
    rw [abs_le]
    constructor <;> linarith
  · have hfrac : x - ⌊x⌋ ≤ 1 / 2 := not_lt.1 fun hc => h (Or.inl hc)
    rw [abs_le]
    constructor <;> linarith

section Exact

variable {B : Type} {toB : ℚ → B} {ofB : B → ℚ}

theorem amin_le_of_mem {l : List ℚ} {x : ℚ} (h : x ∈ l) : (exactFp toB ofB).amin l ≤ x := by
  rcases l with _ | ⟨y, ys⟩
  · cases h
  · exact (List.min?_eq_some_iff.1 List.min?_cons').2 x h

theorem le_amax_of_mem {l : List ℚ} {x : ℚ} (h : x ∈ l) : x ≤ (exactFp toB ofB).amax l := by
  rcases l with _ | ⟨y, ys⟩
  · cases h
  · exact (List.max?_eq_some_iff.1 List.max?_cons').2 x h

/-- The rounded quotient of a code lies in its range without the clamp. -/
def ClampFree (levels : ℕ) (mn scale x : ℚ) : Prop :=
  0 ≤ roundHalfEven ((x - mn) / scale) ∧ roundHalfEven ((x - mn) / scale) ≤ levels

variable (toB ofB) in
theorem affineCode_of_clampFree {levels : ℕ} {mn scale x : ℚ} (h : ClampFree levels mn scale x) :
    ((exactFp toB ofB).affineCode levels mn scale x : ℚ) = roundHalfEven ((x - mn) / scale) := by
  have hclamp : ((exactFp toB ofB).affineCode levels mn scale x : ℤ)
      = max 0 (min (levels : ℤ) (roundHalfEven ((x - mn) / scale))) := by
    rw [Fp.affineCode, Int.toNat_of_nonneg (le_max_left _ _)]
    rfl
  rw [min_eq_right h.2, max_eq_right h.1] at hclamp
  exact_mod_cast hclamp

section Affine

variable {levels : ℕ} {eps mn mx x : ℚ}

variable (toB ofB)

theorem affineScale_exact (levels : ℕ) (eps mn mx : ℚ) :
    (exactFp toB ofB).affineScale levels eps mn mx
      = if |(mx - mn) / levels| < eps then 1 else (mx - mn) / levels := by
  unfold Fp.affineScale
  simp only [exactFp, id, decide_eq_true_eq]

/-- A step is positive, and the range is at most `levels` steps wide. -/
theorem affineScale_spec (hlevels : 0 < levels) (heps : 0 < eps) (heps1 : eps ≤ 1) (hle : mn ≤ mx) :
    0 < (exactFp toB ofB).affineScale levels eps mn mx ∧
      mx - mn ≤ levels * (exactFp toB ofB).affineScale levels eps mn mx := by
  have hpos : (0 : ℚ) < levels := by exact_mod_cast hlevels
  have hquot : 0 ≤ (mx - mn) / levels := div_nonneg (by linarith) hpos.le
  rw [affineScale_exact, abs_of_nonneg hquot]
  split_ifs with h
  · refine ⟨one_pos, ?_⟩
    rw [div_lt_iff₀ hpos] at h
    nlinarith
  · refine ⟨heps.trans_le (not_lt.1 h), ?_⟩
    rw [mul_div_cancel₀ _ hpos.ne']

theorem clampFree_of_mem (hlevels : 0 < levels) (heps : 0 < eps) (heps1 : eps ≤ 1) (hmn : mn ≤ x)
    (hmx : x ≤ mx) : ClampFree levels mn ((exactFp toB ofB).affineScale levels eps mn mx) x := by
  obtain ⟨hpos, hwide⟩ := affineScale_spec toB ofB hlevels heps heps1 (hmn.trans hmx)
  refine ⟨roundHalfEven_nearest.nonneg (div_nonneg (by linarith) hpos.le),
    roundHalfEven_nearest.le_of_le ?_⟩
  rw [div_le_iff₀ hpos]
  linarith

end Affine

variable (toB ofB) in
theorem affineValue_exact (code : ℕ) (scale mn : ℚ) :
    (exactFp toB ofB).affineValue code scale mn = code * scale + mn := rfl

/-- What a value may lose on its way through a metadata group of 64. -/
def metaError (toB : ℚ → B) (ofB : B → ℚ) (g : List ℚ) : ℚ :=
  let m := (exactFp toB ofB).amin g
  let range := (exactFp toB ofB).amax g - m
  if 255 / 10 ^ 12 ≤ range then range / 510 + (range + |m|) / 2 ^ 9 else range + |m| / 2 ^ 9

variable (toB ofB) in
theorem metaScale_exact {g : List ℚ} (hle : (exactFp toB ofB).amin g ≤ (exactFp toB ofB).amax g) :
    metaScale (exactFp toB ofB) g
      = if 255 / 10 ^ 12 ≤ (exactFp toB ofB).amax g - (exactFp toB ofB).amin g
        then ((exactFp toB ofB).amax g - (exactFp toB ofB).amin g) / 255 else 1 := by
  have hpos : 0 ≤ ((exactFp toB ofB).amax g - (exactFp toB ofB).amin g) / 255 := by linarith
  rw [metaScale, affineScale_exact, Nat.cast_ofNat, abs_of_nonneg hpos]
  split_ifs with h1 h2
  · linarith
  · rfl
  · rfl
  · linarith

variable (hrnd : ∀ x, |ofB (toB x) - x| ≤ |x| / 2 ^ 9)

include hrnd

/-- A value comes back from its metadata group within the error of the group. -/
theorem abs_metaValue_sub_le {g : List ℚ} {v : ℚ} (hv : v ∈ g) :
    |metaValue (exactFp toB ofB) g v - v| ≤ metaError toB ofB g := by
  have hmn : (exactFp toB ofB).amin g ≤ v := amin_le_of_mem hv
  have hmx : v ≤ (exactFp toB ofB).amax g := le_amax_of_mem hv
  have hfree : ClampFree 255 ((exactFp toB ofB).amin g) (metaScale (exactFp toB ofB) g) v :=
    clampFree_of_mem toB ofB (by norm_num) (by norm_num) (by norm_num) hmn hmx
  have hcode := affineCode_of_clampFree toB ofB hfree
  have hscale := metaScale_exact toB ofB (hmn.trans hmx)
  have hc : 0 ≤ (roundHalfEven
      ((v - (exactFp toB ofB).amin g) / metaScale (exactFp toB ofB) g) : ℚ) :=
    by exact_mod_cast hfree.1
  have hn : (roundHalfEven ((v - (exactFp toB ofB).amin g) / metaScale (exactFp toB ofB) g) : ℚ)
      ≤ 255 := by exact_mod_cast hfree.2
  rw [metaValue, affineValue_exact, hcode]
  unfold metaError
  dsimp only
  split_ifs at hscale ⊢ with hbig
  · have hpos : 0 < metaScale (exactFp toB ofB) g := by
      rw [hscale]
      linarith
    refine (abs_decode_sub_le hc hn (roundHalfEven_nearest.abs_decode_sub_le hpos) (hrnd _)
      (hrnd _)).trans (le_of_eq ?_)
    rw [abs_of_pos hpos, hscale]
    ring
  · have hzero : roundHalfEven ((v - (exactFp toB ofB).amin g) / metaScale (exactFp toB ofB) g)
      = 0 := by
      rw [hscale, div_one]
      exact roundHalfEven_nearest.eq_zero (by linarith) (by linarith)
    rw [hzero, Int.cast_zero, zero_mul, zero_add]
    have hm := hrnd ((exactFp toB ofB).amin g)
    have hsplit := abs_sub_le (ofB (toB ((exactFp toB ofB).amin g))) ((exactFp toB ofB).amin g) v
    have hdist : |(exactFp toB ofB).amin g - v|
        ≤ (exactFp toB ofB).amax g - (exactFp toB ofB).amin g := by
      rw [abs_sub_comm, abs_of_nonneg (by linarith)]
      linarith
    exact hsplit.trans (by linarith)

/-- A decoded entry with its primary step and minimum through the metadata. -/
theorem abs_entry_sub_le (levels : ℕ) (eps : ℚ) {mn mx x : ℚ}
    (hlevels : 0 < levels) (heps : 0 < eps)
    (heps1 : eps ≤ 1) (hmn : mn ≤ x) (hmx : x ≤ mx) {gs gm : List ℚ}
    (hgs : (exactFp toB ofB).affineScale levels eps mn mx ∈ gs) (hgm : mn ∈ gm) :
    |(exactFp toB ofB).affineValue
        ((exactFp toB ofB).affineCode levels mn ((exactFp toB ofB).affineScale levels eps mn mx) x)
        (metaValue (exactFp toB ofB) gs ((exactFp toB ofB).affineScale levels eps mn mx))
        (metaValue (exactFp toB ofB) gm mn) - x|
      ≤ (exactFp toB ofB).affineScale levels eps mn mx / 2 + levels * metaError toB ofB gs
        + metaError toB ofB gm := by
  have hfree := clampFree_of_mem toB ofB hlevels heps heps1 hmn hmx
  have hpos := (affineScale_spec toB ofB hlevels heps heps1 (hmn.trans hmx)).1
  rw [affineValue_exact, affineCode_of_clampFree toB ofB hfree]
  exact abs_decode_sub_le (by exact_mod_cast hfree.1) (by exact_mod_cast hfree.2)
    (roundHalfEven_nearest.abs_decode_sub_le hpos) (abs_metaValue_sub_le hrnd hgs)
    (abs_metaValue_sub_le hrnd hgm)

end Exact

section Bound

variable {B : Type} {toB : ℚ → B} {ofB : B → ℚ} {H D : ℕ}

/-- No UINT8 code of the metadata is clamped. -/
def MetaClampFree (toB : ℚ → B) (ofB : B → ℚ) (flat : List ℚ) : Prop :=
  ∀ g ∈ chunks metadataGroupSize (padLast (exactFp toB ofB) flat), ∀ v ∈ g,
    ClampFree 255 ((exactFp toB ofB).amin g) (metaScale (exactFp toB ofB) g) v

theorem metaClampFree (toB : ℚ → B) (ofB : B → ℚ) (flat : List ℚ) : MetaClampFree toB ofB flat :=
  fun _ _ _ hv => clampFree_of_mem toB ofB (by norm_num) (by norm_num) (by norm_num)
    (amin_le_of_mem hv) (le_amax_of_mem hv)

theorem k3_clampFree (toB : ℚ → B) (ofB : B → ℚ) {g : List (Tok H D ℚ)} {r : Tok H D ℚ}
    (hr : r ∈ g) (h : Fin H) (d : Fin D) :
    ClampFree 7 (kMin (exactFp toB ofB) g h d) (kScale (exactFp toB ofB) g h d) (r h d) :=
  clampFree_of_mem toB ofB (by norm_num) (by norm_num) (by norm_num)
    (amin_le_of_mem (List.mem_map_of_mem hr)) (le_amax_of_mem (List.mem_map_of_mem hr))

theorem vPad_mem_vGroup {F : Type} (fp : Fp F B) (x : Fin D → F) (d : ℕ) :
    vPad fp x d ∈ vGroup fp x (d / groupSize) := by
  refine List.mem_map.2 ⟨d % groupSize, List.mem_range.2 (Nat.mod_lt _ groupSize_pos), ?_⟩
  rw [Nat.div_add_mod']

theorem v2_clampFree (toB : ℚ → B) (ofB : B → ℚ) (x : Fin D → ℚ) (d : ℕ) :
    ClampFree 3 (vMin (exactFp toB ofB) x (d / groupSize))
      (vScale (exactFp toB ofB) x (d / groupSize)) (vPad (exactFp toB ofB) x d) :=
  clampFree_of_mem toB ofB (by norm_num) (by norm_num) (by norm_num)
    (amin_le_of_mem (vPad_mem_vGroup _ x d)) (le_amax_of_mem (vPad_mem_vGroup _ x d))

/-- The 64 values the minimum or scale `f` of K token `t` at `(h, d)` is coded with. -/
def kMetaGroup {F : Type} (fp : Fp F B) (f : List (Tok H D F) → Tok H D F) (x : List (Tok H D F))
    (t h d : ℕ) : List F :=
  metaGroup fp (flatHeads ((seqGroups fp x).map f)) (kIndex D (seqGroups fp x).length t h d)

/-- The 64 values the minimum or scale `f` of V token `t` at `(h, d)` is coded with. -/
def vMetaGroup {F : Type} (fp : Fp F B) (f : Tok H D F → Tok H (vGroups D) F)
    (x : List (Tok H D F)) (t h d : ℕ) : List F :=
  metaGroup fp (flatTokens (x.map f)) (vIndex H D t h d)

theorem mem_kMetaGroup {F : Type} (fp : Fp F B) (f : List (Tok H D F) → Tok H D F)
    {x g : List (Tok H D F)} {t : ℕ} (hg : (seqGroups fp x)[t / groupSize]? = some g) (h : Fin H)
    (d : Fin D) : f g h d ∈ kMetaGroup fp f x t h d := by
  have hlt : t / groupSize < ((seqGroups fp x).map f).length := by
    rw [List.length_map]
    exact (List.getElem?_eq_some_iff.1 hg).1
  have hflat := getElem?_flatHeads ((seqGroups fp x).map f) h hlt d
  rw [List.getElem?_map, hg, Option.map_some, Option.map_some, List.length_map] at hflat
  exact mem_metaGroup fp hflat

theorem mem_vMetaGroup {F : Type} (fp : Fp F B) (f : Tok H D F → Tok H (vGroups D) F)
    {x : List (Tok H D F)} {t : ℕ} {r : Tok H D F} (ht : x[t]? = some r) (h : Fin H) (d : Fin D) :
    f r h ⟨d / groupSize, vGroup_lt d⟩ ∈ vMetaGroup fp f x t h d := by
  have hflat := getElem?_flatTokens (x.map f) (t := t) h ⟨d / groupSize, vGroup_lt d⟩
  rw [List.getElem?_map, ht, Option.map_some, Option.map_some] at hflat
  exact mem_metaGroup fp hflat

variable (hrnd : ∀ x, |ofB (toB x) - x| ≤ |x| / 2 ^ 9)

include hrnd

/-- An entry of a decoded K region. -/
theorem abs_kRegion_sub_le {x g : List (Tok H D ℚ)} {t : ℕ} {r y : Tok H D ℚ}
    (ht : x[t]? = some r) (hg : (seqGroups (exactFp toB ofB) x)[t / groupSize]? = some g)
    (hy : (kRegion (exactFp toB ofB) x)[t]? = some y) (h : Fin H) (d : Fin D) :
    |y h d - r h d| ≤ kScale (exactFp toB ofB) g h d / 2
      + 7 * metaError toB ofB (kMetaGroup (exactFp toB ofB) (kScale (exactFp toB ofB)) x t h d)
      + metaError toB ofB (kMetaGroup (exactFp toB ofB) (kMin (exactFp toB ofB)) x t h d) := by
  obtain ⟨g', hg', hr⟩ := getElem?_seqGroups (exactFp toB ofB) ht
  obtain rfl : g = g' := Option.some.inj (hg.symm.trans hg')
  have hmem := List.mem_of_getElem? hr
  rw [getElem?_kRegion (exactFp toB ofB) ht hg hr] at hy
  obtain rfl := Option.some.inj hy
  have hmn : kMin (exactFp toB ofB) g h d ≤ r h d := amin_le_of_mem (List.mem_map_of_mem hmem)
  have hmx : r h d ≤ (exactFp toB ofB).amax (g.map fun x => x h d) :=
    le_amax_of_mem (List.mem_map_of_mem hmem)
  have hbound := abs_entry_sub_le hrnd 7 (1 / 10 ^ 8) (by norm_num) (by norm_num) (by norm_num)
    hmn hmx (mem_kMetaGroup (exactFp toB ofB) (kScale (exactFp toB ofB)) hg h d)
    (mem_kMetaGroup (exactFp toB ofB) (kMin (exactFp toB ofB)) hg h d)
  rw [Nat.cast_ofNat] at hbound
  exact hbound

/-- An entry of a decoded V region. -/
theorem abs_vRegion_sub_le {x : List (Tok H D ℚ)} {t : ℕ} {r y : Tok H D ℚ}
    (ht : x[t]? = some r) (hy : (vRegion (exactFp toB ofB) x)[t]? = some y) (h : Fin H)
    (d : Fin D) :
    |y h d - r h d| ≤ vScale (exactFp toB ofB) (r h) (d / groupSize) / 2
      + 3 * metaError toB ofB (vMetaGroup (exactFp toB ofB) (v2Scale (exactFp toB ofB)) x t h d)
      + metaError toB ofB (vMetaGroup (exactFp toB ofB) (v2Min (exactFp toB ofB)) x t h d) := by
  have hmem := vPad_mem_vGroup (exactFp toB ofB) (r h) d
  have hpad : vPad (exactFp toB ofB) (r h) d = r h d := dif_pos d.2
  rw [hpad] at hmem
  rw [getElem?_vRegion (exactFp toB ofB) ht] at hy
  obtain rfl := Option.some.inj hy
  have hbound := abs_entry_sub_le hrnd 3 (1 / 10 ^ 8) (by norm_num) (by norm_num) (by norm_num)
    (amin_le_of_mem hmem) (le_amax_of_mem hmem)
    (mem_vMetaGroup (exactFp toB ofB) (v2Scale (exactFp toB ofB)) ht h d)
    (mem_vMetaGroup (exactFp toB ofB) (v2Min (exactFp toB ofB)) ht h d)
  rw [Nat.cast_ofNat] at hbound
  dsimp only
  rw [vCode, hpad]
  exact hbound

/-- A decoded K entry is within half its primary step, seven times the error of its scale and the
error of its minimum; a decoded V entry likewise with three. No clamp is ever active. -/
theorem rabit2_error_bound :
    (∀ x : List (Tok H D ℚ), x ≠ [] → ∃ st,
      quantizeK3SequenceAffine (exactFp toB ofB) x = .ok st ∧
      (dequantizeK3SequenceAffine (exactFp toB ofB) st).length = x.length ∧
      (∀ t r g y, x[t]? = some r → (seqGroups (exactFp toB ofB) x)[t / groupSize]? = some g →
        (dequantizeK3SequenceAffine (exactFp toB ofB) st)[t]? = some y →
        ∀ (h : Fin H) (d : Fin D), |y h d - r h d| ≤ kScale (exactFp toB ofB) g h d / 2
          + 7 * metaError toB ofB (kMetaGroup (exactFp toB ofB) (kScale (exactFp toB ofB)) x t h d)
          + metaError toB ofB (kMetaGroup (exactFp toB ofB) (kMin (exactFp toB ofB)) x t h d)) ∧
      (∀ g ∈ seqGroups (exactFp toB ofB) x, ∀ r ∈ g, ∀ h d,
        ClampFree 7 (kMin (exactFp toB ofB) g h d) (kScale (exactFp toB ofB) g h d) (r h d)) ∧
      MetaClampFree toB ofB
        (flatHeads ((seqGroups (exactFp toB ofB) x).map (kScale (exactFp toB ofB)))) ∧
      MetaClampFree toB ofB
        (flatHeads ((seqGroups (exactFp toB ofB) x).map (kMin (exactFp toB ofB))))) ∧
    (∀ x : List (Tok H D ℚ), x ≠ [] → ∃ st,
      quantizeV2GroupAffine (exactFp toB ofB) x = .ok st ∧
      (dequantizeV2GroupAffine (exactFp toB ofB) st).length = x.length ∧
      (∀ t r y, x[t]? = some r → (dequantizeV2GroupAffine (exactFp toB ofB) st)[t]? = some y →
        ∀ (h : Fin H) (d : Fin D),
          |y h d - r h d| ≤ vScale (exactFp toB ofB) (r h) (d / groupSize) / 2
          + 3 * metaError toB ofB (vMetaGroup (exactFp toB ofB) (v2Scale (exactFp toB ofB)) x t h d)
          + metaError toB ofB (vMetaGroup (exactFp toB ofB) (v2Min (exactFp toB ofB)) x t h d)) ∧
      (∀ r ∈ x, ∀ h, ∀ d < vPaddedDim D, ClampFree 3
        (vMin (exactFp toB ofB) (r h) (d / groupSize))
        (vScale (exactFp toB ofB) (r h) (d / groupSize)) (vPad (exactFp toB ofB) (r h) d)) ∧
      MetaClampFree toB ofB (flatTokens (x.map (v2Scale (exactFp toB ofB)))) ∧
      MetaClampFree toB ofB (flatTokens (x.map (v2Min (exactFp toB ofB))))) := by
  have hne : ∀ x : List (Tok H D ℚ), x ≠ [] → ¬ x.length = 0 :=
    fun x hx h0 => hx (List.length_eq_zero_iff.1 h0)
  refine ⟨fun x hx => ?_, fun x hx => ?_⟩
  · refine ⟨k3State (exactFp toB ofB) x, if_neg (hne x hx), length_kRegion _ x, ?_, ?_,
      metaClampFree toB ofB _, metaClampFree toB ofB _⟩
    · exact fun t r g y ht hg hy => abs_kRegion_sub_le hrnd ht hg hy
    · exact fun g _ r hr => k3_clampFree toB ofB hr
  · refine ⟨v2State (exactFp toB ofB) x, if_neg (hne x hx), length_vRegion _ x, ?_, ?_,
      metaClampFree toB ofB _, metaClampFree toB ofB _⟩
    · exact fun t r y ht hy => abs_vRegion_sub_le hrnd ht hy
    · exact fun r _ h d _ => v2_clampFree toB ofB (r h) d

end Bound

/-- A rounding that is off by as much as it may be. -/
def upRound (x : ℚ) : ℚ := x + x / 2 ^ 9

theorem upRound_error (x : ℚ) : |id (upRound x) - x| ≤ |x| / 2 ^ 9 := by
  rw [id, upRound, add_sub_cancel_left, abs_div, abs_of_pos (by norm_num : (0 : ℚ) < 2 ^ 9)]

/-- Three tokens of three channels. -/
def threeTokens : List (Tok 1 3 ℚ) :=
  [fun _ d => (d : ℕ), fun _ d => 5 - 2 * (d : ℕ), fun _ d => (9 + d : ℕ)]

theorem rabit2_error_bound_three_tokens :
    (∀ x, |id (upRound x) - x| ≤ |x| / 2 ^ 9) ∧
    (∃ st y g, quantizeK3SequenceAffine (exactFp upRound id) threeTokens = .ok st ∧
      (dequantizeK3SequenceAffine (exactFp upRound id) st)[2]? = some y ∧
      (seqGroups (exactFp upRound id) threeTokens)[0]? = some g ∧
      kScale (exactFp upRound id) g 0 0 = 9 / 7 ∧
      ∀ d : Fin 3, |y 0 d - ((9 + d : ℕ) : ℚ)| ≤ kScale (exactFp upRound id) g 0 d / 2
        + 7 * metaError upRound id (kMetaGroup (exactFp upRound id) (kScale (exactFp upRound id))
            threeTokens 2 0 d)
        + metaError upRound id (kMetaGroup (exactFp upRound id) (kMin (exactFp upRound id))
            threeTokens 2 0 d)) ∧
    ∃ st y, quantizeV2GroupAffine (exactFp upRound id) threeTokens = .ok st ∧
      (dequantizeV2GroupAffine (exactFp upRound id) st)[2]? = some y ∧
      ∀ d : Fin 3, |y 0 d - ((9 + d : ℕ) : ℚ)|
        ≤ vScale (exactFp upRound id) (fun e : Fin 3 => ((9 + e : ℕ) : ℚ)) (d / groupSize) / 2
          + 3 * metaError upRound id (vMetaGroup (exactFp upRound id)
            (v2Scale (exactFp upRound id)) threeTokens 2 0 d)
          + metaError upRound id (vMetaGroup (exactFp upRound id) (v2Min (exactFp upRound id))
            threeTokens 2 0 d) := by
  obtain ⟨hk, hv⟩ := rabit2_error_bound (H := 1) (D := 3) upRound_error
  obtain ⟨st, hst, hlen, hbound, -⟩ := hk threeTokens (List.cons_ne_nil _ _)
  obtain ⟨y, hy⟩ : ∃ y, (dequantizeK3SequenceAffine (exactFp upRound id) st)[2]? = some y :=
    ⟨_, List.getElem?_eq_getElem (by rw [hlen]; decide)⟩
  obtain ⟨st', hst', hlen', hbound', -⟩ := hv threeTokens (List.cons_ne_nil _ _)
  obtain ⟨y', hy'⟩ : ∃ y, (dequantizeV2GroupAffine (exactFp upRound id) st')[2]? = some y :=
    ⟨_, List.getElem?_eq_getElem (by rw [hlen']; decide)⟩
  exact ⟨upRound_error, ⟨st, y, _, hst, hy, rfl, by decide +kernel, hbound 2 _ _ y rfl rfl hy 0⟩,
    st', y', hst', hy', hbound' 2 _ y' rfl hy' 0⟩

end RabitKV
