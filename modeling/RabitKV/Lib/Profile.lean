import Mathlib

/-!
# Step functions on the line

A list of events, each a time and a jump, has a level at every time: the sum of the jumps so far.
Where a function is constant up to the next event, the length of the times at which it has a
property, and the longest stretch of them, grow by one step.
-/

namespace Profile

open MeasureTheory Set

section Level

/-- The sum of the jumps up to and including time `t`. -/
noncomputable def level (es : List (ℚ × ℤ)) (t : ℝ) : ℤ :=
  (es.map fun e => if (e.1 : ℝ) ≤ t then e.2 else 0).sum

variable {es es' : List (ℚ × ℤ)} {t : ℝ}

theorem level_append (es es' : List (ℚ × ℤ)) (t : ℝ) :
    level (es ++ es') t = level es t + level es' t := by
  simp [level]

theorem level_perm (h : es.Perm es') (t : ℝ) : level es t = level es' t :=
  (h.map _).sum_eq

theorem level_of_le (h : ∀ e ∈ es, (e.1 : ℝ) ≤ t) : level es t = (es.map Prod.snd).sum := by
  unfold level
  congr 1
  exact List.map_congr_left fun e he => if_pos (h e he)

theorem level_of_lt (h : ∀ e ∈ es, t < e.1) : level es t = 0 := by
  have hzero : es.map (fun e => if (e.1 : ℝ) ≤ t then e.2 else 0) = es.map fun _ => 0 :=
    List.map_congr_left fun e he => if_neg (h e he).not_ge
  rw [level, hzero]
  simp

/-- A level of positive jumps is not negative. -/
theorem level_nonneg (h : ∀ e ∈ es, (e.1 : ℝ) ≤ t → 0 ≤ e.2) : 0 ≤ level es t := by
  refine List.sum_nonneg fun v hv => ?_
  obtain ⟨e, he, rfl⟩ := List.mem_map.1 hv
  split_ifs with hle
  · exact h e he hle
  · exact le_rfl

end Level

section Length

variable (f : ℝ → ℤ) (P : ℤ → Prop)

/-- The total length of the times in `[a, b)` at which `f` has property `P`. -/
noncomputable def lengthWhere (a b : ℝ) : ℝ := volume.real {t | t ∈ Ico a b ∧ P (f t)}

theorem lengthWhere_self (a : ℝ) : lengthWhere f P a a = 0 := by
  simp [lengthWhere]

variable {f} {a b c : ℝ} {k : ℤ}

theorem lengthWhere_extend [Decidable (P k)] (hab : a ≤ b) (hbc : b ≤ c)
    (hk : ∀ t ∈ Ico b c, f t = k) :
    lengthWhere f P a c = lengthWhere f P a b + if P k then c - b else 0 := by
  have hIco : ∀ x y : ℝ, volume (Ico x y) ≠ ⊤ := fun x y => by
    rw [Real.volume_Ico]
    exact ENNReal.ofReal_ne_top
  have hfin : volume {t | t ∈ Ico a b ∧ P (f t)} ≠ ⊤ :=
    ne_top_of_le_ne_top (hIco a b) (measure_mono fun t ht => ht.1)
  unfold lengthWhere
  split_ifs with hP
  · have hsplit : {t | t ∈ Ico a c ∧ P (f t)} = {t | t ∈ Ico a b ∧ P (f t)} ∪ Ico b c := by
      ext t
      constructor
      · rintro ⟨ht, hPt⟩
        rcases lt_or_ge t b with hlt | hge
        · exact Or.inl ⟨⟨ht.1, hlt⟩, hPt⟩
        · exact Or.inr ⟨hge, ht.2⟩
      · rintro (⟨ht, hPt⟩ | ht)
        · exact ⟨⟨ht.1, ht.2.trans_le hbc⟩, hPt⟩
        · exact ⟨⟨hab.trans ht.1, ht.2⟩, (hk t ht).symm ▸ hP⟩
    have hdisj : Disjoint {t | t ∈ Ico a b ∧ P (f t)} (Ico b c) :=
      disjoint_left.2 fun t h h' => h.1.2.not_ge h'.1
    rw [hsplit, measureReal_union hdisj measurableSet_Ico hfin (hIco b c),
      Real.volume_real_Ico_of_le hbc]
  · have hsame : {t | t ∈ Ico a c ∧ P (f t)} = {t | t ∈ Ico a b ∧ P (f t)} := by
      ext t
      constructor
      · rintro ⟨ht, hPt⟩
        refine ⟨⟨ht.1, lt_of_not_ge fun hge => hP ?_⟩, hPt⟩
        exact hk t ⟨hge, ht.2⟩ ▸ hPt
      · rintro ⟨ht, hPt⟩
        exact ⟨⟨ht.1, ht.2.trans_le hbc⟩, hPt⟩
    rw [hsame, add_zero]

end Length

section Stretch

variable (G : Set ℝ)

/-- The longest stretch of `[a, b)` that lies in `G` has length `l`. -/
def LongestStretch (a b l : ℝ) : Prop :=
  IsGreatest {l | ∃ u v, a ≤ u ∧ u ≤ v ∧ v ≤ b ∧ l = v - u ∧ Ico u v ⊆ G} l

/-- The longest stretch of `[a, b)` that lies in `G` and goes up to `b` has length `l`. -/
def LastStretch (a b l : ℝ) : Prop :=
  IsGreatest {l | ∃ u, a ≤ u ∧ u ≤ b ∧ l = b - u ∧ Ico u b ⊆ G} l

theorem longestStretch_self (a : ℝ) : LongestStretch G a a 0 := by
  refine ⟨⟨a, a, le_rfl, le_rfl, le_rfl, by ring, by simp⟩, ?_⟩
  rintro l ⟨u, v, hau, huv, hva, rfl, -⟩
  linarith

theorem lastStretch_self (a : ℝ) : LastStretch G a a 0 := by
  refine ⟨⟨a, le_rfl, le_rfl, by ring, by simp⟩, ?_⟩
  rintro l ⟨u, hau, -, rfl, -⟩
  linarith

variable {G} {a b c l r : ℝ}

/-- A piece inside `G` makes the last stretch longer. -/
theorem LastStretch.extend (h : LastStretch G a b r) (hbc : b ≤ c) (hG : Ico b c ⊆ G) :
    LastStretch G a c (r + (c - b)) := by
  obtain ⟨⟨u, hau, hub, rfl, hu⟩, hmax⟩ := h
  refine ⟨⟨u, hau, hub.trans hbc, by ring, ?_⟩, ?_⟩
  · rw [← Ico_union_Ico_eq_Ico hub hbc]
    exact union_subset hu hG
  · rintro l ⟨w, haw, hwc, rfl, hw⟩
    rcases le_total w b with hwb | hbw
    · have hle := hmax ⟨w, haw, hwb, rfl, (Ico_subset_Ico_right hbc).trans hw⟩
      linarith
    · linarith

/-- A piece outside `G` ends the last stretch. -/
theorem LastStretch.cut (hab : a ≤ b) (hbc : b < c) (hG : ∀ t ∈ Ico b c, t ∉ G) :
    LastStretch G a c 0 := by
  refine ⟨⟨c, hab.trans hbc.le, le_rfl, by ring, by simp⟩, ?_⟩
  rintro l ⟨w, haw, hwc, rfl, hw⟩
  rcases hwc.eq_or_lt with rfl | hlt
  · linarith
  · have hmem : max w b ∈ Ico b c := ⟨le_max_right _ _, max_lt hlt hbc⟩
    exact absurd (hw ⟨le_max_left _ _, hmem.2⟩) (hG _ hmem)

/-- After a piece inside `G` the longest stretch is the old one or the one that ends now. -/
theorem LongestStretch.extend (h : LongestStretch G a b l) (hr : LastStretch G a c r) (hbc : b ≤ c)
    (hG : Ico b c ⊆ G) : LongestStretch G a c (max l r) := by
  obtain ⟨⟨u, v, hau, huv, hvb, hl, hu⟩, hmax⟩ := h
  obtain ⟨⟨w, haw, hwc, hr, hw⟩, hlast⟩ := hr
  refine ⟨?_, ?_⟩
  · rcases max_choice l r with hm | hm
    · rw [hm]
      exact ⟨u, v, hau, huv, hvb.trans hbc, hl, hu⟩
    · rw [hm]
      exact ⟨w, c, haw, hwc, le_rfl, hr, hw⟩
  · rintro m ⟨u', v', hau', huv', hvc', rfl, hu'⟩
    rcases le_total v' b with hvb' | hbv'
    · exact (hmax ⟨u', v', hau', huv', hvb', rfl, hu'⟩).trans (le_max_left _ _)
    · have hsub : Ico u' c ⊆ G := fun t ht =>
        (lt_or_ge t v').elim (fun hlt => hu' ⟨ht.1, hlt⟩) fun hge => hG ⟨hbv'.trans hge, ht.2⟩
      have hle := hlast ⟨u', hau', huv'.trans hvc', rfl, hsub⟩
      exact le_max_of_le_right (by linarith)

/-- A piece outside `G` leaves the longest stretch as it is. -/
theorem LongestStretch.cut (h : LongestStretch G a b l) (hbc : b < c)
    (hG : ∀ t ∈ Ico b c, t ∉ G) : LongestStretch G a c l := by
  obtain ⟨⟨u, v, hau, huv, hvb, hl, hu⟩, hmax⟩ := h
  refine ⟨⟨u, v, hau, huv, hvb.trans hbc.le, hl, hu⟩, ?_⟩
  rintro m ⟨u', v', hau', huv', hvc', rfl, hu'⟩
  rcases le_or_gt v' b with hvb' | hbv'
  · exact hmax ⟨u', v', hau', huv', hvb', rfl, hu'⟩
  · rcases huv'.eq_or_lt with rfl | hlt
    · have hnonneg := hmax ⟨u, v, hau, huv, hvb, rfl, hu⟩
      linarith
    · have hmem : max u' b ∈ Ico b c := ⟨le_max_right _ _, max_lt (hlt.trans_le hvc') hbc⟩
      exact absurd (hu' ⟨le_max_left _ _, max_lt hlt hbv'⟩) (hG _ hmem)

end Stretch

end Profile
