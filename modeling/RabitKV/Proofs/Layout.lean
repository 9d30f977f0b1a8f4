import RabitKV.Layout

/-!
# What a layout satisfies

`rabit2_page_layout` accepts positive multiples of 32 tokens and positive sizes, and its six
sections tile the page (`layoutSections_tiles`).
-/

namespace RabitKV

theorem rabit2PageLayout_ok {bs H Dk Dv : ℕ} {layout : Rabit2PageLayout}
    (h : rabit2PageLayout bs H Dk Dv = .ok layout) :
    layout = pageLayout bs H Dk Dv ∧ 0 < bs ∧ groupSize ∣ bs ∧ 0 < H ∧ 0 < Dk ∧ 0 < Dv := by
  unfold rabit2PageLayout at h
  by_cases hb : bs = 0 ∨ bs % groupSize ≠ 0
  · rw [if_pos hb] at h
    cases h
  · by_cases hk : H = 0 ∨ Dk = 0
    · rw [if_neg hb, if_pos hk] at h
      cases h
    · by_cases hv : Dv = 0
      · rw [if_neg hb, if_neg hk, if_pos hv] at h
        cases h
      · rw [if_neg hb, if_neg hk, if_neg hv] at h
        cases h
        obtain ⟨hb0, hmod⟩ := not_or.1 hb
        exact ⟨rfl, by omega, Nat.dvd_of_mod_eq_zero (not_not.1 hmod), by omega, by omega, by omega⟩

/-- What the closed-page kernels require of a layout. -/
theorem validateLayout_ok {layout : Rabit2PageLayout} {r : ℕ × ℕ × ℕ × ℕ}
    (h : validateLayout layout = .ok r) :
    layout.blockSize = groupSize ∧ layout.headSizeK = layout.headSizeV ∧
      layout.headSizeK % groupSize = 0 ∧
      layout.numKvHeads * layout.headSizeK % metadataGroupSize = 0 ∧
      layout.blockSize * layout.numKvHeads * (layout.headSizeV / groupSize) % metadataGroupSize
        = 0 := by
  unfold validateLayout at h
  by_cases h1 : layout.blockSize = groupSize
  · by_cases h2 : layout.headSizeK = layout.headSizeV
    · by_cases h3 : layout.headSizeK % groupSize = 0
      · by_cases h4 : layout.numKvHeads * layout.headSizeK % metadataGroupSize ≠ 0 ∨
            layout.blockSize * layout.numKvHeads * (layout.headSizeV / groupSize)
              % metadataGroupSize ≠ 0
        · rw [if_neg (not_not.2 h1), if_neg (not_not.2 h2), if_neg (not_not.2 h3)] at h
          simp only [if_pos h4] at h
          cases h
        · rw [not_or, not_not, not_not] at h4
          exact ⟨h1, h2, h3, h4⟩
      · rw [if_neg (not_not.2 h1), if_neg (not_not.2 h2), if_pos h3] at h
        cases h
    · rw [if_neg (not_not.2 h1), if_pos h2] at h
      cases h
  · rw [if_pos h1] at h
    cases h

theorem vGroups_of_mod {D : ℕ} (h : D % groupSize = 0) : vGroups D = D / groupSize := by
  unfold vGroups groupSize at *
  omega

section Tiling

/-- Intervals, as start and size, that follow one another from `start` to `stop`. -/
def Tiles : ℕ → List (ℕ × ℕ) → ℕ → Prop
  | start, [], stop => start = stop
  | start, s :: rest, stop => s.1 = start ∧ Tiles (start + s.2) rest stop

theorem Tiles.le {stop : ℕ} : ∀ {start : ℕ} {l : List (ℕ × ℕ)}, Tiles start l stop → start ≤ stop
  | _, [], h => le_of_eq h
  | start, s :: _, h => (Nat.le_add_right start s.2).trans h.2.le

theorem Tiles.start_le {stop : ℕ} : ∀ {start : ℕ} {l : List (ℕ × ℕ)}, Tiles start l stop →
    ∀ s ∈ l, start ≤ s.1
  | _, s :: _, h, t, ht => by
    rcases List.mem_cons.1 ht with rfl | ht
    · exact h.1.ge
    · exact (Nat.le_add_right _ s.2).trans (h.2.start_le t ht)

/-- Tiles do not overlap. -/
theorem Tiles.pairwise {stop : ℕ} : ∀ {start : ℕ} {l : List (ℕ × ℕ)}, Tiles start l stop →
    l.Pairwise fun s t => s.1 + s.2 ≤ t.1
  | _, [], _ => List.Pairwise.nil
  | _, _ :: _, h => List.Pairwise.cons (fun t ht => h.1 ▸ h.2.start_le t ht) h.2.pairwise

/-- Tiles leave no gap. -/
theorem Tiles.mem_iff {stop a : ℕ} : ∀ {start : ℕ} {l : List (ℕ × ℕ)}, Tiles start l stop →
    ((∃ s ∈ l, s.1 ≤ a ∧ a < s.1 + s.2) ↔ start ≤ a ∧ a < stop)
  | start, [], h => by
    have hs : start = stop := h
    simp only [List.not_mem_nil, false_and, exists_false, false_iff]
    omega
  | start, s :: rest, h => by
    have ih := h.2.mem_iff (a := a)
    have hle := h.2.le
    have hs : s.1 = start := h.1
    simp only [List.mem_cons, exists_eq_or_imp, ih, hs]
    omega

/-- The six sections of a layout, as offset and size. -/
def layoutSections (layout : Rabit2PageLayout) : List (ℕ × ℕ) :=
  [(layout.kPayloadOffset, layout.kPayloadBytes), (layout.vPayloadOffset, layout.vPayloadBytes),
    (layout.kMinOffset, layout.kMinBytes), (layout.kScaleOffset, layout.kScaleBytes),
    (layout.vMinOffset, layout.vMinBytes), (layout.vScaleOffset, layout.vScaleBytes)]

theorem layoutSections_tiles (bs H Dk Dv : ℕ) :
    Tiles 0 (layoutSections (pageLayout bs H Dk Dv)) (pageLayout bs H Dk Dv).pageBytes := by
  refine ⟨rfl, ?_, ?_, ?_, ?_, ?_, ?_⟩ <;> simp [pageLayout, Tiles]

end Tiling

end RabitKV
