import Mathlib.Algebra.BigOperators.Group.List.Lemmas
import Mathlib.Analysis.SpecialFunctions.Exp

/-!
# Softmax attention from partials

`attend` is the softmax-weighted sum of values over a list of tokens. A partial over some of the
tokens keeps a shift and the exponential masses relative to it; the shift need not be the maximum.
Masses relative to different shifts are rescaled to a common one and added (`sum_rescaled_mass`),
and the quotient of the merged masses is `attend` over all tokens (`attend_eq_mass_div`).
-/

namespace Softmax

variable {τ : Type*} (score value : τ → ℝ)

/-- `∑ₜ softmax(score)ₜ * valueₜ` over the tokens of a list. -/
noncomputable def attend (tokens : List τ) : ℝ :=
  (tokens.map fun t =>
    Real.exp (score t) / (tokens.map fun s => Real.exp (score s)).sum * value t).sum

theorem attend_congr {score score' value value' : τ → ℝ} {tokens : List τ}
    (hs : ∀ t ∈ tokens, score t = score' t) (hv : ∀ t ∈ tokens, value t = value' t) :
    attend score value tokens = attend score' value' tokens := by
  have hsum : (tokens.map fun s => Real.exp (score s)) = tokens.map fun s => Real.exp (score' s) :=
    List.map_congr_left fun t ht => by rw [hs t ht]
  unfold attend
  rw [hsum]
  exact congrArg List.sum (List.map_congr_left fun t ht => by rw [hs t ht, hv t ht])

theorem attend_map {σ : Type*} (f : σ → τ) (l : List σ) :
    attend score value (l.map f) = attend (fun x => score (f x)) (fun x => value (f x)) l := by
  simp only [attend, List.map_map, Function.comp_def]

/-- The values weighted by the exponentials of the scores, relative to the shift `m`. -/
noncomputable def mass (m : ℝ) (tokens : List τ) : ℝ :=
  (tokens.map fun t => Real.exp (score t - m) * value t).sum

@[simp] theorem mass_nil (m : ℝ) : mass score value m [] = 0 := rfl

theorem mass_cons (m : ℝ) (t : τ) (tokens : List τ) :
    mass score value m (t :: tokens) = Real.exp (score t - m) * value t
      + mass score value m tokens := by
  simp [mass]

theorem mass_append (m : ℝ) (tokens tokens' : List τ) :
    mass score value m (tokens ++ tokens')
      = mass score value m tokens + mass score value m tokens' := by
  simp [mass]

theorem mass_flatMap {σ : Type*} (m : ℝ) (tokens : σ → List τ) (segs : List σ) :
    mass score value m (segs.flatMap tokens)
      = (segs.map fun s => mass score value m (tokens s)).sum := by
  induction segs with
  | nil => simp
  | cons s segs ih => rw [List.flatMap_cons, mass_append, ih, List.map_cons, List.sum_cons]

theorem exp_mul_mass (m M : ℝ) (tokens : List τ) :
    Real.exp (m - M) * mass score value m tokens = mass score value M tokens := by
  induction tokens with
  | nil => simp
  | cons t tokens ih =>
    have hexp : Real.exp (m - M) * Real.exp (score t - m) = Real.exp (score t - M) := by
      rw [← Real.exp_add]
      congr 1
      ring
    rw [mass_cons, mass_cons, mul_add, ih, ← mul_assoc, hexp]

/-- Partials with shifts of their own, rescaled to the shift `M` and added. -/
theorem sum_rescaled_mass {σ : Type*} (m : σ → ℝ) (tokens : σ → List τ) (M : ℝ) (segs : List σ) :
    (segs.map fun s => Real.exp (m s - M) * mass score value (m s) (tokens s)).sum
      = mass score value M (segs.flatMap tokens) := by
  induction segs with
  | nil => simp
  | cons s segs ih =>
    rw [List.map_cons, List.sum_cons, ih, exp_mul_mass, List.flatMap_cons, mass_append]

theorem mass_one_pos (m : ℝ) {tokens : List τ} (hne : tokens ≠ []) :
    0 < mass score (fun _ => 1) m tokens := by
  refine List.sum_pos _ (fun x hx => ?_) (by simpa using hne)
  obtain ⟨t, -, rfl⟩ := List.mem_map.1 hx
  simpa using Real.exp_pos _

/-- The quotient of the masses does not depend on the shift. -/
theorem attend_eq_mass_div (M : ℝ) (tokens : List τ) :
    attend score value tokens
      = mass score value M tokens / mass score (fun _ => 1) M tokens := by
  have hzero : ∀ v : τ → ℝ, mass score v 0 tokens = Real.exp M * mass score v M tokens :=
    fun v => by
    rw [← exp_mul_mass score v M 0, sub_zero]
  have hattend : attend score value tokens
      = mass score value 0 tokens / mass score (fun _ => 1) 0 tokens := by
    simp only [attend, mass, sub_zero, mul_one, div_eq_mul_inv, mul_right_comm _ _ (value _)]
    exact List.sum_map_mul_right _ _ _
  rw [hattend, hzero, hzero, mul_div_mul_left _ _ (Real.exp_ne_zero M)]

section Bounds

variable {score value} {tokens : List τ} {V : ℝ}

/-- Weights that are off by a share of themselves and a constant. -/
theorem abs_sum_mul_sub_mass_le {m u η : ℝ} {c : τ → ℝ} (value : τ → ℝ)
    (hc : ∀ t ∈ tokens, |c t - Real.exp (score t - m)| ≤ u * Real.exp (score t - m) + η) :
    |(tokens.map fun t => c t * value t).sum - mass score value m tokens|
      ≤ u * mass score (fun t => |value t|) m tokens + η * (tokens.map fun t => |value t|).sum := by
  induction tokens with
  | nil => simp
  | cons t tokens ih =>
    rw [List.forall_mem_cons] at hc
    have hsplit : ((t :: tokens).map fun t => c t * value t).sum
          - mass score value m (t :: tokens)
        = (c t - Real.exp (score t - m)) * value t
          + ((tokens.map fun t => c t * value t).sum - mass score value m tokens) := by
      rw [mass_cons, List.map_cons, List.sum_cons]
      ring
    have hhead : |(c t - Real.exp (score t - m)) * value t|
        ≤ u * (Real.exp (score t - m) * |value t|) + η * |value t| := by
      rw [abs_mul, ← mul_assoc, ← add_mul]
      exact mul_le_mul_of_nonneg_right hc.1 (abs_nonneg _)
    rw [hsplit, mass_cons, mul_add, List.map_cons, List.sum_cons, mul_add, add_add_add_comm]
    exact (abs_add_le _ _).trans (add_le_add hhead (ih hc.2))

/-- Relative to a score that is attained the mass is at least one. -/
theorem one_le_mass_one {m : ℝ} {t : τ} (ht : t ∈ tokens) (hm : score t = m) :
    1 ≤ mass score (fun _ => 1) m tokens := by
  have hterm : Real.exp (score t - m) * 1 = 1 := by rw [hm, sub_self, Real.exp_zero, mul_one]
  refine hterm.symm.le.trans (List.single_le_sum (fun x hx => ?_) _
    (List.mem_map.2 ⟨t, ht, rfl⟩))
  obtain ⟨s, -, rfl⟩ := List.mem_map.1 hx
  exact mul_nonneg (Real.exp_pos _).le zero_le_one

theorem mass_mul_left (m a : ℝ) (tokens : List τ) :
    mass score (fun t => a * value t) m tokens = a * mass score value m tokens := by
  induction tokens with
  | nil => simp
  | cons t tokens ih =>
    simp only [mass_cons, ih]
    ring

theorem abs_mass_le (m : ℝ) {bound : τ → ℝ} (h : ∀ t ∈ tokens, |value t| ≤ bound t) :
    |mass score value m tokens| ≤ mass score bound m tokens := by
  induction tokens with
  | nil => simp
  | cons t tokens ih =>
    rw [List.forall_mem_cons] at h
    rw [mass_cons, mass_cons]
    refine (abs_add_le _ _).trans (add_le_add ?_ (ih h.2))
    rw [abs_mul, abs_of_pos (Real.exp_pos _)]
    exact mul_le_mul_of_nonneg_left h.1 (Real.exp_pos _).le

theorem abs_mass_le_mul (m : ℝ) (h : ∀ t ∈ tokens, |value t| ≤ V) :
    |mass score value m tokens| ≤ V * mass score (fun _ => 1) m tokens := by
  refine (abs_mass_le m h).trans (le_of_eq ?_)
  rw [← mass_mul_left]
  simp

theorem abs_attend_le (hne : tokens ≠ []) (h : ∀ t ∈ tokens, |value t| ≤ V) :
    |attend score value tokens| ≤ V := by
  have hpos := mass_one_pos score 0 hne
  rw [attend_eq_mass_div score value 0, abs_div, abs_of_pos hpos, div_le_iff₀ hpos]
  exact abs_mass_le_mul 0 h

/-- A quotient with a numerator that is off by a share of the absolute mass and a constant. -/
theorem abs_div_sub_attend_le (h : ∀ t ∈ tokens, |value t| ≤ V) {m x u e : ℝ} (hu : 0 ≤ u)
    (he : 0 ≤ e) (hone : 1 ≤ mass score (fun _ => 1) m tokens)
    (hx : |x - mass score value m tokens| ≤ u * mass score (fun t => |value t|) m tokens + e) :
    |x / mass score (fun _ => 1) m tokens - attend score value tokens| ≤ u * V + e := by
  have hpos : 0 < mass score (fun _ => 1) m tokens := zero_lt_one.trans_le hone
  have habs : mass score (fun t => |value t|) m tokens ≤ V * mass score (fun _ => 1) m tokens :=
    (le_abs_self _).trans (abs_mass_le_mul m fun t ht => (abs_abs (value t)).le.trans (h t ht))
  rw [attend_eq_mass_div score value m, ← sub_div, abs_div, abs_of_pos hpos, div_le_iff₀ hpos]
  calc |x - mass score value m tokens|
      ≤ u * mass score (fun t => |value t|) m tokens + e := hx
    _ ≤ u * (V * mass score (fun _ => 1) m tokens) + e * mass score (fun _ => 1) m tokens :=
      add_le_add (mul_le_mul_of_nonneg_left habs hu) (le_mul_of_one_le_right he hone)
    _ = (u * V + e) * mass score (fun _ => 1) m tokens := by ring

/-- Further tokens move the result by at most their share of the mass. -/
theorem abs_attend_append_sub_le {more : List τ} (hne : tokens ≠ [])
    (h : ∀ t ∈ tokens ++ more, |value t| ≤ V) :
    |attend score value (tokens ++ more) - attend score value tokens|
      ≤ 2 * V * (mass score (fun _ => 1) 0 more / mass score (fun _ => 1) 0 tokens) := by
  obtain ⟨hold, hmore⟩ := List.forall_mem_append.1 h
  set W := mass score (fun _ => 1) 0 tokens with hW
  set E := mass score (fun _ => 1) 0 more with hE
  have hWpos : 0 < W := mass_one_pos score 0 hne
  have hE0 : 0 ≤ E := by
    rcases more.eq_nil_or_concat with rfl | ⟨l, x, rfl⟩
    · simp [hE]
    · exact (mass_one_pos score 0 (by simp)).le
  have hA : |attend score value tokens| ≤ V := abs_attend_le hne hold
  have hN : |mass score value 0 more| ≤ V * E := abs_mass_le_mul 0 hmore
  have hV : 0 ≤ V := (abs_nonneg _).trans hA
  have hdiff : attend score value (tokens ++ more) - attend score value tokens
      = (mass score value 0 more - E * attend score value tokens) / (W + E) := by
    rw [attend_eq_mass_div score value 0 (tokens ++ more), mass_append, mass_append, ← hW, ← hE,
      attend_eq_mass_div score value 0 tokens, ← hW]
    field_simp
    ring
  have hnum : |mass score value 0 more - E * attend score value tokens| ≤ 2 * V * E := by
    refine (abs_sub _ _).trans ?_
    rw [abs_mul, abs_of_nonneg hE0]
    have hEA : E * |attend score value tokens| ≤ E * V := mul_le_mul_of_nonneg_left hA hE0
    linarith
  rw [hdiff, abs_div, abs_of_pos (by linarith : 0 < W + E), div_le_iff₀ (by linarith)]
  calc |mass score value 0 more - E * attend score value tokens| ≤ 2 * V * E := hnum
    _ = 2 * V * (E / W) * W := by field_simp
    _ ≤ 2 * V * (E / W) * (W + E) := mul_le_mul_of_nonneg_left (by linarith) (by positivity)

end Bounds

section Lanes

variable {β : Type*} [AddCommMonoid β]

/-- A sum over lanes of which the first ones hold the tokens and the others nothing. -/
theorem sum_lanes {tokens : List τ} {rows : ℕ} (hrows : tokens.length ≤ rows) {f : ℕ → β}
    {g : τ → β}
    (hin : ∀ (t : ℕ) (ht : t < tokens.length), f t = g tokens[t])
    (hout : ∀ t < rows, tokens.length ≤ t → f t = 0) :
    ((List.range rows).map f).sum = (tokens.map g).sum := by
  obtain ⟨k, rfl⟩ := Nat.exists_eq_add_of_le hrows
  have hzero : ((List.range k).map (f ∘ (tokens.length + ·))).sum = 0 := by
    refine List.sum_eq_zero fun x hx => ?_
    obtain ⟨j, hj, rfl⟩ := List.mem_map.1 hx
    exact hout _ (Nat.add_lt_add_left (List.mem_range.1 hj) _) (Nat.le_add_right _ _)
  rw [List.range_add, List.map_append, List.sum_append, List.map_map, hzero, add_zero]
  refine congrArg List.sum (List.ext_getElem (by simp) fun t ht ht' => ?_)
  simpa using hin t (by simpa using ht')

end Lanes

end Softmax
