import Mathlib

/-!
# Affine codes with a nearest-integer rounding

A value `x` of a range that starts at `m` is stored as the integer nearest to `(x - m) / s`. Any
rounding to a nearest integer keeps codes of values in range in range, and loses at most half a
step.
-/

namespace Affine

variable {K : Type*} [Field K] [LinearOrder K] [IsStrictOrderedRing K]

/-- Rounding to a nearest integer, ties either way. -/
def Nearest (r : K → ℤ) : Prop := ∀ x, |(r x : K) - x| ≤ 1 / 2

variable {r : K → ℤ} (hr : Nearest r) {x m s : K}

include hr

theorem Nearest.nonneg (hx : 0 ≤ x) : 0 ≤ r x := by
  have hlow := (abs_le.1 (hr x)).1
  have hcast : (-1 : K) < r x := by linarith
  have hint : (-1 : ℤ) < r x := by exact_mod_cast hcast
  omega

theorem Nearest.le_of_le {n : ℕ} (hx : x ≤ n) : r x ≤ n := by
  have hhigh := (abs_le.1 (hr x)).2
  have hcast : (r x : K) < n + 1 := by linarith
  have hint : r x < (n : ℤ) + 1 := by exact_mod_cast hcast
  omega

theorem Nearest.eq_zero (h0 : 0 ≤ x) (hx : x < 1 / 2) : r x = 0 := by
  have hhigh := (abs_le.1 (hr x)).2
  have hcast : (r x : K) < 1 := by linarith
  have hint : r x < 1 := by exact_mod_cast hcast
  have hnonneg := hr.nonneg h0
  omega

/-- Rounding keeps the order, whichever way ties go: two values less than one apart that changed
places would round to integers less than one apart. -/
theorem Nearest.monotone : Monotone r := by
  intro x y hxy
  rcases hxy.eq_or_lt with rfl | hlt
  · exact le_rfl
  · have hx := (abs_le.1 (hr x)).2
    have hy := (abs_le.1 (hr y)).1
    have hcast : (r x : K) < r y + 1 := by linarith
    have hint : r x < r y + 1 := by exact_mod_cast hcast
    omega

theorem Nearest.intCast (n : ℤ) : r n = n := by
  have habs := abs_le.1 (hr n)
  have hlow : (n : K) - 1 < r n := by linarith [habs.1]
  have hhigh : (r n : K) < n + 1 := by linarith [habs.2]
  have hlow' : n - 1 < r n := by exact_mod_cast hlow
  have hhigh' : r n < n + 1 := by exact_mod_cast hhigh
  omega

/-- A code loses at most half a step. -/
theorem Nearest.abs_decode_sub_le (hs : 0 < s) : |(r ((x - m) / s) : K) * s + m - x| ≤ s / 2 := by
  have hsplit : (r ((x - m) / s) : K) * s + m - x = ((r ((x - m) / s) : K) - (x - m) / s) * s := by
    field_simp
    ring
  rw [hsplit, abs_mul, abs_of_pos hs]
  calc |(r ((x - m) / s) : K) - (x - m) / s| * s ≤ 1 / 2 * s :=
        mul_le_mul_of_nonneg_right (hr _) hs.le
    _ = s / 2 := by ring

omit hr in
/-- Decoding with another step and another start adds their errors. -/
theorem abs_decode_sub_le {c n s' m' e es em : K} (hc : 0 ≤ c) (hn : c ≤ n)
    (he : |c * s + m - x| ≤ e) (hes : |s' - s| ≤ es) (hem : |m' - m| ≤ em) :
    |c * s' + m' - x| ≤ e + n * es + em := by
  have hsplit : c * s' + m' - x = c * s + m - x + c * (s' - s) + (m' - m) := by ring
  have hstep : |c * (s' - s)| ≤ n * es := by
    rw [abs_mul, abs_of_nonneg hc]
    exact mul_le_mul hn hes (abs_nonneg _) (hc.trans hn)
  rw [hsplit]
  calc |c * s + m - x + c * (s' - s) + (m' - m)|
      ≤ |c * s + m - x| + |c * (s' - s)| + |m' - m| := abs_add_three _ _ _
    _ ≤ e + n * es + em := add_le_add (add_le_add he hstep) hem

end Affine
