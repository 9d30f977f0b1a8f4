import RabitKV.ExactReal
import RabitKV.Proofs.ErrorBound

/-!
# Rounding to bfloat16

The pattern of a rounded number is `128 * k + m` with `k` the exponent above the least one and `m`
the rounded digits; a carry into the next exponent and the numbers below the normal range are of
that form too (`bf16ToRat_ofNat`). So rounding is off by `2 ^ -8` of the number, and by `2 ^ -134`
below the normal range.
-/

namespace RabitKV

open Affine

theorem bf16ToRat_fields {e m : ℕ} (he : e < 256) (hm : m < 128) :
    bf16ToRat (UInt16.ofNat (e * 128 + m))
      = if e = 0 then (m : ℚ) * 2 ^ (-133 : ℤ) else (128 + m : ℚ) * 2 ^ ((e : ℤ) - 134) := by
  have hnat : (UInt16.ofNat (e * 128 + m)).toNat = e * 128 + m := by
    rw [UInt16.toNat_ofNat_of_lt' (by simp only [UInt16.size]; omega)]
  have hdiv : (e * 128 + m) / 128 % 256 = e := by omega
  have hmod : (e * 128 + m) % 128 = m := by omega
  simp only [bf16ToRat, hnat, hdiv, hmod]
  rw [if_pos (by omega), one_mul]

/-- The value of a rounded pattern. -/
theorem bf16ToRat_ofNat {k m : ℕ} (hk : k < 254) (hm : m ≤ 256) (hnormal : k = 0 ∨ 128 ≤ m) :
    bf16ToRat (UInt16.ofNat (k * 128 + m)) = m * 2 ^ ((k : ℤ) - 133) := by
  rcases Nat.lt_or_ge m 128 with hlow | hlow
  · -- below the normal range
    obtain rfl : k = 0 := by omega
    rw [bf16ToRat_fields (by omega) hlow, if_pos rfl]
    rfl
  rcases Nat.lt_or_ge m 256 with hhigh | hhigh
  · obtain ⟨j, rfl⟩ : ∃ j, m = 128 + j := ⟨m - 128, by omega⟩
    rw [show k * 128 + (128 + j) = (k + 1) * 128 + j by ring,
      bf16ToRat_fields (by omega) (by omega), if_neg (by omega),
      show ((k + 1 : ℕ) : ℤ) - 134 = k - 133 by push_cast; ring]
    push_cast
    ring
  · -- the digits carry
    obtain rfl : m = 256 := by omega
    rw [show k * 128 + 256 = (k + 2) * 128 + 0 by ring, bf16ToRat_fields (by omega) (by omega),
      if_neg (by omega), show ((k + 2 : ℕ) : ℤ) - 134 = k - 133 + 1 by push_cast; ring,
      zpow_add_one₀ (by norm_num)]
    push_cast
    ring

/-- The exponent a number up to one is rounded at. -/
theorem exists_exponent {x : ℝ} (hx : 0 < x) (h1 : x ≤ 1) :
    ∃ k : ℕ, k ≤ 126 ∧ max (Int.log 2 x) (-126) = (k : ℤ) - 126 ∧
      (k = 0 ∨ (2 : ℝ) ^ ((k : ℤ) - 126) ≤ x) ∧ x / 2 ^ ((k : ℤ) - 133) ≤ (256 : ℕ) := by
  have hlog : Int.log 2 x ≤ 0 := by
    have hmono := Int.log_mono_right (b := 2) hx h1
    rwa [Int.log_one_right] at hmono
  obtain ⟨k, hk⟩ : ∃ k : ℕ, max (Int.log 2 x) (-126) = (k : ℤ) - 126 :=
    ⟨(max (Int.log 2 x) (-126) + 126).toNat, by omega⟩
  refine ⟨k, by omega, hk, (Nat.eq_zero_or_pos k).imp_right fun hpos => ?_, ?_⟩
  · have hle := Int.zpow_log_le_self (b := 2) (by norm_num) hx
    rwa [show Int.log 2 x = (k : ℤ) - 126 by omega, Nat.cast_ofNat] at hle
  · have hlt := (Int.lt_zpow_succ_log_self (b := 2) (by norm_num) x).le.trans
      (zpow_le_zpow_right₀ (by norm_num) (by omega : Int.log 2 x + 1 ≤ (k : ℤ) - 133 + 8))
    rw [Nat.cast_ofNat, zpow_add₀ (by norm_num)] at hlt
    rw [div_le_iff₀ (by positivity)]
    norm_num at hlt ⊢
    linarith

/-- The exponent and the rounded digits make up the value. -/
theorem nearestBf16_digits {x : ℝ} (hx : 0 < x) (h1 : x ≤ 1) :
    ∃ k m : ℕ, bf16ToReal (nearestBf16 x) = m * 2 ^ ((k : ℤ) - 133) ∧
      |(m : ℝ) - x / 2 ^ ((k : ℤ) - 133)| ≤ 1 / 2 ∧ (k = 0 ∨ (2 : ℝ) ^ ((k : ℤ) - 126) ≤ x) := by
  obtain ⟨k, hk126, hk, hnormal, hlt⟩ := exists_exponent hx h1
  have hpow : (0 : ℝ) < 2 ^ ((k : ℤ) - 133) := by positivity
  -- the digits, between 128 and 256 in the normal range
  obtain ⟨m, hm⟩ := Int.eq_ofNat_of_zero_le
    (roundHalfEven_nearest.nonneg (div_nonneg hx.le hpow.le))
  have hm256 := roundHalfEven_nearest.le_of_le hlt
  have hm128 : k = 0 ∨ 128 ≤ m := by
    refine hnormal.imp_right fun hle => ?_
    have hge : ((128 : ℤ) : ℝ) ≤ x / 2 ^ ((k : ℤ) - 133) := by
      rw [le_div_iff₀ hpow]
      refine le_trans (le_of_eq ?_) hle
      rw [show (k : ℤ) - 126 = k - 133 + 7 by ring, zpow_add₀ (by norm_num)]
      norm_num [mul_comm]
    have hmono := roundHalfEven_nearest.monotone hge
    rw [roundHalfEven_nearest.intCast, hm] at hmono
    exact_mod_cast hmono
  rw [hm] at hm256
  have hbits : nearestBf16 x = UInt16.ofNat (k * 128 + m) := by
    unfold nearestBf16
    rw [if_neg hx.ne', abs_of_pos hx, hk, if_neg (not_lt.2 hx.le), Nat.cast_ofNat]
    dsimp only
    rw [show (k : ℤ) - 126 - 7 = k - 133 by ring, hm]
    congr 1
    omega
  refine ⟨k, m, ?_, ?_, hnormal⟩
  · rw [bf16ToReal, hbits, bf16ToRat_ofNat (by omega) (by omega) hm128]
    push_cast
    rfl
  · have hnear := roundHalfEven_nearest (x / 2 ^ ((k : ℤ) - 133))
    rw [hm] at hnear
    exact_mod_cast hnear

/-- Rounding a weight. -/
theorem abs_realToBf16_sub_le {x : ℝ} (h0 : 0 ≤ x) (h1 : x ≤ 1) :
    |bf16ToReal (realToBf16 x) - x| ≤ 1 / 2 ^ 8 * x + 1 / 2 ^ 134 := by
  have hcoe : realToBf16 x = nearestBf16 x := by
    rw [realToBf16, if_neg (EReal.coe_ne_top x), if_neg (EReal.coe_ne_bot x), EReal.toReal_coe]
  rw [hcoe]
  rcases h0.eq_or_lt with rfl | hx
  · have hzero : bf16ToReal (nearestBf16 (0 : ℝ)) = 0 := by
      rw [nearestBf16, if_pos rfl, bf16ToReal, show bf16ToRat 0 = 0 by decide +kernel,
        Rat.cast_zero]
    rw [hzero]
    norm_num
  · obtain ⟨k, m, hvalue, hnear, hnormal⟩ := nearestBf16_digits hx h1
    have hpow : (0 : ℝ) < 2 ^ ((k : ℤ) - 133) := by positivity
    have herr : |(m : ℝ) * 2 ^ ((k : ℤ) - 133) - x| ≤ 1 / 2 * 2 ^ ((k : ℤ) - 133) := by
      have hsplit : (m : ℝ) * 2 ^ ((k : ℤ) - 133) - x
          = (m - x / 2 ^ ((k : ℤ) - 133)) * 2 ^ ((k : ℤ) - 133) := by
        rw [sub_mul, div_mul_cancel₀ _ hpow.ne']
      rw [hsplit, abs_mul, abs_of_pos hpow]
      exact mul_le_mul_of_nonneg_right hnear hpow.le
    rw [hvalue]
    refine herr.trans ?_
    rcases hnormal with rfl | hle
    · norm_num at hx ⊢
      linarith
    · rw [show (k : ℤ) - 126 = k - 133 + 7 by ring, zpow_add₀ (by norm_num)] at hle
      norm_num at hle ⊢
      linarith

end RabitKV
