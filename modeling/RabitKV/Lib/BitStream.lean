import Mathlib

/-!
# Bit streams and the words cut from them

A stream of bits is a function `f : ℕ → ℕ` with values at most one; `word w f` is the number whose
binary digits are `f 0, …, f (w - 1)`. Fields of one width are packed by scattering the bit at
stream position `p` into cell `p / m` with weight `2 ^ (p % m)`. No two bits meet, so each cell is
the word of the `m` bits the stream has there (`scatter_eq_word`), whatever the width of the fields.
-/

namespace BitStream

open Finset

/-- The number with binary digits `f 0, …, f (w - 1)`. -/
def word (w : ℕ) (f : ℕ → ℕ) : ℕ := ∑ k ∈ range w, f k * 2 ^ k

theorem word_succ (w : ℕ) (f : ℕ → ℕ) : word (w + 1) f = f 0 + 2 * word w fun k => f (k + 1) := by
  unfold word
  rw [sum_range_succ', mul_sum, pow_zero, mul_one, Nat.add_comm]
  congr 1
  refine sum_congr rfl fun k _ => ?_
  rw [pow_succ]
  ring

theorem word_congr {w : ℕ} {f g : ℕ → ℕ} (h : ∀ k < w, f k = g k) : word w f = word w g :=
  sum_congr rfl fun k hk => by rw [h k (mem_range.1 hk)]

theorem word_lt : ∀ {w : ℕ} {f : ℕ → ℕ}, (∀ k < w, f k ≤ 1) → word w f < 2 ^ w
  | 0, _, _ => by simp [word]
  | w + 1, f, h => by
    have h0 := h 0 (Nat.succ_pos w)
    have ih := word_lt fun k hk => h (k + 1) (Nat.succ_lt_succ hk)
    rw [word_succ, pow_succ]
    omega

/-- A word's digits are the bits it was made of. -/
theorem word_bit : ∀ {w : ℕ} {f : ℕ → ℕ}, (∀ k < w, f k ≤ 1) → ∀ {k : ℕ}, k < w →
    word w f / 2 ^ k % 2 = f k
  | 0, _, _, _, hk => absurd hk (Nat.not_lt_zero _)
  | w + 1, f, h, 0, _ => by
    have h0 := h 0 (Nat.succ_pos w)
    rw [word_succ, pow_zero, Nat.div_one]
    omega
  | w + 1, f, h, k + 1, hk => by
    have h0 := h 0 (Nat.succ_pos w)
    have ih := word_bit (fun k hk => h (k + 1) (Nat.succ_lt_succ hk)) (Nat.lt_of_succ_lt_succ hk)
    rw [word_succ, pow_succ', ← Nat.div_div_eq_div_mul]
    rw [show (f 0 + 2 * word w fun k => f (k + 1)) / 2 = word w fun k => f (k + 1) by omega]
    exact ih

/-- The digits of a number below `2 ^ w` make it up. -/
theorem word_digits : ∀ {w x : ℕ}, x < 2 ^ w → (word w fun k => x / 2 ^ k % 2) = x
  | 0, x, h => by
    simp only [pow_zero, Nat.lt_one_iff] at h
    simp [word, h]
  | w + 1, x, h => by
    rw [pow_succ] at h
    have ih := word_digits (w := w) (x := x / 2) (by omega)
    rw [word_succ, pow_zero, Nat.div_one]
    rw [show (word w fun k => x / 2 ^ (k + 1) % 2) = word w fun k => x / 2 / 2 ^ k % 2 from
      word_congr fun k _ => by rw [pow_succ', Nat.div_div_eq_div_mul], ih]
    omega

/-- Sums over `n` fields of width `w` are sums over the `n * w` positions they fill. -/
theorem sum_fields (w : ℕ) (g : ℕ → ℕ) : ∀ n : ℕ,
    ∑ b ∈ range w, ∑ i ∈ range n, g (i * w + b) = ∑ p ∈ range (n * w), g p
  | 0 => by simp
  | n + 1 => by
    simp only [sum_range_succ, sum_add_distrib]
    rw [sum_fields w g n, Nat.succ_mul, sum_range_add]

theorem sum_cell (m j : ℕ) (hm : 0 < m) (v : ℕ → ℕ) : ∀ n : ℕ,
    ∑ p ∈ range n, (if p / m = j then v p * 2 ^ (p % m) else 0)
      = word m fun k => if m * j + k < n then v (m * j + k) else 0
  | 0 => by simp [word]
  | n + 1 => by
    rw [sum_range_succ, sum_cell m j hm v n]
    have hsplit : ∀ k, (if m * j + k < n + 1 then v (m * j + k) else 0) * 2 ^ k
        = (if m * j + k < n then v (m * j + k) else 0) * 2 ^ k
          + if m * j + k = n then v n * 2 ^ k else 0 := by
      intro k
      rcases lt_trichotomy (m * j + k) n with h | h | h
      · simp [h, Nat.lt_succ_of_lt h, h.ne]
      · simp [h]
      · simp [show ¬ m * j + k < n by omega, show ¬ m * j + k < n + 1 by omega, h.ne']
    unfold word
    rw [sum_congr rfl fun k _ => hsplit k, sum_add_distrib]
    congr 1
    by_cases hj : n / m = j
    · have hdm := Nat.div_add_mod n m
      rw [hj] at hdm
      rw [if_pos hj, sum_eq_single (n % m), if_pos hdm]
      · intro k _ hk
        rw [if_neg (by omega)]
      · intro h
        exact absurd (mem_range.2 (Nat.mod_lt n hm)) h
    · rw [if_neg hj]
      symm
      refine sum_eq_zero fun k hk => if_neg fun h => hj ?_
      rw [← h, Nat.mul_add_div hm, Nat.div_eq_of_lt (mem_range.1 hk), Nat.add_zero]

/-- Scattering the bits of `n` fields of width `w` over cells of `m` bits gives each cell the word
of the stream's bits there. -/
theorem scatter_eq_word (w n m j : ℕ) (hm : 0 < m) (v : ℕ → ℕ) :
    ∑ b ∈ range w, ∑ i ∈ range n,
        (if (i * w + b) / m = j then v (i * w + b) * 2 ^ ((i * w + b) % m) else 0)
      = word m fun k => if m * j + k < n * w then v (m * j + k) else 0 := by
  rw [sum_fields w (fun p => if p / m = j then v p * 2 ^ (p % m) else 0) n, sum_cell m j hm]

/-- A field or-ed in above the bits already there is added. -/
theorem or_shiftLeft {a b n : ℕ} (h : b < 2 ^ n) : b ||| a <<< n = b + a * 2 ^ n := by
  rw [Nat.lor_comm, ← Nat.shiftLeft_add_eq_or_of_lt h, Nat.shiftLeft_eq, Nat.add_comm]

/-- The `w` digits of a number from digit `s` on. -/
theorem word_window (w s x : ℕ) : (word w fun k => x / 2 ^ (s + k) % 2) = x / 2 ^ s % 2 ^ w := by
  rw [← word_digits (Nat.mod_lt (x / 2 ^ s) (Nat.two_pow_pos w))]
  refine word_congr fun k hk => ?_
  obtain ⟨j, rfl⟩ : ∃ j, w = k + (1 + j) := ⟨w - k - 1, by omega⟩
  rw [pow_add 2 k, Nat.mod_mul_right_div_self, Nat.div_div_eq_div_mul, ← pow_add, pow_add 2 1,
    pow_one, Nat.mod_mul_right_mod]

/-- The digits below digit `w` of a number. -/
theorem word_masked {m x : ℕ} (hx : x < 2 ^ m) (w : ℕ) :
    (word m fun k => if k < w then x / 2 ^ k % 2 else 0) = x % 2 ^ w := by
  rw [← word_digits ((Nat.mod_le x (2 ^ w)).trans_lt hx)]
  refine word_congr fun k _ => ?_
  split_ifs with hk
  · obtain ⟨j, rfl⟩ : ∃ j, w = k + (1 + j) := ⟨w - k - 1, by omega⟩
    rw [pow_add 2 k, Nat.mod_mul_right_div_self, pow_add 2 1, pow_one, Nat.mod_mul_right_mod]
  · have hlt : x % 2 ^ w < 2 ^ k :=
      (Nat.mod_lt x (Nat.two_pow_pos w)).trans_le (Nat.pow_le_pow_right (by decide) (by omega))
    rw [Nat.div_eq_of_lt hlt]

/-- A digit of two bytes, the low one first. -/
theorem twoBytes_bit {lo : ℕ} (hlo : lo < 2 ^ 8) (hi k : ℕ) :
    (lo + hi * 2 ^ 8) / 2 ^ k % 2 = if k < 8 then lo / 2 ^ k % 2 else hi / 2 ^ (k - 8) % 2 := by
  split_ifs with hk
  · obtain ⟨j, hj⟩ : ∃ j, 8 = k + (j + 1) := ⟨8 - k - 1, by omega⟩
    have hsplit : hi * 2 ^ 8 = 2 ^ k * (2 * (hi * 2 ^ j)) := by
      rw [hj, pow_add, pow_succ]
      ring
    rw [hsplit, Nat.add_mul_div_left _ _ (Nat.two_pow_pos k), Nat.add_mul_mod_self_left]
  · obtain ⟨j, rfl⟩ : ∃ j, k = 8 + j := ⟨k - 8, by omega⟩
    rw [pow_add, ← Nat.div_div_eq_div_mul, Nat.add_mul_div_right _ _ (Nat.two_pow_pos 8),
      Nat.div_eq_of_lt hlo, Nat.zero_add, Nat.add_sub_cancel_left]

end BitStream
