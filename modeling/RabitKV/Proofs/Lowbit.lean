import RabitKV.Lowbit
import RabitKV.Lib.BitStream

/-!
# Packing is a bit stream

The bytes `pack_lowbit_values` accumulates are the words of the little-endian bit stream of the
codes (`packAcc_eq_word`), so no addition carries, and a code read back bit by bit is the word of
its own bits (`unpackCode_packByte`).
-/

namespace RabitKV

open BitStream

theorem ext_of_lt {α : Type} [Inhabited α] {n : ℕ} (f : Fin n → α) {i : ℕ} (h : i < n) :
    ext f i = f ⟨i, h⟩ := by
  simp [ext, h]

@[simp] theorem ext_val {α : Type} [Inhabited α] {n : ℕ} (f : Fin n → α) (i : Fin n) :
    ext f i = f i := ext_of_lt f i.2

theorem and_one_shiftLeft (x b s : ℕ) : ((x >>> b) &&& 1) <<< s = x / 2 ^ b % 2 * 2 ^ s := by
  rw [Nat.and_one_is_mod, Nat.shiftRight_eq_div_pow, Nat.shiftLeft_eq]

/-- The bit `n` codes of width `bits` have at stream position `p`. -/
def codeBit (bits n : ℕ) (codes : ℕ → ℕ) (p : ℕ) : ℕ :=
  if p < n * bits then codes (p / bits) / 2 ^ (p % bits) % 2 else 0

theorem codeBit_le_one (bits n : ℕ) (codes : ℕ → ℕ) (p : ℕ) : codeBit bits n codes p ≤ 1 := by
  unfold codeBit
  split_ifs <;> omega

theorem foldl_scatterAdd (n : ℕ) (idx src : ℕ → ℕ → ℕ) (j : ℕ) : ∀ (bits : ℕ) (acc : ℕ → ℕ),
    (List.range bits).foldl (fun acc b => scatterAdd n (idx b) (src b) acc) acc j
      = acc j + ∑ b ∈ Finset.range bits, ∑ i ∈ Finset.range n, if idx b i = j then src b i else 0
  | 0, acc => by simp
  | bits + 1, acc => by
    rw [List.range_succ, List.foldl_append, List.foldl_cons, List.foldl_nil, scatterAdd,
      foldl_scatterAdd n idx src j bits acc, Finset.sum_range_succ, Nat.add_assoc]
    rfl

/-- The accumulated bytes are the words of the codes' bit stream. -/
theorem packAcc_eq_word {bits : ℕ} (hb : 0 < bits) (n : ℕ) (codes : ℕ → ℕ) (j : ℕ) :
    packAcc bits n codes j = word 8 fun k => codeBit bits n codes (8 * j + k) := by
  unfold packAcc codeBit
  rw [foldl_scatterAdd n (fun b i => (i * bits + b) / 8)
    (fun b i => ((codes i >>> b) &&& 1) <<< ((i * bits + b) % 8)), Nat.zero_add,
    ← scatter_eq_word bits n 8 j (by omega) fun p => codes (p / bits) / 2 ^ (p % bits) % 2]
  refine Finset.sum_congr rfl fun b hbit => Finset.sum_congr rfl fun i _ => ?_
  have hlt := Finset.mem_range.1 hbit
  have hdiv : (i * bits + b) / bits = i := by
    rw [Nat.mul_comm, Nat.mul_add_div hb, Nat.div_eq_of_lt hlt, Nat.add_zero]
  have hmod : (i * bits + b) % bits = b := by
    rw [Nat.mul_comm, Nat.mul_add_mod, Nat.mod_eq_of_lt hlt]
  rw [and_one_shiftLeft, hdiv, hmod]

theorem packAcc_lt {bits : ℕ} (hb : 0 < bits) (n : ℕ) (codes : ℕ → ℕ) (j : ℕ) :
    packAcc bits n codes j < 256 := by
  rw [packAcc_eq_word hb]
  exact word_lt fun k _ => codeBit_le_one bits n codes _

theorem packByte_toNat {bits : ℕ} (hb : 0 < bits) (n : ℕ) (codes : ℕ → ℕ) (j : ℕ) :
    (packByte bits n codes j).toNat = word 8 fun k => codeBit bits n codes (8 * j + k) := by
  rw [packByte, UInt8.toNat_ofNat', Nat.mod_eq_of_lt (packAcc_lt hb n codes j), packAcc_eq_word hb]

/-- The bit packed bytes have at stream position `p`. -/
def byteBit (packed : ℕ → UInt8) (p : ℕ) : ℕ := (packed (p / 8)).toNat / 2 ^ (p % 8) % 2

theorem byteBit_le_one (packed : ℕ → UInt8) (p : ℕ) : byteBit packed p ≤ 1 := by
  unfold byteBit
  omega

theorem byteBit_packByte {bits : ℕ} (hb : 0 < bits) (n : ℕ) (codes : ℕ → ℕ) (p : ℕ) :
    byteBit (packByte bits n codes) p = codeBit bits n codes p := by
  rw [byteBit, packByte_toNat hb, word_bit (fun k _ => codeBit_le_one bits n codes _)
    (Nat.mod_lt p (by omega)), Nat.div_add_mod]

/-- Gathering `w` bit planes by `|` reads a word. -/
theorem foldl_or_eq_word (f : ℕ → ℕ) (hf : ∀ b, f b ≤ 1) : ∀ w : ℕ,
    (List.range w).foldl (fun v b => v ||| f b <<< b) 0 = word w f
  | 0 => by simp [word]
  | w + 1 => by
    rw [List.range_succ, List.foldl_append, List.foldl_cons, List.foldl_nil,
      foldl_or_eq_word f hf w, Nat.lor_comm,
      ← Nat.shiftLeft_add_eq_or_of_lt (word_lt fun k _ => hf k), Nat.shiftLeft_eq]
    simp only [word, Finset.sum_range_succ]
    omega

theorem unpackCode_eq_word (bits : ℕ) (packed : ℕ → UInt8) (i : ℕ) :
    unpackCode bits packed i = word bits fun b => byteBit packed (i * bits + b) := by
  rw [← foldl_or_eq_word _ fun b => byteBit_le_one packed _]
  unfold unpackCode byteBit
  congr
  funext v b
  rw [Nat.and_one_is_mod, Nat.shiftRight_eq_div_pow]

/-- A packed code is read back unchanged. -/
theorem unpackCode_packByte {bits n : ℕ} (hb : 0 < bits) {codes : ℕ → ℕ} {i : ℕ} (hi : i < n)
    (hc : codes i < 2 ^ bits) : unpackCode bits (packByte bits n codes) i = codes i := by
  rw [unpackCode_eq_word, word_congr fun b hlt => ?_, word_digits hc]
  have hdiv : (i * bits + b) / bits = i := by
    rw [Nat.mul_comm, Nat.mul_add_div hb, Nat.div_eq_of_lt hlt, Nat.add_zero]
  have hmod : (i * bits + b) % bits = b := by
    rw [Nat.mul_comm, Nat.mul_add_mod, Nat.mod_eq_of_lt hlt]
  have hin : i * bits + b < n * bits := by
    have := Nat.mul_le_mul_right bits hi
    rw [Nat.succ_mul] at this
    omega
  rw [byteBit_packByte hb, codeBit, if_pos hin, hdiv, hmod]

theorem unpackCode_congr {bits : ℕ} {p q : ℕ → UInt8} {i : ℕ}
    (h : ∀ j, j < packedDim (i + 1) bits → p j = q j) :
    unpackCode bits p i = unpackCode bits q i := by
  rw [unpackCode_eq_word, unpackCode_eq_word]
  refine word_congr fun b hb => ?_
  unfold byteBit
  rw [h]
  have : i * bits + b + 1 ≤ (i + 1) * bits := by rw [Nat.succ_mul]; omega
  unfold packedDim
  omega

/-- A packed row is read back unchanged. -/
theorem unpackCode_packRow {bits n : ℕ} (hb : 0 < bits) {codes : Fin n → ℕ} (i : Fin n)
    (hc : codes i < 2 ^ bits) : unpackCode bits (ext (packRow bits codes)) i = codes i := by
  rw [unpackCode_congr (q := packByte bits n (ext codes)), unpackCode_packByte hb i.2 (by simpa),
    ext_val]
  intro j hj
  have hle : packedDim (i + 1) bits ≤ packedDim n bits := by
    have : (i.1 + 1) * bits ≤ n * bits := Nat.mul_le_mul_right bits i.2
    unfold packedDim
    omega
  rw [ext_of_lt _ (hj.trans_le hle)]
  rfl

/-- A code of at most 8 bits is read from the two bytes at its first bit. -/
theorem unpackCode_window {bits : ℕ} (hb : bits ≤ 8) (packed : ℕ → UInt8) (i : ℕ) :
    unpackCode bits packed i = (((packed (i * bits / 8)).toNat
      ||| (packed (i * bits / 8 + 1)).toNat <<< 8) >>> (i * bits % 8)) &&& (2 ^ bits - 1) := by
  have hlo : (packed (i * bits / 8)).toNat < 2 ^ 8 := (packed _).toNat_lt
  rw [unpackCode_eq_word, or_shiftLeft hlo, Nat.shiftRight_eq_div_pow,
    Nat.and_two_pow_sub_one_eq_mod, ← word_window]
  refine word_congr fun b hlt => ?_
  rw [twoBytes_bit hlo]
  unfold byteBit
  have hdm := Nat.div_add_mod (i * bits) 8
  have hmod := Nat.mod_lt (i * bits) (show 0 < 8 by omega)
  generalize i * bits / 8 = j at *
  generalize i * bits % 8 = s at *
  rw [← hdm]
  split_ifs with hs
  · rw [show (8 * j + s + b) / 8 = j by omega, show (8 * j + s + b) % 8 = s + b by omega]
  · rw [show (8 * j + s + b) / 8 = j + 1 by omega, show (8 * j + s + b) % 8 = s + b - 8 by omega]

/-- Four 2-bit codes lie in a byte. -/
theorem unpackCode_two (packed : ℕ → UInt8) (d : ℕ) :
    unpackCode 2 packed d = ((packed (d / 4)).toNat >>> (d % 4 * 2)) &&& 3 := by
  rw [unpackCode_eq_word, Nat.shiftRight_eq_div_pow, show (3 : ℕ) = 2 ^ 2 - 1 from rfl,
    Nat.and_two_pow_sub_one_eq_mod, ← word_window]
  refine word_congr fun b hlt => ?_
  unfold byteBit
  rw [show (d * 2 + b) / 8 = d / 4 by omega, show (d * 2 + b) % 8 = d % 4 * 2 + b by omega]

/-- Four codes of three bits, one behind the other. -/
theorem fourCodes_bit {f : ℕ → ℕ} (hf : ∀ i, f i < 8) {j : ℕ} (hj : j < 12) :
    (f 0 ||| f 1 <<< 3 ||| f 2 <<< 6 ||| f 3 <<< 9) / 2 ^ j % 2 = f (j / 3) / 2 ^ (j % 3) % 2 := by
  have h0 := hf 0
  have h1 := hf 1
  have h2 := hf 2
  have hsum : f 0 ||| f 1 <<< 3 ||| f 2 <<< 6 ||| f 3 <<< 9
      = f 0 + f 1 * 8 + f 2 * 64 + f 3 * 512 := by
    rw [or_shiftLeft (show f 0 < 2 ^ 3 by omega), or_shiftLeft (show _ < 2 ^ 6 by omega),
      or_shiftLeft (show _ < 2 ^ 9 by omega)]
    rfl
  rw [hsum]
  interval_cases j <;> simp only [Nat.reduceDiv, Nat.reduceMod, Nat.reducePow] <;> omega

/-- A byte of a row of 3-bit codes, cut from the four codes it may touch. -/
theorem fourCodes_byte {n b : ℕ} {codes lane : ℕ → ℕ}
    (hlane : ∀ i, lane i = if b * 8 / 3 + i < n then codes (b * 8 / 3 + i) else 0)
    (hlt : ∀ i < n, codes i < 8) :
    UInt8.ofNat
      (((lane 0 ||| lane 1 <<< 3 ||| lane 2 <<< 6 ||| lane 3 <<< 9) >>> (b * 8 % 3)) &&& 255)
      = packByte 3 n codes b := by
  have hsmall : ∀ i, lane i < 8 := by
    intro i
    rw [hlane]
    split_ifs with hi
    · exact hlt _ hi
    · omega
  apply UInt8.toNat_inj.1
  rw [packByte_toNat (by decide), show (255 : ℕ) = 2 ^ 8 - 1 from rfl,
    Nat.and_two_pow_sub_one_eq_mod, Nat.shiftRight_eq_div_pow, UInt8.toNat_ofNat',
    Nat.mod_mod_of_dvd _ (dvd_refl _), ← word_window]
  refine word_congr fun k hk => ?_
  have hdiv : (8 * b + k) / 3 = b * 8 / 3 + (b * 8 % 3 + k) / 3 := by omega
  have hmod : (8 * b + k) % 3 = (b * 8 % 3 + k) % 3 := by omega
  rw [fourCodes_bit hsmall (by omega), hlane, codeBit, ← hdiv, ← hmod]
  by_cases hin : 8 * b + k < n * 3
  · rw [if_pos hin, if_pos (by omega)]
  · rw [if_neg hin, if_neg (by omega), Nat.zero_div, Nat.zero_mod]

theorem unpackCode_lt (bits : ℕ) (packed : ℕ → UInt8) (i : ℕ) :
    unpackCode bits packed i < 2 ^ bits := by
  rw [unpackCode_eq_word]
  exact word_lt fun b _ => byteBit_le_one packed _

theorem packByte_congr {bits n : ℕ} (hb : 0 < bits) {codes codes' : ℕ → ℕ}
    (h : ∀ i < n, codes i = codes' i) (j : ℕ) :
    packByte bits n codes j = packByte bits n codes' j := by
  apply UInt8.toNat_inj.1
  rw [packByte_toNat hb, packByte_toNat hb]
  refine word_congr fun k _ => ?_
  unfold codeBit
  split_ifs with hk
  · rw [h _ (Nat.div_lt_of_lt_mul (by rwa [Nat.mul_comm bits]))]
  · rfl

/-- Packing what was unpacked keeps the bits of the codes and clears the others. -/
theorem packByte_unpackCode {bits : ℕ} (hb : 0 < bits) (n : ℕ) (packed : ℕ → UInt8) (j : ℕ) :
    packByte bits n (unpackCode bits packed) j
      = UInt8.ofNat ((packed j).toNat % 2 ^ (n * bits - 8 * j)) := by
  have hlt : (packed j).toNat < 2 ^ 8 := (packed j).toNat_lt
  apply UInt8.toNat_inj.1
  rw [packByte_toNat hb, UInt8.toNat_ofNat', ← word_masked hlt,
    Nat.mod_eq_of_lt (word_lt fun k _ => by
    split_ifs <;> omega)]
  refine word_congr fun k hk => ?_
  have hmod : (8 * j + k) % bits < bits := Nat.mod_lt _ hb
  rw [codeBit, unpackCode_eq_word, word_bit (fun b _ => byteBit_le_one packed _) hmod,
    Nat.div_add_mod', byteBit, show (8 * j + k) / 8 = j by omega, show (8 * j + k) % 8 = k by omega]
  split_ifs <;> first | rfl | omega

section Values

variable {bits n : ℕ}

/-- `bytes` with the bits from position `n` on cleared. -/
def clearFrom (n : ℕ) (bytes : List UInt8) : List UInt8 :=
  bytes.mapIdx fun j b => if 8 * j + 8 ≤ n then b else b &&& UInt8.ofNat (2 ^ (n - 8 * j) - 1)

theorem clearFrom_byte (n j : ℕ) (b : UInt8) :
    (if 8 * j + 8 ≤ n then b else b &&& UInt8.ofNat (2 ^ (n - 8 * j) - 1))
      = UInt8.ofNat (b.toNat % 2 ^ (n - 8 * j)) := by
  have hb : b.toNat < 2 ^ 8 := b.toNat_lt
  apply UInt8.toNat_inj.1
  rw [UInt8.toNat_ofNat', Nat.mod_eq_of_lt ((Nat.mod_le _ _).trans_lt hb)]
  split_ifs with h
  · rw [Nat.mod_eq_of_lt (hb.trans_le (Nat.pow_le_pow_right (by decide) (by omega)))]
  · have hmask : 2 ^ (n - 8 * j) - 1 < 2 ^ 8 := by
      have := Nat.pow_le_pow_right (show 0 < 2 by decide) (show n - 8 * j ≤ 8 by omega)
      have := Nat.two_pow_pos (n - 8 * j)
      omega
    rw [UInt8.toNat_and, UInt8.toNat_ofNat', Nat.mod_eq_of_lt hmask,
      Nat.and_two_pow_sub_one_eq_mod]

@[simp] theorem length_packBytes (values : List ℤ) :
    (packBytes bits values).length = packedDim values.length bits := by
  simp [packBytes]

@[simp] theorem length_unpackCodes (packed : List UInt8) :
    (unpackCodes bits n packed).length = n := by
  simp [unpackCodes]

theorem getD_packBytes (values : List ℤ) {j : ℕ} (hj : j < packedDim values.length bits) :
    (packBytes bits values).getD j 0
      = packByte bits values.length (fun i => (values.getD i 0).toNat) j := by
  simp [packBytes, hj]

theorem unpackCodes_packBytes (hb : 0 < bits) (hb8 : bits ≤ 8) {values : List ℤ}
    (hv : ∀ v ∈ values, 0 ≤ v ∧ v < 2 ^ bits) :
    (unpackCodes bits values.length (packBytes bits values)).map (fun c => (c.toNat : ℤ))
      = values := by
  refine List.ext_getElem (by simp) fun i hi hi' => ?_
  obtain ⟨h0, hlt⟩ := hv _ (List.getElem_mem hi')
  have hcode : (values.getD i 0).toNat < 2 ^ bits := by
    rw [List.getD_eq_getElem _ _ hi']
    zify
    omega
  have hread : unpackCode bits (fun j => ((packBytes bits values).take
      (packedDim values.length bits)).getD j 0) i = (values.getD i 0).toNat := by
    rw [List.take_of_length_le (by simp)]
    refine (unpackCode_congr fun j hj => getD_packBytes values (hj.trans_le ?_)).trans
      (unpackCode_packByte hb hi' hcode)
    have : (i + 1) * bits ≤ values.length * bits := Nat.mul_le_mul_right bits hi'
    unfold packedDim
    omega
  have hbyte : (values.getD i 0).toNat < 2 ^ 8 :=
    hcode.trans_le (Nat.pow_le_pow_right (by decide) hb8)
  simp only [unpackCodes, List.getElem_map, List.getElem_range, hread, UInt8.toNat_ofNat',
    Nat.mod_eq_of_lt hbyte]
  rw [List.getD_eq_getElem _ _ hi', Int.toNat_of_nonneg h0]

theorem packBytes_unpackCodes (hb : 0 < bits) (hb8 : bits ≤ 8) {bytes : List UInt8}
    (hlen : bytes.length = packedDim n bits) :
    packBytes bits ((unpackCodes bits n bytes).map fun c => (c.toNat : ℤ))
      = clearFrom (n * bits) bytes := by
  refine List.ext_getElem (by simp [hlen, clearFrom]) fun j hj hj' => ?_
  have hin : j < bytes.length := by simpa [clearFrom] using hj'
  have hcodes : ∀ i < n, (((unpackCodes bits n bytes).map fun c => (c.toNat : ℤ)).getD i 0).toNat
      = unpackCode bits (fun j => bytes.getD j 0) i := fun i hi => by
    have hlt := (unpackCode_lt bits (fun j => bytes.getD j 0) i).trans_le
      (Nat.pow_le_pow_right (show 0 < 2 by decide) hb8)
    simp only [unpackCodes, ← hlen, List.take_length] at *
    rw [List.getD_eq_getElem _ _ (by simpa using hi)]
    simp only [List.getElem_map, List.getElem_range, UInt8.toNat_ofNat', Int.toNat_natCast]
    exact Nat.mod_eq_of_lt hlt
  simp only [packBytes, List.getElem_map, List.getElem_range, List.length_map, length_unpackCodes,
    clearFrom, List.getElem_mapIdx]
  rw [packByte_congr hb hcodes, packByte_unpackCode hb, clearFrom_byte,
    List.getD_eq_getElem _ _ hin]

/-- Eight-bit codes are bytes. -/
theorem packBytes_eight {values : List ℤ} (hv : ∀ v ∈ values, 0 ≤ v ∧ v < 2 ^ 8) :
    packBytes 8 values = values.map fun code => UInt8.ofNat code.toNat := by
  have hdim : packedDim values.length 8 = values.length := by
    unfold packedDim
    omega
  refine List.ext_getElem (by simp [hdim]) fun j hj hj' => ?_
  have hj'' : j < values.length := by simpa using hj'
  obtain ⟨h0, hlt⟩ := hv _ (List.getElem_mem hj'')
  have hbyte : values[j].toNat < 2 ^ 8 := by omega
  apply UInt8.toNat_inj.1
  simp only [packBytes, List.getElem_map, List.getElem_range]
  rw [packByte_toNat (by decide), UInt8.toNat_ofNat', Nat.mod_eq_of_lt hbyte]
  refine (word_congr fun k hk => ?_).trans (word_digits hbyte)
  rw [codeBit, if_pos (by omega), show (8 * j + k) / 8 = j by omega,
    show (8 * j + k) % 8 = k by omega, List.getD_eq_getElem _ _ hj'']

theorem unpackCodes_eight {packed : List UInt8} (h : n ≤ packed.length) :
    unpackCodes 8 n packed = packed.take n := by
  have hdim : packedDim n 8 = n := by
    unfold packedDim
    omega
  refine List.ext_getElem (by simpa using h) fun i hi hi' => ?_
  have hin : i < packed.length := by
    simp only [length_unpackCodes] at hi
    omega
  have hlt := packed[i].toNat_lt
  simp only [unpackCodes, hdim, List.getElem_map, List.getElem_range, List.getElem_take]
  rw [unpackCode_eq_word, show (word 8 fun b => byteBit (fun j => (packed.take n).getD j 0)
      (i * 8 + b)) = packed[i].toNat from ?_, UInt8.ofNat_toNat]
  refine (word_congr fun b hb => ?_).trans (word_digits hlt)
  rw [byteBit, show (i * 8 + b) / 8 = i by omega, show (i * 8 + b) % 8 = b by omega,
    List.getD_eq_getElem _ _ (by simpa using hi'), List.getElem_take]

theorem packLowbitValues_of_valid (hb : bits ∈ [1, 2, 3, 4, 8]) {values : List ℤ}
    (hv : ∀ v ∈ values, 0 ≤ v ∧ v < 2 ^ bits) :
    packLowbitValues values bits = .ok (packBytes bits values) := by
  rcases values with _ | ⟨v, values⟩
  · simp [packLowbitValues, hb, packBytes, packedDim]
  have hany : ¬ ((v :: values).any fun code => decide (code < 0) ||
      decide (code > ((1 <<< bits - 1 : ℕ) : ℤ))) = true := by
    simp only [List.any_eq_true, Bool.or_eq_true, decide_eq_true_eq, not_exists, not_and, not_or]
    intro code hcode
    obtain ⟨h0, hlt⟩ := hv code hcode
    have h1 := Nat.one_le_two_pow (n := bits)
    rw [Nat.one_shiftLeft]
    push_cast [h1]
    omega
  unfold packLowbitValues
  rw [if_neg (not_not.2 hb), if_neg (by simp), if_neg hany]
  split_ifs with h8
  · subst h8
    rw [packBytes_eight hv]
  · rfl

theorem packLowbitValues_of_invalid (hb : bits ∈ [1, 2, 3, 4, 8]) {values : List ℤ} {v : ℤ}
    (hv : v ∈ values) (hout : v < 0 ∨ 2 ^ bits - 1 < v) :
    ∃ e, packLowbitValues values bits = .error e := by
  have hany : (values.any fun code => decide (code < 0) ||
      decide (code > ((1 <<< bits - 1 : ℕ) : ℤ))) = true := by
    have h1 := Nat.one_le_two_pow (n := bits)
    simp only [List.any_eq_true, Bool.or_eq_true, decide_eq_true_eq, Nat.one_shiftLeft]
    exact ⟨v, hv, hout.imp id fun h => by push_cast [h1]; exact h⟩
  unfold packLowbitValues
  rw [if_neg (not_not.2 hb), if_neg (by simpa using List.ne_nil_of_mem hv), if_pos hany]
  exact ⟨_, rfl⟩

theorem unpackLowbitValues_of_length (hb : bits ∈ [1, 2, 3, 4, 8]) {packed : List UInt8}
    (hlen : packedDim n bits ≤ packed.length) :
    unpackLowbitValues packed n bits = .ok (unpackCodes bits n packed) := by
  unfold unpackLowbitValues
  rw [if_neg (by omega), if_neg (not_not.2 hb), Int.toNat_natCast, if_neg (Nat.not_lt.2 hlen)]
  split_ifs with h0 h8
  · have : n = 0 := by exact_mod_cast h0
    simp [unpackCodes, this]
  · subst h8
    rw [unpackCodes_eight]
    unfold packedDim at hlen
    omega
  · rfl

theorem packInt3Values_toOption (values : List ℤ) :
    (packInt3Values values).toOption = (packLowbitValues values 3).toOption := by
  unfold packInt3Values packLowbitValues
  simp only [List.mem_cons, List.not_mem_nil]
  split_ifs <;> first | rfl | contradiction

theorem unpackInt3Values_toOption (packed : List UInt8) (count : ℤ) :
    (unpackInt3Values packed count).toOption = (unpackLowbitValues packed count 3).toOption := by
  unfold unpackInt3Values unpackLowbitValues
  dsimp only
  split_ifs <;> first | rfl | simp_all

/-- Packing raises on a code out of range and on nothing else, and otherwise inverts and is inverted
by unpacking, up to the unused bits of the last byte. -/
theorem packLowbit_unpackLowbit (hb : bits ∈ [1, 2, 3, 4, 8]) (n : ℕ) :
    (∀ values : List ℤ, values.length = n →
      ((∃ e, packLowbitValues values bits = .error e) ↔ ∃ v ∈ values, v < 0 ∨ 2 ^ bits - 1 < v) ∧
      ∀ packed, packLowbitValues values bits = .ok packed →
        packed.length = n * bits ⌈/⌉ 8 ∧
        (∀ j, packAcc bits n (fun i => (values.getD i 0).toNat) j ≤ 255) ∧
        ∃ codes, unpackLowbitValues packed n bits = .ok codes ∧
          codes.map (fun c => (c.toNat : ℤ)) = values) ∧
      (∀ bytes : List UInt8, bytes.length = n * bits ⌈/⌉ 8 →
        ∃ codes, unpackLowbitValues bytes n bits = .ok codes ∧
          packLowbitValues (codes.map fun c => (c.toNat : ℤ)) bits
            = .ok (clearFrom (n * bits) bytes)) ∧
      (∀ values, (packInt3Values values).toOption = (packLowbitValues values 3).toOption) ∧
      ∀ packed count,
        (unpackInt3Values packed count).toOption
          = (unpackLowbitValues packed count 3).toOption := by
  have hpos : 0 < bits ∧ bits ≤ 8 := by
    simp only [List.mem_cons, List.not_mem_nil, or_false] at hb
    omega
  have hceil : n * bits ⌈/⌉ 8 = packedDim n bits := Nat.ceilDiv_eq_add_pred_div _ _
  refine ⟨fun values hn => ?_, fun bytes hlen => ?_, packInt3Values_toOption,
    unpackInt3Values_toOption⟩
  · subst hn
    by_cases hv : ∃ v ∈ values, v < 0 ∨ 2 ^ bits - 1 < v
    · obtain ⟨v, hmem, hout⟩ := hv
      obtain ⟨e, he⟩ := packLowbitValues_of_invalid hb hmem hout
      refine ⟨iff_of_true ⟨e, he⟩ ⟨v, hmem, hout⟩, ?_⟩
      intro packed hpacked
      rw [he] at hpacked
      cases hpacked
    · have hin : ∀ v ∈ values, 0 ≤ v ∧ v < 2 ^ bits := fun v hmem => by
        have hnot : ¬ (v < 0 ∨ 2 ^ bits - 1 < v) := fun hout => hv ⟨v, hmem, hout⟩
        omega
      have hok := packLowbitValues_of_valid hb hin
      have hraise : ¬ ∃ e, packLowbitValues values bits = .error e := by simp [hok]
      refine ⟨iff_of_false hraise hv, ?_⟩
      intro packed hpacked
      rw [hok] at hpacked
      cases hpacked
      refine ⟨by rw [hceil, length_packBytes], fun j => Nat.le_of_lt_succ (packAcc_lt hpos.1 _ _ j),
        _, unpackLowbitValues_of_length hb (by rw [length_packBytes]), ?_⟩
      exact unpackCodes_packBytes hpos.1 hpos.2 hin
  · rw [hceil] at hlen
    refine ⟨_, unpackLowbitValues_of_length hb hlen.ge, ?_⟩
    rw [packLowbitValues_of_valid hb, packBytes_unpackCodes hpos.1 hpos.2 hlen]
    intro v hv
    obtain ⟨c, hc, rfl⟩ := List.mem_map.1 hv
    obtain ⟨i, -, rfl⟩ := List.mem_map.1 hc
    have hlt := unpackCode_lt bits (fun j => (bytes.take (packedDim n bits)).getD j 0) i
    refine ⟨Int.natCast_nonneg _, ?_⟩
    rw [UInt8.toNat_ofNat']
    exact_mod_cast (Nat.mod_le _ _).trans_lt hlt

/-- Three codes of three bits leave seven bits of the second byte unused. -/
theorem packLowbit_unpackLowbit_three_codes :
    3 ∈ [1, 2, 3, 4, 8] ∧ ∃ codes, unpackLowbitValues [255, 255] 3 3 = .ok codes ∧
      packLowbitValues (codes.map fun c => (c.toNat : ℤ)) 3 = .ok (clearFrom 9 [255, 255]) :=
  ⟨by decide, (packLowbit_unpackLowbit (show 3 ∈ [1, 2, 3, 4, 8] by decide) 3).2.1 [255, 255]
    (by decide)⟩

end Values

end RabitKV
