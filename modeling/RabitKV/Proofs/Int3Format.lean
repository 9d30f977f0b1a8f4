import RabitKV.Int3Format
import RabitKV.Proofs.Bulk
import RabitKV.Proofs.Tail

/-!
# One INT3 byte format

Each writer makes the bytes of the codes' bit stream, and the two-byte window reads a code off it.
-/

namespace RabitKV

section Writers

variable {F B : Type} {fp : Fp F B} {n : ℕ} {codes : ℕ → ℕ}

/-- A lane outside the row packs the code of zero, which must be zero for the last byte. -/
theorem kPackByte_eq (hzero : kPackCode fp (fp.lit 0) (fp.lit 0) (fp.lit 1) = 0) {x mn sc : ℕ → F}
    (hcode : ∀ d < n, kPackCode fp (x d) (mn d) (sc d) = codes d)
    (hlt : ∀ d < n, codes d < 8) {b : ℕ}
    (hb : b < packedDim n 3) : kPackByte fp x mn sc n (packedDim n 3) b = packByte 3 n codes b := by
  have hlane : ∀ j, kPackLane fp x mn sc (decide (b < packedDim n 3) && decide (b * 8 / 3 + j < n))
      (b * 8 / 3 + j) = if b * 8 / 3 + j < n then codes (b * 8 / 3 + j) else 0 := by
    intro j
    by_cases hj : b * 8 / 3 + j < n
    · simp [kPackLane, hb, hj, hcode _ hj]
    · simp [kPackLane, hj, hzero]
  rw [← fourCodes_byte hlane hlt]
  simp only [kPackByte, List.range_succ, List.range_zero, List.nil_append, List.cons_append,
    List.foldl_cons, List.foldl_nil, Nat.mul_zero, Nat.shiftLeft_zero, Nat.zero_or, Nat.mul_one,
    Nat.reduceMul]

theorem packInt3Values_of_codes {codes : List ℕ} (hlt : ∀ c ∈ codes, c < 8) :
    packInt3Values (codes.map fun c : ℕ => (c : ℤ))
      = .ok ((List.range (packedDim codes.length 3)).map
      (packByte 3 codes.length fun i => codes.getD i 0)) := by
  have hbytes : packBytes 3 (codes.map fun c : ℕ => (c : ℤ))
    = (List.range (packedDim codes.length 3)).map
      (packByte 3 codes.length fun i => codes.getD i 0) := by
    unfold packBytes
    rw [List.length_map]
    refine List.map_congr_left fun j _ => packByte_congr (by decide) (fun i hi => ?_) j
    simp [hi]
  rcases codes with _ | ⟨c, codes⟩
  · rfl
  · unfold packInt3Values
    rw [if_neg (by simp), if_neg, hbytes]
    simp only [List.any_eq_true, Bool.or_eq_true, decide_eq_true_eq, not_exists, not_and, not_or]
    intro v hv
    obtain ⟨c', hc', rfl⟩ := List.mem_map.1 hv
    have := hlt c' hc'
    omega

end Writers

/-- The window of `_rabit2_page_decode_kernel` reads what `unpack_int3_values` reads. -/
theorem pageKCode_eq {bytes : List UInt8} {n d : ℕ} (hlen : bytes.length = packedDim n 3)
    (hd : d < n) : pageKCode (fun j => bytes.getD j 0) 0 n (packedDim n 3) d
      = unpackCode 3 (fun j => bytes.getD j 0) d := by
  rw [unpackCode_window (by decide)]
  simp only [pageKCode, decide_eq_true hd, Bool.true_and, if_true, Nat.zero_add]
  by_cases hhi : d * 3 / 8 + 1 < packedDim n 3
  · simp [hhi]
  · simp [hhi, hlen]

/-- Every INT3 writer makes the bytes of `pack_int3_values`, and the two-byte window reads the codes
of `unpack_int3_values`. -/
theorem int3_formats_agree {F B : Type} (fp : Fp F B)
    (hzero : kPackCode fp (fp.lit 0) (fp.lit 0) (fp.lit 1) = 0) {n : ℕ} (hn : 0 < n) :
    (∀ codes : List ℕ, codes.length = n → (∀ c ∈ codes, c < 8) →
      ∃ packed, packInt3Values (codes.map fun c : ℕ => (c : ℤ)) = .ok packed ∧
        (∀ (kCodes : ℕ → UInt8) (row : ℕ),
          (∀ d < n, codes[d]? = some (kCodes (row * n + d)).toNat) →
          (List.range (packedDim n 3)).map (packK3Byte kCodes n (packedDim n 3) row) = packed) ∧
        (∀ x mn sc : ℕ → F, (∀ d < n, codes[d]? = some (kPackCode fp (x d) (mn d) (sc d))) →
          (List.range (packedDim n 3)).map (kPackByte fp x mn sc n (packedDim n 3)) = packed) ∧
        (8 ∣ n →
          (List.range (n * 3 / 8)).map (packInt3Direct n fun i => codes.getD i 0) = packed)) ∧
      ∀ bytes : List UInt8, bytes.length = packedDim n 3 →
        ∃ codes, unpackInt3Values bytes n = .ok codes ∧ ∀ d < n,
          codes[d]?.map UInt8.toNat
            = some (pageKCode (fun j => bytes.getD j 0) 0 n (packedDim n 3) d) := by
  refine ⟨fun codes hlen hlt => ?_, fun bytes hlen => ?_⟩
  · subst hlen
    have hget : ∀ {d c : ℕ}, codes[d]? = some c → c = codes.getD d 0 := fun h => by
      rw [List.getD_eq_getElem?_getD, h, Option.getD_some]
    have hsmall : ∀ d, codes.getD d 0 < 8 := fun d => by
      rcases Nat.lt_or_ge d codes.length with hd | hd
      · rw [List.getD_eq_getElem _ _ hd]
        exact hlt _ (List.getElem_mem hd)
      · rw [List.getD_eq_default _ _ hd]
        decide
    refine ⟨_, packInt3Values_of_codes hlt, fun kCodes row hk => ?_, fun x mn sc hx => ?_,
      fun h8 => ?_⟩
    · exact List.map_congr_left fun b hb => packK3Byte_eq (fun d hd => hget (hk d hd))
        (fun d _ => hsmall d) (List.mem_range.1 hb)
    · exact List.map_congr_left fun b hb => kPackByte_eq hzero (fun d hd => hget (hx d hd))
        (fun d _ => hsmall d) (List.mem_range.1 hb)
    · have hdim : codes.length * 3 / 8 = packedDim codes.length 3 := by
        unfold packedDim
        omega
      rw [hdim]
      exact List.map_congr_left fun b hb => packInt3Direct_eq hsmall (List.mem_range.1 hb)
  · have hok : unpackInt3Values bytes n = .ok (unpackCodes 3 n bytes) := by
      unfold unpackInt3Values
      dsimp only
      rw [if_neg (by omega), Int.toNat_natCast, if_neg (by omega), if_neg (by omega)]
    refine ⟨_, hok, fun d hd => ?_⟩
    have hbyte := (unpackCode_lt 3 (fun j => bytes.getD j 0) d).trans (show 2 ^ 3 < 2 ^ 8 by decide)
    rw [pageKCode_eq hlen hd]
    simp only [unpackCodes, ← hlen, List.take_length, List.getElem?_map, List.getElem?_range hd,
      Option.map_some, UInt8.toNat_ofNat', Nat.mod_eq_of_lt hbyte]

/-- Three codes, with a last byte that is not full. -/
theorem int3_formats_agree_three_codes :
    kPackCode ratFp (ratFp.lit 0) (ratFp.lit 0) (ratFp.lit 1) = 0 ∧
      ∃ packed, packInt3Values [7, 1, 6] = .ok packed ∧
        (List.range 2).map (kPackByte ratFp (fun d => [7, 1, 6].getD d 0) (fun _ => 0)
          (fun _ => 1) 3 2)
          = packed := by
  have hzero : kPackCode ratFp (ratFp.lit 0) (ratFp.lit 0) (ratFp.lit 1) = 0 := by decide +kernel
  obtain ⟨packed, hok, -, hk, -⟩ := (int3_formats_agree ratFp hzero (show 0 < 3 by decide)).1
    [7, 1, 6]
    rfl (by decide)
  exact ⟨hzero, packed, hok, hk _ _ _ (by decide +kernel)⟩

end RabitKV
