import RabitKV.Int3Cache
import RabitKV.Proofs.ErrorBound

/-!
# Quantizing an INT3 row twice

The scale of a row is a third of its largest magnitude, or the floor `1e-6`. Every quotient lies
between -3 and 3, so the clamp does nothing, and the largest entry of a row above the floor is
rounded to 3 or -3 exactly: the reconstruction has the same scale, and its quotients are the signed
codes themselves.
-/

namespace RabitKV

open Affine

section Row

variable {B : Type} (toB : ℚ → B) (ofB : B → ℚ) {D : ℕ}

/-- `torch.round` of the quotient, before the clamp. -/
def int3Signed (x : Fin D → ℚ) (d : Fin D) : ℤ :=
  roundHalfEven (x d / int3Scale (exactFp toB ofB) x)

theorem int3Scale_exact (x : Fin D → ℚ) : int3Scale (exactFp toB ofB) x
    = max ((exactFp toB ofB).amax ((List.ofFn x).map fun v => |v|) / 3) (1 / 10 ^ 6) := rfl

theorem int3Scale_pos (x : Fin D → ℚ) : 0 < int3Scale (exactFp toB ofB) x := by
  rw [int3Scale_exact]
  exact lt_max_of_lt_right (by norm_num)

theorem abs_le_int3Scale (x : Fin D → ℚ) (d : Fin D) :
    |x d| ≤ 3 * int3Scale (exactFp toB ofB) x := by
  have hmem : |x d| ∈ (List.ofFn x).map fun v => |v| :=
    List.mem_map_of_mem (f := fun v : ℚ => |v|) (List.mem_ofFn.2 ⟨d, rfl⟩)
  have hmax : |x d| ≤ (exactFp toB ofB).amax ((List.ofFn x).map fun v => |v|) := le_amax_of_mem hmem
  have hscale : (exactFp toB ofB).amax ((List.ofFn x).map fun v => |v|) / 3
      ≤ int3Scale (exactFp toB ofB) x := le_max_left _ _
  linarith

/-- The signed codes lie between -3 and 3. -/
theorem int3Signed_mem (x : Fin D → ℚ) (d : Fin D) :
    -3 ≤ int3Signed toB ofB x d ∧ int3Signed toB ofB x d ≤ 3 := by
  have hpos := int3Scale_pos toB ofB x
  obtain ⟨hlow, hhigh⟩ := abs_le.1 (abs_le_int3Scale toB ofB x d)
  have hge : ((-3 : ℤ) : ℚ) ≤ x d / int3Scale (exactFp toB ofB) x := by
    rw [le_div_iff₀ hpos]
    push_cast
    linarith
  have hle : x d / int3Scale (exactFp toB ofB) x ≤ ((3 : ℤ) : ℚ) := by
    rw [div_le_iff₀ hpos]
    push_cast
    linarith
  have hge' := roundHalfEven_nearest.monotone hge
  have hle' := roundHalfEven_nearest.monotone hle
  rw [roundHalfEven_nearest.intCast] at hge' hle'
  exact ⟨hge', hle'⟩

/-- The clamp of the codes is inactive. -/
theorem int3Code_eq (x : Fin D → ℚ) (d : Fin D) :
    (int3Code (exactFp toB ofB) x d : ℤ) = int3Signed toB ofB x d + 4 := by
  obtain ⟨hlow, hhigh⟩ := int3Signed_mem toB ofB x d
  have hdef : int3Code (exactFp toB ofB) x d
      = (min 3 (max (-4) (int3Signed toB ofB x d)) + 4).toNat := rfl
  rw [hdef]
  omega

/-- What a row is reconstructed to. -/
def int3Value (x : Fin D → ℚ) (d : Fin D) : ℚ :=
  int3Signed toB ofB x d * int3Scale (exactFp toB ofB) x

theorem abs_int3Value_sub_le (x : Fin D → ℚ) (d : Fin D) :
    |int3Value toB ofB x d - x d| ≤ int3Scale (exactFp toB ofB) x / 2 := by
  have hstep := roundHalfEven_nearest.abs_decode_sub_le (x := x d) (m := 0)
    (int3Scale_pos toB ofB x)
  rw [sub_zero, add_zero] at hstep
  exact hstep

theorem abs_int3Value_le (x : Fin D → ℚ) (d : Fin D) :
    |int3Value toB ofB x d| ≤ 3 * int3Scale (exactFp toB ofB) x := by
  obtain ⟨hlow, hhigh⟩ := int3Signed_mem toB ofB x d
  have habs : |(int3Signed toB ofB x d : ℚ)| ≤ 3 := by
    rw [abs_le]
    exact ⟨by exact_mod_cast hlow, by exact_mod_cast hhigh⟩
  rw [int3Value, abs_mul, abs_of_pos (int3Scale_pos toB ofB x)]
  exact mul_le_mul_of_nonneg_right habs (int3Scale_pos toB ofB x).le

/-- Above the floor the largest entry comes back exactly. -/
theorem abs_int3Value_of_max {x : Fin D → ℚ} {d : Fin D}
    (hd : |x d| = 3 * int3Scale (exactFp toB ofB) x) :
    |int3Value toB ofB x d| = 3 * int3Scale (exactFp toB ofB) x := by
  have hpos := int3Scale_pos toB ofB x
  have hcase : x d / int3Scale (exactFp toB ofB) x = ((3 : ℤ) : ℚ) ∨
      x d / int3Scale (exactFp toB ofB) x = ((-3 : ℤ) : ℚ) := by
    rcases eq_or_eq_neg_of_abs_eq hd with h | h
    · left
      rw [h, mul_div_assoc, div_self hpos.ne']
      norm_num
    · right
      rw [h, neg_div, mul_div_assoc, div_self hpos.ne']
      norm_num
  rw [int3Value, int3Signed, abs_mul, abs_of_pos hpos]
  rcases hcase with h | h <;> rw [h, roundHalfEven_nearest.intCast] <;> norm_num

/-- The largest magnitude of a row, and where it is. -/
theorem exists_absmax (hD : 0 < D) (x : Fin D → ℚ) :
    ∃ d, |x d| = (exactFp toB ofB).amax ((List.ofFn x).map fun v => |v|) := by
  have hmem : (exactFp toB ofB).amax ((List.ofFn x).map fun v => |v|)
      ∈ (List.ofFn x).map fun v => |v| := by
    rcases hl : (List.ofFn x).map fun v => |v| with _ | ⟨y, ys⟩
    · rw [List.map_eq_nil_iff, List.ofFn_eq_nil_iff] at hl
      omega
    · exact (List.max?_eq_some_iff.1 List.max?_cons').1
  obtain ⟨v, hv, habs⟩ := List.mem_map.1 hmem
  obtain ⟨d, rfl⟩ := List.mem_ofFn.1 hv
  exact ⟨d, habs⟩

/-- The reconstruction of a row has the scale of the row. -/
theorem int3Scale_value (hD : 0 < D) (x : Fin D → ℚ) :
    int3Scale (exactFp toB ofB) (int3Value toB ofB x) = int3Scale (exactFp toB ofB) x := by
  obtain ⟨d', hd'⟩ := exists_absmax toB ofB hD (int3Value toB ofB x)
  have hle := abs_int3Value_le toB ofB x d'
  rw [hd'] at hle
  rw [int3Scale_exact toB ofB (int3Value toB ofB x)]
  rcases le_total ((exactFp toB ofB).amax ((List.ofFn x).map fun v => |v|) / 3) (1 / 10 ^ 6)
    with hfloor | habove
  · have hscale : int3Scale (exactFp toB ofB) x = 1 / 10 ^ 6 := max_eq_right hfloor
    rw [hscale] at hle ⊢
    exact max_eq_right (by linarith)
  · have hscale : int3Scale (exactFp toB ofB) x
        = (exactFp toB ofB).amax ((List.ofFn x).map fun v => |v|) / 3 := max_eq_left habove
    obtain ⟨d, hd⟩ := exists_absmax toB ofB hD x
    have hmax : |int3Value toB ofB x d| = 3 * int3Scale (exactFp toB ofB) x := by
      refine abs_int3Value_of_max toB ofB ?_
      rw [hd, hscale]
      ring
    have hmem : |int3Value toB ofB x d| ∈ (List.ofFn (int3Value toB ofB x)).map fun v => |v| :=
      List.mem_map_of_mem (f := fun v : ℚ => |v|) (List.mem_ofFn.2 ⟨d, rfl⟩)
    have hge : |int3Value toB ofB x d|
        ≤ (exactFp toB ofB).amax ((List.ofFn (int3Value toB ofB x)).map fun v => |v|) :=
      le_amax_of_mem hmem
    rw [← hscale] at habove
    rw [hmax] at hge
    rw [max_eq_left (by linarith)]
    linarith

/-- The signed codes of a reconstruction are its quotients. -/
theorem int3Code_value (hD : 0 < D) (x : Fin D → ℚ) :
    int3Code (exactFp toB ofB) (int3Value toB ofB x) = int3Code (exactFp toB ofB) x := by
  funext d
  have hsigned : int3Signed toB ofB (int3Value toB ofB x) d = int3Signed toB ofB x d := by
    rw [int3Signed, int3Scale_value toB ofB hD, int3Value,
      mul_div_cancel_right₀ _ (int3Scale_pos toB ofB x).ne', roundHalfEven_nearest.intCast]
  have hcode := int3Code_eq toB ofB (int3Value toB ofB x) d
  rw [hsigned, ← int3Code_eq] at hcode
  exact_mod_cast hcode

end Row

section Tensor

variable {B : Type} (toB : ℚ → B) (ofB : B → ℚ) {H D : ℕ}

theorem quantizeInt3_value (hD : 0 < D) (x : Tok H D ℚ) :
    quantizeInt3 (exactFp toB ofB) (fun h => int3Value toB ofB (x h))
      = quantizeInt3 (exactFp toB ofB) x := by
  simp only [quantizeInt3, int3Code_value toB ofB hD, int3Scale_value toB ofB hD]

/-- A packed row gives its signed codes back. -/
theorem unpackCode_quantizeInt3 (x : Tok H D ℚ) (h : Fin H) (d : Fin D) :
    (unpackCode 3
      (fun j => (List.ofFn ((quantizeInt3 (exactFp toB ofB) x).packed h)).getD j 0) d : ℤ)
      - 4 = int3Signed toB ofB (x h) d := by
  have hrow : (fun j => (List.ofFn ((quantizeInt3 (exactFp toB ofB) x).packed h)).getD j 0)
      = ext (packRow 3 (int3Code (exactFp toB ofB) (x h))) := by
    funext j
    rw [List.getD_eq_getElem?_getD, List.getElem?_ofFn, ext]
    split <;> rfl
  have hcode := int3Code_eq toB ofB (x h) d
  have hmem := int3Signed_mem toB ofB (x h) d
  rw [hrow, unpackCode_packRow (by decide) d (by omega), hcode]
  omega

theorem quantizeInt3PerTokenHead_ok (hD : 0 < D) (x : List (Tok H D ℚ)) :
    quantizeInt3PerTokenHead (exactFp toB ofB) x = .ok
      ({ width := int3PackedWidth x.length H D
         rows := x.map fun t h => List.ofFn ((quantizeInt3 (exactFp toB ofB) t).packed h) },
        x.map fun t h => int3Scale (exactFp toB ofB) (t h)) := by
  unfold quantizeInt3PerTokenHead
  rw [if_neg (by omega)]
  simp only [List.map_map]
  rfl

theorem dequantizeInt3PerTokenHead_ok {x : List (Tok H D ℚ)} (hx : x ≠ []) (hH : 0 < H) :
    dequantizeInt3PerTokenHead (exactFp toB ofB)
      { width := int3PackedWidth x.length H D
        rows := x.map fun t h => List.ofFn ((quantizeInt3 (exactFp toB ofB) t).packed h) }
      (x.map fun t h => int3Scale (exactFp toB ofB) (t h)) D
      = .ok (x.map fun t h => int3Value toB ofB (t h)) := by
  have hlen : x.length ≠ 0 := fun h0 => hx (List.length_eq_zero_iff.1 h0)
  have hwidth : int3PackedWidth x.length H D = packedDim D 3 := if_neg (by omega)
  simp only [dequantizeInt3PerTokenHead, hwidth, lt_irrefl, if_false, List.zipWith_map,
    List.zipWith_self]
  refine congrArg Except.ok (List.map_congr_left fun t _ => ?_)
  funext h d
  rw [unpackCode_quantizeInt3]
  rfl

/-- A tensor is reconstructed within half a scale, from unclamped codes, and quantizing the
reconstruction changes nothing. -/
def Int3Requantizes (x : List (Tok H D ℚ)) : Prop :=
  ∃ packed scales y, quantizeInt3PerTokenHead (exactFp toB ofB) x = .ok (packed, scales) ∧
    (∀ t ∈ x, ∀ h d, -3 ≤ int3Signed toB ofB (t h) d ∧ int3Signed toB ofB (t h) d ≤ 3 ∧
      (int3Code (exactFp toB ofB) (t h) d : ℤ) = int3Signed toB ofB (t h) d + 4) ∧
    dequantizeInt3PerTokenHead (exactFp toB ofB) packed scales D = .ok y ∧ y.length = x.length ∧
    (∀ (i : ℕ) (t z : Tok H D ℚ) (s : Fin H → ℚ), x[i]? = some t → y[i]? = some z →
      scales[i]? = some s → ∀ h d, |z h d - t h d| ≤ s h / 2) ∧
    quantizeInt3PerTokenHead (exactFp toB ofB) y = .ok (packed, scales)

theorem int3Requantizes_of_nonempty (hD : 0 < D) {x : List (Tok H D ℚ)} (hx : x ≠ [])
    (hH : 0 < H) : Int3Requantizes toB ofB x := by
  refine ⟨_, _, _, quantizeInt3PerTokenHead_ok toB ofB hD x, ?_,
    dequantizeInt3PerTokenHead_ok toB ofB hx hH, List.length_map _, ?_, ?_⟩
  · intro t _ h d
    obtain ⟨hlow, hhigh⟩ := int3Signed_mem toB ofB (t h) d
    exact ⟨hlow, hhigh, int3Code_eq toB ofB (t h) d⟩
  · intro i t z s ht hz hs h d
    rw [List.getElem?_map, ht] at hz hs
    obtain rfl := Option.some.inj hz
    obtain rfl := Option.some.inj hs
    exact abs_int3Value_sub_le toB ofB (t h) d
  · rw [quantizeInt3PerTokenHead_ok toB ofB hD, List.length_map, List.map_map, List.map_map]
    refine congrArg Except.ok (Prod.ext (Int3Packed.ext rfl ?_) ?_)
    · refine List.map_congr_left fun t _ => ?_
      simp only [Function.comp_apply, quantizeInt3_value toB ofB hD]
    · refine List.map_congr_left fun t _ => ?_
      simp only [Function.comp_apply, int3Scale_value toB ofB hD]

/-- The packed bytes of an empty tensor are refused when they are read back. -/
theorem not_int3Requantizes_of_empty (hD : 0 < D) {x : List (Tok H D ℚ)} (hx : x = [] ∨ H = 0) :
    ¬ Int3Requantizes toB ofB x := by
  rintro ⟨packed, scales, y, hq, -, hy, -⟩
  rw [quantizeInt3PerTokenHead_ok toB ofB hD] at hq
  obtain ⟨rfl, rfl⟩ := Prod.mk.inj (Except.ok.inj hq)
  have hwidth : int3PackedWidth x.length H D = 0 :=
    if_pos (hx.imp_left fun h => List.length_eq_zero_iff.2 h)
  have hlt : 0 < packedDim D 3 := by
    unfold packedDim
    omega
  simp only [dequantizeInt3PerTokenHead, hwidth, if_pos hlt] at hy
  cases hy

/-- A tensor with a token and a head survives; an empty one cannot be read back. -/
theorem int3Requantizes_iff (hD : 0 < D) (x : List (Tok H D ℚ)) :
    Int3Requantizes toB ofB x ↔ x ≠ [] ∧ 0 < H := by
  constructor
  · intro h
    refine ⟨fun hx => ?_, Nat.pos_of_ne_zero fun hH => ?_⟩
    · exact not_int3Requantizes_of_empty toB ofB hD (.inl hx) h
    · exact not_int3Requantizes_of_empty toB ofB hD (.inr hH) h
  · rintro ⟨hx, hH⟩
    exact int3Requantizes_of_nonempty toB ofB hD hx hH

end Tensor

theorem int3Requantizes_iff_two_entries :
    Int3Requantizes id id [fun (_ : Fin 1) (d : Fin 2) => (d : ℚ)] ↔
      [fun (_ : Fin 1) (d : Fin 2) => (d : ℚ)] ≠ [] ∧ 0 < 1 :=
  int3Requantizes_iff id id (by decide) _

theorem int3Requantizes_no_tokens : ¬ Int3Requantizes id id ([] : List (Tok 1 1 ℚ)) :=
  not_int3Requantizes_of_empty id id (by decide) (.inl rfl)

end RabitKV
