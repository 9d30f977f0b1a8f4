import RabitKV.Sidecar

/-!
# Exact rational arithmetic

The primitives over the rationals, with any conversion to and from the short format; `ratFp` takes
bfloat16 bit patterns. Rounding to bfloat16 (`nearestBf16`) is the same over any ordered field.
-/

namespace RabitKV

section Nearest

variable {K : Type} [Field K] [LinearOrder K] [IsStrictOrderedRing K] [FloorRing K]

/-- The nearest integer, the even one of two. -/
def roundHalfEven (x : K) : ℤ :=
  if ((1 / 2 : ℚ) : K) < x - ⌊x⌋ ∨ (x - ⌊x⌋ = ((1 / 2 : ℚ) : K) ∧ ⌊x⌋ % 2 = 1) then ⌊x⌋ + 1
  else ⌊x⌋

/-- The bit pattern of the nearest bfloat16, the even one of two. Numbers below the normal range
have its least exponent; past the largest value the pattern is that of infinity. -/
def nearestBf16 (x : K) : Bf16 :=
  if x = 0 then 0 else
    let e := max (Int.log 2 |x|) (-126)
    let m := roundHalfEven (|x| / ((2 : ℕ) : K) ^ (e - 7))
    UInt16.ofNat ((if x < 0 then 32768 else 0) + min ((e + 126) * 128 + m).toNat 32640)

end Nearest

def exactFp {B : Type} (toB : ℚ → B) (ofB : B → ℚ) : Fp ℚ B where
  lit := id
  minimum := min
  maximum := max
  add := (· + ·)
  sub := (· - ·)
  mul := (· * ·)
  div := (· / ·)
  abs := fun x => |x|
  lt := fun x y => decide (x < y)
  eq := fun x y => decide (x = y)
  round := roundHalfEven
  floor := fun x => ⌊x⌋
  toB := toB
  ofB := ofB

/-- The value of a finite bfloat16 bit pattern. -/
def bf16ToRat (b : Bf16) : ℚ :=
  let e := b.toNat / 128 % 256
  let m := b.toNat % 128
  (if b.toNat < 32768 then 1 else -1)
    * if e = 0 then (m : ℚ) * 2 ^ (-133 : ℤ) else (128 + m : ℚ) * 2 ^ ((e : ℤ) - 134)

def ratToBf16 (x : ℚ) : Bf16 := nearestBf16 x

def ratFp : Fp ℚ Bf16 := exactFp ratToBf16 bf16ToRat

/-- `n` tokens that differ from one another, for concrete runs. -/
def rampTokens (H D n : ℕ) : List (KV H D) :=
  (List.range n).map fun t => (fun _ _ => UInt16.ofNat (16256 + t), fun _ _ => UInt16.ofNat t)

end RabitKV
