import RabitKV.Exact
import RabitKV.PageKernel

/-!
# Exact real arithmetic

The primitives over the extended reals, where `float("-inf")` is the bottom element and everything
else is exact; the conversion to bfloat16 is any function, and bfloat16 values are real numbers.
`bfloatFp` takes the nearest bfloat16.
-/

namespace RabitKV

open Classical in
/-- Exact arithmetic, with any rounding to bfloat16. -/
noncomputable def realFp (toB : EReal → Bf16) (ofB : Bf16 → ℝ) : AttnFp EReal where
  lit := fun x => ((x : ℝ) : EReal)
  minimum := min
  maximum := max
  add := (· + ·)
  sub := (· - ·)
  mul := (· * ·)
  div := (· / ·)
  abs := fun x => max x (-x)
  lt := fun x y => decide (x < y)
  eq := fun x y => decide (x = y)
  -- the nearest integer, the even one of two
  round := fun x =>
    let lo := ⌊x.toReal⌋
    let frac := x - ((lo : ℝ) : EReal)
    let half := (((1 / 2 : ℚ) : ℝ) : EReal)
    if half < frac ∨ (frac = half ∧ lo % 2 = 1) then lo + 1 else lo
  floor := fun x => ⌊x.toReal⌋
  toB := toB
  ofB := fun b => (ofB b : EReal)
  negInf := ⊥
  exp := fun x => (EReal.exp x : EReal)
  sum := List.sum

/-- The value of a bfloat16 bit pattern. -/
noncomputable def bf16ToReal (b : Bf16) : ℝ := bf16ToRat b

/-- `.to(torch.bfloat16)` -/
noncomputable def realToBf16 (x : EReal) : Bf16 :=
  if x = ⊤ then 32640 else if x = ⊥ then 65408 else nearestBf16 x.toReal

noncomputable abbrev bfloatFp : AttnFp EReal := realFp realToBf16 bf16ToReal

end RabitKV
