import Mathlib

/-!
# Float primitives, tokens and affine quantization

The reference quantizers are written over float32 values `F` and bfloat16 values `B`. They use the
arithmetic of the two only through the primitives of `Fp`, which are left uninterpreted: what is
proved of the quantizers for every `Fp` holds of the float32 and bfloat16 operations of the machine.

A tensor `[tokens, heads, head_dim]` is a list of tokens, and a token a table `[heads, head_dim]`.
-/

namespace RabitKV

/-- The float32 (`F`) and bfloat16 (`B`) primitives. -/
structure Fp (F B : Type) where
  /-- A literal, or an integer code converted by `.float()`. -/
  lit : ℚ → F
  minimum : F → F → F
  maximum : F → F → F
  add : F → F → F
  sub : F → F → F
  mul : F → F → F
  div : F → F → F
  abs : F → F
  lt : F → F → Bool
  eq : F → F → Bool
  /-- `torch.round`, as the integer it gives. -/
  round : F → ℤ
  /-- `tl.floor`, as the integer it gives. -/
  floor : F → ℤ
  /-- `.to(torch.bfloat16)` -/
  toB : F → B
  /-- `.float()` of a bfloat16 -/
  ofB : B → F

/-- A torch dtype that values are handed out in: what float32 and bfloat16 values become. -/
structure Dtype (F B E : Type) where
  ofF : F → E
  ofB : B → E

/-- `torch.float32` -/
def Fp.float32 {F B : Type} (fp : Fp F B) : Dtype F B F := ⟨id, fp.ofB⟩

/-- One token of one side of the cache, `[heads, head_dim]`. -/
abbrev Tok (H D : ℕ) (α : Type) := Fin H → Fin D → α

/-- `RABIT2_GROUP_SIZE` -/
abbrev groupSize : ℕ := 32

theorem groupSize_pos : 0 < groupSize := by decide

/-- `RABIT2_METADATA_GROUP_SIZE` -/
abbrev metadataGroupSize : ℕ := 64

/-- `RABIT2_RESIDUAL_TOKENS` -/
abbrev residualTokens : ℕ := 4

/-- `cdiv` of `vllm.utils.math_utils`: the quotient rounded up. -/
def cdiv (a b : ℕ) : ℕ := (a + b - 1) / b

section Cdiv

variable {n w k : ℕ}

theorem le_cdiv_mul (hw : 0 < w) : n ≤ cdiv n w * w := by
  have := Nat.div_add_mod (n + w - 1) w
  have := Nat.mod_lt (n + w - 1) hw
  unfold cdiv
  rw [Nat.mul_comm]
  omega

theorem cdiv_le (hw : 0 < w) (h : n ≤ k * w) : cdiv n w ≤ k := by
  unfold cdiv
  refine Nat.lt_succ_iff.1 (Nat.div_lt_of_lt_mul ?_)
  rw [Nat.mul_succ, Nat.mul_comm w]
  omega

theorem lt_cdiv_iff (hw : 0 < w) : k < cdiv n w ↔ k * w < n := by
  constructor
  · intro h
    by_contra hc
    exact absurd (cdiv_le hw (Nat.not_lt.1 hc)) (Nat.not_le.2 h)
  · intro h
    by_contra hc
    have := le_cdiv_mul (n := n) hw
    have := Nat.mul_le_mul_right w (Nat.not_lt.1 hc)
    omega

end Cdiv

namespace Fp

variable {F B : Type} (fp : Fp F B)

/-- `amin` along one axis. -/
def amin : List F → F
  | [] => fp.lit 0
  | x :: xs => xs.foldl fp.minimum x

/-- `amax` along one axis. -/
def amax : List F → F
  | [] => fp.lit 0
  | x :: xs => xs.foldl fp.maximum x

/-- `(mx - mn) / levels`, with one in place of a scale smaller than `eps`. -/
def affineScale (levels : ℕ) (eps : ℚ) (mn mx : F) : F :=
  let scale := fp.div (fp.sub mx mn) (fp.lit levels)
  if fp.lt (fp.abs scale) (fp.lit eps) then fp.lit 1 else scale

/-- `torch.round((x - mn) / scale).clamp(0, levels)` -/
def affineCode (levels : ℕ) (mn scale x : F) : ℕ :=
  (max 0 (min (levels : ℤ) (fp.round (fp.div (fp.sub x mn) scale)))).toNat

/-- `code * scale + mn` -/
def affineValue (code : ℕ) (scale mn : F) : F := fp.add (fp.mul (fp.lit code) scale) mn

theorem affineCode_le (levels : ℕ) (mn scale x : F) :
    fp.affineCode levels mn scale x ≤ levels := by
  unfold affineCode
  omega

end Fp

end RabitKV
