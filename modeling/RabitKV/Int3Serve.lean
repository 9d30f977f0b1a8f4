import RabitKV.Int3Cache
import RabitKV.Int3Spec

/-!
# Serving from the INT3 cache

The steps of a server write their new tokens with `reshape_and_cache_kvquant_k3` and attend over
what the cache holds by then. `HeldTokens` says what the cache is for: which token each slot holds,
as it came in. The kernels see a side of the cache as strided memory.
-/

namespace RabitKV

/-- The arguments of one call of `reshape_and_cache_kvquant_k3`. -/
structure Int3Write (H D : ℕ) (F : Type) where
  n : ℕ
  slots : Fin n → ℤ
  key : Fin n → Tok H D F
  value : Fin n → Tok H D F
  keyOrder : WriteOrder n
  valueOrder : WriteOrder n

section Write

variable {F B : Type} (fp : Fp F B) {nb bs H D W : ℕ}

/-- The calls of a run, one after the other. -/
def writeAll (writes : List (Int3Write H D F)) : EStateM String (Int3Cache nb bs H W W F) Unit :=
  writes.forM fun w => reshapeAndCacheKvquantK3 fp w.slots w.keyOrder w.valueOrder w.key w.value

/-- The token each slot holds, a key and a value. -/
abbrev HeldTokens (nb bs H D : ℕ) (F : Type) := Fin nb × Fin bs → Option (Tok H D F × Tok H D F)

/-- A call puts its tokens into their slots. -/
def Int3Write.put (w : Int3Write H D F) (held : HeldTokens nb bs H D F) : HeldTokens nb bs H D F :=
  fun a => match (List.finRange w.n).find? fun i => decide (w.slots i = a.1 * bs + a.2) with
    | some i => some (w.key i, w.value i)
    | none => held a

/-- What the slots hold after a run. -/
def heldAfter (writes : List (Int3Write H D F)) (held : HeldTokens nb bs H D F) :
    HeldTokens nb bs H D F :=
  writes.foldl (fun held w => w.put held) held

end Write

/-- A side of the cache as the kernels address it. -/
structure Int3Side.Views {F : Type} {nb bs H W : ℕ} (side : Int3Side F)
    (cache : SlotCache nb bs H W F) : Prop where
  codes : ∀ a (h : Fin H) (j : Fin W), side.cache.mem (a.1 * side.cache.stride0
    + h * side.cache.stride2 + a.2 * side.cache.stride1 + j * side.cache.stride3)
      = cache.codes a h j
  scales : ∀ a (h : Fin H), side.scale (a.1 * side.strideBlk + a.2 * side.strideSlot
    + h * side.strideHead) = cache.scales a h

/-- What quantization leaves of an entry of a token. -/
def quantizedEntry {B : Type} (fp : Fp ℝ B) {H D : ℕ} (x : Tok H D ℝ) (h d : ℕ) : ℝ :=
  if hb : h < H ∧ d < D then
    ((int3Code fp (x ⟨h, hb.1⟩) ⟨d, hb.2⟩ : ℤ) - 4 : ℤ) * int3Scale fp (x ⟨h, hb.1⟩)
  else 0

end RabitKV
