import RabitKV.Lowbit
import RabitKV.Lib.Stores

/-!
# The INT3 cache write

`reshape_and_cache_kvquant_k3` quantizes K and V with one scale per token and head and stores codes
and scales at the slots of `slot_mapping`. The slot is split by `//` and `%`, and the tensors are
indexed with the two parts as torch does: a negative index counts from the end. Nothing looks at the
sign of a slot, neither here nor in `triton_reshape_and_cache_flash_per_token_head_quant`, which
calls this function before its own kernel would.

An indexed assignment with repeated indices is carried out in an order torch leaves open; the order
is a parameter.
-/

namespace RabitKV

open Stores

/-- `packed.shape[-1]`; `pack_int3_values` hands an empty tensor back with no bytes. -/
def int3PackedWidth (n H D : ℕ) : ℕ := if n = 0 ∨ H = 0 then 0 else packedDim D 3

section Quantize

variable {F B : Type} (fp : Fp F B) {H D : ℕ}

/-- `scale` of one row. -/
def int3Scale (x : Fin D → F) : F :=
  fp.maximum (fp.div (fp.amax ((List.ofFn x).map fp.abs)) (fp.lit 3)) (fp.lit (1 / 10 ^ 6))

/-- `codes`: the rounded quotients between -4 and 3, counted from zero. -/
def int3Code (x : Fin D → F) (d : Fin D) : ℕ :=
  (min 3 (max (-4) (fp.round (fp.div (x d) (int3Scale fp x)))) + 4).toNat

/-- One token of `quantize_int3_per_token_head_ref`. -/
@[ext]
structure Int3Row (H D : ℕ) (F : Type) where
  packed : Tok H (packedDim D 3) UInt8
  scales : Fin H → F

def quantizeInt3 (x : Tok H D F) : Int3Row H D F :=
  ⟨fun h => packRow 3 (int3Code fp (x h)), fun h => int3Scale fp (x h)⟩

/-- A packed tensor `[tokens, heads, width]`. -/
@[ext]
structure Int3Packed (H : ℕ) where
  width : ℕ
  rows : List (Fin H → List UInt8)

/-- `quantize_int3_per_token_head_ref`; the clamp leaves `pack_int3_values` nothing to refuse. -/
def quantizeInt3PerTokenHead (x : List (Tok H D F)) :
    Except String (Int3Packed H × List (Fin H → F)) := do
  if D = 0 then throw "amax(): Expected reduction dim -1 to have non-zero size."
  let rows := x.map (quantizeInt3 fp)
  return ({ width := int3PackedWidth x.length H D
            rows := rows.map fun r h => List.ofFn (r.packed h) }, rows.map Int3Row.scales)

/-- `dequantize_int3_per_token_head_ref` in float32. -/
def dequantizeInt3PerTokenHead (packed : Int3Packed H) (scales : List (Fin H → F)) (D : ℕ) :
    Except String (List (Tok H D F)) := do
  let expected := packedDim D 3
  if packed.width < expected then
    throw (s!"packed tensor last dimension is too small for {D} INT3 values: "
      ++ s!"expected at least {expected}, got {packed.width}")
  return List.zipWith (fun row scale h (d : Fin D) =>
    fp.mul (fp.lit ((unpackCode 3 (fun j => (row h).getD j 0) d : ℤ) - 4 : ℤ)) (scale h))
    packed.rows scales

end Quantize

/-- One side of the cache, `[blocks, block_size, heads, width]`, with its scales. -/
structure SlotCache (nb bs H W : ℕ) (F : Type) where
  codes : Fin nb × Fin bs → Tok H W UInt8
  scales : Fin nb × Fin bs → Fin H → F

/-- An index into a dimension of size `n`; negative ones count from the end. -/
def wrapIndex (n : ℕ) (i : ℤ) : Except String (Fin n) :=
  if h : 0 ≤ i ∧ i < n then .ok ⟨i.toNat, by omega⟩
  else if h : -n ≤ i ∧ i < 0 then .ok ⟨(i + n).toNat, by omega⟩
  else .error "index is out of bounds"

/-- `block_indices`, `block_offsets` of one slot, as indices into the cache. -/
def slotAddress (nb bs : ℕ) (slot : ℤ) : Except String (Fin nb × Fin bs) :=
  if bs = 0 then .error "ZeroDivisionError" else do
    let block ← wrapIndex nb (slot / bs)
    let offset ← wrapIndex bs (slot % bs)
    return (block, offset)

/-- `cache[..., :packed_dim] = packed` in one slot. -/
def putPacked {H D W : ℕ} (row : Tok H W UInt8) (packed : Tok H (packedDim D 3) UInt8) :
    Tok H W UInt8 :=
  fun h j => if hj : j < packedDim D 3 then packed h ⟨j, hj⟩ else row h j

/-- The orders in which the two indexed assignments of a side store the tokens. -/
structure WriteOrder (n : ℕ) where
  codes : List (Fin n)
  scales : List (Fin n)

section Write

variable {F B : Type} (fp : Fp F B) {n nb bs H D W : ℕ} (slots : Fin n → ℤ)

/-- `_write_packed_cache` -/
def writePackedCache (order : WriteOrder n) (tensor : Fin n → Tok H D F)
    (cache : SlotCache nb bs H W F) : Except String (SlotCache nb bs H W F) := do
  if D = 0 then throw "amax(): Expected reduction dim -1 to have non-zero size."
  if W < int3PackedWidth n H D then
    throw <|
      s!"kvquant_k3 cache head dimension {W} is smaller than packed INT3 dimension {packedDim D 3}"
  let codes ← order.codes.mapM fun i => do
    return (← slotAddress nb bs (slots i), (quantizeInt3 fp (tensor i)).packed)
  let scales ← order.scales.mapM fun i => do
    return (← slotAddress nb bs (slots i), (quantizeInt3 fp (tensor i)).scales)
  return { codes := putAll putPacked cache.codes codes, scales := storeAll cache.scales scales }

/-- Both sides of the cache. -/
structure Int3Cache (nb bs H W Wv : ℕ) (F : Type) where
  key : SlotCache nb bs H W F
  value : SlotCache nb bs H Wv F

variable {Dv Wv : ℕ}

/-- `reshape_and_cache_kvquant_k3` -/
def reshapeAndCacheKvquantK3 (keyOrder valueOrder : WriteOrder n) (key : Fin n → Tok H D F)
    (value : Fin n → Tok H Dv F) : EStateM String (Int3Cache nb bs H W Wv F) Unit := do
  let s ← get
  match writePackedCache fp slots keyOrder key s.key with
  | .error e => throw e
  | .ok keyCache => set { s with key := keyCache }
  let s ← get
  match writePackedCache fp slots valueOrder value s.value with
  | .error e => throw e
  | .ok valueCache => set { s with value := valueCache }

end Write

end RabitKV
