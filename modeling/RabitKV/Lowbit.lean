import RabitKV.Fp

/-!
# Low-bit packing along the last dimension

`pack_int3_values`, `pack_lowbit_values` and their inverses. A code of width `bits` at index `i`
starts at bit `i * bits` of a little-endian byte stream; the reference adds the bits into zeroed
bytes one bit plane at a time. A row of codes is a function on indices, and the list versions carry
the checks that raise.
-/

namespace RabitKV

/-- `_packed_dim`, `rabit2_packed_dim`: bytes for `valueCount` codes of `bits` bits. -/
def packedDim (valueCount bits : ℕ) : ℕ := (valueCount * bits + 7) / 8

/-- A row of `n` entries, with `default` outside it. -/
def ext {α : Type} [Inhabited α] {n : ℕ} (f : Fin n → α) (i : ℕ) : α :=
  if h : i < n then f ⟨i, h⟩ else default

/-- `acc.scatter_add_(1, idx, src)` on one row of `n` sources. -/
def scatterAdd (n : ℕ) (idx src : ℕ → ℕ) (acc : ℕ → ℕ) : ℕ → ℕ := fun j =>
  acc j + ((List.range n).map fun i => if idx i = j then src i else 0).sum

/-- The int64 accumulator of `pack_lowbit_values` after every bit plane. -/
def packAcc (bits n : ℕ) (codes : ℕ → ℕ) : ℕ → ℕ :=
  (List.range bits).foldl (fun acc bit =>
    scatterAdd n (fun i => (i * bits + bit) / 8)
      (fun i => ((codes i >>> bit) &&& 1) <<< ((i * bits + bit) % 8)) acc) fun _ => 0

/-- Byte `j` of `n` packed codes. -/
def packByte (bits n : ℕ) (codes : ℕ → ℕ) (j : ℕ) : UInt8 := UInt8.ofNat (packAcc bits n codes j)

/-- Code `i` of packed bytes: its bits gathered one plane at a time. -/
def unpackCode (bits : ℕ) (packed : ℕ → UInt8) (i : ℕ) : ℕ :=
  (List.range bits).foldl (fun value bit =>
    value ||| (((packed ((i * bits + bit) / 8)).toNat >>> ((i * bits + bit) % 8)) &&& 1) <<< bit) 0

/-- One packed row. -/
def packRow (bits : ℕ) {n : ℕ} (codes : Fin n → ℕ) : Fin (packedDim n bits) → UInt8 := fun j =>
  packByte bits n (ext codes) j

section Values

/-- The bytes of one row of checked codes. -/
def packBytes (bits : ℕ) (values : List ℤ) : List UInt8 :=
  (List.range (packedDim values.length bits)).map
    (packByte bits values.length fun i => (values.getD i 0).toNat)

/-- The codes of one row of `packed_count` bytes. -/
def unpackCodes (bits valueCount : ℕ) (packed : List UInt8) : List UInt8 :=
  (List.range valueCount).map fun i =>
    UInt8.ofNat (unpackCode bits (fun j => (packed.take (packedDim valueCount bits)).getD j 0) i)

/-- `pack_lowbit_values` of one row. -/
def packLowbitValues (values : List ℤ) (bits : ℕ) : Except String (List UInt8) :=
  if bits ∉ [1, 2, 3, 4, 8] then .error "bits must be one of 1, 2, 3, 4, 8"
  else if values.isEmpty then .ok []
  else
    let maxCode := (1 <<< bits : ℕ) - 1
    if values.any fun code => decide (code < 0) || decide (code > maxCode) then
      .error s!"{bits}-bit codes must be in the inclusive range [0, {maxCode}]"
    else if bits = 8 then .ok (values.map fun code => UInt8.ofNat code.toNat)
    else .ok (packBytes bits values)

/-- `unpack_lowbit_values` of one row. -/
def unpackLowbitValues (packed : List UInt8) (valueCount : ℤ) (bits : ℕ) :
    Except String (List UInt8) :=
  if valueCount < 0 then .error "value_count must be non-negative"
  else if bits ∉ [1, 2, 3, 4, 8] then .error "bits must be one of 1, 2, 3, 4, 8"
  else
    let expected := packedDim valueCount.toNat bits
    if packed.length < expected then
      .error <|
        s!"packed last dimension is too small: expected at least {expected}, got {packed.length}"
    else if valueCount = 0 then .ok []
    else if bits = 8 then .ok (packed.take valueCount.toNat)
    else .ok (unpackCodes bits valueCount.toNat packed)

/-- `pack_int3_values` of one row. -/
def packInt3Values (values : List ℤ) : Except String (List UInt8) :=
  if values.isEmpty then .ok []
  else if values.any fun code => decide (code < 0) || decide (code > 7) then
    .error "kvquant_k3 codes must be in the inclusive range [0, 7]"
  else .ok (packBytes 3 values)

/-- `unpack_int3_values` of one row. -/
def unpackInt3Values (packed : List UInt8) (valueCount : ℤ) : Except String (List UInt8) :=
  if valueCount < 0 then .error "value_count must be non-negative"
  else
    let expected := packedDim valueCount.toNat 3
    if packed.length < expected then
      .error (s!"packed tensor last dimension is too small for {valueCount} INT3 values: "
        ++ s!"expected at least {expected}, got {packed.length}")
    else if valueCount = 0 then .ok []
    else .ok (unpackCodes 3 valueCount.toNat packed)

end Values

end RabitKV
