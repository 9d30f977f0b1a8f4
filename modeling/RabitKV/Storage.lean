import RabitKV.Layout

/-!
# Logical storage

`rabit2_state_storage_bytes_ref` sums the sizes of the tensors of a quantized state.
`logical_bytes`, behind the published memory numbers, computes the same from the geometry alone.
-/

namespace RabitKV

/-- What `rabit2_state_storage_bytes_ref` returns. -/
structure StorageBytes where
  payload : ℕ
  metadata : ℕ
  residual : ℕ
  total : ℕ
deriving DecidableEq, Repr

section State

variable {B : Type} {H D : ℕ}

/-- `metadata_storage_bytes_ref` -/
def metadataStorageBytes (m : Metadata B) : ℕ :=
  m.codes.flatten.length * 1 + m.min.length * 2 + m.scale.length * 2

/-- `_quantized_tensor_breakdown_ref`, from the tensors it looks at. -/
def quantizedTensorBreakdown {n : ℕ} (packed : List (Tok H n UInt8)) (min scale : Metadata B) :
    StorageBytes :=
  let payload := (flatTokens packed).length * 1
  let metadata := metadataStorageBytes min + metadataStorageBytes scale
  { payload := payload, metadata := metadata, residual := 0, total := payload + metadata }

/-- `rabit2_state_storage_bytes_ref` -/
def rabit2StateStorageBytes (st : Rabit2Kv H D B) : StorageBytes :=
  let old := match st.oldK, st.oldV with
    | some k, some v =>
      let k := quantizedTensorBreakdown k.packed k.min k.scale
      let v := quantizedTensorBreakdown v.packed v.min v.scale
      (k.payload + v.payload, k.metadata + v.metadata)
    | _, _ => (0, 0)
  let residual := (flatTokens st.recentK).length * 2 + (flatTokens st.recentV).length * 2
  { payload := old.1, metadata := old.2, residual := residual, total := old.1 + old.2 + residual }

end State

/-- What `logical_bytes` returns. -/
structure LogicalBytes where
  kPayload : ℕ
  vPayload : ℕ
  kMeta : ℕ
  vMeta : ℕ
  residual : ℕ
  total : ℕ
deriving DecidableEq, Repr

/-- `meta` of `logical_bytes`. -/
def logicalMeta (count : ℕ) : ℕ :=
  let padded := count + Chunks.padTo metadataGroupSize count
  padded + padded / metadataGroupSize * 4

/-- `logical_bytes` -/
def logicalBytes (n layers kvHeads headDim : ℕ) : LogicalBytes :=
  let recent := min n residualTokens
  let old := n - recent
  let residual := recent * kvHeads * headDim * 2 * 2
  let tp := old + Chunks.padTo groupSize old
  let dp := headDim + Chunks.padTo groupSize headDim
  let kPayload := if old ≠ 0 then (tp * kvHeads * headDim * 3 + 7) / 8 else 0
  let vPayload := if old ≠ 0 then (old * kvHeads * dp * 2 + 7) / 8 else 0
  let kMeta := if old ≠ 0 then 2 * logicalMeta (kvHeads * (tp / groupSize) * headDim) else 0
  let vMeta := if old ≠ 0 then 2 * logicalMeta (old * kvHeads * (dp / groupSize)) else 0
  { kPayload := layers * kPayload
    vPayload := layers * vPayload
    kMeta := layers * kMeta
    vMeta := layers * vMeta
    residual := layers * residual
    total := layers * kPayload + layers * vPayload + layers * kMeta + layers * vMeta
      + layers * residual }

end RabitKV
