import RabitKV.Metadata

/-!
# The quality oracle

`quantize_rabit2_kv_ref` keeps the newest four tokens in bfloat16 and quantizes all older ones as
one region: K in groups of 32 tokens per head and channel with 3-bit codes, V in groups of 32
channels per token and head with 2-bit codes, the minima and scales of both through META8g64.
K metadata runs over (head, token group, channel), V metadata over (token, head, channel group).
-/

namespace RabitKV

open Chunks

/-- `x.to(dtype)` entry by entry. -/
def Tok.map {H D : ℕ} {α β : Type} (f : α → β) (x : Tok H D α) : Tok H D β := fun h d => f (x h d)

/-- Row-major values of a tensor `[tokens, heads, n]`. -/
def flatTokens {H n : ℕ} {α : Type} (rows : List (Tok H n α)) : List α :=
  rows.flatMap fun r => (List.finRange H).flatMap fun h => List.ofFn (r h)

/-- Row-major values of a tensor `[1, heads, groups, 1, n]`, given group by group. -/
def flatHeads {H n : ℕ} {α : Type} (rows : List (Tok H n α)) : List α :=
  (List.finRange H).flatMap fun h => rows.flatMap fun r => List.ofFn (r h)

section K3

variable {F B : Type} (fp : Fp F B) {H D : ℕ}

/-- `x` with zero tokens up to a multiple of 32. -/
def seqPad (x : List (Tok H D F)) : List (Tok H D F) :=
  x ++ List.replicate (padTo groupSize x.length) fun _ _ => fp.lit 0

/-- `grouped`, as the groups of 32 padded tokens. -/
def seqGroups (x : List (Tok H D F)) : List (List (Tok H D F)) := chunks groupSize (seqPad fp x)

/-- `q_min` of one group of tokens. -/
def kMin (g : List (Tok H D F)) : Tok H D F := fun h d => fp.amin (g.map fun x => x h d)

/-- `scale` of one group of tokens. -/
def kScale (g : List (Tok H D F)) : Tok H D F := fun h d =>
  fp.affineScale 7 (1 / 10 ^ 8) (kMin fp g h d) (fp.amax (g.map fun x => x h d))

/-- `codes_grouped` of one group of tokens. -/
def kCodes (g : List (Tok H D F)) : List (Tok H D ℕ) :=
  g.map fun x h d => fp.affineCode 7 (kMin fp g h d) (kScale fp g h d) (x h d)

/-- The dictionary of `quantize_k3_sequence_affine_ref`; `packed` is `[padded_tokens, heads, _]`. -/
structure K3State (H D : ℕ) (B : Type) where
  packed : List (Tok H (packedDim D 3) UInt8)
  tokens : ℕ
  paddedTokens : ℕ
  padSeq : ℕ
  min : Metadata B
  scale : Metadata B

/-- `quantize_k3_sequence_affine_ref` past its checks. -/
def k3State (x : List (Tok H D F)) : K3State H D B :=
  let padSeq := padTo groupSize x.length
  let paddedTokens := x.length + padSeq
  let grouped := seqGroups fp x
  let shape := [1, H, paddedTokens / groupSize, 1, D]
  { packed := (grouped.flatMap (kCodes fp)).map fun c h => packRow 3 (c h)
    tokens := x.length
    paddedTokens := paddedTokens
    padSeq := padSeq
    min := encodeMetadataUint8Group fp shape (flatHeads (grouped.map (kMin fp)))
    scale := encodeMetadataUint8Group fp shape (flatHeads (grouped.map (kScale fp))) }

/-- `quantize_k3_sequence_affine_ref` -/
def quantizeK3SequenceAffine (x : List (Tok H D F)) : Except String (K3State H D B) :=
  if x.length = 0 then .error "K tensor must contain at least one token" else .ok (k3State fp x)

/-- `dequantize_k3_sequence_affine_ref` -/
def dequantizeK3SequenceAffine (st : K3State H D B) : List (Tok H D F) :=
  let groups := st.paddedTokens / groupSize
  let qMin := decodeMetadataUint8Group fp st.min
  let scale := decodeMetadataUint8Group fp st.scale
  let values := st.packed.mapIdx fun p row (h : Fin H) (d : Fin D) =>
    let i := (h * groups + p / groupSize) * D + d
    fp.affineValue (unpackCode 3 (ext (row h)) d) (scale.getD i (fp.lit 0)) (qMin.getD i (fp.lit 0))
  values.take st.tokens

end K3

/-- Groups of 32 channels of one head. -/
def vGroups (D : ℕ) : ℕ := (D + groupSize - 1) / groupSize

/-- `padded_dim`: the head dimension up to a multiple of 32. -/
def vPaddedDim (D : ℕ) : ℕ := vGroups D * groupSize

/-- Bytes of one packed V row. -/
abbrev vPackedDim (D : ℕ) : ℕ := packedDim (vPaddedDim D) 2

section V2

variable {F B : Type} (fp : Fp F B) {H D : ℕ}

/-- Channel `d` of a row, zero past its end. -/
def vPad (x : Fin D → F) (d : ℕ) : F := if h : d < D then x ⟨d, h⟩ else fp.lit 0

/-- Channel group `g` of a padded row. -/
def vGroup (x : Fin D → F) (g : ℕ) : List F :=
  (List.range groupSize).map fun j => vPad fp x (g * groupSize + j)

/-- `q_min` of one channel group. -/
def vMin (x : Fin D → F) (g : ℕ) : F := fp.amin (vGroup fp x g)

/-- `scale` of one channel group. -/
def vScale (x : Fin D → F) (g : ℕ) : F :=
  fp.affineScale 3 (1 / 10 ^ 8) (vMin fp x g) (fp.amax (vGroup fp x g))

/-- `codes` of one padded row. -/
def vCode (x : Fin D → F) (d : ℕ) : ℕ :=
  fp.affineCode 3 (vMin fp x (d / groupSize)) (vScale fp x (d / groupSize)) (vPad fp x d)

/-- The packed codes of one token. -/
def v2Packed (x : Tok H D F) : Tok H (vPackedDim D) UInt8 := fun h =>
  packRow 2 fun d : Fin (vPaddedDim D) => vCode fp (x h) d

/-- The primary minima of one token. -/
def v2Min (x : Tok H D F) : Tok H (vGroups D) F := fun h g => vMin fp (x h) g

/-- The primary scales of one token. -/
def v2Scale (x : Tok H D F) : Tok H (vGroups D) F := fun h g => vScale fp (x h) g

/-- What `_quantize_v2_primary_ref` returns: codes and uncompressed metadata, token by token. -/
structure V2Primary (H D : ℕ) (F : Type) where
  packed : List (Tok H (vPackedDim D) UInt8)
  min : List (Tok H (vGroups D) F)
  scale : List (Tok H (vGroups D) F)

/-- `_quantize_v2_primary_ref` as first defined (`_quantize_v2_primary_ref_stage4b1_exact`). -/
def quantizeV2PrimaryRef (value : List (Tok H D F)) : V2Primary H D F :=
  { packed := value.map (v2Packed fp), min := value.map (v2Min fp),
    scale := value.map (v2Scale fp) }

/-- `_dequantize_v2_from_primary_ref`, with the row-major minima and scales of a tensor
`[tokens, heads, groups, 1]`. -/
def dequantizeV2FromPrimary (packed : List (Tok H (vPackedDim D) UInt8)) (qMin scale : List F) :
    List (Tok H D F) :=
  packed.mapIdx fun t row h d =>
    let i := (t * H + h) * vGroups D + d / groupSize
    fp.affineValue (unpackCode 2 (ext (row h)) d) (scale.getD i (fp.lit 0)) (qMin.getD i (fp.lit 0))

/-- The dictionary of `quantize_v2_group_affine_ref`. -/
structure V2State (H D : ℕ) (B : Type) where
  packed : List (Tok H (vPackedDim D) UInt8)
  tokens : ℕ
  min : Metadata B
  scale : Metadata B

/-- `quantize_v2_group_affine_ref` past its checks. -/
def v2State (x : List (Tok H D F)) : V2State H D B :=
  let shape := [x.length, H, vGroups D, 1]
  { packed := x.map (v2Packed fp)
    tokens := x.length
    min := encodeMetadataUint8Group fp shape (flatTokens (x.map (v2Min fp)))
    scale := encodeMetadataUint8Group fp shape (flatTokens (x.map (v2Scale fp))) }

/-- `quantize_v2_group_affine_ref` -/
def quantizeV2GroupAffine (x : List (Tok H D F)) : Except String (V2State H D B) :=
  if x.length = 0 then .error "V tensor must contain at least one token" else .ok (v2State fp x)

/-- `dequantize_v2_group_affine_ref` -/
def dequantizeV2GroupAffine (st : V2State H D B) : List (Tok H D F) :=
  dequantizeV2FromPrimary fp st.packed (decodeMetadataUint8Group fp st.min)
    (decodeMetadataUint8Group fp st.scale)

end V2

section Kv

variable {F B : Type} (fp : Fp F B) {H D : ℕ}

/-- The dictionary of `quantize_rabit2_kv_ref`. -/
structure Rabit2Kv (H D : ℕ) (B : Type) where
  residual : ℕ
  oldCount : ℕ
  oldK : Option (K3State H D B)
  oldV : Option (V2State H D B)
  recentK : List (Tok H D B)
  recentV : List (Tok H D B)

/-- `quantize_rabit2_kv_ref` of tokens in any dtype; `toF` is `.float()` and `toB` is
`.to(torch.bfloat16)`. -/
def quantizeRabit2KvFrom {E : Type} (toF : E → F) (toB : E → B) (key value : List (Tok H D E)) :
    Except String (Rabit2Kv H D B) := do
  if key.length ≠ value.length then
    throw "key and value must share shape [tokens, heads, head_dim]"
  let tokens := key.length
  let recentCount := min tokens residualTokens
  let oldCount := tokens - recentCount
  let oldK ← if oldCount = 0 then pure none else
    some <$> quantizeK3SequenceAffine fp ((key.take oldCount).map (Tok.map toF))
  let oldV ← if oldCount = 0 then pure none else
    some <$> quantizeV2GroupAffine fp ((value.take oldCount).map (Tok.map toF))
  return { residual := residualTokens, oldCount := oldCount, oldK := oldK, oldV := oldV
           recentK := (key.drop oldCount).map (Tok.map toB)
           recentV := (value.drop oldCount).map (Tok.map toB) }

/-- `quantize_rabit2_kv_ref` of bfloat16 tokens. -/
def quantizeRabit2Kv (key value : List (Tok H D B)) : Except String (Rabit2Kv H D B) :=
  quantizeRabit2KvFrom fp fp.ofB id key value

/-- `dequantize_rabit2_kv_ref` in any dtype. -/
def dequantizeRabit2KvAs {E : Type} (dt : Dtype F B E) (st : Rabit2Kv H D B) :
    List (Tok H D E) × List (Tok H D E) :=
  let oldK := match st.oldK with
    | some k => (dequantizeK3SequenceAffine fp k).map (Tok.map dt.ofF)
    | none => []
  let oldV := match st.oldV with
    | some v => (dequantizeV2GroupAffine fp v).map (Tok.map dt.ofF)
    | none => []
  (oldK ++ st.recentK.map (Tok.map dt.ofB), oldV ++ st.recentV.map (Tok.map dt.ofB))

/-- `dequantize_rabit2_kv_ref` in float32. -/
def dequantizeRabit2Kv (st : Rabit2Kv H D B) : List (Tok H D F) × List (Tok H D F) :=
  dequantizeRabit2KvAs fp fp.float32 st

end Kv

end RabitKV
