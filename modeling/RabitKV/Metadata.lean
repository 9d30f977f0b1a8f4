import RabitKV.Lib.Chunks
import RabitKV.Lowbit

/-!
# META8g64: compressed metadata and its byte blob

`encode_metadata_uint8_group_ref` flattens the primary minima or scales of a quantizer, repeats the
last value up to a multiple of 64, and stores one UINT8 affine code per value with a bfloat16
minimum and scale per group of 64. The blob is the codes, then the minima, then the scales, each
bfloat16 as its two bytes, low byte first.
-/

namespace RabitKV

open Chunks

/-- The dictionary of one compressed metadata tensor; `codes` is `[groups, 64]`. -/
structure Metadata (B : Type) where
  codes : List (List UInt8)
  min : List B
  scale : List B
  origShape : List ℕ
  pad : ℕ
deriving DecidableEq, Repr

section Encode

variable {F B : Type} (fp : Fp F B)

/-- `flat` with its last value repeated up to a multiple of 64. -/
def padLast (flat : List F) : List F :=
  flat ++ List.replicate (padTo metadataGroupSize flat.length) (flat.getLast?.getD (fp.lit 0))

/-- `meta_scale` of one group of 64. -/
def metaScale (g : List F) : F :=
  fp.affineScale 255 (1 / 10 ^ 12) (fp.amin g) (fp.amax g)

/-- The UINT8 codes of one group of 64, taken with the float32 minimum and scale. -/
def metaCodes (g : List F) : List UInt8 :=
  g.map fun x => UInt8.ofNat (fp.affineCode 255 (fp.amin g) (metaScale fp g) x)

/-- `encode_metadata_uint8_group_ref` of a tensor with shape `shape` and row-major values `flat`. -/
def encodeMetadataUint8Group (shape : List ℕ) (flat : List F) : Metadata B :=
  if flat.isEmpty then
    { codes := [], min := [], scale := [], origShape := shape, pad := 0 }
  else
    let grouped := chunks metadataGroupSize (padLast fp flat)
    { codes := grouped.map (metaCodes fp)
      min := grouped.map fun g => fp.toB (fp.amin g)
      scale := grouped.map fun g => fp.toB (metaScale fp g)
      origShape := shape
      pad := padTo metadataGroupSize flat.length }

/-- One decoded group: `codes * scale + min`, with the bfloat16 minimum and scale. -/
def decodeGroup (codes : List UInt8) (scale min : B) : List F :=
  codes.map fun c => fp.affineValue c.toNat (fp.ofB scale) (fp.ofB min)

/-- `decode_metadata_uint8_group_ref`, as the row-major values of a tensor of shape `origShape`. -/
def decodeMetadataUint8Group (m : Metadata B) : List F :=
  let values := (List.zipWith (fun c (s : B × B) => decodeGroup fp c s.1 s.2) m.codes
    (m.scale.zip m.min)).flatten
  values.take (values.length - m.pad)

end Encode

/-- A bfloat16 value, as its bits. -/
abbrev Bf16 := UInt16

/-- `.view(torch.uint8)` of one bfloat16: the low byte, then the high byte. -/
def bf16Bytes (b : Bf16) : List UInt8 :=
  [UInt8.ofNat (b.toNat % 256), UInt8.ofNat (b.toNat / 256)]

/-- `.view(torch.bfloat16)` of two bytes. -/
def bf16OfBytes (lo hi : UInt8) : Bf16 := UInt16.ofNat (lo.toNat + 256 * hi.toNat)

/-- `_tensor_as_bytes` of a bfloat16 tensor. -/
def tensorAsBytes (bs : List Bf16) : List UInt8 := bs.flatMap bf16Bytes

/-- `.view(torch.bfloat16)` of a byte tensor. -/
def viewBf16 (bytes : List UInt8) : List Bf16 :=
  (chunks 2 bytes).map fun g => bf16OfBytes (g.getD 0 0) (g.getD 1 0)

/-- `encode_metadata_blob_ref` -/
def encodeMetadataBlob (m : Metadata Bf16) : List UInt8 :=
  m.codes.flatten ++ tensorAsBytes m.min ++ tensorAsBytes m.scale

/-- `decode_metadata_blob_ref` -/
def decodeMetadataBlob (blob : List UInt8) (originalShape : List ℕ) :
    Except String (Metadata Bf16) :=
  let valueCount := originalShape.prod
  let groups := (valueCount + metadataGroupSize - 1) / metadataGroupSize
  let paddedCount := groups * metadataGroupSize
  let expected := paddedCount + groups * 4
  if blob.length ≠ expected then
    .error s!"metadata blob has {blob.length} bytes; expected {expected}"
  else
    let codeEnd := paddedCount
    let minEnd := codeEnd + groups * 2
    .ok
      { codes := chunks metadataGroupSize (blob.take codeEnd)
        min := viewBf16 ((blob.take minEnd).drop codeEnd)
        scale := viewBf16 (blob.drop minEnd)
        origShape := originalShape
        pad := paddedCount - valueCount }

end RabitKV
