import RabitKV.Layout

/-!
# The page codec

A closed page is a byte string laid out by `rabit2_page_layout`. The writers assemble it from six
blobs and raise when a blob does not fill its section; `decode_rabit2_page_ref` slices the sections
out again and dequantizes them.
-/

namespace RabitKV

open Chunks

/-- `page[offset : offset + len(blob)] = blob` -/
def sliceSet (page : List UInt8) (offset : ℕ) (blob : List UInt8) : List UInt8 :=
  page.take offset ++ blob ++ page.drop (offset + blob.length)

/-- `page[offset : offset + size]` -/
def slice (page : List UInt8) (offset size : ℕ) : List UInt8 := (page.drop offset).take size

/-- The six parts of a page, in the order they are written. -/
structure PageBlobs where
  kPayload : List UInt8
  vPayload : List UInt8
  kMin : List UInt8
  kScale : List UInt8
  vMin : List UInt8
  vScale : List UInt8

/-- Name, blob, offset and size of each section. -/
def pageSections (layout : Rabit2PageLayout) (b : PageBlobs) :
    List (String × List UInt8 × ℕ × ℕ) :=
  [("k_payload", b.kPayload, layout.kPayloadOffset, layout.kPayloadBytes),
   ("v_payload", b.vPayload, layout.vPayloadOffset, layout.vPayloadBytes),
   ("k_min", b.kMin, layout.kMinOffset, layout.kMinBytes),
   ("k_scale", b.kScale, layout.kScaleOffset, layout.kScaleBytes),
   ("v_min", b.vMin, layout.vMinOffset, layout.vMinBytes),
   ("v_scale", b.vScale, layout.vScaleOffset, layout.vScaleBytes)]

/-- A zeroed page with the six blobs copied in; `mismatch` words the error of a blob whose size is
not its section's. -/
def assemblePage (mismatch : String → ℕ → ℕ → String) (layout : Rabit2PageLayout)
    (b : PageBlobs) : Except String (List UInt8) :=
  (pageSections layout b).foldlM (fun page s =>
    if s.2.1.length ≠ s.2.2.2 then .error (mismatch s.1 s.2.1.length s.2.2.2)
    else .ok (sliceSet page s.2.2.1 s.2.1)) (List.replicate layout.pageBytes 0)

section Codec

variable {F : Type} (fp : Fp F Bf16) {H D : ℕ}

/-- The blobs of a page from raw K, packed V and the primary V metadata. -/
def pageBlobs (kState : K3State H D Bf16) (vPacked : List (Tok H (vPackedDim D) UInt8))
    (vMinMeta vScaleMeta : Metadata Bf16) : PageBlobs :=
  { kPayload := flatTokens kState.packed
    vPayload := flatTokens vPacked
    kMin := encodeMetadataBlob kState.min
    kScale := encodeMetadataBlob kState.scale
    vMin := encodeMetadataBlob vMinMeta
    vScale := encodeMetadataBlob vScaleMeta }

/-- `encode_metadata_uint8_group_ref` of the primary V metadata of some tokens. -/
def encodeVMetadata (rows : List (Tok H (vGroups D) F)) : Metadata Bf16 :=
  encodeMetadataUint8Group fp [rows.length, H, vGroups D, 1] (flatTokens rows)

/-- One page written from bfloat16 K, packed V and uncompressed V metadata, as
`_encode_open_page_exact`, `_closed_page_exact` and `_rabit2_stage4b4_encode_page_from_primary` do,
each with its own words for a size mismatch. -/
def encodePageFromPrimary (mismatch : String → ℕ → ℕ → String) (layout : Rabit2PageLayout)
    (key : List (Tok H D Bf16)) (vPacked : List (Tok H (vPackedDim D) UInt8))
    (vMin vScale : List (Tok H (vGroups D) F)) : Except String (List UInt8) := do
  let vMinMeta := encodeVMetadata fp vMin
  let vScaleMeta := encodeVMetadata fp vScale
  let kState ← quantizeK3SequenceAffine fp (key.map (Tok.map fp.ofB))
  assemblePage mismatch layout (pageBlobs kState vPacked vMinMeta vScaleMeta)

/-- `bytes.reshape(tokens, heads, n)` -/
def reshapeBytes (tokens H n : ℕ) (bytes : List UInt8) : List (Tok H n UInt8) :=
  (List.range tokens).map fun t h j => bytes.getD ((t * H + h) * n + j) 0

/-- `decode_rabit2_page_ref` in float32. -/
def decodeRabit2Page (layout : Rabit2PageLayout) (page : List UInt8) :
    Except String (List (Tok layout.numKvHeads layout.headSizeK F) ×
      List (Tok layout.numKvHeads layout.headSizeV F)) := do
  if page.length ≠ layout.pageBytes then throw "page size does not match layout"
  let kPacked := reshapeBytes layout.blockSize layout.numKvHeads (packedDim layout.headSizeK 3)
    (slice page layout.kPayloadOffset layout.kPayloadBytes)
  let vPacked := reshapeBytes layout.blockSize layout.numKvHeads (vPackedDim layout.headSizeV)
    (slice page layout.vPayloadOffset layout.vPayloadBytes)
  let kPrimaryShape := [1, layout.numKvHeads, layout.blockSize / groupSize, 1, layout.headSizeK]
  let vPrimaryShape := [layout.blockSize, layout.numKvHeads, vGroups layout.headSizeV, 1]
  let kMin ← decodeMetadataBlob (slice page layout.kMinOffset layout.kMinBytes) kPrimaryShape
  let kScale ← decodeMetadataBlob (slice page layout.kScaleOffset layout.kScaleBytes) kPrimaryShape
  let vMin ← decodeMetadataBlob (slice page layout.vMinOffset layout.vMinBytes) vPrimaryShape
  let vScale ← decodeMetadataBlob (slice page layout.vScaleOffset layout.vScaleBytes) vPrimaryShape
  let kState : K3State layout.numKvHeads layout.headSizeK Bf16 :=
    { packed := kPacked, tokens := layout.blockSize, paddedTokens := layout.blockSize, padSeq := 0
      min := kMin, scale := kScale }
  return (dequantizeK3SequenceAffine fp kState,
    dequantizeV2FromPrimary fp vPacked (decodeMetadataUint8Group fp vMin)
      (decodeMetadataUint8Group fp vScale))

/-- `decode_rabit2_page_ref` at block size 32 and equal K and V head sizes. -/
def decodePage (page : List UInt8) : Except String (List (Tok H D F) × List (Tok H D F)) :=
  decodeRabit2Page fp (pageLayout groupSize H D D) page

end Codec

end RabitKV
