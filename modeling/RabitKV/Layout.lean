import RabitKV.Quant

/-!
# The page layout

`rabit2_page_layout` places six sections one after the other in an opaque page: the K and V
payloads, then the compressed K minima, K scales, V minima and V scales.
-/

namespace RabitKV

structure Rabit2PageLayout where
  blockSize : ℕ
  numKvHeads : ℕ
  headSizeK : ℕ
  headSizeV : ℕ
  kPayloadOffset : ℕ
  kPayloadBytes : ℕ
  vPayloadOffset : ℕ
  vPayloadBytes : ℕ
  kMinOffset : ℕ
  kMinBytes : ℕ
  kScaleOffset : ℕ
  kScaleBytes : ℕ
  vMinOffset : ℕ
  vMinBytes : ℕ
  vScaleOffset : ℕ
  vScaleBytes : ℕ
  pageBytes : ℕ
deriving DecidableEq, Repr

def rabit2EncodedMetadataBytes (valueCount : ℕ) : ℕ :=
  if valueCount = 0 then 0 else valueCount + cdiv valueCount metadataGroupSize * 4

/-- The layout `rabit2_page_layout` returns when its checks pass. -/
def pageLayout (blockSize numKvHeads headSizeK headSizeV : ℕ) : Rabit2PageLayout :=
  let kPayloadBytes := blockSize * numKvHeads * packedDim headSizeK 3
  let vPaddedDim := cdiv headSizeV groupSize * groupSize
  let vPayloadBytes := blockSize * numKvHeads * packedDim vPaddedDim 2
  let kPrimaryValues := blockSize / groupSize * numKvHeads * headSizeK
  let vPrimaryValues := blockSize * numKvHeads * cdiv headSizeV groupSize
  let kMetaEach := rabit2EncodedMetadataBytes kPrimaryValues
  let vMetaEach := rabit2EncodedMetadataBytes vPrimaryValues
  { blockSize := blockSize
    numKvHeads := numKvHeads
    headSizeK := headSizeK
    headSizeV := headSizeV
    kPayloadOffset := 0
    kPayloadBytes := kPayloadBytes
    vPayloadOffset := kPayloadBytes
    vPayloadBytes := vPayloadBytes
    kMinOffset := kPayloadBytes + vPayloadBytes
    kMinBytes := kMetaEach
    kScaleOffset := kPayloadBytes + vPayloadBytes + kMetaEach
    kScaleBytes := kMetaEach
    vMinOffset := kPayloadBytes + vPayloadBytes + kMetaEach + kMetaEach
    vMinBytes := vMetaEach
    vScaleOffset := kPayloadBytes + vPayloadBytes + kMetaEach + kMetaEach + vMetaEach
    vScaleBytes := vMetaEach
    pageBytes := kPayloadBytes + vPayloadBytes + kMetaEach + kMetaEach + vMetaEach + vMetaEach }

def rabit2PageLayout (blockSize numKvHeads headSizeK headSizeV : ℕ) :
    Except String Rabit2PageLayout := do
  if blockSize = 0 ∨ blockSize % groupSize ≠ 0 then
    throw "rabit_kv2 requires --block-size to be a positive multiple of 32"
  if numKvHeads = 0 ∨ headSizeK = 0 then
    throw "num_kv_heads and head sizes must be positive"
  if headSizeV = 0 then throw "head_size_v must be positive"
  return pageLayout blockSize numKvHeads headSizeK headSizeV

/-- `rabit2_exact_online_staging_bytes_per_sequence` -/
def rabit2ExactOnlineStagingBytes (numKvHeads headSizeK headSizeV residual sequenceGroupSize : ℕ) :
    Except String ℕ := do
  if min numKvHeads (min headSizeK headSizeV) = 0 then throw "invalid staging dimensions"
  if sequenceGroupSize = 0 then throw "invalid residual/group size"
  let openTokens := max (sequenceGroupSize - 1) 0
  let openKBf16 := openTokens * numKvHeads * headSizeK * 2
  let vPaddedDim := cdiv headSizeV groupSize * groupSize
  let openVPayload := openTokens * numKvHeads * packedDim vPaddedDim 2
  let vGroupsPerHead := cdiv headSizeV groupSize
  let openVPrimaryMetadata := openTokens * numKvHeads * vGroupsPerHead * 2 * 4
  let residual := residual * numKvHeads * (headSizeK + headSizeV) * 2
  return openKBf16 + openVPayload + openVPrimaryMetadata + residual

/-- `_rabit2_stage3b1_validate_layout`: the primary value counts and the packed row sizes. -/
def validateLayout (layout : Rabit2PageLayout) : Except String (ℕ × ℕ × ℕ × ℕ) := do
  if layout.blockSize ≠ groupSize then
    throw "Stage-3B1 closed-page kernels currently require block_size=32"
  if layout.headSizeK ≠ layout.headSizeV then
    throw "Stage-3B1 currently requires equal K/V head dimensions"
  if layout.headSizeK % groupSize ≠ 0 then
    throw "Stage-3B1 requires head_size to be a multiple of 32"
  let kPrimary := layout.numKvHeads * layout.headSizeK
  let vGroups := layout.headSizeV / groupSize
  let vPrimary := layout.blockSize * layout.numKvHeads * vGroups
  if kPrimary % metadataGroupSize ≠ 0 ∨ vPrimary % metadataGroupSize ≠ 0 then
    throw "Stage-3B1 requires META8g64-aligned primary metadata"
  return (kPrimary, vPrimary, packedDim layout.headSizeK 3, packedDim layout.headSizeV 2)

end RabitKV
