import RabitKV.FastAppend
import RabitKV.Int3Format
import RabitKV.PageKernel
import RabitKV.PageRef

/-!
# The Stage 3B1 page codec

`encode_rabit2_page_triton_experimental` writes a closed page with kernels: minima and scales of the
K channels and of the V groups, the packed codes, and four compressed metadata tensors, copied one
after the other into an uninitialised page. `decode_rabit2_page_triton` and
`rabit2_closed_page_attention_triton` read a page through views of its sections.

Keys and values come with strides, everything else is contiguous. Two buffers that a kernel fills at
the same addresses are one buffer of pairs.
-/

namespace RabitKV

open Stores

/-- A tensor `[tokens, heads, head_dim]` as the kernels address it. -/
structure Strided (Q : Type) where
  mem : ℕ → Q
  strideT : ℕ
  strideH : ℕ
  strideD : ℕ

/-- The entry at `[t, h, d]`. -/
def Strided.get {Q : Type} (x : Strided Q) (t h d : ℕ) : Q :=
  x.mem (t * x.strideT + h * x.strideH + d * x.strideD)

/-- `x.float()` -/
def Strided.tokens {F Q : Type} (toF : Q → F) (x : Strided Q) (n H D : ℕ) : List (Tok H D F) :=
  (List.range n).map fun t h d => toF (x.get t h d)

/-- One META8g64 section: codes, minima and scales. -/
structure MetaParts where
  codes : List UInt8
  mins : List Bf16
  scales : List Bf16
deriving DecidableEq, Repr

section Encode

variable {F Q : Type} (fp : Fp F Bf16) (toF : Q → F)

/-- `tl.load(…, mask=mask, other=0.0).to(tl.float32)` -/
def loadEntry (x : Strided Q) (mask : Bool) (t h d : ℕ) : F :=
  if mask then toF (x.get t h d) else fp.lit 0

/-- `q` of the V and metadata kernels: `(x - mn) / sc`, rounded and clamped. -/
def roundCode (levels : ℕ) (x mn sc : F) : ℕ :=
  (max 0 (min (levels : ℤ) (roundToEvenNonnegative fp (fp.div (fp.sub x mn) sc)))).toNat

/-- `q_min` and `q_scale` of the loaded lanes `x`. -/
def primaryOf (levels : ℕ) (x : List F) : F × F :=
  let qMin := fp.amin x
  let qMax := fp.amax x
  (qMin, fp.affineScale levels (1 / 10 ^ 8) qMin qMax)

/-- One program of `_rabit2_k_primary_kernel`. -/
def kPrimaryProgram (key : Strided Q) (headSize blockD head dBlock : ℕ) : List (ℕ × F × F) :=
  let lanes := (List.range blockD).map fun i => dBlock * blockD + i
  (lanes.filter fun d => decide (d < headSize)).map fun d =>
    (head * headSize + d,
      primaryOf fp 7 ((List.range 32).map fun t =>
        loadEntry fp toF key (decide (d < headSize)) t head d))

/-- `_rabit2_k_primary_kernel` on the grid `(heads, cdiv(head_size, BLOCK_D))` -/
def kPrimaryKernel (key : Strided Q) (heads headSize blockD : ℕ) : List (ℕ × F × F) :=
  (List.range heads).flatMap fun head => (List.range (cdiv headSize blockD)).flatMap fun dBlock =>
    kPrimaryProgram fp toF key headSize blockD head dBlock

/-- `_rabit2_k_pack_kernel` on the grid `(tokens, heads)` -/
def kPackKernel (key : Strided Q) (primary : ℕ → F × F)
    (tokens heads headSize packedDim blockB : ℕ) : List (ℕ × UInt8) :=
  (List.range tokens).flatMap fun token => (List.range heads).flatMap fun head =>
    ((List.range blockB).filter fun b => decide (b < packedDim)).map fun b =>
      ((token * heads + head) * packedDim + b,
        kPackByte fp (fun d => toF (key.get token head d))
          (fun d => (primary (head * headSize + d)).1)
          (fun d => (primary (head * headSize + d)).2) headSize packedDim b)

/-- `_rabit2_v_primary_kernel` on the grid `(tokens, heads, groups)` -/
def vPrimaryKernel (value : Strided Q) (tokens heads headSize numGroups : ℕ) :
    List (ℕ × F × F) :=
  (List.range tokens).flatMap fun token => (List.range heads).flatMap fun head =>
    (List.range numGroups).map fun group =>
      ((token * heads + head) * numGroups + group,
        primaryOf fp 3 ((List.range 32).map fun j =>
          loadEntry fp toF value (decide (group * 32 + j < headSize)) token head (group * 32 + j)))

/-- `byte` number `b` of `_rabit2_v_pack_kernel`. -/
def vPackByte (value : Strided Q) (primary : ℕ → F × F)
    (heads headSize numGroups packedDim token head b : ℕ) : UInt8 :=
  let maskB := decide (b < packedDim)
  let baseD := b * 4
  let group := baseD / 32
  let pidx := (token * heads + head) * numGroups + group
  let mn := if maskB then (primary pidx).1 else fp.lit 0
  let sc := if maskB then (primary pidx).2 else fp.lit 1
  UInt8.ofNat ((List.range 4).foldl (fun byte j =>
    let d := baseD + j
    let x := loadEntry fp toF value (maskB && decide (d < headSize)) token head d
    byte ||| roundCode fp 3 x mn sc <<< (2 * j)) 0)

/-- `_rabit2_v_pack_kernel` on the grid `(tokens, heads)` -/
def vPackKernel (value : Strided Q) (primary : ℕ → F × F)
    (tokens heads headSize numGroups packedDim blockB : ℕ) : List (ℕ × UInt8) :=
  (List.range tokens).flatMap fun token => (List.range heads).flatMap fun head =>
    ((List.range blockB).filter fun b => decide (b < packedDim)).map fun b =>
      ((token * heads + head) * packedDim + b,
        vPackByte fp toF value primary heads headSize numGroups packedDim token head b)

/-- `x` of one program of `_rabit2_meta_encode_kernel`. -/
def metaLanes (primary : ℕ → F) (group : ℕ) : List F :=
  (List.range 64).map fun i => primary (group * 64 + i)

/-- `mn` and `sc` of `_rabit2_meta_encode_kernel`. -/
def metaSecondary (primary : ℕ → F) (group : ℕ) : F × F :=
  let x := metaLanes primary group
  let mn := fp.amin x
  let mx := fp.amax x
  (mn, fp.affineScale 255 (1 / 10 ^ 12) mn mx)

/-- What `_rabit2_meta_encode_kernel` stores to `code_ptr` on the grid `(groups,)`. -/
def metaCodeStores (primary : ℕ → F) (groups : ℕ) : List (ℕ × UInt8) :=
  (List.range groups).flatMap fun group => (List.range 64).map fun i =>
    (group * 64 + i, UInt8.ofNat (roundCode fp 255 (primary (group * 64 + i))
      (metaSecondary fp primary group).1 (metaSecondary fp primary group).2))

/-- What it stores to `secondary_min_ptr` and `secondary_scale_ptr`. -/
def metaSecondaryStores (primary : ℕ → F) (groups : ℕ) : List (ℕ × Bf16 × Bf16) :=
  (List.range groups).map fun group =>
    (group, fp.toB (metaSecondary fp primary group).1, fp.toB (metaSecondary fp primary group).2)

/-- What the `torch.empty` tensors of one metadata encoding hold. -/
structure MetaJunk where
  codes : ℕ → UInt8
  secondary : ℕ → Bf16 × Bf16

/-- `_rabit2_encode_meta_triton` of `values` primary values. -/
def encodeMetaTriton (junk : MetaJunk) (values : ℕ) (primary : ℕ → F) :
    Except String MetaParts :=
  if values % metadataGroupSize ≠ 0 then
    .error "Stage-3B1 metadata encoder requires a multiple of 64 values"
  else
    let groups := values / metadataGroupSize
    let codes := storeAll junk.codes (metaCodeStores fp primary groups)
    let secondary := storeAll junk.secondary (metaSecondaryStores fp primary groups)
    .ok { codes := (List.range values).map codes
          mins := (List.range groups).map fun g => (secondary g).1
          scales := (List.range groups).map fun g => (secondary g).2 }

/-- What the `torch.empty` tensors of one encoding hold. -/
structure EncodeJunk (F : Type) where
  kPrimary : ℕ → F × F
  kPayload : ℕ → UInt8
  vPrimary : ℕ → F × F
  vPayload : ℕ → UInt8
  kMin : MetaJunk
  kScale : MetaJunk
  vMin : MetaJunk
  vScale : MetaJunk
  page : ℕ → UInt8

/-- What the kernels of one encoding compute. -/
structure PageParts where
  kPayload : List UInt8
  vPayload : List UInt8
  kMin : MetaParts
  kScale : MetaParts
  vMin : MetaParts
  vScale : MetaParts

/-- The kernels of `encode_rabit2_page_triton_experimental` for a layout of these sizes. -/
def tritonParts (junk : EncodeJunk F) (key value : Strided Q)
    (blockSize heads headSizeK headSizeV kPayloadBytes vPayloadBytes : ℕ)
    (kPrimaryN vPrimaryN kPackedDim vPackedDim : ℕ) : Except String PageParts := do
  let kBlockD := min 128 (nextPowerOf2 headSizeK)
  let kPrimary := storeAll junk.kPrimary (kPrimaryKernel fp toF key heads headSizeK kBlockD)
  let kPayload := storeAll junk.kPayload (kPackKernel fp toF key kPrimary blockSize heads headSizeK
    kPackedDim (nextPowerOf2 kPackedDim))
  let vGroups := headSizeV / groupSize
  let vPrimary := storeAll junk.vPrimary
    (vPrimaryKernel fp toF value blockSize heads headSizeV vGroups)
  let vPayload := storeAll junk.vPayload (vPackKernel fp toF value vPrimary blockSize heads
    headSizeV vGroups vPackedDim (nextPowerOf2 vPackedDim))
  return { kPayload := (List.range kPayloadBytes).map kPayload
           vPayload := (List.range vPayloadBytes).map vPayload
           kMin := ← encodeMetaTriton fp junk.kMin kPrimaryN fun i => (kPrimary i).1
           kScale := ← encodeMetaTriton fp junk.kScale kPrimaryN fun i => (kPrimary i).2
           vMin := ← encodeMetaTriton fp junk.vMin vPrimaryN fun i => (vPrimary i).1
           vScale := ← encodeMetaTriton fp junk.vScale vPrimaryN fun i => (vPrimary i).2 }

/-- The three copies of one metadata section. -/
def copyParts (page : List UInt8) (offset : ℕ) (parts : MetaParts) : List UInt8 :=
  let pos := offset
  let page := sliceSet page pos parts.codes
  let pos := pos + parts.codes.length
  let minBytes := tensorAsBytes parts.mins
  let page := sliceSet page pos minBytes
  let pos := pos + minBytes.length
  sliceSet page pos (tensorAsBytes parts.scales)

/-- The copies into `page`. -/
def copyPage (page : List UInt8) (layout : Rabit2PageLayout) (parts : PageParts) : List UInt8 :=
  let page := sliceSet page layout.kPayloadOffset parts.kPayload
  let page := sliceSet page layout.vPayloadOffset parts.vPayload
  [(layout.kMinOffset, parts.kMin), (layout.kScaleOffset, parts.kScale),
    (layout.vMinOffset, parts.vMin), (layout.vScaleOffset, parts.vScale)].foldl
      (fun page s => copyParts page s.1 s.2) page

/-- `encode_rabit2_page_triton_experimental` of a key `[keyTokens, H, D]` and a value
`[valueTokens, H, D]`. -/
def encodeRabit2PageTritonExperimental (junk : EncodeJunk F) (isCuda : Bool)
    (layout : Option Rabit2PageLayout) (key value : Strided Q) (keyTokens valueTokens H D : ℕ) :
    Except String (List UInt8) := do
  if ¬ isCuda then throw "Stage-3B1 Triton codec requires CUDA tensors"
  if keyTokens ≠ valueTokens then throw "key/value must share [tokens, heads, head_dim]"
  let layout ← match layout with
    | none => rabit2PageLayout keyTokens H D D
    | some layout => pure layout
  let (kPrimaryN, vPrimaryN, kPackedDim, vPackedDim) ← validateLayout layout
  if keyTokens ≠ layout.blockSize ∨ H ≠ layout.numKvHeads ∨ D ≠ layout.headSizeK then
    throw "key shape does not match layout"
  let parts ← tritonParts fp toF junk key value layout.blockSize layout.numKvHeads layout.headSizeK
    layout.headSizeV layout.kPayloadBytes layout.vPayloadBytes kPrimaryN vPrimaryN kPackedDim
    vPackedDim
  return copyPage ((List.range layout.pageBytes).map junk.page) layout parts

end Encode

/-- `_rabit2_meta_parts` -/
def metaParts (page : List UInt8) (offset valueCount : ℕ) : MetaParts :=
  let groups := (valueCount + metadataGroupSize - 1) / metadataGroupSize
  let padded := groups * metadataGroupSize
  let minsBegin := offset + padded
  let minsEnd := minsBegin + groups * 2
  { codes := slice page offset padded
    mins := viewBf16 (slice page minsBegin (groups * 2))
    scales := viewBf16 (slice page minsEnd (groups * 2)) }

/-- What `_rabit2_page_views` returns. -/
structure PageViews where
  kPayload : List UInt8
  vPayload : List UInt8
  kMin : MetaParts
  kScale : MetaParts
  vMin : MetaParts
  vScale : MetaParts
  kPackedDim : ℕ
  vPackedDim : ℕ

/-- `_rabit2_page_views` -/
def pageViews (page : List UInt8) (layout : Rabit2PageLayout) : Except String PageViews := do
  let (kPrimaryN, vPrimaryN, kPackedDim, vPackedDim) ← validateLayout layout
  return { kPayload := slice page layout.kPayloadOffset layout.kPayloadBytes
           vPayload := slice page layout.vPayloadOffset layout.vPayloadBytes
           kMin := metaParts page layout.kMinOffset kPrimaryN
           kScale := metaParts page layout.kScaleOffset kPrimaryN
           vMin := metaParts page layout.vMinOffset vPrimaryN
           vScale := metaParts page layout.vScaleOffset vPrimaryN
           kPackedDim := kPackedDim, vPackedDim := vPackedDim }

section Decode

variable {F Q : Type} (fp : Fp F Bf16)

/-- `code * secscale + secmin` for entry `idx`, with the values masked loads give. -/
def MetaParts.primary (p : MetaParts) (mask : Bool) (idx : ℕ) : F :=
  let g := idx / 64
  fp.affineValue (if mask then p.codes.getD idx 0 else 0).toNat
    (if mask then fp.ofB (p.scales.getD g 0) else fp.lit 1)
    (if mask then fp.ofB (p.mins.getD g 0) else fp.lit 0)

variable (v : PageViews) (numHeads headSize : ℕ)

/-- `kval` -/
def viewK (token head d : ℕ) : F :=
  let mask := decide (d < headSize)
  let krow := (token * numHeads + head) * v.kPackedDim
  let kCode := pageKCode (fun a => v.kPayload.getD a 0) krow headSize v.kPackedDim d
  let kidx := head * headSize + d
  fp.affineValue kCode (v.kScale.primary fp mask kidx) (v.kMin.primary fp mask kidx)

/-- `vval` -/
def viewV (vGroups token head d : ℕ) : F :=
  let mask := decide (d < headSize)
  let vbyte := d / 4
  let vshift := d % 4 * 2
  let vrow := (token * numHeads + head) * v.vPackedDim
  let vb := if mask then v.vPayload.getD (vrow + vbyte) 0 else 0
  let vCode := (vb.toNat >>> vshift) &&& 3
  let vidx := (token * numHeads + head) * vGroups + d / 32
  fp.affineValue vCode (v.vScale.primary fp mask vidx) (v.vMin.primary fp mask vidx)

/-- `_rabit2_page_decode_kernel` on the grid `(tokens, heads)`: what it stores to `out_k_ptr` and
`out_v_ptr`. -/
def pageDecodeKernel (tokens vGroups blockD : ℕ) : List (ℕ × F × F) :=
  (List.range tokens).flatMap fun token => (List.range numHeads).flatMap fun head =>
    ((List.range blockD).filter fun d => decide (d < headSize)).map fun d =>
      ((token * numHeads + head) * headSize + d,
        viewK fp v numHeads headSize token head d,
        viewV fp v numHeads headSize vGroups token head d)

/-- `decode_rabit2_page_triton`; `ofF` is `.to(dtype)` and `junk` what `out_k` and `out_v` hold
before. -/
def decodeRabit2PageTriton {E : Type} (ofF : F → E) (junk : ℕ → F × F) (isCuda : Bool)
    (layout : Rabit2PageLayout) (page : List UInt8) :
    Except String (List (Tok layout.numKvHeads layout.headSizeK E) ×
      List (Tok layout.numKvHeads layout.headSizeK E)) := do
  if ¬ isCuda then throw "Stage-3B1 Triton decoder requires a CUDA uint8 page"
  if page.length ≠ layout.pageBytes then throw "page size does not match layout"
  let views ← pageViews page layout
  let out := storeAll junk (pageDecodeKernel fp views layout.numKvHeads layout.headSizeK
    layout.blockSize (layout.headSizeV / groupSize) (nextPowerOf2 layout.headSizeK))
  return (rowsTo layout.numKvHeads layout.headSizeK (fun a => ofF (out a).1) layout.blockSize,
    rowsTo layout.numKvHeads layout.headSizeK (fun a => ofF (out a).2) layout.blockSize)

end Decode

section Attention

variable {F Q : Type} (fp : AttnFp F) (dt : QDtype F Q)

/-- `acc` of one query head: softmax weights, normalised, over 32 lanes of keys and values. -/
def closedPageAcc (softmaxScale : F) (blockD : ℕ) (qval : ℕ → F) (kval vval : ℕ → ℕ → F) (d : ℕ) :
    F :=
  let scores := fun t => fp.mul
    (fp.sum ((List.range blockD).map fun d => fp.mul (kval t d) (qval d))) softmaxScale
  let m := fp.amax ((List.range 32).map scores)
  let p := fun t => fp.exp (fp.sub (scores t) m)
  let total := fp.sum ((List.range 32).map p)
  let p := fun t => fp.div (p t) total
  fp.sum ((List.range 32).map fun t => fp.mul (p t) (vval t d))

/-- One program of `_rabit2_closed_page_attention_kernel`. -/
def closedPageAttentionProgram (q : ℕ → Q) (v : PageViews) (softmaxScale : F)
    (numQHeads numKvHeads headSize vGroups blockD qh : ℕ) : List (ℕ × Q) :=
  let kvh := qh / (numQHeads / numKvHeads)
  let qval := fun d => if decide (d < headSize) then dt.toF (q (qh * headSize + d)) else fp.lit 0
  let acc := closedPageAcc fp softmaxScale blockD qval
    (fun t => viewK fp.toFp v numKvHeads headSize t kvh)
    (fun t => viewV fp.toFp v numKvHeads headSize vGroups t kvh)
  ((List.range blockD).filter fun d => decide (d < headSize)).map fun d =>
    (qh * headSize + d, dt.ofF (acc d))

/-- `rabit2_closed_page_attention_triton` of a contiguous query of shape `shape`; `junk` is what
`out` holds before. -/
def closedPageAttentionTriton (junk : ℕ → Q) (isCuda : Bool) (shape : List ℕ) (query : ℕ → Q)
    (layout : Rabit2PageLayout) (page : List UInt8) (softmaxScale : F) :
    Except String (ℕ → Q) := do
  let (qHeads, headDim) ← match shape with
    | [tokens, qHeads, headDim] =>
      if tokens ≠ 1 then throw "Stage-3B1 fused attention supports one decode query token"
      else pure (qHeads, headDim)
    | [qHeads, headDim] => pure (qHeads, headDim)
    | _ => throw "query must have shape [q_heads, head_dim] or [1, q_heads, head_dim]"
  if ¬ isCuda then throw "Stage-3B1 fused attention requires CUDA tensors"
  if headDim ≠ layout.headSizeK then throw "query head dimension does not match page layout"
  if qHeads % layout.numKvHeads ≠ 0 then throw "query heads must be divisible by KV heads"
  let views ← pageViews page layout
  return storeAll junk ((List.range qHeads).flatMap fun qh =>
    closedPageAttentionProgram fp dt query views softmaxScale qHeads layout.numKvHeads
      layout.headSizeK (layout.headSizeV / groupSize) (nextPowerOf2 layout.headSizeK) qh)

end Attention

end RabitKV
