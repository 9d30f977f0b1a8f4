import RabitKV.FastAppend
import RabitKV.PageKernel

/-!
# The tail of decode attention

The tail segment holds the open group and the recent tokens. Without an open group one small kernel
reads the recent tokens; with one, `_rabit2_stage4b1_exactmeta_tail_partial_kernel` decodes the open
group from packed codes and META8g64 arrays. The Stage 4B1 emitter prepares those with the reference
quantizers, the Stage 4D3.4 emitter bound in its place with three kernels that write into a scratch
workspace shared by all requests and layers of one shape.

A kernel that reads nothing it writes is the list of its stores.
-/

namespace RabitKV

open Loads Stores

/-- A cell of one compressed metadata tensor. -/
inductive MetaCell where
  | code (i : ℕ)
  | secMin (i : ℕ)
  | secScale (i : ℕ)
deriving DecidableEq

/-- The four metadata tensors of the tail kernel. -/
inductive TailMeta where
  | kMin
  | kScale
  | vMin
  | vScale
deriving DecidableEq

/-- A cell the tail kernel may load from the prepared tensors. -/
inductive TailCell where
  | kPacked (i : ℕ)
  | entry (which : TailMeta) (cell : MetaCell)
deriving DecidableEq

/-- What a prepared cell holds. -/
abbrev TailCell.Val : TailCell → Type
  | .kPacked _ => UInt8
  | .entry _ (.code _) => UInt8
  | .entry _ (.secMin _) => Bf16
  | .entry _ (.secScale _) => Bf16

/-- The prepared tensors. -/
abbrev TailMem := ∀ c : TailCell, c.Val

/-- What the tail kernel is launched with besides the prepared tensors. -/
structure TailArgs where
  openVPacked : ℕ → UInt8
  recentK : ℕ → Bf16
  recentV : ℕ → Bf16
  openLen : ℕ
  recentLen : ℕ
  numQHeads : ℕ
  numKvHeads : ℕ
  headSize : ℕ
  kPackedDim : ℕ
  vPackedDim : ℕ
  vGroups : ℕ
  blockD : ℕ

/-- A contiguous tensor `[tokens, heads, n]`, as the memory a kernel reads. -/
def tensorPtr {H n : ℕ} {α : Type} (zero : α) (rows : List (Tok H n α)) (i : ℕ) : α :=
  (flatTokens rows).getD i zero

section Kernels

variable {F Q : Type} (fp : AttnFp F) (dt : QDtype F Q)

/-- A masked load of a bfloat16 tensor, `.to(tl.float32)`. -/
def loadBf16 (mem : ℕ → Bf16) (addr : ℕ) (mask : Bool) : F :=
  if mask then fp.ofB (mem addr) else fp.lit 0

/-- One program of `_rabit2_tail_partial_kernel`. -/
def tailPartialProgram (q : QueryPtr Q) (tailK tailV : ℕ → Bf16) (ptrs : PartialPtrs)
    (tailLen segmentIdx : ℕ) (softmaxScale : F) (numQHeads numKvHeads headSize blockT blockD : ℕ)
    (qh : ℕ) : List (Slot × F) :=
  let kvh := qh / (numQHeads / numKvHeads)
  let tmask := fun t => decide (t < tailLen)
  let load := fun mem t d =>
    loadBf16 fp mem ((t * numKvHeads + kvh) * headSize + d) (tmask t && decide (d < headSize))
  storePartial ptrs headSize blockD (segmentIdx * numQHeads + qh) true
    (partialOf fp blockT blockD tmask softmaxScale (loadQ fp dt q headSize qh true) (load tailK)
      (load tailV))

/-- A metadata value of the tail kernel, `code * secscale + secmin`. -/
def tailMeta (which : TailMeta) (idx : ℕ) (mask : Bool) : Load TailCell.Val F :=
  let code : Load TailCell.Val UInt8 :=
    Load.masked mask (TailCell.entry which (.code idx)) (0 : UInt8)
  let secMin : Load TailCell.Val F :=
    Load.guard mask ((Load.cell (TailCell.entry which (.secMin (idx / 64)))).map fp.ofB) (fp.lit 0)
  let secScale : Load TailCell.Val F :=
    Load.guard mask ((Load.cell (TailCell.entry which (.secScale (idx / 64)))).map fp.ofB)
      (fp.lit 1)
  Load.map₂ (fun c s => fp.affineValue c.toNat s.2 s.1) code (Load.map₂ Prod.mk secMin secScale)

variable (a : TailArgs) (kvh t d : ℕ)

/-- `kcode` -/
def tailKCode : Load TailCell.Val ℕ :=
  let mask := decide (t < a.openLen) && decide (d < a.headSize)
  let kByte := d * 3 / 8
  let kShift := d * 3 % 8
  let kRow := (t * a.numKvHeads + kvh) * a.kPackedDim
  let lo : Load TailCell.Val UInt8 := Load.masked mask (TailCell.kPacked (kRow + kByte)) (0 : UInt8)
  let hi : Load TailCell.Val UInt8 :=
    Load.masked (mask && decide (kByte + 1 < a.kPackedDim)) (TailCell.kPacked (kRow + kByte + 1))
      (0 : UInt8)
  Load.map₂ (fun lo hi => ((lo.toNat ||| hi.toNat <<< 8) >>> kShift) &&& 7) lo hi

/-- `.to(tl.bfloat16).to(tl.float32)` of `code * scale + min` -/
def roundedValue (code : ℕ) (scale min : F) : F := fp.ofB (fp.toB (fp.affineValue code scale min))

/-- `kval` of the tail kernel. -/
def tailK : Load TailCell.Val F :=
  let dmask := decide (d < a.headSize)
  let kIdx := kvh * a.headSize + d
  let ridx := t - a.openLen
  let rk := loadBf16 fp a.recentK ((ridx * a.numKvHeads + kvh) * a.headSize + d)
    (decide (a.openLen ≤ t ∧ ridx < a.recentLen) && dmask)
  Load.map₂ (fun code s => if t < a.openLen then roundedValue fp code s.2 s.1 else rk)
    (tailKCode a kvh t d)
    (Load.map₂ Prod.mk (tailMeta fp .kMin kIdx dmask) (tailMeta fp .kScale kIdx dmask))

/-- `vval` of the tail kernel. -/
def tailV : Load TailCell.Val F :=
  let dmask := decide (d < a.headSize)
  let mask := decide (t < a.openLen) && dmask
  let vByte := d / 4
  let vShift := d % 4 * 2
  let vRow := (t * a.numKvHeads + kvh) * a.vPackedDim
  let vb := if mask then a.openVPacked (vRow + vByte) else 0
  let code := (vb.toNat >>> vShift) &&& 3
  let vIdx := (t * a.numKvHeads + kvh) * a.vGroups + d / 32
  let ridx := t - a.openLen
  let rv := loadBf16 fp a.recentV ((ridx * a.numKvHeads + kvh) * a.headSize + d)
    (decide (a.openLen ≤ t ∧ ridx < a.recentLen) && dmask)
  Load.map₂ (fun min scale => if t < a.openLen then roundedValue fp code scale min else rv)
    (tailMeta fp .vMin vIdx mask) (tailMeta fp .vScale vIdx mask)

/-- One program of `_rabit2_stage4b1_exactmeta_tail_partial_kernel`. -/
def exactmetaTailProgram (q : QueryPtr Q) (mem : TailMem) (ptrs : PartialPtrs) (segmentIdx : ℕ)
    (softmaxScale : F) (qh : ℕ) : List (Slot × F) :=
  let kvh := qh / (a.numQHeads / a.numKvHeads)
  let valid := fun t =>
    decide (t < a.openLen) || decide (a.openLen ≤ t ∧ t - a.openLen < a.recentLen)
  storePartial ptrs a.headSize a.blockD (segmentIdx * a.numQHeads + qh) true
    (partialOf fp 64 a.blockD valid softmaxScale (loadQ fp dt q a.headSize qh true)
      (fun t d => (tailK fp a kvh t d).eval mem) fun t d => (tailV fp a kvh t d).eval mem)

end Kernels

/-- The buffers of one metadata tensor of the workspace. -/
structure MetaBufs where
  codes : ℕ → UInt8
  min : ℕ → Bf16
  scale : ℕ → Bf16

/-- One entry of `_RABIT2_STAGE4D3_4_WORKSPACES`. -/
structure Workspace (F : Type) where
  kCodes : ℕ → UInt8
  kPacked : ℕ → UInt8
  kMin : ℕ → F
  kScale : ℕ → F
  kMinMeta : MetaBufs
  kScaleMeta : MetaBufs
  vMinMeta : MetaBufs
  vScaleMeta : MetaBufs

def MetaBufs.cell (b : MetaBufs) (which : TailMeta) : ∀ c : MetaCell, TailCell.Val (.entry which c)
  | .code i => b.codes i
  | .secMin i => b.min i
  | .secScale i => b.scale i

/-- The tensors of the workspace that the tail kernel is launched with. -/
def Workspace.mem {F : Type} (ws : Workspace F) : TailMem
  | .kPacked i => ws.kPacked i
  | .entry .kMin c => ws.kMinMeta.cell .kMin c
  | .entry .kScale c => ws.kScaleMeta.cell .kScale c
  | .entry .vMin c => ws.vMinMeta.cell .vMin c
  | .entry .vScale c => ws.vScaleMeta.cell .vScale c

section Prep

variable {F : Type} (fp : Fp F Bf16)

/-- `maximum(0, minimum(levels, round_even_nonneg((x - qmin) / scale)))` -/
def evenCode (levels : ℕ) (qMin scale x : F) : ℕ :=
  (max 0 (min (levels : ℤ) (roundEvenNonneg fp (fp.div (fp.sub x qMin) scale)))).toNat

/-- `x` of `_rabit2_stage4d3_4_k_stats_codes_kernel`, program `p`. -/
def kStatsLane (openK : ℕ → Bf16) (openLen numKvHeads headSize p t : ℕ) : F :=
  if t < openLen then
    fp.ofB (openK ((t * numKvHeads + p / headSize) * headSize + p % headSize))
  else fp.lit 0

/-- `qmin` and `scale` of `_rabit2_stage4d3_4_k_stats_codes_kernel`, program `p`. -/
def kStats (openK : ℕ → Bf16) (openLen numKvHeads headSize p : ℕ) : F × F :=
  let x := (List.range 32).map (kStatsLane fp openK openLen numKvHeads headSize p)
  (fp.amin x, fp.affineScale 7 (1 / 10 ^ 8) (fp.amin x) (fp.amax x))

/-- The stores of `_rabit2_stage4d3_4_k_stats_codes_kernel` to `k_codes`, on the grid `(h * d,)`. -/
def kCodesStores (openK : ℕ → Bf16) (openLen numKvHeads headSize : ℕ) : List (ℕ × UInt8) :=
  (List.range (numKvHeads * headSize)).flatMap fun p => (List.range 32).map fun t =>
    let stats := kStats fp openK openLen numKvHeads headSize p
    ((t * numKvHeads + p / headSize) * headSize + p % headSize,
      UInt8.ofNat (evenCode fp 7 stats.1 stats.2
        (kStatsLane fp openK openLen numKvHeads headSize p t)))

/-- Its stores to `k_min`. -/
def kMinStores (openK : ℕ → Bf16) (openLen numKvHeads headSize : ℕ) : List (ℕ × F) :=
  (List.range (numKvHeads * headSize)).map fun p =>
    (p, (kStats fp openK openLen numKvHeads headSize p).1)

/-- Its stores to `k_scale`. -/
def kScaleStores (openK : ℕ → Bf16) (openLen numKvHeads headSize : ℕ) : List (ℕ × F) :=
  (List.range (numKvHeads * headSize)).map fun p =>
    (p, (kStats fp openK openLen numKvHeads headSize p).2)

/-- `byte` number `b` of `_rabit2_stage4d3_4_pack_k3_kernel`, program `row`. -/
def packK3Byte (kCodes : ℕ → UInt8) (headSize kPackedDim row b : ℕ) : UInt8 :=
  let bitPos := b * 8
  let c0 := bitPos / 3
  let shift := bitPos % 3
  let code := fun i =>
    if decide (b < kPackedDim) && decide (c0 + i < headSize) then
      (kCodes (row * headSize + c0 + i)).toNat else 0
  let word := code 0 ||| code 1 <<< 3 ||| code 2 <<< 6 ||| code 3 <<< 9
  UInt8.ofNat ((word >>> shift) &&& 255)

/-- `_rabit2_stage4d3_4_pack_k3_kernel` on the grid `(rows,)` -/
def packK3Stores (kCodes : ℕ → UInt8) (headSize kPackedDim blockB rows : ℕ) : List (ℕ × UInt8) :=
  (List.range rows).flatMap fun row =>
    ((List.range blockB).filter fun b => decide (b < kPackedDim)).map fun b =>
      (row * kPackedDim + b, packK3Byte kCodes headSize kPackedDim row b)

/-- `x` of `_rabit2_stage4d3_4_meta64_kernel`, program `g`. -/
def meta64Lane (data : ℕ → F) (nValues g j : ℕ) : F :=
  let idx := g * 64 + j
  data (if idx < nValues then idx else nValues - 1)

/-- `qmin` and `scale` of `_rabit2_stage4d3_4_meta64_kernel`, program `g`. -/
def meta64Stats (data : ℕ → F) (nValues g : ℕ) : F × F :=
  let x := (List.range 64).map (meta64Lane data nValues g)
  (fp.amin x, fp.affineScale 255 (1 / 10 ^ 12) (fp.amin x) (fp.amax x))

/-- `_rabit2_stage4d3_4_meta64_kernel` on the grid `(groups,)` -/
def meta64Kernel (data : ℕ → F) (nValues groups : ℕ) (dst : MetaBufs) : MetaBufs where
  codes := storeAll dst.codes ((List.range groups).flatMap fun g => (List.range 64).map fun j =>
    (g * 64 + j, UInt8.ofNat (evenCode fp 255 (meta64Stats fp data nValues g).1
      (meta64Stats fp data nValues g).2 (meta64Lane data nValues g j))))
  min := storeAll dst.min ((List.range groups).map fun g =>
    (g, fp.toB (meta64Stats fp data nValues g).1))
  scale := storeAll dst.scale ((List.range groups).map fun g =>
    (g, fp.toB (meta64Stats fp data nValues g).2))

/-- `_rabit2_stage4d3_4_meta_launch` -/
def metaLaunch (data : ℕ → F) (nValues : ℕ) (dst : MetaBufs) : Except String MetaBufs :=
  let groups := (nValues + metadataGroupSize - 1) / metadataGroupSize
  if groups = 0 then .error "Stage4D3.4 metadata input must be non-empty"
  else .ok (meta64Kernel fp data nValues groups dst)

variable {H D : ℕ} (junk : Workspace F)

/-- `_rabit2_stage4d3_4_workspace`: the workspace of this device, stream and shape, if there is one
already; otherwise a fresh one, with unknown contents `junk`. -/
def tailWorkspace (headSizeV : ℕ) : Option (Workspace F) → Except String (Workspace F)
  | some ws => .ok ws
  | none =>
    if headSizeV % groupSize ≠ 0 then
      .error "RABIT-2 Stage4D3.4 requires V head size divisible by group size"
    else .ok junk

/-- `_rabit2_stage4d3_4_fast_prep` -/
def fastPrep (side : Sidecar H D F) (ws : Option (Workspace F)) : Except String (Workspace F) :=
  match side.openK with
  | none => .error "Stage4D3.4 fast prep requires open K"
  | some openK =>
    match side.openVMin, side.openVScale with
    | some openVMin, some openVScale => do
      let ws ← tailWorkspace junk D ws
      let openLen := openK.length
      let openKPtr := tensorPtr 0 openK
      let kCodes := storeAll ws.kCodes (kCodesStores fp openKPtr openLen H D)
      let kMin := storeAll ws.kMin (kMinStores fp openKPtr openLen H D)
      let kScale := storeAll ws.kScale (kScaleStores fp openKPtr openLen H D)
      let kPackedDim := packedDim D 3
      let kPacked := storeAll ws.kPacked
        (packK3Stores kCodes D kPackedDim (nextPowerOf2 kPackedDim) (groupSize * H))
      let kMinMeta ← metaLaunch fp kMin (H * D) ws.kMinMeta
      let kScaleMeta ← metaLaunch fp kScale (H * D) ws.kScaleMeta
      let vMinMeta ← metaLaunch fp (tensorPtr (fp.lit 0) openVMin)
        (flatTokens openVMin).length ws.vMinMeta
      let vScaleMeta ← metaLaunch fp (tensorPtr (fp.lit 0) openVScale)
        (flatTokens openVScale).length ws.vScaleMeta
      return { kCodes := kCodes, kPacked := kPacked, kMin := kMin, kScale := kScale
               kMinMeta := kMinMeta, kScaleMeta := kScaleMeta, vMinMeta := vMinMeta
               vScaleMeta := vScaleMeta }
    | _, _ => .error "Stage4D3.4 fast prep requires open V metadata"

/-- A cell of a reference metadata dictionary after `.reshape(-1)`. -/
def Metadata.cell? (m : Metadata Bf16) (which : TailMeta) :
    ∀ c : MetaCell, Option (TailCell.Val (.entry which c))
  | .code i => m.codes.flatten[i]?
  | .secMin i => m.min[i]?
  | .secScale i => m.scale[i]?

/-- The tensors the Stage 4B1 emitter prepares, cell by cell. -/
def referenceCell? (kState : K3State H D Bf16) (vMin vScale : Metadata Bf16) :
    ∀ c : TailCell, Option c.Val
  | .kPacked i => (flatTokens kState.packed)[i]?
  | .entry .kMin c => kState.min.cell? .kMin c
  | .entry .kScale c => kState.scale.cell? .kScale c
  | .entry .vMin c => vMin.cell? .vMin c
  | .entry .vScale c => vScale.cell? .vScale c

/-- Zero, for a load past the end of a tensor. -/
def TailCell.zero : ∀ c : TailCell, c.Val
  | .kPacked _ => (0 : UInt8)
  | .entry _ (.code _) => (0 : UInt8)
  | .entry _ (.secMin _) => (0 : UInt16)
  | .entry _ (.secScale _) => (0 : UInt16)

/-- `quantize_k3_sequence_affine_ref` of the open keys and `encode_metadata_uint8_group_ref` of the
open V minima and scales, as the tail kernel reads them. -/
def referencePrep (openK : List (Tok H D Bf16)) (openVMin openVScale : List (Tok H (vGroups D) F)) :
    Except String (∀ c : TailCell, Option c.Val) := do
  let kState ← quantizeK3SequenceAffine fp (openK.map (Tok.map fp.ofB))
  return referenceCell? kState (encodeVMetadata fp openVMin) (encodeVMetadata fp openVScale)

end Prep

section Emit

variable {F Q : Type} (fp : AttnFp F) (dt : QDtype F Q) {H D : ℕ}

/-- The launch of `_rabit2_tail_partial_kernel` by both emitters. -/
def emitRecent (q : QueryPtr Q) (qHeads : ℕ) (recentK recentV : List (Tok H D Bf16))
    (ptrs : PartialPtrs) (segmentIdx : ℕ) (softmaxScale : F) : List (Slot × F) :=
  (List.range qHeads).flatMap (tailPartialProgram fp dt q (tensorPtr 0 recentK)
    (tensorPtr 0 recentV) ptrs recentK.length segmentIdx softmaxScale qHeads H D 4 (nextPowerOf2 D))

/-- The launch parameters of `_rabit2_stage4b1_exactmeta_tail_partial_kernel` in both emitters. -/
def tailArgs (qHeads : ℕ) (openK : List (Tok H D Bf16))
    (openVPacked : List (Tok H (vPackedDim D) UInt8)) (recentK recentV : List (Tok H D Bf16)) :
    TailArgs where
  openVPacked := tensorPtr 0 openVPacked
  recentK := tensorPtr 0 recentK
  recentV := tensorPtr 0 recentV
  openLen := openK.length
  recentLen := recentK.length
  numQHeads := qHeads
  numKvHeads := H
  headSize := D
  kPackedDim := packedDim D 3
  vPackedDim := packedDim D 2
  vGroups := D / groupSize
  blockD := nextPowerOf2 D

/-- The launch of `_rabit2_stage4b1_exactmeta_tail_partial_kernel` on the grid `(q_heads,)`. -/
def emitTail (q : QueryPtr Q) (a : TailArgs) (mem : TailMem) (ptrs : PartialPtrs) (segmentIdx : ℕ)
    (softmaxScale : F) : List (Slot × F) :=
  (List.range a.numQHeads).flatMap (exactmetaTailProgram fp dt a q mem ptrs segmentIdx softmaxScale)

/-- `_rabit2_stage4b1_exactmeta_emit_tail_partial` as first defined. -/
def emitTailPartialRef (q : QueryPtr Q) (qHeads : ℕ) (side : Sidecar H D F) (ptrs : PartialPtrs)
    (segmentIdx : ℕ) (softmaxScale : F) : Except String (List (Slot × F)) :=
  match side.recentK, side.recentV with
  | some recentK, some recentV =>
    match side.openK with
    | none => .ok (emitRecent fp dt q qHeads recentK recentV ptrs segmentIdx softmaxScale)
    | some openK =>
      match side.openVPacked, side.openVMin, side.openVScale with
      | some openVPacked, some openVMin, some openVScale => do
        let cells ← referencePrep fp.toFp openK openVMin openVScale
        return emitTail fp dt q (tailArgs qHeads openK openVPacked recentK recentV)
          (fun c => (cells c).getD c.zero) ptrs segmentIdx softmaxScale
      | _, _, _ => .error "AssertionError"
  | _, _ => .error "RABIT-2 Stage4B1 exactmeta requires recent tokens"

/-- `_rabit2_stage4d3_4_emit_tail_partial`, bound under the name of the former: the stores, and the
workspace it leaves. -/
def emitTailPartial (junk : Workspace F) (q : QueryPtr Q) (qHeads : ℕ) (side : Sidecar H D F)
    (ptrs : PartialPtrs) (segmentIdx : ℕ) (softmaxScale : F) (ws : Option (Workspace F)) :
    Except String (List (Slot × F) × Option (Workspace F)) :=
  match side.recentK, side.recentV with
  | some recentK, some recentV =>
    match side.openK with
    | none => .ok (emitRecent fp dt q qHeads recentK recentV ptrs segmentIdx softmaxScale, ws)
    | some openK =>
      match side.openVPacked with
      | none => .error "RABIT-2 Stage4D3.4 requires open V payload"
      | some openVPacked => do
        let ws ← fastPrep fp.toFp junk side ws
        return (emitTail fp dt q (tailArgs qHeads openK openVPacked recentK recentV) ws.mem ptrs
          segmentIdx softmaxScale, some ws)
  | _, _ => .error "RABIT-2 Stage4D3.4 requires recent tokens"

end Emit

end RabitKV
