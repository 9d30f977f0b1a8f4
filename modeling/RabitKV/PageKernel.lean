import RabitKV.Lib.Loads
import RabitKV.Runtime

/-!
# The closed-page kernels

`_rabit2_closed_page_partial_kernel` and `_rabit2_stage4b3_gqa4_closed_page_partial_kernel` compute
softmax partials of one closed page straight from its raw bytes: a two-byte window for a K3 code,
one byte for a V2 code, and for the minimum and the scale of an entry a metadata code and two
bfloat16 secondaries as byte pairs. They leave a maximum, a sum and an accumulator per page and
query head in three buffers.

Tensors are contiguous and modelled address by address. A lane that a mask leaves out holds the
`other` value of its load.
-/

namespace RabitKV

open Loads

/-- What attention uses besides `Fp`. -/
structure AttnFp (F : Type) extends Fp F Bf16 where
  /-- `float("-inf")` -/
  negInf : F
  exp : F → F
  /-- `tl.sum` along one axis. -/
  sum : List F → F

/-- The dtype of queries and outputs. -/
structure QDtype (F Q : Type) where
  /-- `.to(tl.float32)` -/
  toF : Q → F
  /-- The conversion of a float32 stored to the output. -/
  ofF : F → Q

/-- `triton.next_power_of_2` -/
def nextPowerOf2 (n : ℕ) : ℕ := 2 ^ Nat.clog 2 n

section Entries

/-- A metadata entry as it lies in memory: a code and the secondaries of its group. -/
structure MetaEntry where
  code : UInt8
  secMin : Bf16
  secScale : Bf16
deriving DecidableEq, Repr

/-- A K or V entry as it lies in memory. -/
structure RawEntry where
  code : ℕ
  min : MetaEntry
  scale : MetaEntry
deriving DecidableEq, Repr

variable {F : Type} (fp : Fp F Bf16)

/-- `code * secscale + secmin` -/
def MetaEntry.value (e : MetaEntry) : F :=
  fp.affineValue e.code.toNat (fp.ofB e.secScale) (fp.ofB e.secMin)

/-- `code * scale + min` -/
def RawEntry.value (e : RawEntry) : F := fp.affineValue e.code (e.scale.value fp) (e.min.value fp)

end Entries

/-- The `tl.constexpr` parameters of the closed-page kernels. -/
structure PageConsts where
  pageBytes : ℕ
  kPayloadOffset : ℕ
  vPayloadOffset : ℕ
  kMinOffset : ℕ
  kScaleOffset : ℕ
  vMinOffset : ℕ
  vScaleOffset : ℕ
  kPrimaryCount : ℕ
  kMetaGroups : ℕ
  vPrimaryCount : ℕ
  vMetaGroups : ℕ
  numQHeads : ℕ
  numKvHeads : ℕ
  headSize : ℕ
  kPackedDim : ℕ
  vPackedDim : ℕ
  vGroups : ℕ
  blockD : ℕ

/-- The parameters as every caller computes them; `vPackedDim` is the one they write differently. -/
def pageConsts (layout : Rabit2PageLayout) (qHeads kvHeads d vPackedDim : ℕ) : PageConsts :=
  let kPrimary := layout.numKvHeads * layout.headSizeK
  let vGroups := layout.headSizeV / groupSize
  let vPrimary := layout.blockSize * layout.numKvHeads * vGroups
  { pageBytes := layout.pageBytes
    kPayloadOffset := layout.kPayloadOffset
    vPayloadOffset := layout.vPayloadOffset
    kMinOffset := layout.kMinOffset
    kScaleOffset := layout.kScaleOffset
    vMinOffset := layout.vMinOffset
    vScaleOffset := layout.vScaleOffset
    kPrimaryCount := kPrimary
    kMetaGroups := kPrimary / metadataGroupSize
    vPrimaryCount := vPrimary
    vMetaGroups := vPrimary / metadataGroupSize
    numQHeads := qHeads
    numKvHeads := kvHeads
    headSize := d
    kPackedDim := packedDim d 3
    vPackedDim := vPackedDim
    vGroups := vGroups
    blockD := nextPowerOf2 d }

/-- The launch of `_rabit2_closed_page_partial_kernel`. -/
def closedPageConsts (layout : Rabit2PageLayout) (qHeads d : ℕ) : PageConsts :=
  pageConsts layout qHeads layout.numKvHeads d (packedDim d 2)

/-- The launch of `_rabit2_stage4b3_gqa4_closed_page_partial_kernel` and of its two tiled copies;
`kvHeads` and `headSizeV` are the runtime's. -/
def gqa4PageConsts (layout : Rabit2PageLayout) (qHeads kvHeads headSizeV d : ℕ) : PageConsts :=
  pageConsts layout qHeads kvHeads d (packedDim headSizeV 2)

section PageLoads

/-- A load from the bytes of the cache. -/
abbrev ByteLoad (α : Type) := Load (fun _ : ℕ => UInt8) α

/-- `_rabit2_u8pair_to_bf16_f32` before the conversion to float32. -/
def u8PairToBf16 (addr : ℕ) (mask : Bool) : ByteLoad Bf16 :=
  Load.map₂ (fun lo hi => lo.toUInt16 ||| hi.toUInt16 <<< (8 : UInt16)) (Load.masked mask addr 0)
    (Load.masked mask (addr + 1) 0)

/-- A metadata entry of the section at `base` with `count` codes in `groups` groups. -/
def metaEntry (base count groups idx : ℕ) (mask : Bool) : ByteLoad MetaEntry :=
  let mg := idx / 64
  Load.map₂ (fun code sec => ⟨code, sec.1, sec.2⟩) (Load.masked mask (base + idx) 0)
    (Load.map₂ Prod.mk (u8PairToBf16 (base + count + mg * 2) mask)
      (u8PairToBf16 (base + count + groups * 2 + mg * 2) mask))

variable (c : PageConsts) (page kvh t d : ℕ)

/-- `k_code` -/
def kCodeLoad : ByteLoad ℕ :=
  let dmask := decide (d < c.headSize)
  let kByte := d * 3 / 8
  let kShift := d * 3 % 8
  let kRow := (t * c.numKvHeads + kvh) * c.kPackedDim
  Load.map₂ (fun lo hi => ((lo.toNat ||| hi.toNat <<< 8) >>> kShift) &&& 7)
    (Load.masked dmask (page + c.kPayloadOffset + kRow + kByte) 0)
    (Load.masked (dmask && decide (kByte + 1 < c.kPackedDim))
      (page + c.kPayloadOffset + kRow + kByte + 1) 0)

/-- What `kval` is computed from. -/
def kEntryLoad : ByteLoad RawEntry :=
  let dmask := decide (d < c.headSize)
  let kIdx := kvh * c.headSize + d
  Load.map₂ (fun code e => ⟨code, e.1, e.2⟩) (kCodeLoad c page kvh t d)
    (Load.map₂ Prod.mk (metaEntry (page + c.kMinOffset) c.kPrimaryCount c.kMetaGroups kIdx dmask)
      (metaEntry (page + c.kScaleOffset) c.kPrimaryCount c.kMetaGroups kIdx dmask))

/-- `v_code` -/
def vCodeLoad : ByteLoad ℕ :=
  let vByte := d / 4
  let vShift := d % 4 * 2
  let vRow := (t * c.numKvHeads + kvh) * c.vPackedDim
  Load.map (fun vb => (vb.toNat >>> vShift) &&& 3)
    (Load.masked (decide (d < c.headSize)) (page + c.vPayloadOffset + vRow + vByte) 0)

/-- What `vval` is computed from. -/
def vEntryLoad : ByteLoad RawEntry :=
  let dmask := decide (d < c.headSize)
  let vIdx := (t * c.numKvHeads + kvh) * c.vGroups + d / 32
  Load.map₂ (fun code e => ⟨code, e.1, e.2⟩) (vCodeLoad c page kvh t d)
    (Load.map₂ Prod.mk (metaEntry (page + c.vMinOffset) c.vPrimaryCount c.vMetaGroups vIdx dmask)
      (metaEntry (page + c.vScaleOffset) c.vPrimaryCount c.vMetaGroups vIdx dmask))

end PageLoads

section Partials

variable {F Q : Type} (fp : AttnFp F)

/-- Running maximum, sum and accumulator of one query head over some tokens. -/
structure Partial (F : Type) where
  m : F
  l : F
  acc : ℕ → F

/-- The body of the partial kernels: `rows` lanes of tokens, of which the `valid` ones count. -/
def partialOf (rows blockD : ℕ) (valid : ℕ → Bool) (softmaxScale : F) (q : ℕ → F)
    (kval vval : ℕ → ℕ → F) : Partial F :=
  let scores := fun t => if valid t then
    fp.mul (fp.sum ((List.range blockD).map fun d => fp.mul (kval t d) (q d))) softmaxScale
    else fp.negInf
  let m := fp.amax ((List.range rows).map scores)
  let p := fun t => if valid t then fp.exp (fp.sub (scores t) m) else fp.lit 0
  { m := m
    l := fp.sum ((List.range rows).map p)
    acc := fun d => fp.sum ((List.range rows).map fun t => fp.mul (p t) (vval t d)) }

/-- A cell of `partial_m`, `partial_l` or `partial_acc`. -/
inductive Slot where
  | m (i : ℕ)
  | l (i : ℕ)
  | acc (i : ℕ)
deriving DecidableEq, Repr

/-- `partial_m_ptr`, `partial_l_ptr` and `partial_acc_ptr` -/
structure PartialPtrs where
  m : ℕ
  l : ℕ
  acc : ℕ

/-- The three stores at the end of a partial kernel, for the lanes `valid` leaves in. -/
def storePartial (ptrs : PartialPtrs) (headSize blockD seg : ℕ) (valid : Bool) (p : Partial F) :
    List (Slot × F) :=
  if valid then
    (.m (ptrs.m + seg), p.m) :: (.l (ptrs.l + seg), p.l) ::
      ((List.range blockD).filter fun d => decide (d < headSize)).map fun d =>
        (.acc (ptrs.acc + seg * headSize + d), p.acc d)
  else []

/-- A query tensor and a pointer into it. -/
structure QueryPtr (Q : Type) where
  mem : ℕ → Q
  ptr : ℕ

/-- `q_ptr + offset` -/
def QueryPtr.advance (q : QueryPtr Q) (offset : ℕ) : QueryPtr Q := { q with ptr := q.ptr + offset }

/-- `tl.load(q_ptr + qh * HEAD_SIZE + d, mask=dmask & valid, other=0.0).to(tl.float32)` -/
def loadQ (dt : QDtype F Q) (q : QueryPtr Q) (headSize qh : ℕ) (valid : Bool) (d : ℕ) : F :=
  if decide (d < headSize) && valid then dt.toF (q.mem (q.ptr + qh * headSize + d)) else fp.lit 0

end Partials

section Kernels

variable {F Q : Type} (fp : AttnFp F) (dt : QDtype F Q) (c : PageConsts) (cache : ℕ → UInt8)
  (blockTable : ℕ → ℕ) (softmaxScale : F)

/-- `kval` -/
def pageK (page kvh t d : ℕ) : F := ((kEntryLoad c page kvh t d).eval cache).value fp.toFp

/-- `vval` -/
def pageV (page kvh t d : ℕ) : F := ((vEntryLoad c page kvh t d).eval cache).value fp.toFp

/-- The partial of one query head over one decoded page, stored. -/
def pageHead (q : QueryPtr Q) (ptrs : PartialPtrs) (logicalPage kvh qh : ℕ) (valid : Bool) :
    List (Slot × F) :=
  let page := blockTable logicalPage * c.pageBytes
  storePartial ptrs c.headSize c.blockD (logicalPage * c.numQHeads + qh) valid
    (partialOf fp 32 c.blockD (fun _ => true) softmaxScale (loadQ fp dt q c.headSize qh valid)
      (pageK fp c cache page kvh) (pageV fp c cache page kvh))

/-- One program of `_rabit2_closed_page_partial_kernel`. -/
def closedPagePartialProgram (q : QueryPtr Q) (ptrs : PartialPtrs) (logicalPage qh : ℕ) :
    List (Slot × F) :=
  let kvh := qh / (c.numQHeads / c.numKvHeads)
  pageHead fp dt c cache blockTable softmaxScale q ptrs logicalPage kvh qh true

/-- `_rabit2_closed_page_partial_kernel` on the grid `(closed, q_heads)` -/
def closedPagePartialKernel (q : QueryPtr Q) (ptrs : PartialPtrs) (closed qHeads : ℕ) :
    List (Slot × F) :=
  (List.range closed).flatMap fun logicalPage => (List.range qHeads).flatMap fun qh =>
    closedPagePartialProgram fp dt c cache blockTable softmaxScale q ptrs logicalPage qh

/-- The four query heads of one program of the GQA4 kernels, for one query. -/
def gqa4Body (q : QueryPtr Q) (ptrs : PartialPtrs) (logicalPage qgroup : ℕ) (valid : Bool) :
    List (Slot × F) :=
  let gqaRatio := c.numQHeads / c.numKvHeads
  let groupsPerKv := gqaRatio / 4
  let kvh := qgroup / groupsPerKv
  let subgroup := qgroup - kvh * groupsPerKv
  let qhBase := kvh * gqaRatio + subgroup * 4
  (List.range 4).flatMap fun qi =>
    pageHead fp dt c cache blockTable softmaxScale q ptrs logicalPage kvh (qhBase + qi) valid

/-- `_rabit2_stage4b3_gqa4_closed_page_partial_kernel` on the grid `(closed, qgroups)` -/
def gqa4ClosedPagePartialKernel (q : QueryPtr Q) (ptrs : PartialPtrs) (closed qgroups : ℕ) :
    List (Slot × F) :=
  (List.range closed).flatMap fun logicalPage => (List.range qgroups).flatMap fun qgroup =>
    gqa4Body fp dt c cache blockTable softmaxScale q ptrs logicalPage qgroup true

end Kernels

end RabitKV
