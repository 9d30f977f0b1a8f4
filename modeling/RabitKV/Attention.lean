import RabitKV.Online
import RabitKV.Tail

/-!
# Decode attention

`rabit2_online_decode_attention_triton` computes the attention of one query token over the closed
pages of a sequence and its tail. Each closed page and the tail leave a partial per query head in
uninitialised buffers, and `_rabit2_reduce_partials_kernel` merges the partials of a head. Four
query heads of a KV head share a decoded page when the head ratio allows it; otherwise the Stage 4B1
version runs.

The model keeps what a call stores and loads, so that each slot can be followed through it.
-/

namespace RabitKV

open Loads Stores

section Reduce

variable {F Q : Type} (fp : AttnFp F) (dt : QDtype F Q)

/-- A load from the partial buffers. -/
abbrev SlotLoad (F : Type) := Load (fun _ : Slot => F) F

/-- The parameters of `_rabit2_reduce_partials_kernel`. -/
structure ReduceArgs where
  ptrs : PartialPtrs
  numSegments : ℕ
  numQHeads : ℕ
  headSize : ℕ
  blockS : ℕ
  blockD : ℕ

variable (a : ReduceArgs) (qh : ℕ)

/-- `ms` -/
def msLoad (s : ℕ) : SlotLoad F :=
  Load.masked (decide (s < a.numSegments)) (Slot.m (a.ptrs.m + (s * a.numQHeads + qh))) fp.negInf

/-- `ls` -/
def lsLoad (s : ℕ) : SlotLoad F :=
  Load.masked (decide (s < a.numSegments)) (Slot.l (a.ptrs.l + (s * a.numQHeads + qh))) (fp.lit 0)

/-- `acc` -/
def accLoad (s d : ℕ) : SlotLoad F :=
  Load.masked (decide (s < a.numSegments) && decide (d < a.headSize))
    (Slot.acc (a.ptrs.acc + ((s * a.numQHeads + qh) * a.headSize + d))) (fp.lit 0)

/-- Every slot a program loads. -/
def reduceReads : List Slot :=
  (List.range a.blockS).flatMap fun s => (msLoad fp a qh s).addrs ++ (lsLoad fp a qh s).addrs ++
    (List.range a.blockD).flatMap fun d => (accLoad fp a qh s d).addrs

variable (mem : Slot → F)

/-- `w` -/
def reduceWeight (s : ℕ) : F :=
  let globalM := fp.amax ((List.range a.blockS).map fun s => (msLoad fp a qh s).eval mem)
  if s < a.numSegments then fp.exp (fp.sub ((msLoad fp a qh s).eval mem) globalM) else fp.lit 0

/-- `denom` -/
def reduceDenom : F :=
  fp.sum ((List.range a.blockS).map fun s =>
    fp.mul (reduceWeight fp a qh mem s) ((lsLoad fp a qh s).eval mem))

/-- `out` -/
def reduceOut (d : ℕ) : F :=
  fp.div (fp.sum ((List.range a.blockS).map fun s =>
    fp.mul ((accLoad fp a qh s d).eval mem) (reduceWeight fp a qh mem s))) (reduceDenom fp a qh mem)

/-- One program of `_rabit2_reduce_partials_kernel`. -/
def reduceProgram (outPtr : ℕ) : List (ℕ × Q) :=
  ((List.range a.blockD).filter fun d => decide (d < a.headSize)).map fun d =>
    (outPtr + qh * a.headSize + d, dt.ofF (reduceOut fp a qh mem d))

/-- `_rabit2_reduce_partials_kernel` on the grid `(q_heads,)` -/
def reducePartialsKernel (outPtr qHeads : ℕ) : List (ℕ × Q) :=
  (List.range qHeads).flatMap fun qh => reduceProgram fp dt a qh mem outPtr

end Reduce

/-- The cache as the kernels address it. -/
def Cache.flat (cache : Cache ℕ) (addr : ℕ) : UInt8 :=
  (cache.rows (addr / cache.width)).getD (addr % cache.width) 0

/-- What `torch.empty` tensors happen to hold. -/
structure Uninit (F Q : Type) where
  partials : Slot → F
  out : ℕ → Q
  workspace : Workspace F

/-- One attention call: its stores to the partial buffers, the buffers it reduces, the output it
leaves and the tail workspace. -/
structure DecodeRun (F Q : Type) where
  stores : List (Slot × F)
  partials : Slot → F
  out : ℕ → Q
  workspace : Option (Workspace F)

/-- The parameters of the reduction of one query over `segments` segments. -/
def reduceArgs (segments qHeads d : ℕ) : ReduceArgs where
  ptrs := ⟨0, 0, 0⟩
  numSegments := segments
  numQHeads := qHeads
  headSize := d
  blockS := nextPowerOf2 segments
  blockD := nextPowerOf2 d

section Attention

variable {F Q : Type} (fp : AttnFp F) (dt : QDtype F Q) {H D : ℕ} (u : Uninit F Q)
  (layout : Rabit2PageLayout) (q : QueryPtr Q) (qHeads : ℕ) (cache : Cache ℕ) (row : List ℕ)
  (side : Sidecar H D F) (closed : ℕ) (softmaxScale : F) (ws : Option (Workspace F))

/-- Both versions after their closed-page kernel: the tail partial and the reduction. -/
def finishAttention (pageStores : List (Slot × F)) : Except String (DecodeRun F Q) := do
  let (tailStores, ws) ←
    emitTailPartial fp dt u.workspace q qHeads side ⟨0, 0, 0⟩ closed softmaxScale ws
  let stores := pageStores ++ tailStores
  let partials := storeAll u.partials stores
  return { stores, partials, workspace := ws
           out := storeAll u.out (reducePartialsKernel fp dt (reduceArgs (closed + 1) qHeads D)
            partials 0 qHeads) }

/-- `rabit2_online_decode_attention_triton_stage4b1_exactmeta` -/
def onlineDecodeAttentionStage4b1 : Except String (DecodeRun F Q) :=
  finishAttention fp dt u q qHeads side closed softmaxScale ws
    (if closed ≠ 0 then
      closedPagePartialKernel fp dt (closedPageConsts layout qHeads D) cache.flat
        (fun logicalPage => row.getD logicalPage 0) softmaxScale q ⟨0, 0, 0⟩ closed qHeads
    else [])

/-- `rabit2_online_decode_attention_triton`, which is
`rabit2_online_decode_attention_triton_stage4b3_gqa4`. -/
def onlineDecodeAttention : Except String (DecodeRun F Q) :=
  if qHeads % H ≠ 0 ∨ qHeads / H % 4 ≠ 0 then
    onlineDecodeAttentionStage4b1 fp dt u layout q qHeads cache row side closed softmaxScale ws
  else
    let groupsPerKv := qHeads / H / 4
    let qgroups := H * groupsPerKv
    finishAttention fp dt u q qHeads side closed softmaxScale ws
      (if closed ≠ 0 then
        gqa4ClosedPagePartialKernel fp dt (gqa4PageConsts layout qHeads H D D) cache.flat
          (fun logicalPage => row.getD logicalPage 0) softmaxScale q ⟨0, 0, 0⟩ closed qgroups
      else [])

end Attention

/-- The whole sequence as attention sees it: closed pages in block-table order, the open group
rounded to bfloat16, the recent tokens. -/
def materialize {F : Type} (fp : Fp F Bf16) {H D : ℕ} (cache : Cache ℕ) (row : List ℕ) (closed : ℕ)
    (side : Sidecar H D F) : Except String (List (Tok H D F) × List (Tok H D F)) := do
  let (pagesK, pagesV) ← decodePages fp fp.float32 ((row.take closed).map cache.rows)
  let (tailK, tailV) ← tailMaterialize fp ⟨fun x => fp.ofB (fp.toB x), fp.ofB⟩ side
  return (pagesK ++ tailK, pagesV ++ tailV)

end RabitKV
