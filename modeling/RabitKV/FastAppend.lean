import RabitKV.ChunkPlan

/-!
# The fast decode append

`_rabit2_final_fast_decode_append` replaces `append` for one CUDA token of the production shape. It
keeps the residual and the open group in buffers of its own, ages one V token with a kernel and
rotates the residual with another, and then points the public fields at the buffers. The buffers
are filled from the public fields once, when `_rabit2_final_fast_ready` is not yet set.

Device buffers are contiguous and modelled address by address; the programs of a launch run one
after another. `torch.empty` hands out unknown contents, here the parameter `junk`. `/` and
`tl.div_rn` are both the division of `Fp`, and `tl.min`, `tl.max` its reductions.
-/

namespace RabitKV

open Stores

section Rows

variable {α : Type} {H D : ℕ}

/-- `buf[slot]` of a contiguous buffer `[_, heads, head_dim]` -/
def rowAt (H D : ℕ) (mem : ℕ → α) (slot : ℕ) : Tok H D α := fun h d => mem ((slot * H + h) * D + d)

/-- `buf[:n]` -/
def rowsTo (H D : ℕ) (mem : ℕ → α) (n : ℕ) : List (Tok H D α) := (List.range n).map (rowAt H D mem)

/-- `buf[:n].copy_(ts)` for the `n` rows of `ts` -/
def copyRows (mem : ℕ → α) (ts : List (Tok H D α)) : ℕ → α := fun a =>
  (flatTokens ts)[a]?.getD (mem a)

end Rows

/-- The six `_rabit2_final_*_buf` tensors. -/
structure FastBuffers (F : Type) where
  recentK : ℕ → Bf16
  recentV : ℕ → Bf16
  openK : ℕ → Bf16
  openVPacked : ℕ → UInt8
  openVMin : ℕ → F
  openVScale : ℕ → F

section Kernels

variable {F : Type} (fp : Fp F Bf16)

/-- `_rabit2_stage4d3_4_round_even_nonneg` -/
def roundEvenNonneg (x : F) : ℤ :=
  let lo := fp.floor x
  let frac := fp.sub x (fp.lit lo)
  if fp.lt (fp.lit (1 / 2)) frac ∨ (fp.eq frac (fp.lit (1 / 2)) ∧ lo % 2 ≠ 0) then lo + 1 else lo

/-- `q0`, …, `q3` of `_rabit2_final_v2_age_kernel`. -/
def ageCode (qMin scale x : F) : ℕ :=
  (max 0 (min 3 (roundEvenNonneg fp (fp.div (fp.sub x qMin) scale)))).toNat

/-- `x` of the group at `base`. -/
def ageLanes (groupSize : ℕ) (recentV : ℕ → Bf16) (base : ℕ) : List F :=
  (List.range groupSize).map fun d => fp.ofB (recentV (base + d))

/-- `scale` of the group at `base`. -/
def ageScale (groupSize : ℕ) (recentV : ℕ → Bf16) (base : ℕ) : F :=
  fp.affineScale 3 (1 / 10 ^ 8) (fp.amin (ageLanes fp groupSize recentV base))
    (fp.amax (ageLanes fp groupSize recentV base))

/-- `byte` number `b` of the group at `base`. -/
def ageByte (groupSize : ℕ) (recentV : ℕ → Bf16) (base b : ℕ) : UInt8 :=
  packV2Direct (fun i => ageCode fp (fp.amin (ageLanes fp groupSize recentV base))
    (ageScale fp groupSize recentV base) (fp.ofB (recentV (base + i)))) b

/-- One program of `_rabit2_final_v2_age_kernel`. -/
def v2AgeProgram (openSlot numHeads headSize groupSize vGroups packedDim : ℕ) (bufs : FastBuffers F)
    (p : ℕ) : FastBuffers F :=
  let h := p / vGroups
  let g := p % vGroups
  let base := h * headSize + g * groupSize
  let packedOff := (openSlot * numHeads + h) * packedDim + g * 8
  let metaOff := (openSlot * numHeads + h) * vGroups + g
  { bufs with
    openVPacked := storeBlock bufs.openVPacked packedOff 8 (fun _ => true)
      (ageByte fp groupSize bufs.recentV base)
    openVMin := storeBlock bufs.openVMin metaOff 1 (fun _ => true) fun _ =>
      fp.amin (ageLanes fp groupSize bufs.recentV base)
    openVScale := storeBlock bufs.openVScale metaOff 1 (fun _ => true) fun _ =>
      ageScale fp groupSize bufs.recentV base }

/-- `_rabit2_final_v2_age_kernel` on the grid `(numHeads * vGroups,)` -/
def v2AgeKernel (openSlot numHeads headSize groupSize vGroups packedDim : ℕ)
    (bufs : FastBuffers F) : FastBuffers F :=
  (List.range (numHeads * vGroups)).foldl
    (v2AgeProgram fp openSlot numHeads headSize groupSize vGroups packedDim) bufs

/-- One side of the rotation: the block at `lo` moves one slot down and takes `new` behind. -/
def shiftBlock (n block lo : ℕ) (mem new : ℕ → Bf16) : ℕ → Bf16 :=
  let mask := fun i => decide (lo + i < n)
  let load := fun slot i => mem (slot * n + lo + i)
  storeBlock (storeBlock (storeBlock (storeBlock mem
    (0 * n + lo) block mask (load 1)) (1 * n + lo) block mask (load 2))
    (2 * n + lo) block mask (load 3)) (3 * n + lo) block mask fun i => new (lo + i)

/-- One program of `_rabit2_final_shift_recent_kernel`. -/
def shiftRecentProgram (newK newV : ℕ → Bf16) (openSlot n block : ℕ) (bufs : FastBuffers F)
    (p : ℕ) : FastBuffers F :=
  let lo := p * block
  { bufs with
    openK := storeBlock bufs.openK (openSlot * n + lo) block (fun i => decide (lo + i < n))
      fun i => bufs.recentK (0 * n + lo + i)
    recentK := shiftBlock n block lo bufs.recentK newK
    recentV := shiftBlock n block lo bufs.recentV newV }

/-- `_rabit2_final_shift_recent_kernel` on the grid `(triton.cdiv(n, block),)` -/
def shiftRecentKernel (newK newV : ℕ → Bf16) (openSlot n block : ℕ) (bufs : FastBuffers F) :
    FastBuffers F :=
  (List.range (cdiv n block)).foldl (shiftRecentProgram newK newV openSlot n block) bufs

end Kernels

/-- The private side of the fast path once `_rabit2_final_fast_ready` is set. -/
structure Fast (F : Type) where
  openLen : ℕ
  bufs : FastBuffers F

/-- A runtime with its cache. `fast` is `none` unless `_rabit2_final_fast_ready`. -/
structure Live (H D : ℕ) (F ι : Type) where
  held : Held H D F (Physical ι)
  fast : Option (Fast F)

/-- Methods of the runtime as rebound; an exception leaves the changes made before it. -/
abbrev LiveM (H D : ℕ) (F ι : Type) := EStateM String (Live H D F ι)

/-- A method that knows nothing of the fast path. -/
def onHeld {H D : ℕ} {F ι α : Type} (m : SideM H D F (Physical ι) α) : LiveM H D F ι α := fun s =>
  match m.run s.held with
  | .ok a held => .ok a { s with held := held }
  | .error e held => .error e { s with held := held }

section Append

variable {F ι : Type} [DecidableEq ι] (fp : Fp F Bf16) (junk : FastBuffers F) (cuda : Bool)
  {H D : ℕ}

/-- The public fields as views of the buffers. -/
def viewSidecar (H D : ℕ) (bufs : FastBuffers F) (openLen : ℕ) : Sidecar H D F :=
  { openK := if openLen = 0 then none else some (rowsTo H D bufs.openK openLen)
    openVPacked :=
      if openLen = 0 then none else some (rowsTo H (vPackedDim D) bufs.openVPacked openLen)
    openVMin := if openLen = 0 then none else some (rowsTo H (vGroups D) bufs.openVMin openLen)
    openVScale := if openLen = 0 then none else some (rowsTo H (vGroups D) bufs.openVScale openLen)
    recentK := some (rowsTo H D bufs.recentK residualTokens)
    recentV := some (rowsTo H D bufs.recentV residualTokens) }

/-- Fresh buffers filled from the public fields. -/
def fillBuffers (side : Sidecar H D F) (recentK recentV : List (Tok H D Bf16)) : FastBuffers F where
  recentK := copyRows junk.recentK recentK
  recentV := copyRows junk.recentV recentV
  openK := copyRows junk.openK (side.openK.getD [])
  openVPacked := copyRows junk.openVPacked (side.openVPacked.getD [])
  openVMin := copyRows junk.openVMin (side.openVMin.getD [])
  openVScale := copyRows junk.openVScale (side.openVScale.getD [])

/-- `_rabit2_final_prepare_fast_buffers`: the state it leaves when it returns `True`. The tensors a
runtime keeps are contiguous CUDA tensors when the inputs (`cuda`) are. -/
def prepareFastBuffers (s : Live H D F ι) : Option (Fast F × Live H D F ι) :=
  match s.fast with
  | some fast => some (fast, s)
  | none =>
    let side := s.held.side
    let openLen := lenOpt side.openK
    match side.recentK, side.recentV with
    | some recentK, some recentV =>
      if ¬ (cuda = true ∧ recentK.length = residualTokens ∧ H = 8 ∧ D = 128) then none
      else if openLen ≠ 0 ∧
          (side.openVPacked = none ∨ side.openVMin = none ∨ side.openVScale = none) then none
      else
        let bufs := fillBuffers junk side recentK recentV
        some (⟨openLen, bufs⟩,
          { held := { s.held with side := viewSidecar H D bufs openLen }
            fast := some ⟨openLen, bufs⟩ })
    | _, _ => none

/-- The two kernels of the fast path for one token. -/
def fastKernels (k v : Tok H D Bf16) (fast : Fast F) : FastBuffers F :=
  shiftRecentKernel (fun i => (flatTokens [k]).getD i 0) (fun i => (flatTokens [v]).getD i 0)
    fast.openLen (8 * 128) 256 (v2AgeKernel fp fast.openLen 8 128 32 4 (packedDim 128 2) fast.bufs)

/-- The part of the fast append past its checks. -/
def fastToken (row : List ι) (k v : Tok H D Bf16) (fast : Fast F) : LiveM H D F ι Unit := do
  if ¬ fast.openLen < 32 then throw "RABIT-2 fast append open slot is out of range"
  let bufs := fastKernels fp k v fast
  let newOpen := fast.openLen + 1
  modify fun s =>
    { held := { s.held with side := viewSidecar H D bufs newOpen }
      fast := some { fast with bufs := bufs } }
  if newOpen = 32 then
    onHeld (flushOpenPage fp row)
    modify fun s => { s with fast := some { openLen := 0, bufs := bufs } }
  else
    modify fun s => { s with fast := some { openLen := newOpen, bufs := bufs } }

/-- `_rabit2_final_drop_fast_buffers`, then the append it stands in for. -/
def slowAppend (row : List ι) (key value : List (Tok H D Bf16)) : LiveM H D F ι Unit := do
  modify fun s => { s with fast := none }
  onHeld (append fp cuda row key value)

/-- `_rabit2_final_fast_decode_append`, the rebound `append`; `cuda` says that the inputs are
contiguous CUDA tensors. -/
def fastDecodeAppend (row : List ι) (key value : List (Tok H D Bf16)) : LiveM H D F ι Unit := do
  match key, value with
  | [k], [v] =>
    let s ← get
    if cuda = true ∧ H = 8 ∧ D = 128 ∧ residualTokens ≤ lenOpt s.held.side.recentK then
      match prepareFastBuffers junk cuda s with
      | none => onHeld (append fp cuda row key value)
      | some (fast, s) =>
        set s
        fastToken fp row k v fast
    else slowAppend fp cuda row key value
  | _, _ => slowAppend fp cuda row key value

end Append

/-- One call of `append`: its tokens, whether they are contiguous CUDA tensors, and what
`torch.empty` would hand out. -/
structure AppendCall (H D : ℕ) (F : Type) where
  chunk : List (KV H D)
  cuda : Bool
  junk : FastBuffers F

section Calls

variable {F ι : Type} [DecidableEq ι] (fp : Fp F Bf16) {H D : ℕ} (row : List ι)

/-- Calls of the rebound `append`, one after another. -/
def fastCalls : List (AppendCall H D F) → LiveM H D F ι Unit
  | [] => pure ()
  | call :: calls => do
    fastDecodeAppend fp call.junk call.cuda row (call.chunk.map Prod.fst) (call.chunk.map Prod.snd)
    fastCalls calls

/-- The same calls of the plain `append`. -/
def plainCalls : List (AppendCall H D F) → SideM H D F (Physical ι) Unit
  | [] => pure ()
  | call :: calls => do
    append fp call.cuda row (call.chunk.map Prod.fst) (call.chunk.map Prod.snd)
    plainCalls calls

end Calls

end RabitKV
