import RabitKV.Attention
import RabitKV.ChunkPlan

/-!
# Chunked prefill, token by token and in tiles

The reference loop of `_forward_rabit_kv2` handles a chunk query by query: a step of the chunk plan,
then `rabit2_online_decode_attention_triton`. `rabit2_stage3c_forward_tile32` and
`rabit2_stage3c_forward_shared_decode` cut the chunk into tiles of queries that see the same closed
pages, scan the pages once per tile, and keep steps and tail partials query by query. The partial
buffers of a tile hold one block per query.

Queries of a chunk lie in one contiguous tensor `[q_len, q_heads, d]`.
-/

namespace RabitKV

open Stores

section Schedule

variable {H D : ℕ} {F : Type}

/-- `rabit2_chunk_closed_pages_after` -/
def chunkClosedPagesAfter (plan : ChunkPlan H D F) (step : ℕ) : ℕ :=
  let processed := step + 1
  let agedNow := plan.initRecentLen + processed - residualTokens
  let openTotalNow := plan.initOpenLen + agedNow
  plan.initClosed + openTotalNow / groupSize

/-- `TILE_MAX_QUERIES` -/
def tileMaxQueries : ℕ := 32

/-- A tile: its first query, the query after its last, and the closed pages all of them see. -/
structure Tile where
  start : ℕ
  stop : ℕ
  closed : ℕ
deriving DecidableEq, Repr

/-- The body of the loop of `rabit2_tile32_tiles`: the tiles so far and `start`. -/
def tileStep (closedAfter : List ℕ) (st : List Tile × ℕ) (i : ℕ) : List Tile × ℕ :=
  if i = closedAfter.length ∨ closedAfter.getD i 0 ≠ closedAfter.getD st.2 0
      ∨ i - st.2 = tileMaxQueries then
    (st.1 ++ [⟨st.2, i, closedAfter.getD st.2 0⟩], i)
  else st

/-- `rabit2_tile32_tiles` -/
def tile32Tiles (closedAfter : List ℕ) : List Tile :=
  ((List.range' 1 closedAfter.length).foldl (tileStep closedAfter) ([], 0)).1

end Schedule

section Kernels

variable {F Q : Type} (fp : AttnFp F) (dt : QDtype F Q)

/-- The pointers of query `tileQ`. -/
def PartialPtrs.tile (ptrs : PartialPtrs) (headSize partialTileStride tileQ : ℕ) : PartialPtrs where
  m := ptrs.m + tileQ * partialTileStride
  l := ptrs.l + tileQ * partialTileStride
  acc := ptrs.acc + tileQ * partialTileStride * headSize

/-- What the batched closed-page kernels are launched with. -/
structure TileLaunch (F Q : Type) where
  consts : PageConsts
  cache : ℕ → UInt8
  blockTable : ℕ → ℕ
  softmaxScale : F
  q : QueryPtr Q
  qTileStride : ℕ
  partialTileStride : ℕ

/-- One program of the batched kernels for one of its queries. -/
def tileBody (a : TileLaunch F Q) (logicalPage qgroup tileQ : ℕ) (valid : Bool) :
    List (Slot × F) :=
  gqa4Body fp dt a.consts a.cache a.blockTable a.softmaxScale (a.q.advance (tileQ * a.qTileStride))
    (PartialPtrs.tile ⟨0, 0, 0⟩ a.consts.headSize a.partialTileStride tileQ)
    logicalPage qgroup valid

/-- `_rabit2_tile32_closed_page_partial_kernel` on the grid `(closed, qgroups, n)` -/
def tile32ClosedPagePartialKernel (a : TileLaunch F Q) (closed qgroups n : ℕ) : List (Slot × F) :=
  (List.range closed).flatMap fun logicalPage => (List.range qgroups).flatMap fun qgroup =>
    (List.range n).flatMap fun tileQ => tileBody fp dt a logicalPage qgroup tileQ true

/-- `_rabit2_shared_decode_closed_page_partial_kernel` on the grid
`(closed, qgroups, cdiv(n, query_block))` -/
def sharedDecodeClosedPagePartialKernel (queryBlock : ℕ) (a : TileLaunch F Q)
    (closed qgroups n : ℕ) : List (Slot × F) :=
  (List.range closed).flatMap fun logicalPage => (List.range qgroups).flatMap fun qgroup =>
    (List.range (cdiv n queryBlock)).flatMap fun qblock =>
      (List.range queryBlock).flatMap fun j =>
        let tileQ := qblock * queryBlock + j
        tileBody fp dt a logicalPage qgroup tileQ (decide (tileQ < n))

/-- `_rabit2_tile32_reduce_partials_kernel` on the grid `(q_heads, n)` -/
def tile32ReducePartialsKernel (a : ReduceArgs) (mem : Slot → F)
    (partialTileStride outTileStride qHeads n : ℕ) : List (ℕ × Q) :=
  (List.range qHeads).flatMap fun qh => (List.range n).flatMap fun tileQ =>
    reduceProgram fp dt { a with ptrs := a.ptrs.tile a.headSize partialTileStride tileQ } qh mem
      (tileQ * outTileStride)

end Kernels

/-- `rabit2_tile32_supported` -/
def tile32Supported (qHeads kvHeads : ℕ) : Bool :=
  decide (qHeads % kvHeads = 0 ∧ qHeads / kvHeads % 4 = 0)

/-- `QUERY_BLOCKS` -/
def queryBlocks : List ℕ := [4, 8, 16, 32]

/-- What a chunk is processed with. -/
structure Chunk (H D : ℕ) (F Q : Type) where
  layout : Rabit2PageLayout
  q : QueryPtr Q
  qHeads : ℕ
  row : List ℕ
  softmaxScale : F
  /-- What the tensors allocated for query or tile `i` happen to hold. -/
  junk : ℕ → Uninit F Q

namespace Chunk

variable {H D : ℕ} {F Q : Type} (c : Chunk H D F Q)

/-- Entries of one row of queries or outputs. -/
def rowSize : ℕ := c.qHeads * D

/-- `q_seq[i]` -/
def query (i : ℕ) : QueryPtr Q := c.q.advance (i * c.rowSize)

/-- `rows[start : start + n].copy_(src)` -/
def copyRows (out : ℕ → Q) (start n : ℕ) (src : ℕ → Q) : ℕ → Q :=
  storeBlock out (start * c.rowSize) (n * c.rowSize) (fun _ => true) src

end Chunk

section Reference

variable {F Q : Type} (fp : AttnFp F) (dt : QDtype F Q) {H D : ℕ} (c : Chunk H D F Q)

/-- One query of the reference loop: the closed pages it sees and its attention call. -/
structure QueryRun (F Q : Type) where
  closed : ℕ
  run : DecodeRun F Q

/-- What the loop over a chunk leaves: its queries or tiles, the output, the tail workspace. -/
structure Forwarded (ρ F Q : Type) where
  runs : List ρ
  out : ℕ → Q
  workspace : Option (Workspace F)

/-- `for local_idx in range(q_len)`, from query `first` on. -/
def referenceLoop : ℕ → ℕ → ChunkPlan H D F → (ℕ → Q) → Option (Workspace F) →
    SideM H D F (Physical ℕ) (Forwarded (QueryRun F Q) F Q)
  | _, 0, _, out, ws => return ⟨[], out, ws⟩
  | first, count + 1, plan, out, ws => do
    let plan ← applyStep plan first
    let s ← get
    match onlineDecodeAttention fp dt (c.junk first) c.layout (c.query first) c.qHeads s.rest.cache
        c.row s.side s.rest.closedPages c.softmaxScale ws with
    | .error e => throw e
    | .ok run =>
      let rest ← referenceLoop (first + 1) count plan (c.copyRows out first 1 run.out) run.workspace
      return { rest with runs := ⟨s.rest.closedPages, run⟩ :: rest.runs }

/-- A non-initial chunk of several tokens in the reference path of `_forward_rabit_kv2`. -/
def forwardReference (key value : List (Tok H D Bf16)) (out : ℕ → Q) (ws : Option (Workspace F)) :
    SideM H D F (Physical ℕ) (Forwarded (QueryRun F Q) F Q) := do
  let plan ← chunkPlan fp.toFp c.row key value
  referenceLoop fp dt c 0 key.length plan out ws

end Reference

section Tiled

variable {F Q : Type} (fp : AttnFp F) (dt : QDtype F Q) {H D : ℕ} (c : Chunk H D F Q)

/-- A batched closed-page kernel on the grid of `closed` pages, `qgroups` and `n` queries. -/
abbrev TileKernel (F Q : Type) := TileLaunch F Q → ℕ → ℕ → ℕ → List (Slot × F)

/-- One tile: its stores to the partial buffers, and the buffers it reduces. -/
structure TileRun (F : Type) where
  tile : Tile
  stores : List (Slot × F)
  partials : Slot → F

/-- `for j in range(n)`: a step of the plan, the check of the schedule, and the tail partial. -/
def tileTails (diverged : String) (tile : Tile) : ℕ → ℕ → ChunkPlan H D F → Option (Workspace F) →
    SideM H D F (Physical ℕ) (List (Slot × F) × ChunkPlan H D F × Option (Workspace F))
  | _, 0, plan, ws => return ([], plan, ws)
  | j, count + 1, plan, ws => do
    let plan ← applyStep plan (tile.start + j)
    let s ← get
    if s.rest.closedPages ≠ tile.closed then throw diverged
    let ptrs := PartialPtrs.tile ⟨0, 0, 0⟩ D ((tile.closed + 1) * c.qHeads) j
    match emitTailPartial fp dt (c.junk (tile.start + j)).workspace (c.query (tile.start + j))
        c.qHeads s.side ptrs tile.closed c.softmaxScale ws with
    | .error e => throw e
    | .ok (stores, ws) =>
      let (rest, plan, ws) ← tileTails diverged tile (j + 1) count plan ws
      return (stores ++ rest, plan, ws)

/-- The launch parameters of the batched closed-page kernels. -/
def tileLaunch (cache : Cache ℕ) (tile : Tile) : TileLaunch F Q where
  consts := gqa4PageConsts c.layout c.qHeads H D D
  cache := cache.flat
  blockTable := fun logicalPage => c.row.getD logicalPage 0
  softmaxScale := c.softmaxScale
  q := c.query tile.start
  qTileStride := c.rowSize
  partialTileStride := (tile.closed + 1) * c.qHeads

/-- `for i0, i1, closed in rabit2_tile32_tiles(closed_after)` -/
def tileLoop (kernel : TileKernel F Q) (diverged : String) : List Tile → ChunkPlan H D F →
    (ℕ → Q) → Option (Workspace F) → SideM H D F (Physical ℕ) (Forwarded (TileRun F) F Q)
  | [], _, out, ws => return ⟨[], out, ws⟩
  | tile :: tiles, plan, out, ws => do
    let n := tile.stop - tile.start
    let segments := tile.closed + 1
    let s ← get
    let pageStores := if tile.closed ≠ 0 then
      kernel (tileLaunch c s.rest.cache tile) tile.closed (H * (c.qHeads / H / 4)) n else []
    let (tailStores, plan, ws) ← tileTails fp dt c diverged tile 0 n plan ws
    let stores := pageStores ++ tailStores
    let partials := storeAll (c.junk tile.start).partials stores
    let outTile := storeAll (c.junk tile.start).out (tile32ReducePartialsKernel fp dt
      (reduceArgs segments c.qHeads D) partials (segments * c.qHeads) c.rowSize c.qHeads n)
    let rest ← tileLoop kernel diverged tiles plan (c.copyRows out tile.start n outTile) ws
    return { rest with runs := ⟨tile, stores, partials⟩ :: rest.runs }

/-- Both tiled paths past their checks. -/
def forwardTiles (kernel : TileKernel F Q) (diverged : String) (key value : List (Tok H D Bf16))
    (out : ℕ → Q) (ws : Option (Workspace F)) :
    SideM H D F (Physical ℕ) (Forwarded (TileRun F) F Q) := do
  let plan ← chunkPlan fp.toFp c.row key value
  let closedAfter := (List.range key.length).map (chunkClosedPagesAfter plan)
  tileLoop fp dt c kernel diverged (tile32Tiles closedAfter) plan out ws

/-- `rabit2_stage3c_forward_tile32`; `none` stands for `False`. -/
def forwardTile32 (cuda : Bool) (key value : List (Tok H D Bf16)) (out : ℕ → Q)
    (ws : Option (Workspace F)) :
    SideM H D F (Physical ℕ) (Option (Forwarded (TileRun F) F Q)) := do
  if key.length ≤ 1 ∨ cuda = false ∨ tile32Supported c.qHeads H = false then return none
  some <$> forwardTiles fp dt c (tile32ClosedPagePartialKernel fp dt)
    "RABIT-2 tile32 closed-page schedule diverged from the causal chunk plan" key value out ws

/-- `rabit2_stage3c_forward_shared_decode`; `none` stands for `False`. -/
def forwardSharedDecode (cuda : Bool) (queryBlock : ℕ) (key value : List (Tok H D Bf16))
    (out : ℕ → Q) (ws : Option (Workspace F)) :
    SideM H D F (Physical ℕ) (Option (Forwarded (TileRun F) F Q)) := do
  if key.length ≤ 1 ∨ cuda = false ∨ tile32Supported c.qHeads H = false then return none
  if queryBlock ∉ queryBlocks then
    throw s!"shared_decode query block {queryBlock} is not one of (4, 8, 16, 32)"
  some <$> forwardTiles fp dt c (sharedDecodeClosedPagePartialKernel fp dt queryBlock)
    "RABIT-2 shared_decode closed-page schedule diverged from the causal chunk plan"
    key value out ws

end Tiled

end RabitKV
