import RabitKV.Bulk

/-!
# The causal chunk plan

`Rabit2CausalChunkPlan` with the Stage 4B4 constructor: all pages of a chunk are encoded and written
when the plan is built, and `apply_step` then exposes the sidecar after each token by slicing.
-/

namespace RabitKV

/-- The words of `_rabit2_stage4b4_encode_page_from_primary` for a blob that does not fill its
section. -/
def planMismatch (name : String) (_ _ : ℕ) : String := s!"RABIT-2 Stage4B4 {name} size mismatch"

/-- The fields of a plan; `lastStep` starts at `-1`. -/
structure ChunkPlan (H D : ℕ) (F : Type) where
  numTokens : ℕ
  initClosed : ℕ
  initOpenLen : ℕ
  initRecentLen : ℕ
  combinedK : List (Tok H D Bf16)
  combinedV : List (Tok H D Bf16)
  all : AllEntries H D F
  lastStep : ℤ

section Plan

variable {F ι : Type} [DecidableEq ι] (fp : Fp F Bf16) {H D : ℕ}

/-- The cache after the plan's full pages are written. -/
def planPages (row : List ι) (all : AllEntries H D F) (p : Physical ι) : Except String (Cache ι) :=
  let fullPages := all.k.length / groupSize
  if fullPages = 0 then .ok p.cache
  else writeFullPages (encodePageFromPrimary fp planMismatch (pageLayout groupSize H D D))
    "RABIT-2 block table is too short for Stage4B4 chunk plan"
    row all fullPages p.closedPages p.cache

/-- `Rabit2CausalChunkPlan.__init__` -/
def chunkPlan (row : List ι) (key value : List (Tok H D Bf16)) :
    SideM H D F (Physical ι) (ChunkPlan H D F) := do
  if key.length ≠ value.length then throw "key/value must share [tokens, kv_heads, head_dim]"
  if key.length = 0 then throw "RABIT-2 causal chunk plan requires at least one token"
  let s ← get
  let combinedK := catOpt s.side.recentK key
  let combinedV := catOpt s.side.recentV value
  let agedTotal := combinedK.length - residualTokens
  let all := allEntries fp s.side (combinedK.take agedTotal) (combinedV.take agedTotal)
  match planPages fp row all s.rest with
  | .error e => throw e
  | .ok cache =>
    set (σ := Held H D F (Physical ι)) { s with rest := { s.rest with cache := cache } }
    return { numTokens := key.length
             initClosed := s.rest.closedPages
             initOpenLen := lenOpt s.side.openK
             initRecentLen := lenOpt s.side.recentK
             combinedK := combinedK
             combinedV := combinedV
             all := all
             lastStep := -1 }

/-- `l[start:stop]`, `None` when it is empty. -/
def sliceOpt {α : Type} (start stop : ℕ) (l : List α) : Option (List α) :=
  if stop > start then some ((l.take stop).drop start) else none

/-- `Rabit2CausalChunkPlan.apply_step` -/
def applyStep (plan : ChunkPlan H D F) (step : ℕ) :
    SideM H D F (Physical ι) (ChunkPlan H D F) := do
  if (step : ℤ) ≠ plan.lastStep + 1 then
    throw "RABIT-2 causal chunk plan must be applied sequentially"
  if step ≥ plan.numTokens then throw "RABIT-2 causal chunk step out of range"
  let processed := step + 1
  let agedNow := plan.initRecentLen + processed - residualTokens
  let openTotalNow := plan.initOpenLen + agedNow
  let closedNew := openTotalNow / groupSize
  let openStart := closedNew * groupSize
  let recentEnd := plan.initRecentLen + processed
  modify fun s =>
    { side :=
        { openK := sliceOpt openStart openTotalNow plan.all.k
          openVPacked := sliceOpt openStart openTotalNow plan.all.vPacked
          openVMin := sliceOpt openStart openTotalNow plan.all.vMin
          openVScale := sliceOpt openStart openTotalNow plan.all.vScale
          recentK := sliceOpt agedNow recentEnd plan.combinedK
          recentV := sliceOpt agedNow recentEnd plan.combinedV }
      rest := { s.rest with closedPages := plan.initClosed + closedNew } }
  return { plan with lastStep := step }

/-- `apply_step(first), …, apply_step(first + count - 1)` -/
def applySteps : ℕ → ℕ → ChunkPlan H D F → SideM H D F (Physical ι) (ChunkPlan H D F)
  | _, 0, plan => return plan
  | first, count + 1, plan => do
    let plan ← applyStep plan first
    applySteps (first + 1) count plan

end Plan

end RabitKV
