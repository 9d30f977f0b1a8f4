import RabitKV.Serve

/-!
# The request registry and a forward step

The Stage 3C bridge between the scheduler and the attention layers: the active batch, the runtime
tables of all registered layers, `rabit2_set_active_batch`, `rabit2_finish_requests` and the loop of
`_forward_rabit_kv2` over a batch. A scheduler step publishes a batch and runs every layer once.
-/

namespace RabitKV

/-- `_RABIT2_ACTIVE_BATCH` and the registered attention layers. -/
structure Engine (L H D : ℕ) (F ι : Type) where
  activeBatch : List (String × ℤ × ℤ)
  layers : Fin L → Layer H D F ι

/-- Steps of the engine; an exception leaves the changes made before it. -/
abbrev EngineM (L H D : ℕ) (F ι : Type) := EStateM String (Engine L H D F ι)

/-- What one forward pass reads of `attn_metadata`. -/
structure BatchMeta (ι : Type) where
  queryStartLoc : List ℤ
  seqLens : List ℤ
  blockTable : List (List ι)

/-- The ids of synthetic warmup forwards. -/
def profileTag : String := "__rabit_profile_"

section Tables

variable {H D : ℕ} {F ι : Type}

/-- `table.pop(req_id, None)` for every id that satisfies `p`. -/
def Layer.dropWhere (layer : Layer H D F ι) (p : String → Bool) : Layer H D F ι :=
  { layer with runtimes := fun id => if p id then none else layer.runtimes id }

/-- How many of the ids the table holds, each counted once. -/
def Layer.countHeld (layer : Layer H D F ι) (ids : List String) : ℕ :=
  (ids.dedup.filter fun id => (layer.runtimes id).isSome).length

end Tables

section Registry

variable {L H D : ℕ} {F ι : Type}

/-- `rabit2_set_active_batch` -/
def setActiveBatch (reqIds : List String) (queryLens contextLens : List ℤ) :
    EngineM L H D F ι Unit := do
  if ¬ (reqIds.length = queryLens.length ∧ queryLens.length = contextLens.length) then
    throw "RABIT-2 active batch fields must have equal length"
  if queryLens.any fun q => q ≤ 0 then throw "RABIT-2 active query lengths must be positive"
  if contextLens.any fun c => c < 0 then
    throw "RABIT-2 active context lengths must be non-negative"
  modify fun e =>
    { activeBatch := reqIds.zip (queryLens.zip contextLens)
      layers := fun l => if reqIds = [] then e.layers l
        else (e.layers l).dropWhere fun id => profileTag.isPrefixOf id }

/-- `rabit2_finish_requests` -/
def finishRequests (reqIds : List String) : EngineM L H D F ι ℕ := do
  let e ← get
  set { e with layers := fun l => (e.layers l).dropWhere fun id => reqIds.contains id }
  return ((List.finRange L).map fun l => (e.layers l).countHeld reqIds).sum

/-- The batch a forward pass of `n` tokens works on: the published one, or synthetic ids. -/
def forwardBatch (activeBatch : List (String × ℤ × ℤ)) (batch : BatchMeta ι) (n : ℕ) :
    Except String (List (String × ℤ × ℤ)) :=
  if activeBatch ≠ [] then
    if batch.queryStartLoc.length ≠ activeBatch.length + 1 then
      .error "RABIT-2 active request mapping does not match attention batch"
    else if (activeBatch.map fun item => item.2.1).sum ≠ n then
      .error "RABIT-2 published query lengths do not match num_actual_tokens"
    else .ok activeBatch
  else if batch.seqLens.length < batch.queryStartLoc.length - 1 then
    .error "IndexError: list index out of range"
  else .ok ((List.range (batch.queryStartLoc.length - 1)).map fun i =>
    let q := batch.queryStartLoc.getD (i + 1) 0 - batch.queryStartLoc.getD i 0
    (profileTag ++ toString i, q, batch.seqLens.getD i 0 - q))

end Registry

section Forward

variable {L H D : ℕ} {F ι : Type} [DecidableEq ι] (fp : Fp F Bf16) (cuda : Bool)

/-- The loop of `_forward_rabit_kv2` from request `seqIdx` and token `q0` on; `junk` is what
`torch.empty` hands out to each request. The query lengths of a batch add up to its tokens, so the
chunk of a request has `qLen` of them, and none when `q_len <= 0`. -/
def forwardItems (junk : String → FastBuffers F) (blockTable : List (List ι))
    (tokens : List (KV H D)) : ℤ → ℕ → List (String × ℤ × ℤ) → LayerM H D F ι Unit
  | _, _, [] => pure ()
  | q0, seqIdx, (reqId, qLen, contextLen) :: rest => do
    let chunk := (tokens.drop q0.toNat).take qLen.toNat
    if chunk.length = 0 then forwardItems junk blockTable tokens (q0 + qLen) (seqIdx + 1) rest
    else
      match blockTable[seqIdx]? with
      | none => throw (if contextLen < 0 then
          s!"RABIT-2 invalid context length for {reqId}: {contextLen}"
          else "IndexError: index is out of bounds")
      | some row =>
        forwardRequest fp (junk reqId) cuda reqId row contextLen chunk
        forwardItems junk blockTable tokens (q0 + qLen) (seqIdx + 1) rest

/-- `_forward_rabit_kv2` of one layer, on its `num_actual_tokens` keys and values. -/
def forwardLayer (junk : String → FastBuffers F) (activeBatch : List (String × ℤ × ℤ))
    (batch : BatchMeta ι) (tokens : List (KV H D)) : LayerM H D F ι Unit := do
  if tokens.length = 0 then return
  match forwardBatch activeBatch batch tokens.length with
  | .error e => throw e
  | .ok items => forwardItems fp cuda junk batch.blockTable tokens 0 0 items

/-- A method of layer `l`. -/
def onLayer (l : Fin L) (m : LayerM H D F ι Unit) : EngineM L H D F ι Unit := fun e =>
  match m.run (e.layers l) with
  | .ok a layer => .ok a { e with layers := Function.update e.layers l layer }
  | .error err layer => .error err { e with layers := Function.update e.layers l layer }

/-- The given layers one after another. -/
def forwardLayers (junk : Fin L → String → FastBuffers F) (batch : BatchMeta ι)
    (tokens : Fin L → List (KV H D)) : List (Fin L) → EngineM L H D F ι Unit
  | [] => pure ()
  | l :: ls => do
    let e ← get
    onLayer l (forwardLayer fp cuda (junk l) e.activeBatch batch (tokens l))
    forwardLayers junk batch tokens ls

/-- What the scheduler and the runner do to the engine. A preemption reaches the engine at most as a
finish, so by itself it changes nothing. -/
inductive EngineOp (L H D : ℕ) (F ι : Type)
  | finish (reqIds : List String)
  | preempt (reqIds : List String)
  | setActive (reqIds : List String) (queryLens contextLens : List ℤ)
  | forward (junk : Fin L → String → FastBuffers F) (batch : BatchMeta ι)
      (tokens : Fin L → List (KV H D))

/-- One operation. -/
def EngineOp.exec : EngineOp L H D F ι → EngineM L H D F ι Unit
  | .finish reqIds => do
    let _ ← finishRequests reqIds
  | .preempt _ => pure ()
  | .setActive reqIds queryLens contextLens => setActiveBatch reqIds queryLens contextLens
  | .forward junk batch tokens => forwardLayers fp cuda junk batch tokens (List.finRange L)

end Forward

end RabitKV
