import RabitKV.FastAppend

/-!
# Serving one request

The part of `TritonAttentionImpl._forward_rabit_kv2` that updates a request's runtime: a fresh
runtime at context 0, the length check of a continued one, and the choice between bulk append, fast
append and the chunk plan. Attention reads the runtime and the cache and changes neither, so the
outputs are left to the attention modules; the opt-in prefill paths end in the same state.
-/

namespace RabitKV

/-- What a `Rabit2SingleSequenceRuntime` holds between steps. -/
structure Runtime (H D : ℕ) (F : Type) where
  side : Sidecar H D F := {}
  closedPages : ℕ := 0
  fast : Option (Fast F) := none

/-- The runtime at work on a cache. -/
def Runtime.attach {H D : ℕ} {F ι : Type} (rt : Runtime H D F) (cache : Cache ι) : Live H D F ι :=
  ⟨⟨rt.side, rt.closedPages, cache⟩, rt.fast⟩

def Live.runtime {H D : ℕ} {F ι : Type} (s : Live H D F ι) : Runtime H D F :=
  ⟨s.held.side, s.held.rest.closedPages, s.fast⟩

/-- One attention layer: `_rabit2_runtimes` and the layer's KV cache. -/
structure Layer (H D : ℕ) (F ι : Type) where
  runtimes : String → Option (Runtime H D F)
  cache : Cache ι

/-- `self._rabit2_runtimes[req_id] = runtime` -/
def Layer.put {H D : ℕ} {F ι : Type} (layer : Layer H D F ι) (reqId : String)
    (rt : Runtime H D F) : Layer H D F ι :=
  { layer with runtimes := Function.update layer.runtimes reqId (some rt) }

/-- Methods of a layer; an exception leaves the changes made before it. -/
abbrev LayerM (H D : ℕ) (F ι : Type) := EStateM String (Layer H D F ι)

/-- A method of the runtime `rt` that `req_id` is bound to. -/
def onRuntime {H D : ℕ} {F ι α : Type} (reqId : String) (rt : Runtime H D F) (m : LiveM H D F ι α) :
    LayerM H D F ι α := fun layer =>
  match m.run (rt.attach layer.cache) with
  | .ok a s => .ok a { layer.put reqId s.runtime with cache := s.held.rest.cache }
  | .error e s => .error e { layer.put reqId s.runtime with cache := s.held.rest.cache }

section Serve

variable {F ι : Type} [DecidableEq ι] (fp : Fp F Bf16) (junk : FastBuffers F) (cuda : Bool)
  {H D : ℕ}

/-- The update of a runtime by the `q_len` new tokens of its request. -/
def advance (row : List ι) (contextLen : ℤ) (chunk : List (KV H D)) : LiveM H D F ι Unit := do
  let key := chunk.map Prod.fst
  let value := chunk.map Prod.snd
  if contextLen = 0 ∧ 1 < chunk.length then onHeld (bulkAppend fp row key value)
  else if 1 < chunk.length then
    let plan ← onHeld (chunkPlan fp row key value)
    let _ ← onHeld (applySteps 0 chunk.length plan)
  else fastDecodeAppend fp junk cuda row key value

/-- The runtime a request continues with, or a fresh one at context 0. -/
def bindRuntime (reqId : String) (contextLen : ℤ) (layer : Layer H D F ι) :
    Except String (Runtime H D F) :=
  if contextLen < 0 then .error s!"RABIT-2 invalid context length for {reqId}: {contextLen}"
  else if contextLen = 0 then (runtimeInit H D D).map fun _ => {}
  else
    match layer.runtimes reqId with
    | none => .error ("RABIT-2 received precomputed context without a local sidecar. "
        ++ "Prefix-cache hits / external KV restore are not supported yet.")
    | some rt =>
      let total := totalTokens rt.closedPages rt.side
      if (total : ℤ) ≠ contextLen then
        .error (s!"RABIT-2 sidecar length mismatch for {reqId}: "
          ++ s!"runtime={total}, scheduler_context={contextLen}")
      else .ok rt

/-- The body of the loop over the active batch. -/
def forwardRequest (reqId : String) (row : List ι) (contextLen : ℤ) (chunk : List (KV H D)) :
    LayerM H D F ι Unit := do
  if chunk.length = 0 then return
  let layer ← get
  match bindRuntime reqId contextLen layer with
  | .error e => throw e
  | .ok rt => onRuntime reqId rt (advance fp junk cuda row contextLen chunk)

/-- The scheduler steps of one request, each with the tokens it adds. -/
def serve (reqId : String) (row : List ι) : ℕ → List (List (KV H D)) → LayerM H D F ι Unit
  | _, [] => pure ()
  | context, chunk :: steps => do
    forwardRequest fp junk cuda reqId row context chunk
    serve reqId row (context + chunk.length) steps

end Serve

end RabitKV
