import RabitKV.Sidecar
import RabitKV.Lib.Stores

/-!
# The physical runtime

`Rabit2SingleSequenceRuntime`: the sidecar of one request, and closed pages written straight into
the paged KV cache at the blocks its block table names.
-/

namespace RabitKV

open Stores

/-- The opaque KV cache viewed as `[blocks, width]`; `ι` are the physical block ids. -/
structure Cache (ι : Type) where
  width : ℕ
  rows : ι → List UInt8

/-- `cache2d.index_copy_(0, ids, pages)` -/
def Cache.indexCopy {ι : Type} [DecidableEq ι] (cache : Cache ι) (ids : List ι)
    (pages : List (List UInt8)) : Except String (Cache ι) :=
  if pages.all fun page => page.length = cache.width then
    .ok { cache with rows := storeAll cache.rows (ids.zip pages) }
  else .error "index_copy_(): Source/destination tensor must have same slice shapes"

/-- `Rabit2SingleSequenceRuntime.__init__`: the layout it computes and validates. -/
def runtimeInit (numKvHeads headSizeK headSizeV : ℕ) : Except String Rabit2PageLayout := do
  let layout ← rabit2PageLayout groupSize numKvHeads headSizeK headSizeV
  let _ ← validateLayout layout
  return layout

/-- What a runtime changes besides its sidecar. -/
structure Physical (ι : Type) where
  closedPages : ℕ
  cache : Cache ι

/-- The words of `_closed_page_exact` for a blob that does not fill its section. -/
def runtimeMismatch (name : String) (_ _ : ℕ) : String :=
  s!"{name} does not match RABIT-2 physical layout"

section Runtime

variable {F ι : Type} [DecidableEq ι] (fp : Fp F Bf16) (cuda : Bool) {H D : ℕ}

/-- `_closed_page_exact` -/
def closedPageExact (side : Sidecar H D F) : Except String (List UInt8) :=
  match side.openK, side.openVPacked, side.openVMin, side.openVScale with
  | some openK, some openVPacked, some openVMin, some openVScale =>
    if openK.length = groupSize then
      encodePageFromPrimary fp runtimeMismatch (pageLayout groupSize H D D) openK openVPacked
        openVMin openVScale
    else .error "AssertionError"
  | _, _, _, _ => .error "AssertionError"

/-- `_flush_open_page` -/
def flushOpenPage (row : List ι) : SideM H D F (Physical ι) Unit := do
  let s ← get
  match closedPageExact fp s.side with
  | .error e => throw e
  | .ok page =>
    match row[s.rest.closedPages]? with
    | none => throw "RABIT-2 block table is too short for a closed page"
    | some physicalId =>
      if s.rest.cache.width ≠ (pageLayout groupSize H D D).pageBytes then
        throw "opaque RABIT-2 KV page size does not match runtime layout"
      match s.rest.cache.indexCopy [physicalId] [page] with
      | .error e => throw e
      | .ok cache =>
        set (σ := Held H D F (Physical ι))
          { side := { s.side with openK := none, openVPacked := none, openVMin := none
                                  openVScale := none }
            rest := { closedPages := s.rest.closedPages + 1, cache := cache } }

/-- `Rabit2SingleSequenceRuntime.append`, later kept as `_rabit2_final_old_append`. -/
def append (row : List ι) (key value : List (Tok H D Bf16)) : SideM H D F (Physical ι) Unit := do
  if key.length ≠ value.length then throw "key/value must share [tokens, kv_heads, head_dim]"
  appendTokens fp cuda (flushOpenPage fp row) (key.zip value)

/-- Several `append` calls, each with the tokens of one chunk. -/
def appends (row : List ι) : List (List (KV H D)) → SideM H D F (Physical ι) Unit
  | [] => pure ()
  | chunk :: chunks => do
    append fp cuda row (chunk.map Prod.fst) (chunk.map Prod.snd)
    appends row chunks

/-- A fresh runtime over a cache. -/
def freshRuntime (cache : Cache ι) : Held H D F (Physical ι) := ⟨{}, 0, cache⟩

/-- `Rabit2SingleSequenceRuntime.total_tokens` -/
def totalTokens (closedPages : ℕ) (side : Sidecar H D F) : ℕ :=
  closedPages * groupSize + lenOpt side.openK + lenOpt side.recentK

/-- `x.numel() * x.element_size()` of a tensor `[tokens, heads, n]`, or nothing for `None`. -/
def tensorBytes {H n : ℕ} {α : Type} (elementSize : ℕ) (x : Option (List (Tok H n α))) : ℕ :=
  lenOpt x * (H * n) * elementSize

/-- `Rabit2SingleSequenceRuntime.sidecar_bytes`; the primary V metadata are float32. -/
def sidecarBytes (side : Sidecar H D F) : ℕ :=
  tensorBytes 2 side.openK + tensorBytes 1 side.openVPacked + tensorBytes 4 side.openVMin
    + tensorBytes 4 side.openVScale + tensorBytes 2 side.recentK + tensorBytes 2 side.recentV

/-- `Rabit2SingleSequenceRuntime.tail_materialize` -/
def tailMaterialize {E : Type} (dt : Dtype F Bf16 E) (side : Sidecar H D F) :
    Except String (List (Tok H D E) × List (Tok H D E)) := do
  let (openK, openV) ← decodeOpen fp dt side
  let (recentK, recentV) := recentParts dt side
  return (openK ++ recentK, openV ++ recentV)

end Runtime

end RabitKV
