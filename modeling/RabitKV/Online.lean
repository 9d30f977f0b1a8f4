import RabitKV.Sidecar

/-!
# The online reference

`Rabit2OnlineStateRef`: closed pages in a list, the sidecar, and a decoder of everything.
-/

namespace RabitKV

/-- `Rabit2OnlineStateRef.__post_init__` -/
def onlineInit (numKvHeads headSizeK headSizeV : ℕ) : Except String Rabit2PageLayout := do
  if headSizeK % metadataGroupSize ≠ 0 then
    throw "Stage-3A requires K head_size to be a multiple of 64"
  if groupSize * numKvHeads * vGroups headSizeV % metadataGroupSize ≠ 0 then
    throw "V metadata groups must align to physical page boundaries"
  rabit2PageLayout groupSize numKvHeads headSizeK headSizeV

/-- The words of `_encode_open_page_exact` for a blob that does not fill its section. -/
def onlineMismatch (name : String) (_ _ : ℕ) : String := s!"{name} does not match physical layout"

/-- `Rabit2OnlineStateRef`: its `rest` is the list of pages. -/
abbrev Online (H D : ℕ) (F : Type) := Held H D F (List (List UInt8))

section Online

variable {F E : Type} (fp : Fp F Bf16) (cuda : Bool) {H D : ℕ}

/-- The end of `_append_open_old`: the page is encoded and kept, and a new group begins. -/
def onlineClose : SideM H D F (List (List UInt8)) Unit := do
  let s ← get
  match s.side.openK, s.side.openVPacked, s.side.openVMin, s.side.openVScale with
  | some openK, some openVPacked, some openVMin, some openVScale =>
    match encodePageFromPrimary fp onlineMismatch (pageLayout groupSize H D D) openK openVPacked
        openVMin openVScale with
    | .error e => throw e
    | .ok page =>
      set (σ := Online H D F)
        { side := { s.side with openK := none, openVPacked := none, openVMin := none
                                openVScale := none }
          rest := s.rest ++ [page] }
  | _, _, _, _ => throw "AssertionError"

/-- `Rabit2OnlineStateRef.append` -/
def onlineAppend (key value : List (Tok H D Bf16)) : SideM H D F (List (List UInt8)) Unit := do
  if key.length ≠ value.length then throw "key/value must share [tokens, heads, head_dim]"
  appendTokens fp cuda (onlineClose fp) (key.zip value)

/-- Several `append` calls, each with the tokens of one chunk. -/
def onlineAppends : List (List (KV H D)) → SideM H D F (List (List UInt8)) Unit
  | [] => pure ()
  | chunk :: chunks => do
    onlineAppend fp cuda (chunk.map Prod.fst) (chunk.map Prod.snd)
    onlineAppends chunks

/-- A fresh `Rabit2OnlineStateRef`. -/
def onlineNew : Online H D F := ⟨{}, []⟩

/-- `Rabit2OnlineStateRef.total_tokens` -/
def onlineTotalTokens (s : Online H D F) : ℕ :=
  s.rest.length * groupSize + lenOpt s.side.openK + lenOpt s.side.recentK

variable (dt : Dtype F Bf16 E)

/-- `decode_rabit2_page_ref` of every page, one after the other. -/
def decodePages : List (List UInt8) → Except String (List (Tok H D E) × List (Tok H D E))
  | [] => .ok ([], [])
  | page :: pages => do
    let (k, v) ← decodePage fp page
    let (ks, vs) ← decodePages pages
    return (k.map (Tok.map dt.ofF) ++ ks, v.map (Tok.map dt.ofF) ++ vs)

/-- `Rabit2OnlineStateRef.materialize` -/
def onlineMaterialize (s : Online H D F) :
    Except String (List (Tok H D E) × List (Tok H D E)) := do
  let (pagesK, pagesV) ← decodePages fp dt s.rest
  let (openK, openV) ← decodeOpen fp dt s.side
  let (recentK, recentV) := recentParts dt s.side
  return (pagesK ++ openK ++ recentK, pagesV ++ openV ++ recentV)

end Online

end RabitKV
