import RabitKV.Page

/-!
# The sidecar of one sequence

`Rabit2OnlineStateRef` and `Rabit2SingleSequenceRuntime` keep the same four open fields and two
recent fields and grow them by the same code; they differ in where a closed page goes. The shared
code is written once over a state with a rest `σ`, and takes the page writer as a parameter.
-/

namespace RabitKV

section Primary

variable {F : Type} (fp : Fp F Bf16) {H D : ℕ}

/-- Four 2-bit codes in one byte. -/
def packV2Direct (codes : ℕ → ℕ) (j : ℕ) : UInt8 :=
  UInt8.ofNat (codes (4 * j) ||| codes (4 * j + 1) <<< 2 ||| codes (4 * j + 2) <<< 4
    ||| codes (4 * j + 3) <<< 6)

/-- The codes of one token packed by `_rabit2_stage4b2_pack_8x128`. -/
def v2PackedDirect (x : Tok H D F) : Tok H (vPackedDim D) UInt8 := fun h j =>
  packV2Direct (vCode fp (x h)) j

/-- `_quantize_v2_primary_ref` as rebound by Stage 4B2: one CUDA bfloat16 token of shape `[8, 128]`
is packed directly, everything else goes to the reference. -/
def quantizeV2Primary (cuda : Bool) (value : List (Tok H D F)) : V2Primary H D F :=
  if cuda = true ∧ value.length = 1 ∧ H = 8 ∧ D = 128 then
    { packed := value.map (v2PackedDirect fp)
      min := value.map (v2Min fp)
      scale := value.map (v2Scale fp) }
  else quantizeV2PrimaryRef fp value

end Primary

/-- The open group and the residual; `none` is Python's `None`. -/
@[ext]
structure Sidecar (H D : ℕ) (F : Type) where
  openK : Option (List (Tok H D Bf16)) := none
  openVPacked : Option (List (Tok H (vPackedDim D) UInt8)) := none
  openVMin : Option (List (Tok H (vGroups D) F)) := none
  openVScale : Option (List (Tok H (vGroups D) F)) := none
  recentK : Option (List (Tok H D Bf16)) := none
  recentV : Option (List (Tok H D Bf16)) := none

/-- `b if a is None else torch.cat([a, b])` -/
def catOpt {α : Type} (a : Option (List α)) (b : List α) : List α :=
  match a with
  | none => b
  | some a => a ++ b

/-- `0 if a is None else a.shape[0]` -/
def lenOpt {α : Type} (a : Option (List α)) : ℕ :=
  match a with
  | none => 0
  | some a => a.length

/-- The sidecars the code builds: the open fields are `None` together or hold 1 to 31 tokens, and
the recent fields are `None` together or hold 1 to 4. -/
structure Sidecar.WF {H D : ℕ} {F : Type} (s : Sidecar H D F) : Prop where
  openVPacked : s.openVPacked.map List.length = s.openK.map List.length
  openVMin : s.openVMin.map List.length = s.openK.map List.length
  openVScale : s.openVScale.map List.length = s.openK.map List.length
  openK_ne : s.openK ≠ some []
  openK_lt : lenOpt s.openK < groupSize
  recentV : s.recentV.map List.length = s.recentK.map List.length
  recentK_ne : s.recentK ≠ some []
  recentK_le : lenOpt s.recentK ≤ residualTokens

/-- A K token and a V token. -/
abbrev KV (H D : ℕ) := Tok H D Bf16 × Tok H D Bf16

/-- A sidecar and what else its owner changes. -/
@[ext]
structure Held (H D : ℕ) (F σ : Type) where
  side : Sidecar H D F
  rest : σ

/-- Methods of the owner; an exception leaves the changes made before it. -/
abbrev SideM (H D : ℕ) (F σ : Type) := EStateM String (Held H D F σ)

section Append

variable {F σ : Type} (fp : Fp F Bf16) (cuda : Bool) {H D : ℕ} (close : SideM H D F σ Unit)

/-- `_append_open_old`, `_append_aged`: quantize V, extend the open group, close a full one. -/
def appendAged (key value : List (Tok H D Bf16)) : SideM H D F σ Unit := do
  let primary := quantizeV2Primary fp cuda (value.map (Tok.map fp.ofB))
  let s ← get
  let openK := catOpt s.side.openK key
  set { s with side := { s.side with
    openK := some openK
    openVPacked := some (catOpt s.side.openVPacked primary.packed)
    openVMin := some (catOpt s.side.openVMin primary.min)
    openVScale := some (catOpt s.side.openVScale primary.scale) } }
  if openK.length = groupSize then close

/-- The body of the loop of `append`. -/
def appendToken (kv : KV H D) : SideM H D F σ Unit := do
  let s ← get
  let recentK := catOpt s.side.recentK [kv.1]
  let recentV := catOpt s.side.recentV [kv.2]
  if recentK.length > residualTokens then
    set { s with side := { s.side with
      recentK := some (recentK.drop 1), recentV := some (recentV.drop 1) } }
    appendAged fp cuda close (recentK.take 1) (recentV.take 1)
  else
    set { s with side := { s.side with recentK := some recentK, recentV := some recentV } }

/-- The loop of `append` over the tokens of a chunk. -/
def appendTokens : List (KV H D) → SideM H D F σ Unit
  | [] => pure ()
  | kv :: kvs => do
    appendToken fp cuda close kv
    appendTokens kvs

end Append

section Decode

variable {F E : Type} (fp : Fp F Bf16) (dt : Dtype F Bf16 E) {H D : ℕ}

/-- The open group as attention sees it: K requantized with zero padding, V through META8g64. -/
def decodeOpenGroup (openK : List (Tok H D Bf16)) (openVPacked : List (Tok H (vPackedDim D) UInt8))
    (openVMin openVScale : List (Tok H (vGroups D) F)) :
    Except String (List (Tok H D E) × List (Tok H D E)) := do
  let kState ← quantizeK3SequenceAffine fp (openK.map (Tok.map fp.ofB))
  let vMin := decodeMetadataUint8Group fp (encodeVMetadata fp openVMin)
  let vScale := decodeMetadataUint8Group fp (encodeVMetadata fp openVScale)
  return ((dequantizeK3SequenceAffine fp kState).map (Tok.map dt.ofF),
    (dequantizeV2FromPrimary fp openVPacked vMin vScale).map (Tok.map dt.ofF))

/-- `_decode_open`, and the same lines of `tail_materialize`. -/
def decodeOpen (side : Sidecar H D F) : Except String (List (Tok H D E) × List (Tok H D E)) :=
  match side.openK with
  | none => .ok ([], [])
  | some openK =>
    match side.openVPacked, side.openVMin, side.openVScale with
    | some openVPacked, some openVMin, some openVScale =>
      decodeOpenGroup fp dt openK openVPacked openVMin openVScale
    | _, _, _ => .error "AssertionError"

/-- The recent tokens in the dtype asked for. -/
def recentParts (side : Sidecar H D F) : List (Tok H D E) × List (Tok H D E) :=
  match side.recentK with
  | none => ([], [])
  | some recentK =>
    (recentK.map (Tok.map dt.ofB), (side.recentV.getD []).map (Tok.map dt.ofB))

end Decode

end RabitKV
