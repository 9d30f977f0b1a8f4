import RabitKV.Sidecar

/-!
# The reference page encoder

`encode_rabit2_page_ref` quantizes a whole page of K and V tokens, checks the size of each part
against the layout and copies the parts in. Without a layout it computes one from the shape.
-/

namespace RabitKV

/-- The words of `encode_rabit2_page_ref` for a part that does not fill its section. -/
def refMismatch (name : String) (actual expected : ℕ) : String :=
  s!"{name} has {actual} bytes; layout expects {expected}"

section Encode

variable {F : Type} (fp : Fp F Bf16) (cuda : Bool) {H D : ℕ}

/-- `encode_rabit2_page_ref` -/
def encodeRabit2Page (layout : Option Rabit2PageLayout) (key value : List (Tok H D F)) :
    Except String (List UInt8) := do
  if key.length ≠ value.length then throw "key/value must share [tokens, heads, head_dim]"
  let layout ← match layout with
    | none => rabit2PageLayout key.length H D D
    | some layout => pure layout
  if key.length ≠ layout.blockSize then
    throw "a physical page must contain exactly block_size tokens"
  if H ≠ layout.numKvHeads ∨ D ≠ layout.headSizeK then
    throw "key shape does not match page layout"
  if D ≠ layout.headSizeV then throw "value shape does not match page layout"
  let kState ← quantizeK3SequenceAffine fp key
  let primary := quantizeV2Primary fp cuda value
  assemblePage refMismatch layout
    (pageBlobs kState primary.packed (encodeVMetadata fp primary.min)
      (encodeVMetadata fp primary.scale))

end Encode

end RabitKV
