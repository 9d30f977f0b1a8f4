import RabitKV.Quant

/-!
# The ageing oracle

`update_rabit2_kv_ref` takes the state of a sequence and new tokens. It decodes the state in the
dtype of the new tokens, joins them and quantizes the whole again.
-/

namespace RabitKV

/-- `torch.bfloat16` -/
def Fp.bfloat16 {F B : Type} (fp : Fp F B) : Dtype F B B := ⟨fp.toB, id⟩

section Update

variable {F B : Type} (fp : Fp F B) {H D : ℕ}

/-- `update_rabit2_kv_ref` with bfloat16 tokens; `none` is a state that does not exist yet. -/
def updateRabit2Kv (state : Option (Rabit2Kv H D B)) (newKey newValue : List (Tok H D B)) :
    Except String (Rabit2Kv H D B) :=
  if newKey.length ≠ newValue.length then
    .error "new_key/new_value must share [tokens, heads, head_dim]"
  else
    match state with
    | none => quantizeRabit2Kv fp newKey newValue
    | some st =>
      let old := dequantizeRabit2KvAs fp fp.bfloat16 st
      quantizeRabit2Kv fp (old.1 ++ newKey) (old.2 ++ newValue)

/-- A K token and a V token of any short format. -/
abbrev Pair (H D : ℕ) (B : Type) := Tok H D B × Tok H D B

/-- `quantize_rabit2_kv_ref` of a sequence. -/
abbrev quantizeSeq (seq : List (Pair H D B)) : Except String (Rabit2Kv H D B) :=
  quantizeRabit2Kv fp (seq.map Prod.fst) (seq.map Prod.snd)

/-- `update_rabit2_kv_ref` chunk by chunk. -/
def updateAll (state : Option (Rabit2Kv H D B)) :
    List (List (Pair H D B)) → Except String (Option (Rabit2Kv H D B))
  | [] => .ok state
  | chunk :: chunks => do
    let st ← updateRabit2Kv fp state (chunk.map Prod.fst) (chunk.map Prod.snd)
    updateAll (some st) chunks

end Update

end RabitKV
