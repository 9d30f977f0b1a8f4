import RabitKV.Registry

/-!
# Live requests

Who is live on a layer, in the scheduler's terms. A request is live from its latest step at context
0 until it is finished or preempted; a request under a synthetic id also ends when a batch is
published. While it is live it has a block table row and the steps it has taken. The allocator
promises that live rows are disjoint lists of distinct blocks which only grow at the end; the blocks
of the others go to anyone.
-/

namespace RabitKV

/-- What a forward pass gives one request. -/
structure Share (H D : ℕ) (ι : Type) where
  reqId : String
  row : List ι
  contextLen : ℤ
  chunk : List (KV H D)

/-- A live request: its row, and its steps from the latest one at context 0 on. -/
structure Life (H D : ℕ) (ι : Type) where
  row : List ι
  steps : List (Share H D ι)

/-- The live requests of a layer. -/
abbrev Lives (H D : ℕ) (ι : Type) := String → Option (Life H D ι)

section Lives

variable {H D : ℕ} {ι : Type}

/-- The requests of `p` are live no more. -/
def Lives.drop (lives : Lives H D ι) (p : String → Bool) : Lives H D ι := fun id =>
  if p id then none else lives id

/-- A step at context 0 starts a life, a later one belongs to it. -/
def Lives.enter (lives : Lives H D ι) (s : Share H D ι) : Lives H D ι :=
  Function.update lives s.reqId
    (if s.contextLen = 0 then some ⟨s.row, [s]⟩
      else (lives s.reqId).map fun life => ⟨s.row, life.steps ++ [s]⟩)

/-- The allocator's promise for one step of one request. -/
structure Lives.Admits (lives : Lives H D ι) (s : Share H D ι) : Prop where
  nodup : s.row.Nodup
  disjoint : ∀ id life, id ≠ s.reqId → lives id = some life → life.row.Disjoint s.row
  grows : s.contextLen ≠ 0 → ∀ life, lives s.reqId = some life → life.row <+: s.row

/-- The promise for the steps of a batch, each at its turn. -/
def Lives.AdmitsAll : Lives H D ι → List (Share H D ι) → Prop
  | _, [] => True
  | lives, s :: ss => lives.Admits s ∧ (lives.enter s).AdmitsAll ss

/-- What the loop of `_forward_rabit_kv2` gives to each request it serves. -/
def shares (blockTable : List (List ι)) (tokens : List (KV H D)) :
    ℤ → ℕ → List (String × ℤ × ℤ) → List (Share H D ι)
  | _, _, [] => []
  | q0, seqIdx, (reqId, qLen, contextLen) :: rest =>
    let chunk := (tokens.drop q0.toNat).take qLen.toNat
    if chunk.length = 0 then shares blockTable tokens (q0 + qLen) (seqIdx + 1) rest
    else ⟨reqId, blockTable.getD seqIdx [], contextLen, chunk⟩
      :: shares blockTable tokens (q0 + qLen) (seqIdx + 1) rest

end Lives

section Runs

variable {L H D : ℕ} {F ι : Type}

/-- The steps of requests an operation makes on layer `l`. -/
def EngineOp.shares (l : Fin L) (e : Engine L H D F ι) : EngineOp L H D F ι → List (Share H D ι)
  | .forward _ batch tokens =>
    match forwardBatch e.activeBatch batch (tokens l).length with
    | .ok items => RabitKV.shares batch.blockTable (tokens l) 0 0 items
    | .error _ => []
  | _ => []

/-- The requests whose life an operation ends: those finished or preempted, the synthetic ones when
a batch is published, and those that start again. -/
def EngineOp.ends (l : Fin L) (e : Engine L H D F ι) (op : EngineOp L H D F ι) (id : String) :
    Bool :=
  match op with
  | .finish reqIds | .preempt reqIds => reqIds.contains id
  | .setActive reqIds _ _ => !reqIds.isEmpty && profileTag.isPrefixOf id
  | .forward .. => (op.shares l e).any fun s => s.reqId = id ∧ s.contextLen = 0

/-- The live requests after an operation. -/
def EngineOp.lives (l : Fin L) (e : Engine L H D F ι) (op : EngineOp L H D F ι)
    (lives : Lives H D ι) : Lives H D ι :=
  (op.shares l e).foldl Lives.enter (lives.drop (op.ends l e))

variable [DecidableEq ι] (fp : Fp F Bf16) (cuda : Bool)

/-- Runs of the engine from empty tables under the allocator's promise, with the live requests of
layer `l`. An exception ends a run. -/
inductive Reached (l : Fin L) : Engine L H D F ι → Lives H D ι → Prop
  | start {e : Engine L H D F ι} :
      (∀ id, (e.layers l).runtimes id = none) →
      (e.layers l).cache.width = (pageLayout groupSize H D D).pageBytes →
      Reached l e fun _ => none
  | step {e e' : Engine L H D F ι} {lives : Lives H D ι} {op : EngineOp L H D F ι} :
      Reached l e lives → (op.exec fp cuda).run e = .ok () e' →
      (lives.drop (op.ends l e)).AdmitsAll (op.shares l e) → Reached l e' (op.lives l e lives)

/-- A forward pass over a batch of this request alone. -/
def Share.alone (junk : FastBuffers F) (s : Share H D ι) : LayerM H D F ι Unit :=
  forwardLayer fp cuda (fun _ => junk) [(s.reqId, s.chunk.length, s.contextLen)]
    ⟨[0, s.chunk.length], [], [s.row]⟩ s.chunk

/-- Steps of one request with nobody else around, each with what `torch.empty` hands out in it. -/
def aloneRun : List (FastBuffers F × Share H D ι) → LayerM H D F ι Unit
  | [] => pure ()
  | (junk, s) :: own => do
    s.alone fp cuda junk
    aloneRun own

end Runs

end RabitKV
