import RabitKV.Proofs.ForwardPaths
import RabitKV.Proofs.Lives

/-!
# Serving with outputs

A forward pass on an engine that any run has reached comes through whenever the update of the
runtimes does, leaves the same layer, and writes the rows of its own tokens only
(`attendItems_run`). A live request has the window its own steps lead to (`Follows`), so what its
rows hold is attention over its own tokens, whatever the other requests of the batch and of the run
have done.
-/

namespace RabitKV

open Chunks Softmax Stores Window

section Pass

variable {Q : Type} {H D : ℕ} (toB : EReal → Bf16) (ofB : Bf16 → ℝ) (toF : Q → ℝ) (ofF : EReal → Q)

/-- A pass of a layer whose sizes the kernels take, in a format that keeps weights up to `u` and
`η`. -/
structure Pass.Ready (x : Pass EReal Q) (H D : ℕ) (scale u η : ℝ) : Prop where
  layout : runtimeInit H D D = .ok (pageLayout groupSize H D D)
  online : ∃ layout, onlineInit H D D = .ok layout
  heads : H ∣ x.qHeads
  pos : 0 < x.qHeads
  block : 0 < x.block
  impl : x.impl.Valid
  scale : x.scale = scale
  round : RoundsWeights ofB toB u η

/-- The steps of a batch, each with the first of its tokens, and what they leave in the output: the
rows of no step stay, and those of a step attend to the tokens of its own life, which is the one it
has after the steps before it. -/
structure Attends (cuda : Bool) (x : Pass EReal Q) (hq : H ∣ x.qHeads) (scale u η : ℝ)
    (lives : Lives H D ℕ) (parts : List (ℕ × Share H D ℕ)) (out out' : ℕ → Q) : Prop where
  frame : ∀ t j, j < x.qHeads * D → (∀ p ∈ parts, t < p.1 ∨ p.1 + p.2.chunk.length ≤ t) →
    out' (t * (x.qHeads * D) + j) = out (t * (x.qHeads * D) + j)
  rows : ∀ before q0 s after, parts = before ++ (q0, s) :: after → ∀ life,
    ((before.map Prod.snd).foldl Lives.enter lives).enter s s.reqId = some life →
    Undisturbed cuda life.steps → ∀ i < s.chunk.length,
      AttendedRow toB ofB toF ofF x hq scale u η q0 s.contextLen life.context s.chunk out' i

variable {toB ofB toF ofF} {cuda : Bool} {x : Pass EReal Q} {scale u η : ℝ} {lives : Lives H D ℕ}

theorem attends_nil (hq : H ∣ x.qHeads) (out : ℕ → Q) :
    Attends toB ofB toF ofF cuda x hq scale u η lives [] out out := by
  refine ⟨fun _ _ _ _ => rfl, fun before q0 s after h => ?_⟩
  cases List.append_ne_nil_of_right_ne_nil before (List.cons_ne_nil _ _) h.symm

/-- A step fills its rows and the later ones leave them alone. -/
theorem Attends.cons {hq : H ∣ x.qHeads} {q0 : ℕ} {s : Share H D ℕ}
    {parts : List (ℕ × Share H D ℕ)} {o mid : Filled EReal Q} {out' view : ℕ → Q}
    (hfills : Filled.Fills D x q0 s.chunk.length o mid view)
    (hrows : ∀ life, lives.enter s s.reqId = some life → Undisturbed cuda life.steps →
      ∀ i < s.chunk.length, AttendedRow toB ofB toF ofF x hq scale u η q0 s.contextLen life.context
        s.chunk mid.out i)
    (hlater : ∀ p ∈ parts, q0 + s.chunk.length ≤ p.1)
    (h : Attends toB ofB toF ofF cuda x hq scale u η (lives.enter s) parts mid.out out') :
    Attends toB ofB toF ofF cuda x hq scale u η lives ((q0, s) :: parts) o.out out' := by
  refine ⟨fun t j hj hout => ?_, fun before q s' after hparts life hlife hund i hi => ?_⟩
  · rw [h.frame t j hj fun p hp => hout p (List.mem_cons_of_mem _ hp)]
    exact hfills.frame (hout _ List.mem_cons_self) hj
  · rcases before with _ | ⟨p, before⟩
    · rw [List.nil_append, List.cons.injEq, Prod.mk.injEq] at hparts
      obtain ⟨⟨rfl, rfl⟩, rfl⟩ := hparts
      refine (hrows life hlife hund i hi).congr fun k hk => h.frame _ k hk fun p hp => ?_
      have := hlater p hp
      omega
    · rw [List.cons_append, List.cons.injEq] at hparts
      obtain ⟨rfl, hparts⟩ := hparts
      exact h.rows before q s' after hparts life hlife hund i hi

/-- A request of the batch, served with its rows. -/
theorem attendRequest_run (hx : x.Ready toB ofB H D scale u η) {layer layer' : Layer H D EReal ℕ}
    (hk : Kept (realFp toB ofB).toFp cuda layer lives)
    (hf : Follows (realFp toB ofB).toFp cuda layer lives) {s : Share H D ℕ}
    (hadm : lives.Admits s) (hne : s.chunk ≠ []) {q0 : ℕ}
    (hchunk : s.chunk = (List.range s.chunk.length).map fun t => x.token H D (q0 + t))
    (hrun : (forwardRequest (realFp toB ofB).toFp (x.fast s.reqId) cuda s.reqId s.row s.contextLen
      s.chunk).run layer = .ok () layer') (o : Filled EReal Q) :
    ∃ o', (attendRequest (realPrefillFp toB ofB) (realQ toF ofF) cuda x s.reqId s.row q0 s.chunk
        s.contextLen o).run layer = .ok o' layer' ∧
      (∃ view, Filled.Fills D x q0 s.chunk.length o o' view) ∧
      ∀ life, lives.enter s s.reqId = some life → Undisturbed cuda life.steps →
        ∀ i < s.chunk.length, AttendedRow toB ofB toF ofF x hx.heads scale u η q0 s.contextLen
          life.context s.chunk o'.out i := by
  obtain ⟨rt, hbind⟩ := forwardRequest_binds hne hrun
  obtain ⟨ha, c, htracks, henters⟩ := hf.enters hk hadm hbind
  have hfit := forwardRequest_fits ha (x.fast s.reqId) hk.width hbind htracks hne hrun
  obtain ⟨layout', ho⟩ := hx.online
  obtain ⟨o', st, hstep, hadvance, hfills, hrows⟩ := attendStep_run hx.layout ho hx.heads hx.pos
    hx.block hx.impl hx.scale hx.round hchunk hne hk.width htracks.fast hfit s.contextLen o
  rw [← htracks.attach] at hstep hadvance
  rw [forwardRequest_bound hbind hne, onRuntime_run hadvance] at hrun
  cases hrun
  have hlen : ¬ s.chunk.length = 0 := fun h => hne (List.eq_nil_of_length_eq_zero h)
  refine ⟨o', ?_, hfills, fun life hlife hund => ?_⟩
  · unfold attendRequest
    rw [if_neg hlen]
    simp only [EStateM.run_bind, EStateM.run_get, hbind]
    exact onRuntime_run hstep
  · obtain ⟨before, rfl, hchunks, rfl, hstored⟩ := henters life hlife
    have hround := realFp_roundsHalfEven toB ofB
    have hall : ∀ t ∈ before ++ [s], t.chunk ≠ [] := by
      intro t ht
      rcases List.mem_append.1 ht with hmem | hmem
      · exact hchunks t hmem
      · rwa [List.mem_singleton.1 hmem]
    have hnext := track_plain hround hall hund
    rw [track_append, List.flatMap_append, List.flatMap_singleton] at hnext
    have hcontext : Life.context ⟨s.row, before ++ [s]⟩ = before.flatMap Share.chunk := by
      rw [Life.context, List.dropLast_concat]
    rw [hcontext]
    exact hrows hadm.nodup hstored _ (track_plain hround hchunks hund.init) hnext

end Pass

section Parts

variable {H D : ℕ} {ι : Type} {blockTable : List (List ι)} {tokens : List (KV H D)}

/-- `shares`, each with the first of its tokens. -/
def sharesAt (blockTable : List (List ι)) (tokens : List (KV H D)) :
    ℤ → ℕ → List (String × ℤ × ℤ) → List (ℕ × Share H D ι)
  | _, _, [] => []
  | q0, seqIdx, (reqId, qLen, contextLen) :: rest =>
    let chunk := (tokens.drop q0.toNat).take qLen.toNat
    if chunk.length = 0 then sharesAt blockTable tokens (q0 + qLen) (seqIdx + 1) rest
    else (q0.toNat, ⟨reqId, blockTable.getD seqIdx [], contextLen, chunk⟩)
      :: sharesAt blockTable tokens (q0 + qLen) (seqIdx + 1) rest

theorem map_snd_sharesAt : ∀ (items : List (String × ℤ × ℤ)) (q0 : ℤ) (seqIdx : ℕ),
    (sharesAt blockTable tokens q0 seqIdx items).map Prod.snd
      = shares blockTable tokens q0 seqIdx items
  | [], _, _ => rfl
  | (reqId, qLen, contextLen) :: rest, q0, seqIdx => by
    rw [sharesAt, shares]
    by_cases hlen : ((tokens.drop q0.toNat).take qLen.toNat).length = 0
    · simp only [if_pos hlen]
      exact map_snd_sharesAt rest _ _
    · simp only [if_neg hlen, List.map_cons]
      rw [map_snd_sharesAt rest]

/-- The steps from token `q0` on. -/
theorem le_of_mem_sharesAt : ∀ {items : List (String × ℤ × ℤ)} {q0 : ℤ} {seqIdx : ℕ},
    (∀ item ∈ items, 0 ≤ item.2.1) →
    ∀ p ∈ sharesAt blockTable tokens q0 seqIdx items, q0.toNat ≤ p.1
  | [], _, _, _, p, hp => by cases hp
  | (reqId, qLen, contextLen) :: rest, q0, seqIdx, hpos, p, hp => by
    have hq : 0 ≤ qLen := hpos _ List.mem_cons_self
    have hrest : ∀ p ∈ sharesAt blockTable tokens (q0 + qLen) (seqIdx + 1) rest,
        q0.toNat ≤ p.1 := by
      intro p hp
      refine le_trans ?_ (le_of_mem_sharesAt (fun item hi => hpos item
        (List.mem_cons_of_mem _ hi)) p hp)
      omega
    rw [sharesAt] at hp
    by_cases hlen : ((tokens.drop q0.toNat).take qLen.toNat).length = 0
    · simp only [if_pos hlen] at hp
      exact hrest p hp
    · simp only [if_neg hlen, List.mem_cons] at hp
      rcases hp with rfl | hp
      · exact le_rfl
      · exact hrest p hp

end Parts

section Batch

variable {Q : Type} {H D : ℕ} {toB : EReal → Bf16} {ofB : Bf16 → ℝ} {toF : Q → ℝ} {ofF : EReal → Q}
  {cuda : Bool} {x : Pass EReal Q} {scale u η : ℝ}

theorem Pass.length_tokens (x : Pass EReal Q) (H D n : ℕ) : (x.tokens H D n).length = n := by
  simp [Pass.tokens]

/-- The tokens of a request, from the tensors of the pass. -/
theorem Pass.take_drop_tokens (x : Pass EReal Q) (H D n q len : ℕ) :
    let chunk := ((x.tokens H D n).drop q).take len
    chunk = (List.range chunk.length).map fun t => x.token H D (q + t) := by
  intro chunk
  refine List.ext_getElem (by simp) fun t ht ht' => ?_
  simp [chunk, Pass.tokens]

variable (toF ofF) in
/-- The loop over a batch comes through with its rows where the update of the runtimes does. -/
theorem attendItems_run (hx : x.Ready toB ofB H D scale u η) {blockTable : List (List ℕ)} {n : ℕ} :
    ∀ (items : List (String × ℤ × ℤ)) (q0 : ℤ) (seqIdx : ℕ) {layer layer' : Layer H D EReal ℕ}
      {lives : Lives H D ℕ} (o : Filled EReal Q), 0 ≤ q0 → (∀ item ∈ items, 0 ≤ item.2.1) →
    Kept (realFp toB ofB).toFp cuda layer lives → Follows (realFp toB ofB).toFp cuda layer lives →
    (forwardItems (realFp toB ofB).toFp cuda x.fast blockTable (x.tokens H D n) q0 seqIdx
      items).run layer = .ok () layer' →
    lives.AdmitsAll (shares blockTable (x.tokens H D n) q0 seqIdx items) →
    ∃ o', (attendItems (realPrefillFp toB ofB) (realQ toF ofF) cuda x blockTable (x.tokens H D n) q0
        seqIdx items o).run layer = .ok o' layer' ∧
      Attends toB ofB toF ofF cuda x hx.heads scale u η lives
        (sharesAt blockTable (x.tokens H D n) q0 seqIdx items) o.out o'.out
  | [], _, _, layer, layer', lives, o, _, _, _, _, hrun, _ => by
    cases hrun
    exact ⟨o, rfl, attends_nil hx.heads o.out⟩
  | (reqId, qLen, contextLen) :: rest, q0, seqIdx, layer, layer', lives, o, h0, hpos, hk, hf, hrun,
      hadm => by
    have hq : 0 ≤ qLen := hpos _ List.mem_cons_self
    have hrest : ∀ item ∈ rest, 0 ≤ item.2.1 := fun item hi => hpos item (List.mem_cons_of_mem _ hi)
    rw [attendItems, sharesAt]
    rw [shares] at hadm
    by_cases hlen : (((x.tokens H D n).drop q0.toNat).take qLen.toNat).length = 0
    · rw [forwardItems] at hrun
      simp only [if_pos hlen] at hrun hadm ⊢
      exact attendItems_run hx rest _ _ o (by omega) hrest hk hf hrun hadm
    · obtain ⟨row, mid, hrow, hone, hnext⟩ := forwardItems_cons hlen hrun
      have hget : blockTable.getD seqIdx [] = row := by
        rw [List.getD_eq_getElem?_getD, hrow]
        rfl
      simp only [if_neg hlen, hget] at hadm ⊢
      have hne : ((x.tokens H D n).drop q0.toNat).take qLen.toNat ≠ [] :=
        fun hc => hlen (by rw [hc]; rfl)
      obtain ⟨o₁, hturn, ⟨view, hfills⟩, hrows⟩ := attendRequest_run hx hk hf hadm.1 hne
        (x.take_drop_tokens H D n q0.toNat qLen.toNat) hone o
      obtain ⟨o', hloop, hattends⟩ := attendItems_run hx rest (q0 + qLen) (seqIdx + 1) o₁
        (by omega) hrest (hk.enter hadm.1 hne hone) (hf.enter hk hadm.1 hne hone) hnext hadm.2
      refine ⟨o', ?_, Attends.cons hfills hrows (fun p hp => ?_) hattends⟩
      · rw [hrow]
        simp only [EStateM.run_bind, hturn]
        exact hloop
      · have hle := le_of_mem_sharesAt hrest p hp
        have htake : (((x.tokens H D n).drop q0.toNat).take qLen.toNat).length ≤ qLen.toNat :=
          List.length_take_le _ _
        simp only
        omega

/-- The steps of a pass over a batch, each with the first of its tokens. -/
def passParts {ι : Type} (activeBatch : List (String × ℤ × ℤ)) (batch : BatchMeta ι)
    (tokens : List (KV H D)) : List (ℕ × Share H D ι) :=
  match forwardBatch activeBatch batch tokens.length with
  | .ok items => sharesAt batch.blockTable tokens 0 0 items
  | .error _ => []

variable (toF ofF) in
/-- A pass of one layer. -/
theorem forwardRabitKv2_run (hx : x.Ready toB ofB H D scale u η) {layer layer' : Layer H D EReal ℕ}
    {lives : Lives H D ℕ} (hk : Kept (realFp toB ofB).toFp cuda layer lives)
    (hf : Follows (realFp toB ofB).toFp cuda layer lives) {activeBatch : List (String × ℤ × ℤ)}
    {batch : BatchMeta ℕ} {n : ℕ}
    (hrun : (forwardLayer (realFp toB ofB).toFp cuda x.fast activeBatch batch
      (x.tokens H D n)).run layer = .ok () layer')
    (hadm : lives.AdmitsAll ((passParts activeBatch batch (x.tokens H D n)).map Prod.snd))
    (hlens : ∀ items, forwardBatch activeBatch batch n = .ok items → ∀ item ∈ items, 0 ≤ item.2.1)
    (o : Filled EReal Q) :
    ∃ o', (forwardRabitKv2 (realPrefillFp toB ofB) (realQ toF ofF) cuda x activeBatch batch n o).run
        layer = .ok o' layer' ∧
      Attends toB ofB toF ofF cuda x hx.heads scale u η lives
        (passParts activeBatch batch (x.tokens H D n)) o.out o'.out := by
  unfold passParts at hadm ⊢
  unfold forwardLayer at hrun
  unfold forwardRabitKv2
  rw [x.length_tokens] at hrun hadm ⊢
  by_cases h0 : n = 0
  · subst h0
    rw [if_pos rfl] at hrun ⊢
    cases hrun
    refine ⟨o, rfl, ?_⟩
    rcases forwardBatch activeBatch batch 0 with e | items
    · exact attends_nil hx.heads o.out
    · have hempty : sharesAt batch.blockTable (x.tokens H D 0) 0 0 items = [] := by
        rw [← List.map_eq_nil_iff, map_snd_sharesAt]
        exact shares_nil _ _ _ _
      simp only [hempty]
      exact attends_nil hx.heads o.out
  · rw [if_neg h0] at hrun ⊢
    rcases hbatch : forwardBatch activeBatch batch n with e | items <;>
      simp only [hbatch] at hrun hadm ⊢
    · cases hrun
    · rw [map_snd_sharesAt] at hadm
      exact attendItems_run toF ofF hx items 0 0 o le_rfl (hlens items hbatch) hk hf hrun hadm

end Batch

section Engine

variable {Q : Type} {L H D : ℕ} {toB : EReal → Bf16} {ofB : Bf16 → ℝ} {cuda : Bool} {scale u η : ℝ}

/-- The update of the runtimes that a pass of every layer makes. -/
def passOp (H D : ℕ) (x : Fin L → Pass EReal Q) (batch : BatchMeta ℕ) (n : ℕ) :
    EngineOp L H D EReal ℕ :=
  .forward (fun l => (x l).fast) batch fun l => (x l).tokens H D n

theorem shares_passOp (x : Fin L → Pass EReal Q) (batch : BatchMeta ℕ) (n : ℕ) (l : Fin L)
    (e : Engine L H D EReal ℕ) :
    (passOp H D x batch n).shares l e
      = (passParts e.activeBatch batch ((x l).tokens H D n)).map Prod.snd := by
  simp only [passOp, passParts, EngineOp.shares]
  rcases forwardBatch e.activeBatch batch ((x l).tokens H D n).length with err | items
  · rfl
  · exact (map_snd_sharesAt items 0 0).symm

/-- On an engine that any run under the allocator's promise has reached, a forward pass comes
through where the update of the runtimes does and leaves the same layer. The rows of every request
it serves attend to the tokens of that request alone, from its latest step at context 0 on: densely
for a prompt, over what the sequence shows for a later chunk or token. All other rows stay. -/
theorem forwardRabitKv2_serves {l : Fin L} {e e' : Engine L H D EReal ℕ} {lives : Lives H D ℕ}
    (hreached : Reached (realFp toB ofB).toFp cuda l e lives) {x : Fin L → Pass EReal Q}
    (hx : (x l).Ready toB ofB H D scale u η) {batch : BatchMeta ℕ} {n : ℕ}
    (hrun : ((passOp H D x batch n).exec (realFp toB ofB).toFp cuda).run e = .ok () e')
    (hadm : (lives.drop ((passOp H D x batch n).ends l e)).AdmitsAll
      ((passOp H D x batch n).shares l e))
    (hlens : ∀ items, forwardBatch e.activeBatch batch n = .ok items →
      ∀ item ∈ items, 0 ≤ item.2.1) (toF : Q → ℝ) (ofF : EReal → Q) (o : Filled EReal Q) :
    ∃ o', (forwardRabitKv2 (realPrefillFp toB ofB) (realQ toF ofF) cuda (x l) e.activeBatch batch n
        o).run (e.layers l) = .ok o' (e'.layers l) ∧
      (passParts e.activeBatch batch ((x l).tokens H D n)).map Prod.snd
        = (passOp H D x batch n).shares l e ∧
      Attends toB ofB toF ofF cuda (x l) hx.heads scale u η
        (lives.drop ((passOp H D x batch n).ends l e))
        (passParts e.activeBatch batch ((x l).tokens H D n)) o.out o'.out := by
  have hlayer := (forwardLayers_run (List.nodup_finRange L) hrun).1 l (List.mem_finRange l)
  rw [shares_passOp] at hadm ⊢
  obtain ⟨o', hpass, hattends⟩ := forwardRabitKv2_run toF ofF hx (hreached.kept.drop _)
    (hreached.follows.drop _) hlayer hadm hlens o
  exact ⟨o', hpass, rfl, hattends⟩

end Engine

section Concrete

/-- Queries, keys and values that differ from token to token, with two query heads over one KV
head. -/
noncomputable def mixedPass : Pass EReal Bf16 where
  query := fun a => UInt16.ofNat (16256 + a % 113)
  key := ⟨fun a => UInt16.ofNat (16256 + a % 127), 0, 64, 64⟩
  value := ⟨fun a => UInt16.ofNat (16256 + a % 97), 0, 64, 64⟩
  qHeads := 2
  scale := ((1 : ℝ) : EReal)
  impl := .reference
  block := 128
  fast := fun _ => ⟨fun _ => 0, fun _ => 0, fun _ => 0, fun _ => 0, fun _ => 0, fun _ => 0⟩
  junk := fun _ _ => ⟨fun _ => 0, fun _ => 0, usedWorkspace⟩

theorem mixedPass_ready :
    mixedPass.Ready realToBf16 bf16ToReal 1 64 (1 : ℝ) (1 / 2 ^ 8) (1 / 2 ^ 134) where
  layout := rfl
  online := ⟨pageLayout groupSize 1 64 64, rfl⟩
  heads := one_dvd _
  pos := Nat.zero_lt_two
  block := by decide
  impl := by
    intro queryBlock h
    cases h
  scale := rfl
  round := bf16_roundsWeights

/-- The batch of `nextPass`. -/
def mixedBatch : BatchMeta ℕ := ⟨[0, 1, 41], [], [[1, 3], [2, 0]]⟩

/-- In bfloat16, a request goes on with one token and another one starts with a prompt on the blocks
of one that has ended. -/
theorem forwardRabitKv2_serves_two_requests :
    ∃ (e e' : Engine 1 1 64 EReal ℕ) (o' : Filled EReal Bf16),
    Reached bfloatFp.toFp true 0 e (onlyB (rampTokens 1 64 75)) ∧
    ((passOp 1 64 (fun _ => mixedPass) mixedBatch 41).exec bfloatFp.toFp true).run e = .ok () e' ∧
    (forwardRabitKv2 (realPrefillFp realToBf16 bf16ToReal) (realQ bf16ToReal realToBf16) true
      mixedPass e.activeBatch mixedBatch 41 ⟨fun _ => 0, none⟩).run (e.layers 0)
      = .ok o' (e'.layers 0) ∧
    AttendedRow realToBf16 bf16ToReal bf16ToReal realToBf16 mixedPass mixedPass_ready.heads (1 : ℝ)
      (1 / 2 ^ 8) (1 / 2 ^ 134) 0 38 (startB (rampTokens 1 64 75)).chunk
      (nextB (mixedPass.tokens 1 64 41)).chunk o'.out 0 ∧
    ∀ i < 40, AttendedRow realToBf16 bf16ToReal bf16ToReal realToBf16 mixedPass
      mixedPass_ready.heads (1 : ℝ) (1 / 2 ^ 8) (1 / 2 ^ 134) 1 0 []
      (startC (mixedPass.tokens 1 64 41)).chunk o'.out i := by
  have hround := realFp_roundsHalfEven realToBf16 bf16ToReal
  have hfirst := length_rampTokens 1 64 75
  have hlen := mixedPass.length_tokens 1 64 41
  obtain ⟨-, -, -, e, -, -, -, -, hactive, hreached⟩ := onlyB_reached (F := EReal) hfirst
    (fun _ => mixedPass.fast) hround
  obtain ⟨hadm, e', hnext, -⟩ := nextPass_run hfirst hlen (fun _ => mixedPass.fast) hround hreached
    hactive
  have hrun : ((passOp 1 64 (fun _ => mixedPass) mixedBatch 41).exec bfloatFp.toFp true).run e
    = .ok () e' := hnext
  have hlens : ∀ items, forwardBatch e.activeBatch mixedBatch 41 = .ok items →
      ∀ item ∈ items, 0 ≤ item.2.1 := by
    rw [hactive]
    rintro items ⟨⟩
    decide
  obtain ⟨o', hpass, -, hattends⟩ := forwardRabitKv2_serves hreached mixedPass_ready hrun hadm hlens
    bf16ToReal realToBf16 ⟨fun _ => 0, none⟩
  have hends : (passOp 1 64 (fun _ : Fin 1 => mixedPass) mixedBatch 41).ends 0 e "b" = false := by
    change ((nextPass (fun _ => mixedPass.fast) (mixedPass.tokens 1 64 41)).shares 0 e).any _
      = false
    rw [nextPass_shares _ hlen hactive]
    rfl
  have hparts : passParts e.activeBatch mixedBatch (mixedPass.tokens 1 64 41)
      = [(0, nextB (mixedPass.tokens 1 64 41)), (1, startC (mixedPass.tokens 1 64 41))] := by
    rw [hactive]
    rfl
  rw [hparts, drop_onlyB _ hends] at hattends
  refine ⟨e, e', o', hreached, hrun, hpass, ?_, fun i hi => ?_⟩
  · exact hattends.rows [] 0 _ [(1, startC (mixedPass.tokens 1 64 41))] rfl _ rfl
      (undisturbed_small _) 0 (by decide)
  · exact hattends.rows [(0, nextB (mixedPass.tokens 1 64 41))] 1 _ [] rfl _ rfl
      (undisturbed_small _) i hi

end Concrete

end RabitKV
