import RabitKV.Forward
import RabitKV.Proofs.Prefill
import RabitKV.Proofs.Served

/-!
# The paths of a forward pass

Each path of `_forward_rabit_kv2` leaves a request in the state `advance` leaves it in, writes the
rows of its own tokens only, and fills them: a prompt near softmax attention over the prompt itself
(`PromptRow`), the others with softmax attention over what the sequence shows (`ServedRow`).
-/

namespace RabitKV

open Chunks Softmax Stores Window

section Views

variable {Q : Type} (out view : ℕ → Q) (base : ℕ)

@[simp] theorem putView_add (a : ℕ) : putView out base view (base + a) = view a := by
  rw [putView, if_pos (Nat.le_add_right base a), Nat.add_sub_cancel_left]

theorem putView_of_lt {a : ℕ} (h : a < base) : putView out base view a = out a :=
  if_neg (Nat.not_le.2 h)

end Views

section Chunk

variable {F Q : Type} {fp : AttnFp F} {dt : QDtype F Q} {H D : ℕ} {c : Chunk H D F Q}
  {w : SeqWin H D F} {kvs : List (KV H D)} {p : Physical ℕ}

/-- The state a chunk leads to, whichever path takes it there. -/
theorem stepped_length (closed : ℕ) (cache : Cache ℕ) :
    stepped fp.toFp w closed cache kvs kvs.length
      = hold (w.batch (ageKV fp.toFp) kvs).1
        ⟨closed + (w.batch (ageKV fp.toFp) kvs).2.length, cache⟩ := by
  rw [stepped, List.take_length]

/-- The state a chunk leads to. -/
abbrev chunkState (fp : Fp F Bf16) (row : List ℕ) (w : SeqWin H D F) (p : Physical ℕ)
    (kvs : List (KV H D)) : Held H D F (Physical ℕ) :=
  hold (w.batch (ageKV fp) kvs).1 (written fp row p (w.batch (ageKV fp) kvs).2)

/-- The rows of a chunk, each that of its query. -/
abbrev chunkRows (fp : AttnFp F) (dt : QDtype F Q) (c : Chunk H D F Q) (w : SeqWin H D F)
    (p : Physical ℕ) (kvs : List (KV H D)) (view : ℕ → Q) : ℕ → Q :=
  fillRows c.rowSize (queryRow fp dt c w p.closedPages
    (written fp.toFp c.row p (w.batch (ageKV fp.toFp) kvs).2).cache kvs) 0 kvs.length view

theorem tile32Supported_iff {qHeads : ℕ} :
    tile32Supported qHeads H = true ↔ H ∣ qHeads ∧ 4 ∣ qHeads / H := by
  simp [tile32Supported, Nat.dvd_iff_mod_eq_zero]

variable (dt) (ha : Aligned H D)
  (hwidth : p.cache.width = (pageLayout groupSize H D D).pageBytes)
  (hl : runtimeInit H D D = .ok c.layout) (hq : H ∣ c.qHeads) (hne : kvs ≠ [])
  (hfit : Fits c.row p.closedPages (w.batch (ageKV fp.toFp) kvs).2) (view : ℕ → Q)
  (ws : Option (Workspace F))

include ha hwidth hl hq hne hfit

theorem forwardReference_run : ∃ runs ws',
    (forwardReference fp dt c (kvs.map Prod.fst) (kvs.map Prod.snd) view ws).run (hold w p)
      = .ok ⟨runs, chunkRows fp dt c w p kvs view, ws'⟩ (chunkState fp.toFp c.row w p kvs) := by
  have hplan := chunkPlan_run fp.toFp c.row ha w hne hwidth
  rw [if_pos hfit] at hplan
  obtain ⟨runs, ws', hloop, -⟩ := referenceLoop_run fp dt w p.closedPages
    (written fp.toFp c.row p (w.batch (ageKV fp.toFp) kvs).2).cache hl hq kvs.length 0
    (Nat.zero_add _) view ws
  rw [stepped_zero, stepped_length] at hloop
  refine ⟨runs, ws', ?_⟩
  rw [forwardReference, EStateM.run_bind, hplan, List.length_map]
  exact hloop

theorem forwardTiles_run (h4 : 4 ∣ c.qHeads / H) (diverged : String) {kernel : TileKernel F Q}
    (hkernel : ∀ a closed qgroups n, kernel a closed qgroups n
      = tile32ClosedPagePartialKernel fp dt a closed qgroups n) : ∃ runs ws',
    (some <$> forwardTiles fp dt c kernel diverged (kvs.map Prod.fst) (kvs.map Prod.snd)
      view ws).run (hold w p)
      = .ok (some ⟨runs, chunkRows fp dt c w p kvs view, ws'⟩)
        (chunkState fp.toFp c.row w p kvs) := by
  have hplan := chunkPlan_run fp.toFp c.row ha w hne hwidth
  rw [if_pos hfit] at hplan
  set cache := (written fp.toFp c.row p (w.batch (ageKV fp.toFp) kvs).2).cache with hcache
  have hcover : TilesCover (visiblePages fp w p.closedPages cache kvs) 0 kvs.length
      (tile32Tiles ((List.range kvs.length).map
        (chunkClosedPagesAfter (planOf fp.toFp w p.closedPages kvs 0)))) :=
    (tile32Tiles_cover _ _).congr fun i hi =>
      (stepped_closedPages fp.toFp w p.closedPages cache hi 0).symm
  obtain ⟨runs, ws', hloop, -⟩ := tileLoop_run fp dt w p.closedPages cache hl hq h4 diverged
    hkernel _ 0 hcover view ws
  rw [stepped_zero, stepped_length] at hloop
  refine ⟨runs, ws', ?_⟩
  rw [EStateM.run_map, forwardTiles, EStateM.run_bind, hplan]
  simp only [List.length_map, hloop]
  rfl

/-- A tiled path steps aside or comes through. -/
theorem forwardTile32_run (cuda : Bool) :
    let run := (forwardTile32 fp dt c cuda (kvs.map Prod.fst) (kvs.map Prod.snd) view ws).run
      (hold w p)
    run = .ok none (hold w p) ∨ ∃ runs ws',
      run = .ok (some ⟨runs, chunkRows fp dt c w p kvs view, ws'⟩)
        (chunkState fp.toFp c.row w p kvs) := by
  intro run
  by_cases hgate : (kvs.map Prod.fst).length ≤ 1 ∨ cuda = false ∨ tile32Supported c.qHeads H = false
  · left
    simp only [run, forwardTile32, if_pos hgate]
    rfl
  · right
    simp only [run, forwardTile32, if_neg hgate]
    have hsup : tile32Supported c.qHeads H = true := by
      simpa using fun h => hgate (Or.inr (Or.inr h))
    exact forwardTiles_run dt ha hwidth hl hq hne hfit view ws (tile32Supported_iff.1 hsup).2 _
      fun _ _ _ _ => rfl

theorem forwardSharedDecode_run (cuda : Bool) {queryBlock : ℕ} (hblock : queryBlock ∈ queryBlocks) :
    let run := (forwardSharedDecode fp dt c cuda queryBlock (kvs.map Prod.fst) (kvs.map Prod.snd)
      view ws).run (hold w p)
    run = .ok none (hold w p) ∨ ∃ runs ws',
      run = .ok (some ⟨runs, chunkRows fp dt c w p kvs view, ws'⟩)
        (chunkState fp.toFp c.row w p kvs) := by
  intro run
  by_cases hgate : (kvs.map Prod.fst).length ≤ 1 ∨ cuda = false ∨ tile32Supported c.qHeads H = false
  · left
    simp only [run, forwardSharedDecode, if_pos hgate]
    rfl
  · right
    have hin : ¬ queryBlock ∉ queryBlocks := not_not.2 hblock
    simp only [run, forwardSharedDecode, if_neg hgate, if_neg hin]
    have hsup : tile32Supported c.qHeads H = true := by
      simpa using fun h => hgate (Or.inr (Or.inr h))
    have hpos : 0 < queryBlock := by
      revert queryBlock
      decide
    exact forwardTiles_run dt ha hwidth hl hq hne hfit view ws (tile32Supported_iff.1 hsup).2 _
      fun a closed qgroups n => sharedDecode_eq_tile32 fp dt a closed qgroups n hpos

end Chunk

section Steps

variable {F Q : Type} {fp : PrefillFp F} {dt : QDtype F Q} {cuda : Bool} {H D : ℕ} {x : Pass F Q}
  {reqId : String} {row : List ℕ} {q0 : ℕ} {chunk : List (KV H D)} {o o' : Filled F Q}

/-- What every path does to the output: it changes the rows of its tokens in a view of its own. -/
structure Filled.Fills (D : ℕ) (x : Pass F Q) (q0 n : ℕ) (o o' : Filled F Q) (view : ℕ → Q) :
    Prop where
  out : o'.out = putView o.out (q0 * (x.qHeads * D)) view
  past : ∀ a, n * (x.qHeads * D) ≤ a → view a = viewAt o.out (q0 * (x.qHeads * D)) a

/-- The rows of the others stay. -/
theorem Filled.Fills.frame {n : ℕ} {view : ℕ → Q} (h : Filled.Fills D x q0 n o o' view) {t j : ℕ}
    (ht : t < q0 ∨ q0 + n ≤ t) (hj : j < x.qHeads * D) :
    o'.out (t * (x.qHeads * D) + j) = o.out (t * (x.qHeads * D) + j) := by
  rw [h.out]
  rcases ht with hlt | hge
  · refine putView_of_lt _ _ _ ?_
    have := Nat.mul_le_mul_right (x.qHeads * D) (Nat.succ_le_of_lt hlt)
    rw [Nat.succ_mul] at this
    omega
  · obtain ⟨k, rfl⟩ := Nat.exists_eq_add_of_le hge
    have hsplit : (q0 + n + k) * (x.qHeads * D) + j
        = q0 * (x.qHeads * D) + ((n + k) * (x.qHeads * D) + j) := by ring
    rw [hsplit, putView_add, h.past _ (by rw [Nat.add_mul]; omega)]
    rfl

/-- The query block of `shared_decode` is one it has a kernel for. -/
def Stage3cImpl.Valid (impl : Stage3cImpl) : Prop :=
  ∀ queryBlock, impl = .sharedDecode queryBlock → queryBlock ∈ queryBlocks

/-- Row `i` of the view is row `q0 + i` of the output. -/
theorem Filled.Fills.eq_view {n : ℕ} {view : ℕ → Q} (h : Filled.Fills D x q0 n o o' view)
    (i k : ℕ) :
    o'.out ((q0 + i) * (x.qHeads * D) + k) = view (i * (x.qHeads * D) + k) := by
  have hsplit : (q0 + i) * (x.qHeads * D) + k
      = q0 * (x.qHeads * D) + (i * (x.qHeads * D) + k) := by ring
  rw [h.out, hsplit, putView_add]

theorem Pass.contextCall_valid (x : Pass F Q) (H D q0 qLen : ℕ) :
    (x.contextCall H D q0 qLen).Valid := by
  have hwindow : (-1 : ℤ) ≤ 0 := by decide
  refine ⟨rfl, rfl, fun b b' hb hb' => ?_, fun b hb => ?_, hwindow, hwindow⟩
  · have hone : b' < 1 := hb'
    omega
  · obtain rfl : b = 0 := Nat.lt_one_iff.1 hb
    exact le_rfl

theorem recentK_moves_ne (c : Tracked H D F) {kv : KV H D} :
    (toSidecar (moves fp.toFp cuda c [kv]).1.opened
      (moves fp.toFp cuda c [kv]).1.recent).recentK ≠ none := by
  have hne : [kv] ≠ [] := List.cons_ne_nil _ _
  by_cases hfull : fastShape cuda H D = true ∧ [kv].length = 1 ∧
      residualTokens ≤ c.pub.recent.length
  · rw [moves, Copied.moved_single _ hfull]
    exact recentK_batch_ne _ _ hne
  · rw [moves, Copied.moved_batch _ hfull]
    exact recentK_batch_ne _ _ hne

/-- A call that comes back changes nothing. -/
theorem ofExcept_run {α β : Type} {call : Except String α} {a : α} (h : call = .ok a) (f : α → β)
    (s : Live H D F ℕ) :
    (do
      let a ← MonadExcept.ofExcept call
      return f a : LiveM H D F ℕ β).run s = .ok (f a) s := by
  rw [h]
  rfl

variable {w : SeqWin H D F} {p : Physical ℕ} (ha : Aligned H D)
  (hwidth : p.cache.width = (pageLayout groupSize H D D).pageBytes)

include ha hwidth

variable (fp dt) in
/-- A prompt is appended in bulk and attended to densely. -/
theorem attendPrompt_run (hblock : 0 < x.block) (hrow : 0 < x.qHeads * D)
    (hfit : Fits row p.closedPages (w.batch (ageKV fp.toFp) chunk).2) (fast : Option (Fast F))
    (o : Filled F Q) : ∃ o',
    (attendPrompt fp dt x row q0 chunk o).run ⟨hold w p, fast⟩
        = .ok o' ⟨chunkState fp.toFp row w p chunk, fast⟩ ∧
      Filled.Fills D x q0 chunk.length o o' (storeAll (viewAt o.out (q0 * (x.qHeads * D)))
        (contextAttentionFwd fp dt ⟨fp.ofB, fp.toB⟩ x.block
          (x.contextCall H D q0 chunk.length))) := by
  have hbulk := bulkAppend_run fp.toFp row ha w chunk hwidth
  rw [if_pos hfit] at hbulk
  refine ⟨⟨putView o.out (q0 * (x.qHeads * D)) (storeAll (viewAt o.out (q0 * (x.qHeads * D)))
    (contextAttentionFwd fp dt ⟨fp.ofB, fp.toB⟩ x.block (x.contextCall H D q0 chunk.length))),
    o.workspace⟩, ?_, rfl, fun a hge => ?_⟩
  · rw [attendPrompt, EStateM.run_bind, onHeld_run hbulk]
    rfl
  · rw [← Nat.div_add_mod' a (x.qHeads * D)]
    refine contextAttentionFwd_frame (x.contextCall_valid H D q0 chunk.length) hblock _
      (Nat.mod_lt a hrow) fun b hb => Or.inr ?_
    obtain rfl : b = 0 := Nat.lt_one_iff.1 hb
    refine (Nat.zero_add _).le.trans ?_
    exact (Nat.le_div_iff_mul_le hrow).2 hge

variable (hl : runtimeInit H D D = .ok (pageLayout groupSize H D D)) (hq : H ∣ x.qHeads)

include hl hq

variable (fp dt cuda reqId) in
/-- A later chunk comes through on one of its paths. -/
theorem attendChunk_run (himpl : x.impl.Valid) (hne : chunk ≠ [])
    (hfit : Fits row p.closedPages (w.batch (ageKV fp.toFp) chunk).2) (o : Filled F Q) : ∃ o',
    (attendChunk fp dt cuda x reqId row q0 chunk o).run (hold w p)
        = .ok o' (chunkState fp.toFp row w p chunk) ∧
      Filled.Fills D x q0 chunk.length o o' (chunkRows fp.toAttnFp dt (x.chunk H D reqId row q0) w p
        chunk (viewAt o.out (q0 * (x.qHeads * D)))) := by
  have hfills : ∀ ws : Option (Workspace F), Filled.Fills D x q0 chunk.length o
      ⟨putView o.out (q0 * (x.qHeads * D)) (chunkRows fp.toAttnFp dt (x.chunk H D reqId row q0) w p
        chunk (viewAt o.out (q0 * (x.qHeads * D)))), ws⟩ (chunkRows fp.toAttnFp dt
        (x.chunk H D reqId row q0) w p chunk (viewAt o.out (q0 * (x.qHeads * D)))) :=
    fun ws => ⟨rfl, fun a hge => fillRows_past hge⟩
  have hfit' : Fits (x.chunk H D reqId row q0).row p.closedPages
    (w.batch (ageKV fp.toFp) chunk).2 := hfit
  -- the reference path serves when it is selected and when a tiled path has stepped aside
  obtain ⟨runs, ws, href⟩ := forwardReference_run dt ha hwidth hl hq hne hfit'
    (viewAt o.out (q0 * (x.qHeads * D))) o.workspace
  unfold attendChunk
  rcases hsel : x.impl with _ | _ | queryBlock <;> simp only
  · refine ⟨_, ?_, hfills ws⟩
    rw [EStateM.run_bind, EStateM.run_pure]
    simp only
    rw [EStateM.run_bind, href]
    rfl
  · rcases forwardTile32_run dt ha hwidth hl hq hne hfit'
      (viewAt o.out (q0 * (x.qHeads * D))) o.workspace cuda with haside | ⟨runs, ws', hone⟩
    · refine ⟨_, ?_, hfills ws⟩
      rw [EStateM.run_bind, haside]
      simp only
      rw [EStateM.run_bind, href]
      rfl
    · refine ⟨_, ?_, hfills ws'⟩
      rw [EStateM.run_bind, hone]
      rfl
  · rcases forwardSharedDecode_run dt ha hwidth hl hq hne hfit'
      (viewAt o.out (q0 * (x.qHeads * D))) o.workspace cuda (himpl queryBlock hsel)
      with haside | ⟨runs, ws', hone⟩
    · refine ⟨_, ?_, hfills ws⟩
      rw [EStateM.run_bind, haside]
      simp only
      rw [EStateM.run_bind, href]
      rfl
    · refine ⟨_, ?_, hfills ws'⟩
      rw [EStateM.run_bind, hone]
      rfl

variable (fp dt x reqId q0) in
/-- One token is appended and then attended to. -/
theorem attendToken_run {c : Tracked H D F} {fast : Option (Fast F)}
    (hfast : Option.Rel FastRep fast c.copy) {kv : KV H D}
    (hfit : Fits row p.closedPages (moves fp.toFp cuda c [kv]).2.1) (o : Filled F Q) :
    ∃ fast' run o',
      (fastDecodeAppend fp.toFp (x.fast reqId) cuda row [kv.1] [kv.2]).run ⟨hold c.pub p, fast⟩
        = .ok () ⟨hold (moves fp.toFp cuda c [kv]).1
            (written fp.toFp row p (moves fp.toFp cuda c [kv]).2.1), fast'⟩ ∧
      onlineDecodeAttention fp.toAttnFp dt (x.junk reqId 0) (pageLayout groupSize H D D)
          ⟨x.query, q0 * (x.qHeads * D)⟩ x.qHeads
          (written fp.toFp row p (moves fp.toFp cuda c [kv]).2.1).cache row
          (toSidecar (moves fp.toFp cuda c [kv]).1.opened (moves fp.toFp cuda c [kv]).1.recent)
          (p.closedPages + (moves fp.toFp cuda c [kv]).2.1.length) x.scale o.workspace = .ok run ∧
      (attendToken fp dt cuda x reqId row q0 [kv] o).run ⟨hold c.pub p, fast⟩
        = .ok o' ⟨hold (moves fp.toFp cuda c [kv]).1
            (written fp.toFp row p (moves fp.toFp cuda c [kv]).2.1), fast'⟩ ∧
      Filled.Fills D x q0 1 o o' ((x.chunk H D reqId row q0).copyRows
        (viewAt o.out (q0 * (x.qHeads * D))) 0 1 run.out) := by
  have hquery : (x.chunk H D reqId row q0).query 0 = ⟨x.query, q0 * (x.qHeads * D)⟩ := by
    simp [Chunk.query, QueryPtr.advance, Pass.chunk]
  obtain ⟨fast', happend, -⟩ := fastDecodeAppend_one ha hwidth (x.fast reqId) hfast kv hfit
  have happend' : (fastDecodeAppend fp.toFp (x.fast reqId) cuda row ([kv].map Prod.fst)
      ([kv].map Prod.snd)).run ⟨hold c.pub p, fast⟩ = _ := happend
  obtain ⟨run, hrun⟩ : ∃ run, onlineDecodeAttention fp.toAttnFp dt (x.junk reqId 0)
      (pageLayout groupSize H D D) ⟨x.query, q0 * (x.qHeads * D)⟩ x.qHeads
      (written fp.toFp row p (moves fp.toFp cuda c [kv]).2.1).cache row
      (toSidecar (moves fp.toFp cuda c [kv]).1.opened (moves fp.toFp cuda c [kv]).1.recent)
      (p.closedPages + (moves fp.toFp cuda c [kv]).2.1.length) x.scale o.workspace = .ok run :=
    (onlineDecodeAttention_ok dt _ _ _ _ _ _ _ hl (toSidecar_wf (moves fp.toFp cuda c [kv]).1)
      (recentK_moves_ne c) hq).imp fun _ h => h.1
  refine ⟨fast', run, ⟨putView o.out (q0 * (x.qHeads * D)) ((x.chunk H D reqId row q0).copyRows
    (viewAt o.out (q0 * (x.qHeads * D))) 0 1 run.out), run.workspace⟩, happend, hrun, ?_, rfl,
    fun a hge => ?_⟩
  · unfold attendToken
    rw [EStateM.run_bind, happend']
    dsimp only
    rw [EStateM.run_bind, EStateM.run_get]
    dsimp only
    rw [hquery]
    exact ofExcept_run hrun _ _
  · exact storeBlock_of_ge _ _ _ (by rw [Nat.zero_mul, Nat.zero_add]; exact hge)

end Steps

section Prompt

variable {Q : Type} {H D : ℕ} (toB : EReal → Bf16) (ofB : Bf16 → ℝ) (toF : Q → ℝ) (ofF : EReal → Q)

/-- The score of a token that is not compressed, as `_fwd_kernel` computes it. -/
noncomputable def rawScore (q : QueryPtr Q) (scale : ℝ) (h : ℕ) (g : Fin H) (kv : KV H D) : ℝ :=
  scale * rcpLn2 * Real.log ((2 : ℚ) : ℝ)
    * ∑ e : Fin D, toF (q.mem (q.ptr + h * D + e)) * ofB (kv.1 g e)

/-- The most a key that a row may not see weighs, next to one of score 0. -/
noncomputable def maskLeak : ℝ := Real.exp (-((10 ^ 8 : ℚ) : ℝ) * Real.log ((2 : ℚ) : ℝ))

theorem maskLeak_eq : maskLeak = Real.exp (-(10 ^ 8) * Real.log 2) := by
  unfold maskLeak
  push_cast
  rfl

/-- A row of outputs is near softmax attention of a query over the tokens `kvs` of a prompt. -/
def PromptRow {qHeads : ℕ} (hq : H ∣ qHeads) (q : QueryPtr Q) (scale u η : ℝ) (block : ℕ)
    (prompt kvs : List (KV H D)) (row : ℕ → Q) : Prop :=
  ∀ (h : ℕ) (hh : h < qHeads) (d : Fin D) (V : ℝ),
    (∀ kv ∈ prompt, |ofB (kv.2 ⟨h / (qHeads / H), kvHead_lt hq hh⟩ d)| ≤ V) →
    ∃ y : ℝ, row (h * D + d) = ofF y ∧
      |y - attend (rawScore ofB toF q scale h ⟨h / (qHeads / H), kvHead_lt hq hh⟩)
          (fun kv => ofB (kv.2 ⟨h / (qHeads / H), kvHead_lt hq hh⟩ d)) kvs|
        ≤ u * V + η * (prompt.length * V)
          + (V + V) * (block * maskLeak / (kvs.map fun kv => Real.exp
            (rawScore ofB toF q scale h ⟨h / (qHeads / H), kvHead_lt hq hh⟩ kv)).sum)

theorem PromptRow.congr {toF : Q → ℝ} {ofB : Bf16 → ℝ} {ofF : EReal → Q} {qHeads : ℕ}
    {hq : H ∣ qHeads} {q : QueryPtr Q} {scale u η : ℝ} {block : ℕ} {prompt kvs : List (KV H D)}
    {row row' : ℕ → Q} (h : PromptRow ofB toF ofF hq q scale u η block prompt kvs row)
    (hrow : ∀ k < qHeads * D, row' k = row k) :
    PromptRow ofB toF ofF hq q scale u η block prompt kvs row' := by
  intro hd hh d V hV
  obtain ⟨y, hy, hle⟩ := h hd hh d V hV
  exact ⟨y, (hrow _ (mul_add_lt hh d.2)).trans hy, hle⟩

variable {x : Pass EReal Q} {q0 : ℕ} {chunk : List (KV H D)}

theorem Rows.get_drop {E : Type} (x : Rows E) (start t h d : ℕ) :
    (x.drop start).get t h d = x.get (start + t) h d := by
  have haddr : x.ptr + start * x.strideBs + (t * x.strideBs + h * x.strideH + d)
      = x.ptr + ((start + t) * x.strideBs + h * x.strideH + d) := by ring
  exact congrArg x.mem haddr

variable (chunk) in
/-- The values a prompt attends to are those of its tokens. -/
theorem promptValue_contextCall (hq : H ∣ x.qHeads) {h : ℕ} (hh : h < x.qHeads) (d : Fin D)
    (t : ℕ) :
    promptValue ofB (x.contextCall H D q0 chunk.length) 0 h d t
      = ofB ((x.token H D (q0 + t)).2 ⟨h / (x.qHeads / H), kvHead_lt hq hh⟩ d) := by
  have hget : promptValue ofB (x.contextCall H D q0 chunk.length) 0 h d t
      = ofB ((x.value.drop q0).get (0 + t) (h / (x.qHeads / H)) d) := rfl
  rw [hget, Rows.get_drop, Nat.zero_add]
  rfl

variable (chunk) in
/-- So are the scores, for query `i` of the prompt. -/
theorem promptScore_contextCall (hq : H ∣ x.qHeads) (scale : ℝ) {h : ℕ} (hh : h < x.qHeads)
    (i t : ℕ) :
    promptScore toF ofB (x.contextCall H D q0 chunk.length) scale 0 h i t
      = rawScore ofB toF ⟨x.query, (q0 + i) * (x.qHeads * D)⟩ scale h
        ⟨h / (x.qHeads / H), kvHead_lt hq hh⟩ (x.token H D (q0 + t)) := by
  set c := x.contextCall H D q0 chunk.length with hc
  refine congrArg (scale * rcpLn2 * Real.log ((2 : ℚ) : ℝ) * ·)
    (Finset.sum_congr rfl fun e _ => ?_)
  have hk : c.k.get (c.bStartLoc 0 + t) (h / (c.qHeads / c.kvHeads)) e
      = x.key.get (q0 + t) (h / (x.qHeads / H)) e := by
    have hget : c.k.get (c.bStartLoc 0 + t) (h / (c.qHeads / c.kvHeads)) e
      = (x.key.drop q0).get (0 + t) (h / (x.qHeads / H)) e := rfl
    rw [hget, Rows.get_drop, Nat.zero_add]
  have hqe : c.q.get (c.bStartLoc 0 + i) h e
      = x.query ((q0 + i) * (x.qHeads * D) + h * D + e) := by
    have hget : c.q.get (c.bStartLoc 0 + i) h e
      = x.query (q0 * (x.qHeads * D) + ((0 + i) * (x.qHeads * D) + h * D + e)) := rfl
    rw [hget]
    congr 1
    ring
  rw [hk, hqe]
  rfl

/-- The rows of a prompt. -/
theorem prompt_near {scale u η : ℝ} (hblock : 0 < x.block) (hq : H ∣ x.qHeads)
    (hscale : x.scale = scale) (hround : RoundsWeights ofB toB u η)
    (hchunk : chunk = (List.range chunk.length).map fun t => x.token H D (q0 + t))
    (view : ℕ → Q) {i : ℕ} (hi : i < chunk.length) :
    PromptRow ofB toF ofF hq ⟨x.query, (q0 + i) * (x.qHeads * D)⟩ scale u η x.block chunk
      (chunk.take (i + 1)) fun k =>
        storeAll view (contextAttentionFwd (realPrefillFp toB ofB) (realQ toF ofF)
          ⟨(realPrefillFp toB ofB).ofB, (realPrefillFp toB ofB).toB⟩ x.block
          (x.contextCall H D q0 chunk.length)) (i * (x.qHeads * D) + k) := by
  intro h hh d V hV
  set c := x.contextCall H D q0 chunk.length with hc
  have hmem : ∀ t < chunk.length, x.token H D (q0 + t) ∈ chunk := by
    intro t ht
    rw [hchunk]
    exact List.mem_map_of_mem (List.mem_range.2 ht)
  have htake : chunk.take (i + 1) = (List.range (i + 1)).map fun t => x.token H D (q0 + t) := by
    conv_lhs => rw [hchunk]
    rw [← List.map_take, List.take_range, Nat.min_eq_left hi]
  obtain ⟨y, hy, hle⟩ := contextAttentionFwd_near toB ofB toF ofF ofB toB (b := 0) (i := i)
    (h := h) (d := d) (V := V)
    (x.contextCall_valid H D q0 chunk.length) hblock hscale hround view Nat.zero_lt_one hi hh
    d.2 fun t ht => by
      rw [promptValue_contextCall ofB chunk hq hh]
      exact hV _ (hmem t ht)
  refine ⟨y, ?_, ?_⟩
  · rw [← hy]
    refine congrArg _ ?_
    have haddr : (c.bStartLoc 0 + i) * (c.qHeads * c.headDim) + (h * c.headDim + d)
      = (0 + i) * (x.qHeads * D) + (h * D + d) := rfl
    rw [haddr, Nat.zero_add]
  · have htokens : promptTokens c 0 i = List.range (i + 1) := rfl
    rw [htokens, funext (promptScore_contextCall ofB toF chunk hq scale hh i),
      funext (promptValue_contextCall ofB chunk hq hh d)] at hle
    rw [htake, attend_map, List.map_map, maskLeak_eq, ← two_mul]
    exact hle

end Prompt

section Exact

variable {Q : Type} {H D : ℕ} (toB : EReal → Bf16) (ofB : Bf16 → ℝ) (toF : Q → ℝ) (ofF : EReal → Q)

/-- What row `i` of the new tokens `chunk` of a request holds after the step, if the request had the
tokens `xs` before it. -/
def AttendedRow (x : Pass EReal Q) (hq : H ∣ x.qHeads) (scale u η : ℝ) (q0 : ℕ) (contextLen : ℤ)
    (xs chunk : List (KV H D)) (out : ℕ → Q) (i : ℕ) : Prop :=
  if contextLen = 0 ∧ 1 < chunk.length then
    PromptRow ofB toF ofF hq ⟨x.query, (q0 + i) * (x.qHeads * D)⟩ scale u η x.block chunk
      (chunk.take (i + 1)) fun k => out ((q0 + i) * (x.qHeads * D) + k)
  else
    ServedRow toB ofB toF ofF hq ⟨x.query, (q0 + i) * (x.qHeads * D)⟩ scale
      (xs ++ chunk.take (i + 1)) fun k => out ((q0 + i) * (x.qHeads * D) + k)

theorem AttendedRow.congr {toB : EReal → Bf16} {ofB : Bf16 → ℝ} {toF : Q → ℝ} {ofF : EReal → Q}
    {x : Pass EReal Q} {hq : H ∣ x.qHeads} {scale u η : ℝ} {q0 : ℕ} {contextLen : ℤ}
    {xs chunk : List (KV H D)} {out out' : ℕ → Q} {i : ℕ}
    (h : AttendedRow toB ofB toF ofF x hq scale u η q0 contextLen xs chunk out i)
    (hout : ∀ k < x.qHeads * D, out' ((q0 + i) * (x.qHeads * D) + k)
      = out ((q0 + i) * (x.qHeads * D) + k)) :
    AttendedRow toB ofB toF ofF x hq scale u η q0 contextLen xs chunk out' i := by
  unfold AttendedRow at h ⊢
  split_ifs at h ⊢
  · exact h.congr hout
  · exact h.congr hout

variable {toB ofB toF ofF} {x : Pass EReal Q} {cuda : Bool} {reqId : String} {row : List ℕ} {q0 : ℕ}
  {chunk : List (KV H D)} {o o' : Filled EReal Q} {c : Tracked H D EReal} {cache : Cache ℕ}
  {fast : Option (Fast EReal)} {s : Live H D EReal ℕ} {layout' : Rabit2PageLayout} {scale u η : ℝ}

/-- A chunk through the Stage 3C paths. -/
theorem chunk_served (hl : runtimeInit H D D = .ok (pageLayout groupSize H D D))
    (ho : onlineInit H D D = .ok layout') (hq : H ∣ x.qHeads) (hscale : x.scale = scale)
    (hwidth : cache.width = (pageLayout groupSize H D D).pageBytes)
    (hstored : Stored (realFp toB ofB).toFp cache row c.pages) (hnodup : row.Nodup)
    {xs : List (KV H D)} (hplain : c.Plain (ageKV (realFp toB ofB).toFp) groupSize_pos xs)
    (hfit : Fits row c.pages.length (c.pub.batch (ageKV (realFp toB ofB).toFp) chunk).2)
    (hfills : Filled.Fills D x q0 chunk.length o o' (chunkRows (realFp toB ofB) (realQ toF ofF)
      (x.chunk H D reqId row q0) c.pub ⟨c.pages.length, cache⟩ chunk
      (viewAt o.out (q0 * (x.qHeads * D)))))
    {i : ℕ} (hi : i < chunk.length) :
    ServedRow toB ofB toF ofF hq ⟨x.query, (q0 + i) * (x.qHeads * D)⟩ scale
      (xs ++ chunk.take (i + 1)) fun k => o'.out ((q0 + i) * (x.qHeads * D) + k) := by
  have hpub : c.pub = (seqWin (realFp toB ofB).toFp xs).1 := congrArg Prod.fst hplain
  have hpages : c.pages = (seqWin (realFp toB ofB).toFp xs).2 := congrArg Prod.snd hplain
  have hwritten := hstored.write hnodup hfit
  have hwin : (seqWin (realFp toB ofB).toFp (xs ++ chunk)).2
      = c.pages ++ (c.pub.batch (ageKV (realFp toB ofB).toFp) chunk).2 := by
    rw [seqWin_append, hpub, hpages]
  rw [← hwin] at hwritten
  have hwidth' : (written (realFp toB ofB).toFp row ⟨c.pages.length, cache⟩
      (c.pub.batch (ageKV (realFp toB ofB).toFp) chunk).2).cache.width
      = (pageLayout groupSize H D D).pageBytes := hwidth
  have hrow : ServedRow toB ofB toF ofF hq ((x.chunk H D reqId row q0).query i) scale _ _ :=
    query_served hl ho hq hscale hwidth' hwritten hi
  have hquery : (x.chunk H D reqId row q0).query i = ⟨x.query, (q0 + i) * (x.qHeads * D)⟩ := by
    rw [Nat.add_mul]
    rfl
  rw [hquery] at hrow
  refine hrow.congr fun k hk => ?_
  rw [hfills.eq_view, ← hpub, ← hpages]
  exact fillRows_row hi hk

/-- One token through decode attention. -/
theorem token_served (hl : runtimeInit H D D = .ok (pageLayout groupSize H D D))
    (ho : onlineInit H D D = .ok layout') (hq : H ∣ x.qHeads) (hscale : x.scale = scale)
    (hwidth : cache.width = (pageLayout groupSize H D D).pageBytes)
    (hstored : Stored (realFp toB ofB).toFp cache row c.pages) (hnodup : row.Nodup)
    {xs : List (KV H D)} {kv : KV H D}
    (hfit : Fits row c.pages.length (moves (realFp toB ofB).toFp cuda c [kv]).2.1)
    (hnext : (follow (realFp toB ofB).toFp cuda c [kv]).Plain (ageKV (realFp toB ofB).toFp)
      groupSize_pos (xs ++ [kv])) {run : DecodeRun EReal Q}
    (hrun : onlineDecodeAttention (realFp toB ofB) (realQ toF ofF) (x.junk reqId 0)
      (pageLayout groupSize H D D) ⟨x.query, q0 * (x.qHeads * D)⟩ x.qHeads
      (written (realFp toB ofB).toFp row ⟨c.pages.length, cache⟩
        (moves (realFp toB ofB).toFp cuda c [kv]).2.1).cache row
      (toSidecar (moves (realFp toB ofB).toFp cuda c [kv]).1.opened
        (moves (realFp toB ofB).toFp cuda c [kv]).1.recent)
      (c.pages.length + (moves (realFp toB ofB).toFp cuda c [kv]).2.1.length) x.scale o.workspace
      = .ok run)
    (hfills : Filled.Fills D x q0 1 o o' ((x.chunk H D reqId row q0).copyRows
      (viewAt o.out (q0 * (x.qHeads * D))) 0 1 run.out)) :
    ServedRow toB ofB toF ofF hq ⟨x.query, q0 * (x.qHeads * D)⟩ scale (xs ++ [kv])
      fun k => o'.out (q0 * (x.qHeads * D) + k) := by
  have hpub : (moves (realFp toB ofB).toFp cuda c [kv]).1
    = (seqWin (realFp toB ofB).toFp (xs ++ [kv])).1 := congrArg Prod.fst hnext
  have hpages : c.pages ++ (moves (realFp toB ofB).toFp cuda c [kv]).2.1
    = (seqWin (realFp toB ofB).toFp (xs ++ [kv])).2 := congrArg Prod.snd hnext
  have hwritten := hstored.write hnodup hfit
  have hwidth' : (written (realFp toB ofB).toFp row ⟨c.pages.length, cache⟩
      (moves (realFp toB ofB).toFp cuda c [kv]).2.1).cache.width
      = (pageLayout groupSize H D D).pageBytes := hwidth
  rw [hpages] at hwritten
  rw [← List.length_append, hpages, hpub, hscale] at hrun
  obtain ⟨run', hrun', hrow⟩ := decode_served toB ofB toF ofF hl ho hq hwidth' (by simp) hwritten
    (x.junk reqId 0) ⟨x.query, q0 * (x.qHeads * D)⟩ scale o.workspace
  have hsame : run = run' := Except.ok.inj (hrun.symm.trans hrun')
  subst hsame
  refine hrow.congr fun k hk => ?_
  have hview := hfills.eq_view 0 k
  rw [Nat.add_zero] at hview
  rw [hview]
  have hlane : k < 1 * (x.qHeads * D) := by rwa [Nat.one_mul]
  exact storeBlock_lane _ _ hlane rfl

/-- The step of a request whose pages fit its table comes through. It updates the runtime as
`advance` does, writes the rows of its own tokens only, and attends to the tokens of the request. -/
theorem attendStep_run (hl : runtimeInit H D D = .ok (pageLayout groupSize H D D))
    (ho : onlineInit H D D = .ok layout') (hq : H ∣ x.qHeads) (hheads : 0 < x.qHeads)
    (hblock : 0 < x.block) (himpl : x.impl.Valid) (hscale : x.scale = scale)
    (hround : RoundsWeights ofB toB u η)
    (hchunk : chunk = (List.range chunk.length).map fun t => x.token H D (q0 + t))
    (hne : chunk ≠ []) (hwidth : cache.width = (pageLayout groupSize H D D).pageBytes)
    (hfast : Option.Rel FastRep fast c.copy)
    (hfit : Fits row c.pages.length (moves (realFp toB ofB).toFp cuda c chunk).2.1)
    (contextLen : ℤ) (o : Filled EReal Q) :
    ∃ o' s, (attendStep (realPrefillFp toB ofB) (realQ toF ofF) cuda x reqId row q0 chunk contextLen
        o).run ⟨hold c.pub ⟨c.pages.length, cache⟩, fast⟩ = .ok o' s ∧
      (advance (realFp toB ofB).toFp (x.fast reqId) cuda row contextLen chunk).run
        ⟨hold c.pub ⟨c.pages.length, cache⟩, fast⟩ = .ok () s ∧
      (∃ view, Filled.Fills D x q0 chunk.length o o' view) ∧
      (row.Nodup → Stored (realFp toB ofB).toFp cache row c.pages →
        ∀ xs, c.Plain (ageKV (realFp toB ofB).toFp) groupSize_pos xs →
        (follow (realFp toB ofB).toFp cuda c chunk).Plain (ageKV (realFp toB ofB).toFp)
          groupSize_pos (xs ++ chunk) →
        ∀ i < chunk.length,
          AttendedRow toB ofB toF ofF x hq scale u η q0 contextLen xs chunk o'.out i) := by
  have ha := (runtimeInit_ok hl).2.1
  have hD := (runtimeInit_ok hl).2.2.2.1
  set p : Physical ℕ := ⟨c.pages.length, cache⟩ with hpdef
  have hp : p.cache.width = (pageLayout groupSize H D D).pageBytes := hwidth
  unfold attendStep
  by_cases hlong : 1 < chunk.length
  · have hbatch : Fits row p.closedPages
        (c.pub.batch (ageKV (realPrefillFp toB ofB).toFp) chunk).2 := by
      rwa [moves, Copied.moved_batch _ fun hc => absurd hc.2.1 hlong.ne'] at hfit
    by_cases h0 : contextLen = 0
    · rw [if_pos ⟨h0, hlong⟩]
      obtain ⟨o', hrun, hfills⟩ := attendPrompt_run (realPrefillFp toB ofB) (realQ toF ofF) ha hp
        hblock (Nat.mul_pos hheads hD) hbatch fast o
      refine ⟨o', _, hrun, advance_long ha hp c.pub _ hlong hbatch contextLen fast,
        ⟨_, hfills⟩, ?_⟩
      intro _ _ xs _ _ i hi
      rw [AttendedRow, if_pos ⟨h0, hlong⟩, funext (hfills.eq_view i)]
      exact prompt_near toB ofB toF ofF hblock hq hscale hround hchunk _ hi
    · rw [if_neg fun hc => h0 hc.1, if_pos hlong]
      obtain ⟨o', hrun, hfills⟩ := attendChunk_run (realPrefillFp toB ofB) (realQ toF ofF) cuda
        reqId ha hp hl hq himpl hne hbatch o
      refine ⟨o', _, onHeld_run hrun fast,
        advance_long ha hp c.pub _ hlong hbatch contextLen fast, ⟨_, hfills⟩, ?_⟩
      intro hnodup hstored xs hplain _ i hi
      rw [AttendedRow, if_neg fun hc => h0 hc.1]
      exact chunk_served hl ho hq hscale hwidth hstored hnodup hplain hbatch hfills hi
  · obtain ⟨kv, rfl⟩ : ∃ kv, chunk = [kv] := by
      refine List.length_eq_one_iff.1 ?_
      have := List.length_pos_of_ne_nil hne
      omega
    rw [if_neg fun hc => hlong hc.2, if_neg hlong]
    obtain ⟨fast', run, o', happend, hone, hrun, hfills⟩ := attendToken_run
      (realPrefillFp toB ofB) (realQ toF ofF) x reqId q0 ha hp hl hq hfast hfit o
    refine ⟨o', _, hrun, ?_, ⟨_, hfills⟩, ?_⟩
    · rw [advance_one]
      exact happend
    · intro hnodup hstored xs hplain hnext i hi
      obtain rfl : i = 0 := Nat.lt_one_iff.1 hi
      have hall : [kv].take (0 + 1) = [kv] := rfl
      rw [AttendedRow, if_neg fun hc => hlong hc.2, Nat.add_zero, hall]
      exact token_served hl ho hq hscale hwidth hstored hnodup hfit hnext hone hfills

end Exact

end RabitKV
