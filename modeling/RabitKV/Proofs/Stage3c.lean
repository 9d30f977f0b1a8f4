import RabitKV.Proofs.ChunkPlan
import RabitKV.Proofs.Tiles

/-!
# The tiled paths refine the reference path

All paths build the same plan and then expose the same states, query by query (`stepped`). The
partials of a query over those states (`queryPartial`) and its output row (`queryRow`) are what the
reference call leaves (`referenceLoop_run`) and what its tile leaves (`tileLoop_run`), whatever the
tensors they allocate held.
-/

namespace RabitKV

open Stores Chunks Window

section Plan

variable {F : Type} (fp : Fp F Bf16) {H D : ℕ}

/-- A plan that was built, whatever became of the cache. -/
theorem chunkPlan_ok {ι : Type} [DecidableEq ι] (row : List ι) (w : SeqWin H D F)
    {kvs : List (KV H D)} (hne : kvs ≠ []) (p : Physical ι) :
    (∃ e, (chunkPlan fp row (kvs.map Prod.fst) (kvs.map Prod.snd)).run (hold w p)
      = .error e (hold w p)) ∨
    ∃ cache, (chunkPlan fp row (kvs.map Prod.fst) (kvs.map Prod.snd)).run (hold w p)
      = .ok (planOf fp w p.closedPages kvs 0) (hold w ⟨p.closedPages, cache⟩) := by
  rw [chunkPlan_eq fp row w hne p]
  rcases planPages fp row (toAll (w.entries (ageKV fp) kvs)) p with e | cache
  · exact Or.inl ⟨e, rfl⟩
  · exact Or.inr ⟨cache, rfl⟩

variable (w : SeqWin H D F) (closed : ℕ) (cache : Cache ℕ) {kvs : List (KV H D)} {m : ℕ}

/-- The schedule predicts the page count of every step. -/
theorem stepped_closedPages (hm : m < kvs.length) (done : ℕ) :
    (stepped fp w closed cache kvs (m + 1)).rest.closedPages
      = chunkClosedPagesAfter (planOf fp w closed kvs done) m := by
  have hpages : (w.batch (ageKV fp) (kvs.take (m + 1))).2.length
      = (w.opened.length + w.leaving (kvs.take (m + 1))) / groupSize := by
    rw [Win.batch_pages, length_chunks, w.length_entries]
  change closed + _ = closed + _
  rw [hpages, w.leaving_take kvs hm]
  rfl

theorem stepped_wf (m : ℕ) : (stepped fp w closed cache kvs m).side.WF := toSidecar_wf _

theorem stepped_recent (hm : m < kvs.length) :
    (stepped fp w closed cache kvs (m + 1)).side.recentK ≠ none := by
  have hlen : 0 < (w.batch (ageKV fp) (kvs.take (m + 1))).1.recent.length := by
    rw [Win.batch_recent, List.length_drop, w.leaving_take kvs hm, List.length_append,
      List.length_take]
    unfold residualTokens
    omega
  have hne : (w.batch (ageKV fp) (kvs.take (m + 1))).1.recent.map Prod.fst ≠ [] :=
    List.ne_nil_of_length_pos (by rwa [List.length_map])
  rw [stepped, hold, toSidecar_recentK, optList_of_ne_nil hne]
  exact Option.some_ne_none _

end Plan

section Query

variable {F Q : Type} (fp : AttnFp F) (dt : QDtype F Q) {H D : ℕ} (c : Chunk H D F Q)
  (w : SeqWin H D F) (closed : ℕ) (cache : Cache ℕ) (kvs : List (KV H D))

/-- The closed pages query `i` sees. -/
def visiblePages (i : ℕ) : ℕ := (stepped fp.toFp w closed cache kvs (i + 1)).rest.closedPages

/-- The partials of query `i`. -/
def queryPartial (i : ℕ) : ℕ → ℕ → Partial F :=
  segmentPartial fp dt (c.query i) c.qHeads cache c.row
    (stepped fp.toFp w closed cache kvs (i + 1)).side (visiblePages fp w closed cache kvs i)
    c.softmaxScale

/-- The output row of query `i`. -/
def queryRow (i k : ℕ) : Q :=
  dt.ofF (mergedOut fp (visiblePages fp w closed cache kvs i + 1)
    (nextPowerOf2 (visiblePages fp w closed cache kvs i + 1))
    (fun s => queryPartial fp dt c w closed cache kvs i s (k / D)) (k % D))

/-- The attention call of the reference loop for query `i`. -/
theorem attention_query (hl : runtimeInit H D D = .ok c.layout) (hq : H ∣ c.qHeads)
    {i : ℕ} (hi : i < kvs.length) (ws : Option (Workspace F)) :
    ∃ run, onlineDecodeAttention fp dt (c.junk i) c.layout (c.query i) c.qHeads
        (stepped fp.toFp w closed cache kvs (i + 1)).rest.cache c.row
        (stepped fp.toFp w closed cache kvs (i + 1)).side (visiblePages fp w closed cache kvs i)
        c.softmaxScale ws = .ok run ∧
      (∀ s < visiblePages fp w closed cache kvs i + 1, ∀ qh < c.qHeads,
        SlotsHold (reduceArgs (visiblePages fp w closed cache kvs i + 1) c.qHeads D) qh run.partials
          s (queryPartial fp dt c w closed cache kvs i s qh)) ∧
      ∀ k < c.rowSize, run.out k = queryRow fp dt c w closed cache kvs i k := by
  obtain ⟨run, hrun, hstores, hpartials, hout⟩ := onlineDecodeAttention_ok dt (c.junk i) (c.query i)
    cache c.row (visiblePages fp w closed cache kvs i) c.softmaxScale ws hl
    (stepped_wf fp.toFp w closed cache (i + 1)) (stepped_recent fp.toFp w closed cache hi) hq
  have hhold : ∀ s < visiblePages fp w closed cache kvs i + 1, ∀ qh < c.qHeads,
      SlotsHold (reduceArgs (visiblePages fp w closed cache kvs i + 1) c.qHeads D) qh run.partials
        s (queryPartial fp dt c w closed cache kvs i s qh) := by
    intro s hs qh hqh
    rw [hpartials, hstores]
    exact slotsHold_grid _ hs hqh
  refine ⟨run, hrun, hhold, fun k hk => ?_⟩
  have hD : 0 < D := Nat.pos_of_mul_pos_left (Nat.lt_of_le_of_lt (Nat.zero_le k) hk)
  have hqh : k / D < c.qHeads := Nat.div_lt_of_lt_mul (by rwa [Nat.mul_comm])
  have hmod : k % D < D := Nat.mod_lt k hD
  have hrow : storeAll (c.junk i).out (reducePartialsKernel fp dt
      (reduceArgs (visiblePages fp w closed cache kvs i + 1) c.qHeads D) run.partials 0 c.qHeads)
      (k / D * D + k % D) = _ := out_reduce fp dt (c.junk i).out run.partials hqh hmod
  rw [Nat.div_add_mod'] at hrow
  rw [hout, hrow, queryRow, reduceOut_eq_merged fp (fun s hs => hhold s hs _ hqh) hmod]
  rfl

end Query

section Loops

variable {F Q : Type} {fp : AttnFp F} {dt : QDtype F Q} {H D : ℕ} {c : Chunk H D F Q}
  {w : SeqWin H D F} {closed : ℕ} {cache : Cache ℕ} {kvs : List (KV H D)}

variable (fp dt w closed cache) in
/-- The reference loop leaves the partials and the row of every query. -/
theorem referenceLoop_run (hl : runtimeInit H D D = .ok c.layout) (hq : H ∣ c.qHeads) :
    ∀ (count first : ℕ), first + count = kvs.length →
      ∀ (out : ℕ → Q) (ws : Option (Workspace F)), ∃ runs ws',
        (referenceLoop fp dt c first count (planOf fp.toFp w closed kvs first) out ws).run
            (stepped fp.toFp w closed cache kvs first)
          = .ok ⟨runs,
              fillRows c.rowSize (queryRow fp dt c w closed cache kvs) first kvs.length out, ws'⟩
            (stepped fp.toFp w closed cache kvs kvs.length) ∧
        ∀ i < count, ∃ run, runs[i]?
            = some ⟨visiblePages fp w closed cache kvs (first + i), run⟩ ∧
          ∀ s < visiblePages fp w closed cache kvs (first + i) + 1, ∀ qh < c.qHeads,
            SlotsHold (reduceArgs (visiblePages fp w closed cache kvs (first + i) + 1) c.qHeads D)
              qh run.partials s (queryPartial fp dt c w closed cache kvs (first + i) s qh)
  | 0, first, hlast, out, ws => by
    obtain rfl : first = kvs.length := hlast
    refine ⟨[], ws, ?_, fun i hi => absurd hi (Nat.not_lt_zero i)⟩
    rw [referenceLoop, fillRows_self]
    rfl
  | count + 1, first, hlast, out, ws => by
    have hfirst : first < kvs.length := by omega
    obtain ⟨run, hrun, hhold, hrow⟩ := attention_query fp dt c w closed cache kvs hl hq hfirst ws
    have hcopy : c.copyRows out first 1 run.out
        = fillRows c.rowSize (queryRow fp dt c w closed cache kvs) first (first + 1) out :=
      storeBlock_eq_fillRows out fun j hj k hk => by
        obtain rfl : j = 0 := by omega
        rw [Nat.zero_mul, Nat.zero_add, Nat.add_zero, hrow k hk]
    obtain ⟨runs, ws', hrest, hruns⟩ := referenceLoop_run hl hq count (first + 1) (by omega)
      (fillRows c.rowSize (queryRow fp dt c w closed cache kvs) first (first + 1) out) run.workspace
    rw [fillRows_fillRows (Nat.le_succ first) hfirst] at hrest
    refine ⟨⟨visiblePages fp w closed cache kvs first, run⟩ :: runs, ws', ?_, fun i hi => ?_⟩
    · rw [referenceLoop, EStateM.run_bind, applyStep_run fp.toFp w closed cache hfirst]
      simp only [EStateM.run_bind, EStateM.run_get]
      rw [visiblePages] at hrun
      simp only [hrun, hcopy, EStateM.run_bind, hrest]
      rfl
    · rcases i with _ | i
      · exact ⟨run, rfl, hhold⟩
      · obtain ⟨run', hget, hhold'⟩ := hruns i (by omega)
        rw [Nat.add_right_comm, Nat.add_assoc] at hget hhold'
        exact ⟨run', hget, hhold'⟩

variable (fp dt c w closed cache kvs) in
/-- The stores of the tail partials of query `j` of a tile. -/
def tailStores (tile : Tile) (j : ℕ) : List (Slot × F) :=
  ((List.range c.qHeads).map fun qh =>
    (j * ((tile.closed + 1) * c.qHeads) + (tile.closed * c.qHeads + qh),
      queryPartial fp dt c w closed cache kvs (tile.start + j) tile.closed qh)).flatMap
        (partialStores D)

theorem Chunk.query_add (c : Chunk H D F Q) (i j : ℕ) :
    c.query (i + j) = (c.query i).advance (j * c.rowSize) := by
  simp [Chunk.query, QueryPtr.advance, Nat.add_mul, Nat.add_assoc]

variable {tile : Tile}

/-- The steps of a tile emit the tail partials of its queries and follow the schedule. -/
theorem tileTails_run (hl : runtimeInit H D D = .ok c.layout) (hq : H ∣ c.qHeads)
    (diverged : String)
    (hsame : ∀ i, tile.start ≤ i → i < tile.stop →
      visiblePages fp w closed cache kvs i = tile.closed)
    (hstop : tile.stop ≤ kvs.length) :
    ∀ (count j : ℕ), tile.start + j + count = tile.stop → ∀ ws : Option (Workspace F), ∃ ws',
      (tileTails fp dt c diverged tile j count
          (planOf fp.toFp w closed kvs (tile.start + j)) ws).run
          (stepped fp.toFp w closed cache kvs (tile.start + j))
        = .ok ((List.range' j count).flatMap (tailStores fp dt c w closed cache kvs tile),
            planOf fp.toFp w closed kvs tile.stop, ws')
          (stepped fp.toFp w closed cache kvs tile.stop)
  | 0, j, hlast, ws => ⟨ws, by
    rw [← hlast]
    rfl⟩
  | count + 1, j, hlast, ws => by
    obtain ⟨-, -, hH, hD, hdim⟩ := runtimeInit_ok hl
    have hj : tile.start + j < kvs.length := by omega
    have hpages := hsame (tile.start + j) (Nat.le_add_right _ _) (by omega)
    have htail : ∃ ws₁, emitTailPartial fp dt (c.junk (tile.start + j)).workspace
        (c.query (tile.start + j)) c.qHeads
        (stepped fp.toFp w closed cache kvs (tile.start + j + 1)).side
        (PartialPtrs.tile ⟨0, 0, 0⟩ D ((tile.closed + 1) * c.qHeads) j) tile.closed
        c.softmaxScale ws
        = .ok (tailStores fp dt c w closed cache kvs tile j, ws₁) := by
      simp only [tailStores, queryPartial, hpages, tilePtrs_eq]
      exact emitTailPartial_segment dt (c.query (tile.start + j)) cache c.row tile.closed
        c.softmaxScale ws hH hD hdim (stepped_wf fp.toFp w closed cache (tile.start + j + 1))
        (stepped_recent fp.toFp w closed cache hj) hq (c.junk (tile.start + j)).workspace
        (j * ((tile.closed + 1) * c.qHeads))
    obtain ⟨ws₁, htail⟩ := htail
    obtain ⟨ws', hrest⟩ := tileTails_run hl hq diverged hsame hstop count (j + 1) (by omega) ws₁
    refine ⟨ws', ?_⟩
    rw [tileTails, EStateM.run_bind, applyStep_run fp.toFp w closed cache hj]
    simp only [EStateM.run_bind, EStateM.run_get]
    rw [visiblePages] at hpages
    rw [if_neg (not_not.2 hpages), htail]
    rw [Nat.add_assoc]
    simp only [EStateM.run_bind, hrest]
    rfl

/-- The stores of a tile are the partials of its queries. -/
theorem tileStores_perm (hl : runtimeInit H D D = .ok c.layout) (hq : H ∣ c.qHeads)
    (h4 : 4 ∣ c.qHeads / H) {n : ℕ}
    (hsame : ∀ j < n, visiblePages fp w closed cache kvs (tile.start + j) = tile.closed) :
    (tile32ClosedPagePartialKernel fp dt (tileLaunch c cache tile) tile.closed
          (H * (c.qHeads / H / 4)) n
        ++ (List.range n).flatMap (tailStores fp dt c w closed cache kvs tile)).Perm
      ((tilePartials n (tile.closed + 1) c.qHeads fun j =>
        queryPartial fp dt c w closed cache kvs (tile.start + j)).flatMap (partialStores D)) := by
  obtain ⟨hlayout, -⟩ := runtimeInit_ok hl
  have hconsts : (tileLaunch c cache tile).consts = pageParams c.qHeads H D := by
    rw [tileLaunch, hlayout]
    rfl
  have hgroups : H * (c.qHeads / H / 4) * 4 = c.qHeads := by
    rw [Nat.mul_assoc, Nat.div_mul_cancel h4, Nat.mul_div_cancel' hq]
  have hpages : (tile32ClosedPagePartialKernel fp dt (tileLaunch c cache tile) tile.closed
      (H * (c.qHeads / H / 4)) n).Perm ((List.range n).flatMap fun j =>
        (gridPartials (j * ((tile.closed + 1) * c.qHeads)) tile.closed c.qHeads
          (queryPartial fp dt c w closed cache kvs (tile.start + j))).flatMap
            (partialStores D)) := by
    refine (tile32Kernel_perm fp dt n (by rw [hconsts]; exact le_nextPowerOf2 D)
      (by rw [hconsts]; exact h4) (by rw [hconsts]; exact hgroups)).trans
        (List.Perm.of_eq (List.flatMap_congr fun j hj => ?_))
    rw [queryPartial, hsame j (List.mem_range.1 hj), gridPartials_pages, hconsts, c.query_add]
    rfl
  refine ((hpages.append_right _).trans (List.flatMap_append_perm _ _ _)).trans (List.Perm.of_eq ?_)
  rw [tilePartials, List.flatMap_assoc]
  refine List.flatMap_congr fun j _ => ?_
  rw [gridPartials_succ, List.flatMap_append]
  rfl

/-- The rows a tile copies out are the rows of its queries. -/
theorem copyRows_tile (hle : tile.start ≤ tile.stop)
    (hsame : ∀ j < tile.stop - tile.start,
      visiblePages fp w closed cache kvs (tile.start + j) = tile.closed)
    {stores : List (Slot × F)}
    (hstores : stores.Perm ((tilePartials (tile.stop - tile.start) (tile.closed + 1) c.qHeads
      fun j => queryPartial fp dt c w closed cache kvs (tile.start + j)).flatMap (partialStores D)))
    (mem : Slot → F) (outTile out : ℕ → Q) :
    c.copyRows out tile.start (tile.stop - tile.start)
        (storeAll outTile (tile32ReducePartialsKernel fp dt
          (reduceArgs (tile.closed + 1) c.qHeads D) (storeAll mem stores)
          ((tile.closed + 1) * c.qHeads) c.rowSize c.qHeads (tile.stop - tile.start)))
      = fillRows c.rowSize (queryRow fp dt c w closed cache kvs) tile.start tile.stop out := by
  have hstop : tile.start + (tile.stop - tile.start) = tile.stop := Nat.add_sub_cancel' hle
  refine (storeBlock_eq_fillRows out fun j hj k hk => ?_).trans (by rw [hstop])
  rw [queryRow, hsame j hj]
  exact out_tile fp dt hstores mem outTile hj hk

/-- A tile without closed pages launches no page kernel, and the kernel would store nothing. -/
theorem launch_eq {kernel : TileKernel F Q} (hkernel : ∀ a closed qgroups n,
      kernel a closed qgroups n = tile32ClosedPagePartialKernel fp dt a closed qgroups n)
    {a : TileLaunch F Q} {n qgroups : ℕ} :
    (if tile.closed ≠ 0 then kernel a tile.closed qgroups n else [])
      = tile32ClosedPagePartialKernel fp dt a tile.closed qgroups n := by
  split_ifs with h0
  · exact hkernel _ _ _ _
  · rw [not_not.1 h0]
    rfl

variable (fp dt c w closed cache kvs) in
/-- The buffers of a tile hold the partials of its queries. -/
structure TileHolds (r : TileRun F) : Prop where
  stores : r.stores.Perm ((tilePartials (r.tile.stop - r.tile.start) (r.tile.closed + 1) c.qHeads
    fun j => queryPartial fp dt c w closed cache kvs (r.tile.start + j)).flatMap (partialStores D))
  partials : ∃ mem, r.partials = storeAll mem r.stores

variable (fp dt w closed cache) in
/-- The tiled loop leaves the partials and the row of every query. -/
theorem tileLoop_run (hl : runtimeInit H D D = .ok c.layout) (hq : H ∣ c.qHeads)
    (h4 : 4 ∣ c.qHeads / H) (diverged : String) {kernel : TileKernel F Q}
    (hkernel : ∀ a closed qgroups n, kernel a closed qgroups n
      = tile32ClosedPagePartialKernel fp dt a closed qgroups n) :
    ∀ (tiles : List Tile) (first : ℕ),
      TilesCover (visiblePages fp w closed cache kvs) first kvs.length tiles →
      ∀ (out : ℕ → Q) (ws : Option (Workspace F)), ∃ runs ws',
        (tileLoop fp dt c kernel diverged tiles (planOf fp.toFp w closed kvs first) out ws).run
            (stepped fp.toFp w closed cache kvs first)
          = .ok ⟨runs,
              fillRows c.rowSize (queryRow fp dt c w closed cache kvs) first kvs.length out, ws'⟩
            (stepped fp.toFp w closed cache kvs kvs.length) ∧
        runs.map TileRun.tile = tiles ∧
        ∀ r ∈ runs, TileHolds fp dt c w closed cache kvs r
  | [], first, hcover, out, ws => by
    obtain rfl : first = kvs.length := hcover
    refine ⟨[], ws, ?_, rfl, fun r hr => absurd hr List.not_mem_nil⟩
    rw [tileLoop, fillRows_self]
    rfl
  | tile :: tiles, _, ⟨rfl, hlt, _, hsame, hcover⟩, out, ws => by
    have hstop : tile.stop ≤ kvs.length := hcover.le
    have htails : ∃ ws₁, (tileTails fp dt c diverged tile 0 (tile.stop - tile.start)
        (planOf fp.toFp w closed kvs tile.start) ws).run
          (stepped fp.toFp w closed cache kvs tile.start)
        = .ok ((List.range (tile.stop - tile.start)).flatMap
            (tailStores fp dt c w closed cache kvs tile),
            planOf fp.toFp w closed kvs tile.stop, ws₁)
          (stepped fp.toFp w closed cache kvs tile.stop) := by
      rw [List.range_eq_range']
      exact tileTails_run hl hq diverged hsame hstop (tile.stop - tile.start) 0 (by omega) ws
    obtain ⟨ws₁, htails⟩ := htails
    have hsame' : ∀ j < tile.stop - tile.start,
        visiblePages fp w closed cache kvs (tile.start + j) = tile.closed :=
      fun j hj => hsame (tile.start + j) (Nat.le_add_right _ _) (by omega)
    set stores := tile32ClosedPagePartialKernel fp dt (tileLaunch c cache tile) tile.closed
        (H * (c.qHeads / H / 4)) (tile.stop - tile.start)
      ++ (List.range (tile.stop - tile.start)).flatMap
        (tailStores fp dt c w closed cache kvs tile) with hdef
    have hstores : stores.Perm _ := tileStores_perm hl hq h4 hsame'
    have hcopy := copyRows_tile hlt.le hsame' hstores (c.junk tile.start).partials
      (c.junk tile.start).out out
    obtain ⟨runs, ws', hrest, htiles, hruns⟩ := tileLoop_run hl hq h4 diverged hkernel tiles
      tile.stop hcover
      (fillRows c.rowSize (queryRow fp dt c w closed cache kvs) tile.start tile.stop out) ws₁
    rw [fillRows_fillRows hlt.le hstop] at hrest
    refine ⟨⟨tile, stores, storeAll (c.junk tile.start).partials stores⟩ :: runs, ws', ?_, ?_,
      List.forall_mem_cons.2 ⟨⟨hstores, _, rfl⟩, hruns⟩⟩
    · rw [tileLoop]
      simp only [EStateM.run_bind, EStateM.run_get, htails]
      have hcache : (stepped fp.toFp w closed cache kvs tile.start).rest.cache = cache := rfl
      rw [hcache, launch_eq hkernel, ← hdef, hcopy]
      simp only [hrest]
      rfl
    · rw [List.map_cons, htiles]

end Loops

section Refinement

variable {F Q : Type} (fp : AttnFp F) (dt : QDtype F Q) {H D : ℕ} (c : Chunk H D F Q)

/-- A tiled run against the reference run of a chunk of `n` tokens. -/
structure SameRun (closedAfter : ℕ → ℕ) (n : ℕ) (ref : Forwarded (QueryRun F Q) F Q)
    (run : Forwarded (TileRun F) F Q) : Prop where
  out : run.out = ref.out
  cover : TilesCover closedAfter 0 n (run.runs.map TileRun.tile)
  once : ∀ r ∈ run.runs, ∀ s, (r.stores.map Prod.fst).count s
    = if s.Below D ((r.tile.stop - r.tile.start) * ((r.tile.closed + 1) * c.qHeads)) then 1 else 0
  partials : ∀ r ∈ run.runs, ∀ j < r.tile.stop - r.tile.start, ∃ x,
    ref.runs[r.tile.start + j]? = some x ∧ x.closed = r.tile.closed ∧
    ∀ s < r.tile.closed + 1, ∀ qh < c.qHeads, ∃ p,
      SlotsHold (reduceArgs (r.tile.closed + 1) c.qHeads D) qh x.run.partials s p ∧
      SlotsHold { reduceArgs (r.tile.closed + 1) c.qHeads D with
        ptrs := PartialPtrs.tile ⟨0, 0, 0⟩ D ((r.tile.closed + 1) * c.qHeads) j } qh r.partials s p

/-- A tiled path against the reference path: both raise what building the plan raises, or both run
to the same state. -/
def SameAsReference (kvs : List (KV H D)) (out : ℕ → Q) (ws : Option (Workspace F))
    (forward : SideM H D F (Physical ℕ) (Option (Forwarded (TileRun F) F Q)))
    (s : Held H D F (Physical ℕ)) : Prop :=
  let reference := forwardReference fp dt c (kvs.map Prod.fst) (kvs.map Prod.snd) out ws
  match (chunkPlan fp.toFp c.row (kvs.map Prod.fst) (kvs.map Prod.snd)).run s with
  | .error e s' => reference.run s = .error e s' ∧ forward.run s = .error e s'
  | .ok plan _ => ∃ ref run s', reference.run s = .ok ref s' ∧ forward.run s = .ok (some run) s' ∧
      SameRun c (chunkClosedPagesAfter plan) kvs.length ref run

variable {fp dt c} {w : SeqWin H D F} {kvs : List (KV H D)}

theorem sameRun_of_holds {closed : ℕ} {cache : Cache ℕ} {closedAfter : ℕ → ℕ} {out : ℕ → Q}
    {xs : List (QueryRun F Q)} {rs : List (TileRun F)} {ws ws' : Option (Workspace F)}
    (hcover : TilesCover closedAfter 0 kvs.length (rs.map TileRun.tile))
    (hsame : TilesCover (visiblePages fp w closed cache kvs) 0 kvs.length (rs.map TileRun.tile))
    (hxs : ∀ i < kvs.length, ∃ run,
      xs[i]? = some ⟨visiblePages fp w closed cache kvs (0 + i), run⟩ ∧
      ∀ s < visiblePages fp w closed cache kvs (0 + i) + 1, ∀ qh < c.qHeads,
        SlotsHold (reduceArgs (visiblePages fp w closed cache kvs (0 + i) + 1) c.qHeads D) qh
          run.partials s (queryPartial fp dt c w closed cache kvs (0 + i) s qh))
    (hrs : ∀ r ∈ rs, TileHolds fp dt c w closed cache kvs r) :
    SameRun c closedAfter kvs.length ⟨xs, out, ws⟩ ⟨rs, out, ws'⟩ := by
  refine ⟨rfl, hcover, fun r hr => count_tileStores (hrs r hr).stores, fun r hr j hj => ?_⟩
  obtain ⟨hstop, hclosed⟩ := hsame.of_mem (List.mem_map_of_mem hr)
  obtain ⟨run, hget, hhold⟩ := hxs (r.tile.start + j) (by omega)
  rw [Nat.zero_add, hclosed (r.tile.start + j) (Nat.le_add_right _ _) (by omega)] at hget hhold
  refine ⟨_, hget, rfl, fun s hs qh hqh => ⟨_, hhold s hs qh hqh, ?_⟩⟩
  obtain ⟨mem, hmem⟩ := (hrs r hr).partials
  rw [hmem]
  exact tile_holds (hrs r hr).stores mem hj hs hqh

/-- Both tiled paths past their checks. -/
theorem forwardTiles_same (hl : runtimeInit H D D = .ok c.layout) (hq : H ∣ c.qHeads)
    (h4 : 4 ∣ c.qHeads / H) (hne : kvs ≠ []) (p : Physical ℕ) (junk : ℕ → Uninit F Q)
    (out : ℕ → Q) (ws ws' : Option (Workspace F)) (diverged : String) {kernel : TileKernel F Q}
    (hkernel : ∀ a closed qgroups n, kernel a closed qgroups n
      = tile32ClosedPagePartialKernel fp dt a closed qgroups n) :
    SameAsReference fp dt c kvs out ws (some <$> forwardTiles fp dt { c with junk := junk } kernel
      diverged (kvs.map Prod.fst) (kvs.map Prod.snd) out ws') (hold w p) := by
  unfold SameAsReference
  rcases chunkPlan_ok fp.toFp c.row w hne p with ⟨e, hplan⟩ | ⟨cache, hplan⟩
  · rw [hplan]
    refine ⟨?_, ?_⟩
    · rw [forwardReference, EStateM.run_bind, hplan]
    · rw [EStateM.run_map, forwardTiles, EStateM.run_bind, hplan]
      rfl
  · rw [hplan]
    have hcover : TilesCover (visiblePages fp w p.closedPages cache kvs) 0 kvs.length
        (tile32Tiles ((List.range kvs.length).map
          (chunkClosedPagesAfter (planOf fp.toFp w p.closedPages kvs 0)))) :=
      (tile32Tiles_cover _ _).congr fun i hi =>
        (stepped_closedPages fp.toFp w p.closedPages cache hi 0).symm
    obtain ⟨xs, ws₁, href, hxs⟩ := referenceLoop_run fp dt w p.closedPages cache hl hq kvs.length 0
      (Nat.zero_add _) out ws
    obtain ⟨rs, ws₂, htiles, hmap, hrs⟩ := tileLoop_run (c := { c with junk := junk }) fp dt w
      p.closedPages cache hl hq h4 diverged hkernel _ 0 hcover out ws'
    rw [stepped_zero] at href htiles
    let rows := fillRows c.rowSize (queryRow fp dt c w p.closedPages cache kvs) 0 kvs.length out
    refine ⟨⟨xs, rows, ws₁⟩, ⟨rs, rows, ws₂⟩, stepped fp.toFp w p.closedPages cache kvs kvs.length,
      ?_, ?_, sameRun_of_holds ?_ ?_ hxs fun r hr => ⟨(hrs r hr).stores, (hrs r hr).partials⟩⟩
    · rw [forwardReference, EStateM.run_bind, hplan, List.length_map]
      exact href
    · rw [EStateM.run_map, forwardTiles, EStateM.run_bind, hplan, List.length_map]
      simp only [htiles]
      rfl
    · rw [hmap]
      exact tile32Tiles_cover _ _
    · rw [hmap]
      exact hcover

variable (fp dt c kvs) in
/-- The tiled prefill paths leave what the reference path leaves, whatever the tensors either of
them allocates held and whatever workspace it starts with. -/
theorem stage3c_same_as_reference (hl : runtimeInit H D D = .ok c.layout) (hq : c.qHeads % H = 0)
    (h4 : c.qHeads / H % 4 = 0) {side : Sidecar H D F} (hside : side.WF) (closedPages : ℕ)
    (cache : Cache ℕ) (hlen : 2 ≤ kvs.length) (junk : ℕ → Uninit F Q) (out : ℕ → Q)
    (ws ws' : Option (Workspace F)) :
    SameAsReference fp dt c kvs out ws (forwardTile32 fp dt { c with junk := junk } true
      (kvs.map Prod.fst) (kvs.map Prod.snd) out ws') ⟨side, closedPages, cache⟩ ∧
    ∀ queryBlock ∈ queryBlocks,
      SameAsReference fp dt c kvs out ws (forwardSharedDecode fp dt { c with junk := junk } true
        queryBlock (kvs.map Prod.fst) (kvs.map Prod.snd) out ws') ⟨side, closedPages, cache⟩ := by
  obtain ⟨w, rfl⟩ := hside.exists_win
  have hq' : H ∣ c.qHeads := Nat.dvd_of_mod_eq_zero hq
  have h4' : 4 ∣ c.qHeads / H := Nat.dvd_of_mod_eq_zero h4
  have hne : kvs ≠ [] := List.ne_nil_of_length_pos (by omega)
  have hgate : ¬ ((kvs.map Prod.fst).length ≤ 1 ∨ true = false ∨
      tile32Supported c.qHeads H = false) := by
    simp [tile32Supported, hq, h4]
    omega
  constructor
  · unfold forwardTile32
    rw [if_neg hgate]
    exact forwardTiles_same hl hq' h4' hne _ junk out ws ws' _ fun _ _ _ _ => rfl
  · intro queryBlock hblock
    have hpos : 0 < queryBlock := by
      revert queryBlock
      decide
    unfold forwardSharedDecode
    rw [if_neg hgate, if_neg (not_not.2 hblock)]
    exact forwardTiles_same hl hq' h4' hne _ junk out ws ws' _
      fun a closed qgroups n => sharedDecode_eq_tile32 fp dt a closed qgroups n hpos

theorem SameAsReference.returns {forward : SideM H D F (Physical ℕ) _}
    {s s' : Held H D F (Physical ℕ)} {plan : ChunkPlan H D F} {out : ℕ → Q}
    {ws : Option (Workspace F)} (h : SameAsReference fp dt c kvs out ws forward s)
    (hplan : (chunkPlan fp.toFp c.row (kvs.map Prod.fst) (kvs.map Prod.snd)).run s = .ok plan s') :
    ∃ ref run s'', (forwardReference fp dt c (kvs.map Prod.fst) (kvs.map Prod.snd) out ws).run s
        = .ok ref s'' ∧ forward.run s = .ok (some run) s'' ∧
      SameRun c (chunkClosedPagesAfter plan) kvs.length ref run := by
  unfold SameAsReference at h
  rwa [hplan] at h

end Refinement

/-- Four query heads of size 64 over one KV head; what is allocated holds `x` throughout. -/
noncomputable def fourHeads (x : EReal) : Chunk 1 64 EReal EReal where
  layout := pageLayout groupSize 1 64 64
  q := ⟨fun a => a, 0⟩
  qHeads := 4
  row := [5, 0]
  softmaxScale := 1
  junk := fun _ => ⟨fun _ => x, fun _ => x, usedWorkspace⟩

/-- Forty tokens after one closed page, two open tokens and four recent ones: the chunk closes a
page. -/
theorem stage3c_same_as_reference_page_closed :
    ∃ ref run s, (forwardReference bfloatFp ⟨id, id⟩ (fourHeads 0)
          ((rampTokens 1 64 40).map Prod.fst) ((rampTokens 1 64 40).map Prod.snd) (fun _ => 0)
          none).run ⟨twoOpenTokens, 1, stripedCache⟩ = .ok ref s ∧
      (forwardTile32 bfloatFp ⟨id, id⟩ (fourHeads 1) true
          ((rampTokens 1 64 40).map Prod.fst) ((rampTokens 1 64 40).map Prod.snd) (fun _ => 0)
          (some usedWorkspace)).run ⟨twoOpenTokens, 1, stripedCache⟩ = .ok (some run) s ∧
      run.out = ref.out := by
  have hinit : runtimeInit 1 64 64 = .ok (fourHeads 0).layout := rfl
  have hlen : 2 ≤ (rampTokens 1 64 40).length := by simp [rampTokens]
  have hne : rampTokens 1 64 40 ≠ [] := List.ne_nil_of_length_pos (by omega)
  obtain ⟨plan, s', hplan⟩ := chunkPlan_returns bfloatFp.toFp (fourHeads 0).row
    (runtimeInit_ok hinit).2.1 twoOpenTokens_wf 1 (show stripedCache.width = _ from rfl) hne
    (by decide)
  -- Only the number of tokens mattered: the rest holds of any chunk that has a plan.
  generalize rampTokens 1 64 40 = kvs at *
  have hboth := stage3c_same_as_reference bfloatFp ⟨id, id⟩ (fourHeads 0) kvs hinit rfl rfl
    twoOpenTokens_wf 1 stripedCache hlen (fourHeads 1).junk (fun _ => 0) none (some usedWorkspace)
  obtain ⟨ref, run, s, href, hrun, hsame⟩ := hboth.1.returns hplan
  exact ⟨ref, run, s, href, hrun, hsame.out⟩

end RabitKV
