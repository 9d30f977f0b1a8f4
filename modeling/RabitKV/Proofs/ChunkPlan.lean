import RabitKV.ChunkPlan
import RabitKV.Proofs.Bulk

/-!
# The chunk plan exposes the token-by-token states

A plan is built from the window's entries. After `m` steps its slices are the window of the first
`m` tokens, and the pages that are then closed are the first ones the plan has written.
-/

namespace RabitKV

open Chunks Window

section Slices

variable {α β : Type}

theorem sliceOpt_map {start stop : ℕ} (f : α → β) (l : List α) (h : stop ≤ l.length) :
    sliceOpt start stop (l.map f) = optList (((l.take stop).drop start).map f) := by
  unfold sliceOpt
  split_ifs with hlt
  · rw [optList_of_ne_nil, List.map_drop, List.map_take]
    intro hnil
    have hlen := congrArg List.length hnil
    rw [List.length_map, List.length_drop, List.length_take, List.length_nil] at hlen
    omega
  · rw [List.drop_of_length_le (by rw [List.length_take]; omega)]
    rfl

end Slices

section Steps

variable {F ι : Type} (fp : Fp F Bf16) {H D : ℕ}

/-- The plan of a chunk after `done` steps. -/
def planOf (w : SeqWin H D F) (closed : ℕ) (kvs : List (KV H D)) (done : ℕ) : ChunkPlan H D F where
  numTokens := kvs.length
  initClosed := closed
  initOpenLen := w.opened.length
  initRecentLen := w.recent.length
  combinedK := (w.recent ++ kvs).map Prod.fst
  combinedV := (w.recent ++ kvs).map Prod.snd
  all := toAll (w.entries (ageKV fp) kvs)
  lastStep := done - 1

/-- The state `m` tokens of a chunk leave when the cache holds `cache`. -/
def stepped (w : SeqWin H D F) (closed : ℕ) (cache : Cache ι) (kvs : List (KV H D)) (m : ℕ) :
    Held H D F (Physical ι) :=
  hold (w.batch (ageKV fp) (kvs.take m)).1
    ⟨closed + (w.batch (ageKV fp) (kvs.take m)).2.length, cache⟩

theorem stepped_zero (w : SeqWin H D F) (closed : ℕ) (cache : Cache ι) (kvs : List (KV H D)) :
    stepped fp w closed cache kvs 0 = hold w ⟨closed, cache⟩ := by
  rw [stepped, List.take_zero, w.batch_nil]
  rfl

/-- After step `m` the slices are the window of the first `m + 1` tokens. -/
theorem applyStep_run (w : SeqWin H D F) (closed : ℕ) (cache : Cache ι) {kvs : List (KV H D)}
    {m : ℕ} (hm : m < kvs.length) :
    (applyStep (planOf fp w closed kvs m) m).run (stepped fp w closed cache kvs m)
      = .ok (planOf fp w closed kvs (m + 1)) (stepped fp w closed cache kvs (m + 1)) := by
  have hm' : m + 1 ≤ kvs.length := hm
  have hleave := w.leaving_take kvs hm'
  have hent := w.entries_take (ageKV fp) kvs hm'
  have hlen := w.length_entries (ageKV fp) (kvs.take (m + 1))
  have hle : w.opened.length + w.leaving (kvs.take (m + 1))
      ≤ (w.entries (ageKV fp) kvs).length := by
    have hcut := congrArg List.length hent
    rw [hlen, List.length_take] at hcut
    omega
  have hrecent : (w.recent ++ kvs).take (w.recent.length + (m + 1))
      = w.recent ++ kvs.take (m + 1) := List.take_length_add_append _
  have hend : w.recent.length + (m + 1) ≤ (w.recent ++ kvs).length := by
    rw [List.length_append]
    omega
  have hpages : (w.opened.length + w.leaving (kvs.take (m + 1))) / groupSize
      = (w.batch (ageKV fp) (kvs.take (m + 1))).2.length := by
    rw [Win.batch_pages, length_chunks, hlen]
  have hopen : ∀ {β : Type} (f : Aged H D F → β),
      sliceOpt ((w.batch (ageKV fp) (kvs.take (m + 1))).2.length * groupSize)
          (w.opened.length + w.leaving (kvs.take (m + 1))) ((w.entries (ageKV fp) kvs).map f)
        = optList ((w.batch (ageKV fp) (kvs.take (m + 1))).1.opened.map f) := fun f => by
    rw [sliceOpt_map f _ hle, ← hent, ← hpages, ← hlen]
    rfl
  have hwait : ∀ f : KV H D → Tok H D Bf16,
      sliceOpt (w.leaving (kvs.take (m + 1))) (w.recent.length + (m + 1))
          ((w.recent ++ kvs).map f)
        = optList ((w.batch (ageKV fp) (kvs.take (m + 1))).1.recent.map f) := fun f => by
    rw [sliceOpt_map f _ hend, hrecent]
    rfl
  have hseq : ¬ ((m : ℤ) ≠ (planOf fp w closed kvs m).lastStep + 1) := by
    simp [planOf]
  have hrange : ¬ m ≥ (planOf fp w closed kvs m).numTokens := Nat.not_le.2 hm
  unfold applyStep
  rw [if_neg hseq]
  simp only [if_neg hrange]
  simp only [planOf, ← hleave, toAll, hpages, hopen, hwait]
  rw [Nat.cast_add, Nat.cast_one, Int.add_sub_cancel]
  rfl

theorem applySteps_run (w : SeqWin H D F) (closed : ℕ) (cache : Cache ι) (kvs : List (KV H D)) :
    ∀ (count first : ℕ), first + count ≤ kvs.length →
      (applySteps first count (planOf fp w closed kvs first)).run
          (stepped fp w closed cache kvs first)
        = .ok (planOf fp w closed kvs (first + count))
            (stepped fp w closed cache kvs (first + count))
  | 0, _, _ => rfl
  | count + 1, first, h => by
    have hstep := applyStep_run fp w closed cache (show first < kvs.length by omega)
    have ih := applySteps_run w closed cache kvs count (first + 1) (by omega)
    rw [applySteps, EStateM.run_bind, hstep]
    rw [Nat.add_right_comm, Nat.add_assoc] at ih
    exact ih

end Steps

section Build

variable {F ι : Type} [DecidableEq ι] (fp : Fp F Bf16) {H D : ℕ} (row : List ι)

theorem encodes_plan (ha : Aligned H D) :
    Encodes (H := H) (D := D) fp
      (encodePageFromPrimary fp planMismatch (pageLayout groupSize H D D)) := fun _ h =>
  encodePageFromPrimary_ok fp ha planMismatch (length_map_of_length Aged.k h)
    (length_map_of_length Aged.vPacked h) (length_map_of_length Aged.vMin h)
    (length_map_of_length Aged.vScale h)

/-- What the plan says of a table that has run out. -/
def planTooShort : String := "RABIT-2 block table is too short for Stage4B4 chunk plan"

theorem planPages_eq (ha : Aligned H D) (es : List (Aged H D F)) {p : Physical ι}
    (hw : p.cache.width = (pageLayout groupSize H D D).pageBytes) :
    planPages fp row (toAll es) p
      = if chunks groupSize es = [] ∨ p.closedPages + (chunks groupSize es).length ≤ row.length then
          .ok (written fp row p (chunks groupSize es)).cache
        else .error planTooShort := by
  unfold planPages
  simp only [length_toAll_k]
  rw [writeFullPages_eq fp ha (encodes_plan fp ha) _ row es p hw]
  by_cases h0 : es.length / groupSize = 0
  · have hnil : chunks groupSize es = [] :=
      List.eq_nil_of_length_eq_zero ((length_chunks _ _).trans h0)
    rw [if_pos h0, if_pos (Or.inl hnil), hnil, written_nil]
  · have hne : chunks groupSize es ≠ [] := fun h => h0 (by rw [← length_chunks, h]; rfl)
    rw [if_neg h0]
    by_cases hlong : p.closedPages + (chunks groupSize es).length ≤ row.length
    · rw [if_pos hlong, if_pos (Or.inr hlong)]
    · rw [if_neg hlong, if_neg (not_or.2 ⟨hne, hlong⟩)]
      rfl

/-- Building a plan changes the cache at most. -/
theorem chunkPlan_eq (w : SeqWin H D F) {kvs : List (KV H D)} (hne : kvs ≠ []) (p : Physical ι) :
    (chunkPlan fp row (kvs.map Prod.fst) (kvs.map Prod.snd)).run (hold w p)
      = match planPages fp row (toAll (w.entries (ageKV fp) kvs)) p with
        | .error e => .error e (hold w p)
        | .ok cache => .ok (planOf fp w p.closedPages kvs 0) (hold w ⟨p.closedPages, cache⟩) := by
  have hkeys : (kvs.map Prod.fst).length = (kvs.map Prod.snd).length := by
    rw [List.length_map, List.length_map]
  have hlen : ¬ (kvs.map Prod.fst).length = 0 := by simpa using hne
  have hcat : ∀ f : KV H D → Tok H D Bf16,
      catOpt (optList (w.recent.map f)) (kvs.map f) = (w.recent ++ kvs).map f := fun f => by
    rw [catOpt_optList, List.map_append]
  have hleave : (w.recent ++ kvs).length - residualTokens = w.leaving kvs := rfl
  have hent : w.opened ++ ((w.recent ++ kvs).take (w.leaving kvs)).map (ageKV fp)
      = w.entries (ageKV fp) kvs := rfl
  unfold chunkPlan
  rw [if_neg (not_not.2 hkeys)]
  simp only [if_neg hlen, EStateM.run_bind, EStateM.run_get]
  simp only [hold, toSidecar_recentK, toSidecar_recentV, toSidecar_openK, hcat, List.length_map,
    hleave, ← List.map_take, allEntries_eq, hent, lenOpt_optList]
  rcases planPages fp row (toAll (w.entries (ageKV fp) kvs)) p with e | cache
  · rfl
  · rfl

/-- Building a plan writes the chunk's pages and changes nothing else, or raises and changes
nothing. -/
theorem chunkPlan_run (ha : Aligned H D) (w : SeqWin H D F) {kvs : List (KV H D)} (hne : kvs ≠ [])
    {p : Physical ι} (hw : p.cache.width = (pageLayout groupSize H D D).pageBytes) :
    (chunkPlan fp row (kvs.map Prod.fst) (kvs.map Prod.snd)).run (hold w p)
      = if (w.batch (ageKV fp) kvs).2 = [] ∨
            p.closedPages + (w.batch (ageKV fp) kvs).2.length ≤ row.length then
          .ok (planOf fp w p.closedPages kvs 0)
            (hold w ⟨p.closedPages, (written fp row p (w.batch (ageKV fp) kvs).2).cache⟩)
        else .error planTooShort (hold w p) := by
  rw [chunkPlan_eq fp row w hne, planPages_eq fp row ha _ hw, Win.batch_pages]
  split_ifs
  · rfl
  · rfl

end Build

section Causal

variable {F ι : Type} [DecidableEq ι] (fp : Fp F Bf16) {H D : ℕ} {row : List ι}

/-- Pages written after a block was closed leave it alone. -/
theorem written_append_rows (hrow : row.Nodup) {p : Physical ι} {ps : List (List (Aged H D F))}
    (qs : List (List (Aged H D F))) (hlong : p.closedPages + ps.length ≤ row.length) {id : ι}
    (hid : id ∈ row.take (p.closedPages + ps.length)) :
    (written fp row p (ps ++ qs)).cache.rows id = (written fp row p ps).cache.rows id := by
  obtain ⟨i, hi⟩ := List.mem_iff_getElem?.1 hid
  rw [List.getElem?_take] at hi
  split_ifs at hi with hlt
  rw [written_append fp qs hlong]
  exact written_rows_of_lt fp hrow qs hlt hi

theorem pages_take (w : SeqWin H D F) (kvs : List (KV H D)) (m : ℕ) :
    ∃ qs, (w.batch (ageKV fp) kvs).2 = (w.batch (ageKV fp) (kvs.take m)).2 ++ qs := by
  have h := w.batch_append (ageKV fp) (kvs.take m) (kvs.drop m)
  rw [List.take_append_drop] at h
  exact ⟨_, congrArg Prod.snd h⟩

theorem lenOpt_openK (w : SeqWin H D F) :
    lenOpt (toSidecar w.opened w.recent).openK = w.opened.length := by
  rw [toSidecar_openK, lenOpt_optList, List.length_map]

theorem lenOpt_recentK (w : SeqWin H D F) :
    lenOpt (toSidecar w.opened w.recent).recentK = w.recent.length := by
  rw [toSidecar_recentK, lenOpt_optList, List.length_map]

/-- How many pages a chunk fills. -/
theorem length_batch_pages (age : KV H D → Aged H D F) (w : SeqWin H D F) (kvs : List (KV H D)) :
    (w.batch age kvs).2.length
      = (lenOpt (toSidecar w.opened w.recent).openK
        + (lenOpt (toSidecar w.opened w.recent).recentK + kvs.length - residualTokens))
          / groupSize := by
  rw [Win.batch_pages, length_chunks, w.length_entries, lenOpt_openK, lenOpt_recentK,
    Win.leaving, List.length_append]

variable (row) in
/-- A plan is built if the block table has room for the chunk's pages. -/
theorem chunkPlan_returns (ha : Aligned H D) {side : Sidecar H D F} (hside : side.WF)
    (closedPages : ℕ) {cache : Cache ι}
    (hwidth : cache.width = (pageLayout groupSize H D D).pageBytes) {kvs : List (KV H D)}
    (hne : kvs ≠ [])
    (hlong : closedPages + (lenOpt side.openK
      + (lenOpt side.recentK + kvs.length - residualTokens)) / groupSize ≤ row.length) :
    ∃ plan s, (chunkPlan fp row (kvs.map Prod.fst) (kvs.map Prod.snd)).run
      ⟨side, closedPages, cache⟩ = .ok plan s := by
  obtain ⟨w, rfl⟩ := hside.exists_win
  have hplan := chunkPlan_run fp row ha w hne (p := ⟨closedPages, cache⟩) hwidth
  rw [if_pos (Or.inr (by rw [length_batch_pages]; exact hlong))] at hplan
  exact ⟨_, _, hplan⟩

/-- Building a plan writes only the blocks of the chunk's pages. After each step the sidecar, the
page count and the closed pages are those of the token-by-token append. -/
theorem chunkPlan_steps_eq_append {layout : Rabit2PageLayout}
    (hr : runtimeInit H D D = .ok layout) (cuda : Bool) {side : Sidecar H D F} (hside : side.WF)
    (closedPages : ℕ) (cache : Cache ι) (hwidth : cache.width = layout.pageBytes)
    (hrow : row.Nodup) {kvs : List (KV H D)} (hne : kvs ≠ []) {fullPages : ℕ}
    (hfull : fullPages = (lenOpt side.openK + (lenOpt side.recentK + kvs.length - residualTokens))
      / groupSize)
    (hlong : closedPages + fullPages ≤ row.length) :
    ∃ plan cache', (chunkPlan fp row (kvs.map Prod.fst) (kvs.map Prod.snd)).run
          ⟨side, closedPages, cache⟩ = .ok plan ⟨side, closedPages, cache'⟩ ∧
      cache'.width = cache.width ∧
      (∀ id, id ∉ (row.drop closedPages).take fullPages → cache'.rows id = cache.rows id) ∧
      ∀ step < kvs.length, ∃ plan' a b,
        (applySteps 0 (step + 1) plan).run ⟨side, closedPages, cache'⟩ = .ok plan' a ∧
        (append fp cuda row ((kvs.take (step + 1)).map Prod.fst)
            ((kvs.take (step + 1)).map Prod.snd)).run ⟨side, closedPages, cache⟩ = .ok () b ∧
        a.side = b.side ∧ a.rest.closedPages = b.rest.closedPages ∧
        ∀ id ∈ row.take a.rest.closedPages, a.rest.cache.rows id = b.rest.cache.rows id := by
  obtain ⟨rfl, ha, -⟩ := runtimeInit_ok hr
  obtain ⟨w, rfl⟩ := hside.exists_win
  have hpages := (length_batch_pages (ageKV fp) w kvs).trans hfull.symm
  have hplan := chunkPlan_run fp row ha w hne (p := ⟨closedPages, cache⟩) hwidth
  rw [if_pos (Or.inr (by rw [hpages]; exact hlong))] at hplan
  refine ⟨_, _, hplan, rfl, ?_, ?_⟩
  · intro id hid
    exact written_rows_of_notMem fp (by rwa [hpages])
  · intro step hstep
    obtain ⟨qs, hqs⟩ := pages_take fp w kvs (step + 1)
    have hfit : closedPages + (w.batch (ageKV fp) (kvs.take (step + 1))).2.length
        ≤ row.length := by
      have hlen := congrArg List.length hqs
      rw [List.length_append] at hlen
      omega
    have hrun := applySteps_run fp w closedPages
      (written fp row ⟨closedPages, cache⟩ (w.batch (ageKV fp) kvs).2).cache kvs (step + 1) 0
      (by omega)
    rw [stepped_zero, Nat.zero_add] at hrun
    refine ⟨_, _, _, hrun, append_run fp cuda row ha w _ hwidth (Or.inr hfit), rfl, rfl, ?_⟩
    intro id hid
    refine (congrArg (fun ps => (written fp row ⟨closedPages, cache⟩ ps).cache.rows id)
      hqs).trans ?_
    exact written_append_rows fp hrow qs hfit hid

theorem chunkPlan_steps_eq_append_one_head :
    threeRecent.side.WF ∧ ([2, 0, 1] : List (Fin 3)).Nodup ∧ 1 + 1 ≤ [2, 0, 1].length ∧
      ∃ plan cache', (chunkPlan ratFp [2, 0, 1] ((rampTokens 1 64 40).map Prod.fst)
          ((rampTokens 1 64 40).map Prod.snd)).run threeRecent
            = .ok plan ⟨threeRecent.side, 1, cache'⟩ ∧
        cache'.width = threeRecent.rest.cache.width ∧ cache'.rows 1 = [] := by
  have hwf : threeRecent.side.WF :=
    toSidecar_wf ⟨[], rampTokens 1 64 3, by decide, by simp [rampTokens, residualTokens]⟩
  have hne : rampTokens 1 64 40 ≠ [] := fun h => by
    have hlen := congrArg List.length h
    simp [rampTokens] at hlen
  obtain ⟨plan, cache', h, hwidth, hframe, -⟩ := chunkPlan_steps_eq_append ratFp rfl true hwf 1
    threeRecent.rest.cache rfl (show ([2, 0, 1] : List (Fin 3)).Nodup by decide) hne
    (show 1 = _ by simp [threeRecent, rampTokens, residualTokens, groupSize])
    (by decide)
  exact ⟨hwf, by decide, by decide, plan, cache', h, hwidth, hframe 1 (by decide)⟩

end Causal

end RabitKV
