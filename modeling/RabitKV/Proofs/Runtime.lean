import RabitKV.Runtime
import RabitKV.Proofs.Online

/-!
# The runtime refines the online reference

Closing a group writes its page at the next block of the table (`runtimeEmit`), so `append` leaves
the window of the tokens and a cache with the emitted pages at consecutive blocks (`append_run`).
Blocks are distinct, so a closed page is never written again and no other row is touched.
-/

namespace RabitKV

open Chunks Window Stores

/-- A runtime's layout has passed both checks. -/
theorem runtimeInit_checks {H D : ℕ} {layout : Rabit2PageLayout}
    (h : runtimeInit H D D = .ok layout) :
    rabit2PageLayout groupSize H D D = .ok layout ∧ ∃ r, validateLayout layout = .ok r := by
  unfold runtimeInit at h
  rcases hl : rabit2PageLayout groupSize H D D with e | l
  · rw [hl] at h
    cases h
  · rw [hl] at h
    rcases hv : validateLayout l with e | r
    · simp only [bind, Except.bind, hv] at h
      cases h
    · simp only [bind, Except.bind, hv] at h
      cases h
      exact ⟨rfl, r, hv⟩

/-- A runtime's geometry has whole metadata groups in every page. -/
theorem runtimeInit_ok {H D : ℕ} {layout : Rabit2PageLayout}
    (h : runtimeInit H D D = .ok layout) :
    layout = pageLayout groupSize H D D ∧ Aligned H D ∧ 0 < H ∧ 0 < D ∧ D % groupSize = 0 := by
  obtain ⟨hl, r, hv⟩ := runtimeInit_checks h
  obtain ⟨rfl, -, -, hH, hD, -⟩ := rabit2PageLayout_ok hl
  obtain ⟨-, ha, hmod⟩ := aligned_of_validate hv
  exact ⟨rfl, ha, hH, hD, hmod⟩

/-- What the runtime says of a table that has run out. -/
def tooShort : String := "RABIT-2 block table is too short for a closed page"

section Emit

variable {F ι : Type} [DecidableEq ι] (fp : Fp F Bf16) {H D : ℕ} (row : List ι)

/-- Closing a group writes its page at the next block. -/
def runtimeEmit (es : List (Aged H D F)) (p : Physical ι) : Except String (Physical ι) :=
  match row[p.closedPages]? with
  | none => .error tooShort
  | some id =>
    if p.cache.width ≠ (pageLayout groupSize H D D).pageBytes then
      .error "opaque RABIT-2 KV page size does not match runtime layout"
    else .ok
      { closedPages := p.closedPages + 1
        cache := { p.cache with rows := Function.update p.cache.rows id (pageOfGroup fp es) } }

/-- Pages written at consecutive blocks. -/
def written (p : Physical ι) (ps : List (List (Aged H D F))) : Physical ι :=
  { closedPages := p.closedPages + ps.length
    cache := { p.cache with
      rows := storeAll p.cache.rows ((row.drop p.closedPages).zip (ps.map (pageOfGroup fp))) } }

@[simp] theorem written_closedPages (p : Physical ι) (ps : List (List (Aged H D F))) :
    (written fp row p ps).closedPages = p.closedPages + ps.length := rfl

@[simp] theorem written_width (p : Physical ι) (ps : List (List (Aged H D F))) :
    (written fp row p ps).cache.width = p.cache.width := rfl

@[simp] theorem written_nil (p : Physical ι) : written (H := H) (D := D) fp row p [] = p := by
  simp [written]

theorem written_cons {p : Physical ι} {id : ι} (h : row[p.closedPages]? = some id)
    (es : List (Aged H D F)) (ps : List (List (Aged H D F))) :
    written fp row p (es :: ps) = written fp row
      { closedPages := p.closedPages + 1
        cache := { p.cache with
          rows := Function.update p.cache.rows id (pageOfGroup fp es) } } ps := by
  obtain ⟨hlt, rfl⟩ := List.getElem?_eq_some_iff.1 h
  simp only [written, List.map_cons, List.length_cons, List.drop_eq_getElem_cons hlt,
    List.zip_cons_cons, storeAll_cons]
  congr 1
  omega

/-- Every page of a run is written, or the table has run out. -/
theorem emitAll_runtimeEmit : ∀ (ps : List (List (Aged H D F))) (p : Physical ι),
    p.cache.width = (pageLayout groupSize H D D).pageBytes →
    emitAll (runtimeEmit fp row) ps p
      = if ps = [] ∨ p.closedPages + ps.length ≤ row.length then .ok (written fp row p ps)
        else .error tooShort
  | [], p, _ => by simp [emitAll]
  | es :: ps, p, hw => by
    rw [emitAll, runtimeEmit]
    rcases hrow : row[p.closedPages]? with _ | id
    · rw [List.getElem?_eq_none_iff] at hrow
      rw [if_neg]
      · rfl
      · simp only [List.cons_ne_nil, List.length_cons, false_or]
        omega
    · have hlt := (List.getElem?_eq_some_iff.1 hrow).1
      dsimp only
      rw [if_neg (not_not.2 hw)]
      have ih := emitAll_runtimeEmit ps
        { closedPages := p.closedPages + 1
          cache := { p.cache with
            rows := Function.update p.cache.rows id (pageOfGroup fp es) } } hw
      refine ih.trans ?_
      rw [written_cons fp row hrow]
      rcases ps with _ | ⟨es', ps⟩
      · simp only [List.length_cons, List.length_nil, true_or, if_true]
        rw [if_pos (Or.inr (by omega))]
      · simp only [List.cons_ne_nil, List.length_cons, false_or]
        rw [show p.closedPages + 1 + (ps.length + 1) = p.closedPages + (ps.length + 1 + 1) by omega]

theorem flushOpenPage_closes (ha : Aligned H D) :
    Closes (flushOpenPage (H := H) (D := D) fp row) (runtimeEmit fp row) := by
  intro es recent p h
  have hne : ∀ {α : Type} (f : Aged H D F → α), optList (es.map f) = some (es.map f) :=
    fun f => optList_of_ne_nil (by rw [Ne, List.map_eq_nil_iff]; rintro rfl; cases h)
  have hk := length_map_of_length Aged.k h
  have hok := encodePageFromPrimary_ok fp ha runtimeMismatch hk
    (length_map_of_length Aged.vPacked h) (length_map_of_length Aged.vMin h)
    (length_map_of_length Aged.vScale h)
  have hlen : (pageOfGroup fp es).length = (pageLayout groupSize H D D).pageBytes :=
    length_pageOf fp ha hk (length_map_of_length Aged.vPacked h)
      (length_map_of_length Aged.vMin h) (length_map_of_length Aged.vScale h)
  have hpage : closedPageExact fp (toSidecar es recent) = .ok (pageOfGroup fp es) := by
    simp only [closedPageExact, toSidecar_openK, toSidecar_openVPacked, toSidecar_openVMin,
      toSidecar_openVScale, hne, hk, if_true]
    exact hok
  unfold flushOpenPage runtimeEmit
  simp only [EStateM.run_bind, EStateM.run_get, hpage]
  rcases row[p.closedPages]? with _ | id
  · rfl
  · by_cases hw : p.cache.width = (pageLayout groupSize H D D).pageBytes
    · have hcopy : p.cache.indexCopy [id] [pageOfGroup fp es] = .ok
          { p.cache with rows := Function.update p.cache.rows id (pageOfGroup fp es) } := by
        unfold Cache.indexCopy
        rw [if_pos (by simpa [hw] using hlen)]
        rfl
      simp only [if_neg (not_not.2 hw), hcopy]
      rfl
    · simp only [hw, ne_eq, not_false_eq_true, if_true]
      rfl

end Emit

section Written

variable {F ι : Type} [DecidableEq ι] (fp : Fp F Bf16) {H D : ℕ} {row : List ι}

theorem map_fst_zip_sublist {α β : Type} : ∀ (l : List α) (l' : List β),
    ((l.zip l').map Prod.fst).Sublist l
  | [], _ => by simp
  | _ :: _, [] => by simp
  | a :: l, b :: l' => by simpa using map_fst_zip_sublist l l'

omit [DecidableEq ι] in
theorem nodup_zip_fst {β : Type} (h : row.Nodup) (n : ℕ) (ps : List β) :
    (((row.drop n).zip ps).map Prod.fst).Nodup :=
  ((map_fst_zip_sublist _ _).trans (List.drop_sublist n row)).nodup h

/-- The page at position `closedPages + i` is the `i`-th one written. -/
theorem written_rows_get (hrow : row.Nodup) {p : Physical ι} {ps : List (List (Aged H D F))}
    {i : ℕ} {id : ι} {es : List (Aged H D F)} (hid : row[p.closedPages + i]? = some id)
    (hes : ps[i]? = some es) : (written fp row p ps).cache.rows id = pageOfGroup fp es := by
  refine storeAll_of_mem _ (nodup_zip_fst hrow _ _) ?_
  rw [List.mem_iff_getElem?]
  refine ⟨i, ?_⟩
  rw [List.getElem?_zip_eq_some, List.getElem?_drop, List.getElem?_map]
  exact ⟨hid, by rw [hes]; rfl⟩

/-- Only blocks the new pages go to are written. -/
theorem written_rows_of_notMem {p : Physical ι} {ps : List (List (Aged H D F))} {id : ι}
    (h : id ∉ (row.drop p.closedPages).take ps.length) :
    (written fp row p ps).cache.rows id = p.cache.rows id := by
  refine storeAll_of_notMem _ fun hmem => h ?_
  obtain ⟨⟨a, b⟩, hab, rfl⟩ := List.mem_map.1 hmem
  obtain ⟨i, hi⟩ := List.mem_iff_getElem?.1 hab
  rw [List.getElem?_zip_eq_some] at hi
  refine List.mem_iff_getElem?.2 ⟨i, ?_⟩
  have hlt := (List.getElem?_eq_some_iff.1 hi.2).1
  rw [List.length_map] at hlt
  rw [List.getElem?_take_of_lt hlt]
  exact hi.1

/-- Blocks past the closed pages are not written. -/
theorem written_rows_of_notMem_take {p : Physical ι} {ps : List (List (Aged H D F))} {id : ι}
    (h : id ∉ row.take (p.closedPages + ps.length)) :
    (written fp row p ps).cache.rows id = p.cache.rows id := by
  refine written_rows_of_notMem fp fun hmem => h ?_
  rw [List.take_drop] at hmem
  exact List.mem_of_mem_drop hmem

/-- A block before the next one keeps its page. -/
theorem written_rows_of_lt (hrow : row.Nodup) {p : Physical ι} (ps : List (List (Aged H D F)))
    {i : ℕ} {id : ι} (hi : i < p.closedPages) (hid : row[i]? = some id) :
    (written fp row p ps).cache.rows id = p.cache.rows id := by
  refine written_rows_of_notMem fp fun hmem => ?_
  obtain ⟨j, hj⟩ := List.mem_iff_getElem?.1 (List.mem_of_mem_take hmem)
  rw [List.getElem?_drop] at hj
  have hij := (List.getElem?_inj (List.getElem?_eq_some_iff.1 hid).1 hrow).1 (hid.trans hj.symm)
  omega

theorem written_append (qs : List (List (Aged H D F))) :
    ∀ {ps : List (List (Aged H D F))} {p : Physical ι}, p.closedPages + ps.length ≤ row.length →
      written fp row p (ps ++ qs) = written fp row (written fp row p ps) qs
  | [], _, _ => by simp
  | es :: ps, p, h => by
    rw [List.length_cons] at h
    obtain ⟨id, hrow⟩ : ∃ id, row[p.closedPages]? = some id :=
      ⟨_, List.getElem?_eq_getElem (by omega)⟩
    rw [List.cons_append, written_cons fp row hrow, written_cons fp row hrow]
    exact written_append qs (by rw [Nat.add_assoc, Nat.add_comm 1]; exact h)

end Written

section Append

variable {F ι : Type} [DecidableEq ι] (fp : Fp F Bf16) (cuda : Bool) {H D : ℕ} (row : List ι)

theorem append_eq_appendTokens (kvs : List (KV H D)) :
    append fp cuda row (kvs.map Prod.fst) (kvs.map Prod.snd)
      = appendTokens (F := F) fp cuda (flushOpenPage fp row) kvs := by
  have hzip : (kvs.map Prod.fst).zip (kvs.map Prod.snd) = kvs := by
    rw [List.zip_map', List.map_id'']
    exact fun _ => rfl
  unfold append
  rw [if_neg (by simp), hzip]

/-- `append` leaves the window of the tokens and its pages in the cache. -/
theorem append_run (ha : Aligned H D) (w : SeqWin H D F) (kvs : List (KV H D)) {p : Physical ι}
    (hw : p.cache.width = (pageLayout groupSize H D D).pageBytes)
    (hrow : (w.batch (ageKV fp) kvs).2 = [] ∨
      p.closedPages + (w.batch (ageKV fp) kvs).2.length ≤ row.length) :
    (append fp cuda row (kvs.map Prod.fst) (kvs.map Prod.snd)).run (hold w p)
      = .ok () (hold (w.batch (ageKV fp) kvs).1 (written fp row p (w.batch (ageKV fp) kvs).2)) := by
  rw [append_eq_appendTokens]
  refine (appendTokens_run fp cuda (flushOpenPage_closes fp row ha) kvs w p).1 _ ?_
  rw [emitAll_runtimeEmit fp row _ p hw, if_pos hrow]

/-- `append` raises when the table has no block for a page, and leaves the page open. -/
theorem append_raises (ha : Aligned H D) (w : SeqWin H D F) (kvs : List (KV H D)) {p : Physical ι}
    (hw : p.cache.width = (pageLayout groupSize H D D).pageBytes)
    (hpages : (w.batch (ageKV fp) kvs).2 ≠ [])
    (hrow : row.length < p.closedPages + (w.batch (ageKV fp) kvs).2.length) :
    ∃ st, Jammed st ∧ (append fp cuda row (kvs.map Prod.fst) (kvs.map Prod.snd)).run (hold w p)
      = .error tooShort st := by
  rw [append_eq_appendTokens]
  refine (appendTokens_run fp cuda (flushOpenPage_closes fp row ha) kvs w p).2 _ ?_
  rw [emitAll_runtimeEmit fp row _ p hw, if_neg]
  exact not_or.2 ⟨hpages, by omega⟩

theorem appends_run (ha : Aligned H D) : ∀ (chunks : List (List (KV H D))) (w : SeqWin H D F)
    {p : Physical ι}, p.cache.width = (pageLayout groupSize H D D).pageBytes →
    p.closedPages + (w.batch (ageKV fp) chunks.flatten).2.length ≤ row.length →
    (appends fp cuda row chunks).run (hold w p)
      = .ok () (hold (w.batch (ageKV fp) chunks.flatten).1
          (written fp row p (w.batch (ageKV fp) chunks.flatten).2))
  | [], w, p, _, _ => by
    simp [appends, w.batch_nil]
  | c :: chunks, w, p, hw, hrow => by
    rw [List.flatten_cons, w.batch_append] at hrow ⊢
    rw [List.length_append] at hrow
    rw [appends, EStateM.run_bind, append_run fp cuda row ha w c hw (Or.inr (by omega))]
    simp only
    rw [appends_run ha chunks _ (by simpa using hw) (by rw [written_closedPages]; omega),
      written_append fp _ (by omega)]

end Append

section Refinement

variable {F E ι : Type} (fp : Fp F Bf16) {H D : ℕ} {row : List ι}

theorem tailMaterialize_eq (dt : Dtype F Bf16 E) (es : List (Aged H D F)) (recent : List (KV H D)) :
    tailMaterialize fp dt (toSidecar es recent)
      = .ok ((groupK fp es).map (Tok.map dt.ofF) ++ recent.map fun kv => Tok.map dt.ofB kv.1,
          (groupV fp es).map (Tok.map dt.ofF) ++ recent.map fun kv => Tok.map dt.ofB kv.2) := by
  unfold tailMaterialize
  rw [decodeOpen_eq, recentParts_eq]
  rfl

theorem totalTokens_hold (w : SeqWin H D F) (n : ℕ) :
    totalTokens n (toSidecar w.opened w.recent)
      = n * groupSize + w.opened.length + w.recent.length := by
  simp [totalTokens]

theorem freshRuntime_eq (cache : Cache ι) :
    (freshRuntime cache : Held H D F (Physical ι)) = hold (Win.empty (by decide)) ⟨0, cache⟩ := rfl

variable [DecidableEq ι]

/-- The runtime keeps the online reference's pages in the cache and its tail in the sidecar; closed
pages never change and no other row is written. -/
theorem runtime_refines_online {layout : Rabit2PageLayout} (hr : runtimeInit H D D = .ok layout)
    (cuda cuda' : Bool) (dt : Dtype F Bf16 E) (hrow : row.Nodup) (cache : Cache ι)
    (hwidth : cache.width = layout.pageBytes) (before later chunks : List (List (KV H D)))
    (hchunks : chunks.flatten = before.flatten)
    (hlong : ((before.flatten ++ later.flatten).length - residualTokens) / groupSize ≤ row.length) :
    ∃ s s' o, (appends fp cuda row before).run (freshRuntime cache) = .ok () s ∧
      (appends fp cuda row later).run s = .ok () s' ∧
      (onlineAppends fp cuda' chunks).run onlineNew = .ok () o ∧
      s.rest.closedPages = o.rest.length ∧
      (∀ i < s.rest.closedPages, ∃ id page, row[i]? = some id ∧ o.rest[i]? = some page ∧
        s.rest.cache.rows id = page) ∧
      (∃ openK openV, decodeOpen fp dt o.side = .ok (openK, openV) ∧
        tailMaterialize fp dt s.side
          = .ok (openK ++ (recentParts dt o.side).1, openV ++ (recentParts dt o.side).2)) ∧
      totalTokens s.rest.closedPages s.side = onlineTotalTokens o ∧
      (∀ i < s.rest.closedPages, ∀ id, row[i]? = some id →
        s'.rest.cache.rows id = s.rest.cache.rows id) ∧
      (∀ id ∉ row.take s.rest.closedPages, s.rest.cache.rows id = cache.rows id) ∧
      ∀ id ∉ row.take s'.rest.closedPages, s'.rest.cache.rows id = s.rest.cache.rows id := by
  obtain ⟨rfl, ha, -⟩ := runtimeInit_ok hr
  have hcount := length_seqWin_pages fp (before.flatten ++ later.flatten)
  rw [seqWin, Win.batch_append, List.length_append] at hcount
  have hpages : (seqWin fp before.flatten).2.length ≤ row.length := by
    unfold seqWin
    omega
  have hrun := appends_run fp cuda row ha before (Win.empty (by decide)) (p := ⟨0, cache⟩) hwidth
    (by rw [Nat.zero_add]; exact hpages)
  have hrun' := appends_run fp cuda row ha later (seqWin fp before.flatten).1
    (p := written fp row ⟨0, cache⟩ (seqWin fp before.flatten).2) hwidth
    (by rw [written_closedPages, Nat.zero_add]; unfold seqWin; omega)
  refine ⟨_, _, _, hrun, hrun', onlineAppends_new fp cuda' ha chunks, ?_, ?_, ?_, ?_, ?_, ?_, ?_⟩
  · rw [hchunks]
    simp [hold, seqWin]
  · intro i hi
    rw [hchunks]
    have hi' : i < (seqWin fp before.flatten).2.length := by simpa [hold, seqWin] using hi
    obtain ⟨id, hid⟩ : ∃ id, row[i]? = some id := ⟨_, List.getElem?_eq_getElem (by omega)⟩
    obtain ⟨es, hes⟩ : ∃ es, (seqWin fp before.flatten).2[i]? = some es :=
      ⟨_, List.getElem?_eq_getElem hi'⟩
    refine ⟨id, pageOfGroup fp es, hid, by simp [hold, hes], ?_⟩
    exact written_rows_get fp hrow (by rwa [Nat.zero_add]) hes
  · rw [hchunks]
    refine ⟨_, _, decodeOpen_eq fp dt _ _, ?_⟩
    simp only [hold, recentParts_eq]
    exact tailMaterialize_eq fp dt _ _
  · rw [hchunks, onlineTotalTokens_hold, List.length_map]
    refine (totalTokens_hold _ _).trans ?_
    rw [hold, written_closedPages, Nat.zero_add]
    rfl
  · intro i hi id hid
    exact written_rows_of_lt fp hrow _ hi hid
  · exact fun id hid => written_rows_of_notMem_take fp hid
  · exact fun id hid => written_rows_of_notMem_take fp hid

theorem runtime_refines_online_one_head :
    runtimeInit 1 64 64 = .ok (pageLayout groupSize 1 64 64) ∧ ([2, 0, 1] : List (Fin 3)).Nodup ∧
      ∃ s s' o,
        (appends ratFp true [2, 0, 1] [rampTokens 1 64 40]).run (freshRuntime
          (⟨(pageLayout groupSize 1 64 64).pageBytes, fun _ => []⟩ : Cache (Fin 3))) = .ok () s ∧
        (appends ratFp true [2, 0, 1] [rampTokens 1 64 35, rampTokens 1 64 25]).run s = .ok () s' ∧
        (onlineAppends ratFp false [rampTokens 1 64 40]).run onlineNew = .ok () o ∧
        s.rest.closedPages = o.rest.length := by
  obtain ⟨s, s', o, h, h', ho, hclosed, -⟩ := runtime_refines_online (H := 1) (D := 64)
    ratFp rfl true false ratFp.float32 (show ([2, 0, 1] : List (Fin 3)).Nodup by decide)
    ⟨(pageLayout groupSize 1 64 64).pageBytes, fun _ => []⟩ rfl [rampTokens 1 64 40]
    [rampTokens 1 64 35, rampTokens 1 64 25] [rampTokens 1 64 40] rfl
    (by simp [rampTokens, residualTokens, groupSize])
  exact ⟨rfl, by decide, s, s', o, h, h', ho, hclosed⟩

end Refinement

end RabitKV
