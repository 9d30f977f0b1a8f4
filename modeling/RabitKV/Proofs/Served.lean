import RabitKV.Proofs.Isolation
import RabitKV.Proofs.Stage3c

/-!
# What attention reads of a served sequence

A request whose window is that of its tokens, with its pages at the first blocks of its row, shows
attention the whole-prefix oracle; only the open group is rounded to bfloat16 on the way
(`materialize_seqWin`). In exact arithmetic decode attention is then softmax attention over these
tokens (`decode_served`), and so is every query of a chunk (`query_served`).
-/

namespace RabitKV

open Chunks Softmax Stores Window

section Sequence

variable {F : Type} (fp : Fp F Bf16) {H D : ℕ}

/-- Token `t` of a sequence of `n` tokens, rounded to bfloat16 if it is in the open group. -/
def roundOpen (n t : ℕ) (x : Tok H D F) : Tok H D F :=
  if (n - residualTokens) / groupSize * groupSize ≤ t ∧ t < n - residualTokens then
    Tok.map (fun y => fp.ofB (fp.toB y)) x
  else x

/-- What attention reads of a sequence: the whole-prefix oracle, with the open group rounded to
bfloat16. -/
def servedKv (kvs : List (KV H D)) : Except String (List (Tok H D F) × List (Tok H D F)) := do
  let st ← quantizeRabit2Kv fp (kvs.map Prod.fst) (kvs.map Prod.snd)
  let (key, value) := dequantizeRabit2Kv fp st
  return (key.mapIdx (roundOpen fp kvs.length), value.mapIdx (roundOpen fp kvs.length))

/-- Closed pages and recent tokens stay as they are. -/
theorem mapIdx_roundOpen {n : ℕ} {pages opened recent : List (Tok H D F)}
    (hpages : pages.length = (n - residualTokens) / groupSize * groupSize)
    (hold : pages.length + opened.length = n - residualTokens) :
    (pages ++ opened ++ recent).mapIdx (roundOpen fp n)
      = pages ++ opened.map (Tok.map fun y => fp.ofB (fp.toB y)) ++ recent := by
  rw [List.mapIdx_append, List.mapIdx_append]
  congr 1
  · congr 1
    · refine List.ext_getElem (by simp) fun t ht _ => ?_
      rw [List.length_mapIdx] at ht
      rw [List.getElem_mapIdx, roundOpen, if_neg (by omega)]
    · refine List.ext_getElem (by simp) fun t ht _ => ?_
      rw [List.length_mapIdx] at ht
      rw [List.getElem_mapIdx, List.getElem_map, roundOpen, if_pos (by omega)]
  · have hlen : (pages ++ opened).length = n - residualTokens := by rwa [List.length_append]
    rw [hlen]
    refine List.ext_getElem (by simp) fun t _ _ => ?_
    rw [List.getElem_mapIdx, roundOpen, if_neg (by omega)]

theorem length_groupK (es : List (Aged H D F)) : (groupK fp es).length = es.length := by
  simp [groupK]

theorem length_groupV (es : List (Aged H D F)) : (groupV fp es).length = es.length := by
  simp [groupV, vDecoded, dequantizeV2FromPrimary]

/-- The groups of a sequence before its recent tokens, closed and open. -/
theorem length_seqWin_old (kvs : List (KV H D)) :
    (seqWin fp kvs).2.length * groupSize + (seqWin fp kvs).1.opened.length
      = kvs.length - residualTokens := by
  have htotal := onlineTotalTokens_seqWin fp kvs
  rw [onlineTotalTokens_hold, List.length_map, seqWin_recent, List.length_drop] at htotal
  omega

theorem Stored.map_rows {ι : Type} {cache : Cache ι} {row : List ι}
    {ps : List (List (Aged H D F))} (h : Stored fp cache row ps) :
    (row.take ps.length).map cache.rows = ps.map (pageOfGroup fp) := by
  have hle := h.length_le
  refine List.ext_getElem (by simp [hle]) fun i hi hi' => ?_
  rw [List.length_map] at hi'
  obtain ⟨b, hb, hpage⟩ := h i _ (List.getElem?_eq_getElem hi')
  rw [List.getElem?_eq_getElem (by omega), Option.some.injEq] at hb
  rw [List.getElem_map, List.getElem_map, List.getElem_take, hb, hpage]

/-- The state of a sequence shows attention the oracle, with the open group rounded. -/
theorem materialize_seqWin {layout : Rabit2PageLayout} (h : onlineInit H D D = .ok layout)
    {kvs : List (KV H D)} {cache : Cache ℕ} {row : List ℕ}
    (hstored : Stored fp cache row (seqWin fp kvs).2) :
    materialize fp cache row (seqWin fp kvs).2.length
        (toSidecar (seqWin fp kvs).1.opened (seqWin fp kvs).1.recent) = servedKv fp kvs := by
  obtain ⟨hD, hv⟩ := onlineInit_ok h
  have hgroup : ∀ es ∈ (seqWin fp kvs).2, es.length = groupSize :=
    fun es hes => length_of_mem_seqWin fp hes
  have hpages := decodePages_eq fp fp.float32 (aligned_of_onlineInit h) hgroup
  have hlen := length_seqWin_pages fp kvs
  have hold := length_seqWin_old fp kvs
  have hK : ((seqWin fp kvs).2.flatMap (groupK fp)).length
      = (kvs.length - residualTokens) / groupSize * groupSize := by
    rw [length_flatMap_of_length fun es hes => (length_groupK fp es).trans (hgroup es hes), hlen]
  have hV : ((seqWin fp kvs).2.flatMap (groupV fp)).length
      = (kvs.length - residualTokens) / groupSize * groupSize := by
    rw [length_flatMap_of_length fun es hes => (length_groupV fp es).trans (hgroup es hes), hlen]
  obtain ⟨st, hst, hdq⟩ := quantizeRabit2Kv_decodes fp
    (show (kvs.map Prod.fst).length = (kvs.map Prod.snd).length by simp)
  have hkey : dequantizeRabit2Kv fp st
      = ((seqWin fp kvs).2.flatMap (groupK fp) ++ groupK fp (seqWin fp kvs).1.opened
          ++ (seqWin fp kvs).1.recent.map fun kv => Tok.map fp.ofB kv.1,
        (seqWin fp kvs).2.flatMap (groupV fp) ++ groupV fp (seqWin fp kvs).1.opened
          ++ (seqWin fp kvs).1.recent.map fun kv => Tok.map fp.ofB kv.2) := by
    rw [hdq, seqWin_groupK fp hD, seqWin_groupV fp hv, seqWin_recent]
    simp only [← List.map_take, ← List.map_drop, List.map_map, List.length_map]
    rfl
  have hserved : servedKv fp kvs
      = .ok ((dequantizeRabit2Kv fp st).1.mapIdx (roundOpen fp kvs.length),
        (dequantizeRabit2Kv fp st).2.mapIdx (roundOpen fp kvs.length)) := by
    unfold servedKv
    rw [hst]
    rfl
  rw [hserved, hkey, mapIdx_roundOpen fp hK (by rw [hK, length_groupK, ← hlen, hold]),
    mapIdx_roundOpen fp hV (by rw [hV, length_groupV, ← hlen, hold])]
  unfold materialize
  rw [hstored.map_rows, hpages, tailMaterialize_eq, List.append_assoc, List.append_assoc]
  exact congrArg₂ (fun ks vs => Except.ok (ks ++ _, vs ++ _)) (Tok.map_id' _) (Tok.map_id' _)

theorem Stored.take {ι : Type} {cache : Cache ι} {row : List ι} {ps qs : List (List (Aged H D F))}
    (h : Stored fp cache row qs) (hpre : ps <+: qs) : Stored fp cache row ps := by
  intro i es hes
  obtain ⟨more, rfl⟩ := hpre
  exact h i es (by rw [List.getElem?_append_left (List.getElem?_eq_some_iff.1 hes).1, hes])

theorem Stored.length_rows {ι : Type} (ha : Aligned H D) {cache : Cache ι} {row : List ι}
    {kvs : List (KV H D)} (h : Stored fp cache row (seqWin fp kvs).2) :
    ∀ b ∈ row.take (seqWin fp kvs).2.length,
      (cache.rows b).length = (pageLayout groupSize H D D).pageBytes := by
  intro b hb
  have hmem : cache.rows b ∈ (seqWin fp kvs).2.map (pageOfGroup fp) := by
    rw [← h.map_rows]
    exact List.mem_map_of_mem hb
  obtain ⟨es, hes, hpage⟩ := List.mem_map.1 hmem
  rw [← hpage, length_pageOfGroup fp ha (length_of_mem_seqWin fp hes)]

omit fp in
/-- After a token there are recent ones. -/
theorem recentK_batch_ne (w : SeqWin H D F) (age : KV H D → Aged H D F) {kvs : List (KV H D)}
    (hne : kvs ≠ []) :
    (toSidecar (w.batch age kvs).1.opened (w.batch age kvs).1.recent).recentK ≠ none := by
  have hpos := List.length_pos_of_ne_nil hne
  have hrecent : (w.batch age kvs).1.recent.map Prod.fst ≠ [] := by
    refine List.ne_nil_of_length_pos ?_
    rw [List.length_map, Win.batch_recent, List.length_drop, Win.leaving, List.length_append]
    unfold residualTokens
    omega
  rw [toSidecar_recentK, optList_of_ne_nil hrecent]
  exact Option.some_ne_none _

end Sequence

section Rows

variable {Q : Type} (toB : EReal → Bf16) (ofB : Bf16 → ℝ) (toF : Q → ℝ) (ofF : EReal → Q) {H D : ℕ}

/-- A row of outputs is softmax attention of a query over what `kvs` shows, head by head. -/
def ServedRow {qHeads : ℕ} (hq : H ∣ qHeads) (q : QueryPtr Q) (scale : ℝ) (kvs : List (KV H D))
    (row : ℕ → Q) : Prop :=
  ∃ tokens : List (RealTok H D),
    servedKv (realFp toB ofB).toFp kvs = .ok (keysOf tokens, valuesOf tokens) ∧
    ∀ (h : ℕ) (hh : h < qHeads) (d : Fin D), row (h * D + d) = ofF (attend
      (fun t => scale * ∑ e : Fin D, toF (q.mem (q.ptr + h * D + e))
        * t.1 ⟨h / (qHeads / H), kvHead_lt hq hh⟩ e)
      (fun t => t.2 ⟨h / (qHeads / H), kvHead_lt hq hh⟩ d) tokens : ℝ)

variable {toB ofB toF ofF} {layout layout' : Rabit2PageLayout} {qHeads : ℕ} {cache : Cache ℕ}
  {row : List ℕ}

variable (toB ofB toF ofF) in
/-- Decode attention over any well-formed state, head by head. -/
theorem onlineDecodeAttention_rows (hl : runtimeInit H D D = .ok layout) (hq : H ∣ qHeads)
    (hwidth : cache.width = (pageLayout groupSize H D D).pageBytes) {closed : ℕ}
    (hclosed : closed ≤ row.length)
    (hrows : ∀ b ∈ row.take closed, (cache.rows b).length = (pageLayout groupSize H D D).pageBytes)
    {side : Sidecar H D EReal} (hw : side.WF) (hrecent : side.recentK ≠ none) (u : Uninit EReal Q)
    (q : QueryPtr Q) (scale : ℝ) (ws : Option (Workspace EReal)) :
    ∃ tokens : List (RealTok H D),
      materialize (realFp toB ofB).toFp cache row closed side
        = .ok (keysOf tokens, valuesOf tokens) ∧
      ∃ run, onlineDecodeAttention (realFp toB ofB) (realQ toF ofF) u layout q qHeads cache row side
          closed scale ws = .ok run ∧
        ∀ (h : ℕ) (hh : h < qHeads) (d : Fin D), run.out (h * D + d) = ofF (attend
          (fun t => scale * ∑ e : Fin D, toF (q.mem (q.ptr + h * D + e))
            * t.1 ⟨h / (qHeads / H), kvHead_lt hq hh⟩ e)
          (fun t => t.2 ⟨h / (qHeads / H), kvHead_lt hq hh⟩ d) tokens : ℝ) := by
  obtain ⟨hlayout, r, hvalid⟩ := runtimeInit_checks hl
  obtain ⟨-, -, kn, vn, hg⟩ := pageGroups_of_validate hlayout hvalid
  obtain ⟨tokens, hdec, hlen, hpart⟩ := attention_segments toB ofB toF ofF hg hwidth hclosed hrows
    hw hrecent qHeads q scale
  obtain ⟨run, hrun, hstores, hpartials, hout⟩ := onlineDecodeAttention_ok (realQ toF ofF) u q cache
    row closed (scale : EReal) ws hl hw hrecent hq
  have hpos := hw.recent_pos hrecent
  have hne : (List.range (closed + 1)).flatMap tokens ≠ [] :=
    List.ne_nil_of_length_pos (by omega)
  refine ⟨_, hdec, run, hrun, fun h hh d => ?_⟩
  choose! m hm using fun s hs => hpart s hs h ⟨h / (qHeads / H), kvHead_lt hq hh⟩ rfl
  have hhold : ∀ s < closed + 1, SlotsHold (reduceArgs (closed + 1) qHeads D) h run.partials s
      (segmentPartial (realFp toB ofB) (realQ toF ofF) q qHeads cache row side closed scale
        s h) := by
    intro s hs
    rw [hpartials, hstores]
    exact slotsHold_grid u.partials hs hh
  have hD : (reduceArgs (closed + 1) qHeads D).headSize = D := rfl
  obtain ⟨-, hrow⟩ := realFp_reduce toB ofB hD (Nat.succ_pos closed)
    (le_nextPowerOf2 (closed + 1)) hhold hm hne
  rw [hout, out_reduce _ _ _ _ hh d.2, hrow d, tokenScore_eq]
  rfl

variable (toB ofB toF ofF) in
/-- Decode attention over the state of a sequence. -/
theorem decode_served (hl : runtimeInit H D D = .ok layout) (ho : onlineInit H D D = .ok layout')
    (hq : H ∣ qHeads) (hwidth : cache.width = (pageLayout groupSize H D D).pageBytes)
    {kvs : List (KV H D)} (hne : kvs ≠ [])
    (hstored : Stored (realFp toB ofB).toFp cache row (seqWin (realFp toB ofB).toFp kvs).2)
    (u : Uninit EReal Q) (q : QueryPtr Q) (scale : ℝ) (ws : Option (Workspace EReal)) :
    ∃ run, onlineDecodeAttention (realFp toB ofB) (realQ toF ofF) u layout q qHeads cache row
        (toSidecar (seqWin (realFp toB ofB).toFp kvs).1.opened
          (seqWin (realFp toB ofB).toFp kvs).1.recent)
        (seqWin (realFp toB ofB).toFp kvs).2.length scale ws = .ok run ∧
      ServedRow toB ofB toF ofF hq q scale kvs run.out := by
  have hrecent : (toSidecar (seqWin (realFp toB ofB).toFp kvs).1.opened
      (seqWin (realFp toB ofB).toFp kvs).1.recent).recentK ≠ none :=
    recentK_batch_ne _ _ hne
  obtain ⟨tokens, hdec, run, hrun, hrow⟩ := onlineDecodeAttention_rows toB ofB toF ofF hl hq hwidth
    hstored.length_le (hstored.length_rows _ (aligned_of_onlineInit ho)) (toSidecar_wf _)
    hrecent u q scale ws
  rw [materialize_seqWin _ ho hstored] at hdec
  exact ⟨run, hrun, tokens, hdec, hrow⟩

theorem ServedRow.congr {hq : H ∣ qHeads} {q : QueryPtr Q} {scale : ℝ} {kvs : List (KV H D)}
    {out out' : ℕ → Q} (h : ServedRow toB ofB toF ofF hq q scale kvs out)
    (hout : ∀ k < qHeads * D, out' k = out k) :
    ServedRow toB ofB toF ofF hq q scale kvs out' := by
  obtain ⟨tokens, hkv, hrow⟩ := h
  exact ⟨tokens, hkv, fun h hh d => (hout _ (mul_add_lt hh d.2)).trans (hrow h hh d)⟩

theorem seqWin_append {F : Type} (fp : Fp F Bf16) (xs ys : List (KV H D)) :
    seqWin fp (xs ++ ys) = (((seqWin fp xs).1.batch (ageKV fp) ys).1,
      (seqWin fp xs).2 ++ ((seqWin fp xs).1.batch (ageKV fp) ys).2) := by
  rw [seqWin, Win.batch_append]
  rfl

theorem seqWin_pages_prefix {F : Type} (fp : Fp F Bf16) (xs ys : List (KV H D)) :
    (seqWin fp xs).2 <+: (seqWin fp (xs ++ ys)).2 := by
  rw [seqWin_append]
  exact List.prefix_append _ _

/-- A query of a chunk sees the tokens before the chunk and those of the chunk up to its own. -/
theorem query_served {c : Chunk H D EReal Q} (hl : runtimeInit H D D = .ok c.layout)
    (ho : onlineInit H D D = .ok layout') (hq : H ∣ c.qHeads) {scale : ℝ}
    (hscale : c.softmaxScale = scale)
    (hwidth : cache.width = (pageLayout groupSize H D D).pageBytes) {xs kvs : List (KV H D)}
    (hstored : Stored (realFp toB ofB).toFp cache c.row
      (seqWin (realFp toB ofB).toFp (xs ++ kvs)).2) {i : ℕ} (hi : i < kvs.length) :
    ServedRow toB ofB toF ofF hq (c.query i) scale (xs ++ kvs.take (i + 1))
      (queryRow (realFp toB ofB) (realQ toF ofF) c (seqWin (realFp toB ofB).toFp xs).1
        (seqWin (realFp toB ofB).toFp xs).2.length cache kvs i) := by
  have hwin := seqWin_append (realFp toB ofB).toFp xs (kvs.take (i + 1))
  have hne : xs ++ kvs.take (i + 1) ≠ [] := by
    refine List.append_ne_nil_of_right_ne_nil _ (List.ne_nil_of_length_pos ?_)
    rw [List.length_take]
    omega
  have hpre : (seqWin (realFp toB ofB).toFp (xs ++ kvs.take (i + 1))).2
      <+: (seqWin (realFp toB ofB).toFp (xs ++ kvs)).2 := by
    have happend := seqWin_pages_prefix (realFp toB ofB).toFp (xs ++ kvs.take (i + 1))
      (kvs.drop (i + 1))
    rwa [List.append_assoc, List.take_append_drop] at happend
  obtain ⟨run, hrun, -, hrow⟩ := attention_query (realFp toB ofB) (realQ toF ofF) c
    (seqWin (realFp toB ofB).toFp xs).1 (seqWin (realFp toB ofB).toFp xs).2.length cache kvs hl hq
    hi none
  obtain ⟨run', hrun', hserved⟩ := decode_served toB ofB toF ofF hl ho hq hwidth hne
    (hstored.take _ hpre) (c.junk i) (c.query i) scale none
  have hside : (stepped (realFp toB ofB).toFp (seqWin (realFp toB ofB).toFp xs).1
      (seqWin (realFp toB ofB).toFp xs).2.length cache kvs (i + 1)).side
      = toSidecar (seqWin (realFp toB ofB).toFp (xs ++ kvs.take (i + 1))).1.opened
        (seqWin (realFp toB ofB).toFp (xs ++ kvs.take (i + 1))).1.recent := by
    rw [hwin]
    rfl
  have hpages : visiblePages (realFp toB ofB) (seqWin (realFp toB ofB).toFp xs).1
      (seqWin (realFp toB ofB).toFp xs).2.length cache kvs i
      = (seqWin (realFp toB ofB).toFp (xs ++ kvs.take (i + 1))).2.length := by
    rw [hwin, List.length_append]
    rfl
  rw [← hside, ← hpages, ← hscale] at hrun'
  have hsame : run = run' := Except.ok.inj (hrun.symm.trans hrun')
  subst hsame
  exact hserved.congr fun k hk => (hrow k hk).symm

end Rows

end RabitKV
