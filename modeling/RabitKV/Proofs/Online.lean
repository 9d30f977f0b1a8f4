import RabitKV.Exact
import RabitKV.Online
import RabitKV.Proofs.Sidecar

/-!
# The online reference refines the quality oracle

After any number of `append` calls the online state is the window of all tokens with one page per
32 aged ones (`onlineAppends_run`). Pages, open group and residual decode to the regions of their
own tokens, and the regions of the oracle split exactly there.
-/

namespace RabitKV

open Chunks Window

section Codec

variable {F E : Type} (fp : Fp F Bf16) (dt : Dtype F Bf16 E) {H D : ℕ}

/-- The page of a full open group. -/
def pageOfGroup (es : List (Aged H D F)) : List UInt8 :=
  pageOf fp (es.map Aged.k) (es.map Aged.vPacked) (es.map Aged.vMin) (es.map Aged.vScale)

/-- The K values a group decodes to. -/
def groupK (es : List (Aged H D F)) : List (Tok H D F) :=
  kRegion fp (es.map fun e => Tok.map fp.ofB e.k)

/-- The V values a group decodes to. -/
def groupV (es : List (Aged H D F)) : List (Tok H D F) :=
  vDecoded fp (es.map Aged.vPacked) (es.map Aged.vMin) (es.map Aged.vScale)

theorem groupK_append (hD : metadataGroupSize ∣ D) (xs ys : List (Aged H D F))
    (h : xs.length = groupSize) : groupK fp (xs ++ ys) = groupK fp xs ++ groupK fp ys := by
  unfold groupK
  rw [List.map_append, kRegion_append fp hD (by rw [List.length_map, h])]

theorem groupV_append (hv : metadataGroupSize ∣ groupSize * (H * vGroups D))
    (xs ys : List (Aged H D F)) (h : xs.length = groupSize) :
    groupV fp (xs ++ ys) = groupV fp xs ++ groupV fp ys := by
  unfold groupV
  rw [List.map_append, List.map_append, List.map_append]
  exact vDecoded_append fp hv (by rw [List.length_map, h]) (by rw [List.length_map, h])
    (by rw [List.length_map, h]) _ _ _

theorem groupK_map_ageKV (kvs : List (KV H D)) :
    groupK fp (kvs.map (ageKV fp)) = kRegion fp (kvs.map fun kv => Tok.map fp.ofB kv.1) := by
  rw [groupK, List.map_map]
  rfl

theorem groupV_map_ageKV (kvs : List (KV H D)) :
    groupV fp (kvs.map (ageKV fp)) = vRegion fp (kvs.map fun kv => Tok.map fp.ofB kv.2) := by
  simp only [groupV, vRegion_eq, List.map_map]
  rfl

theorem length_map_of_length {α β : Type} {n : ℕ} (f : α → β) {l : List α} (h : l.length = n) :
    (l.map f).length = n := by
  rw [List.length_map, h]

theorem decodePage_pageOfGroup (ha : Aligned H D) {es : List (Aged H D F)}
    (h : es.length = groupSize) :
    decodePage fp (pageOfGroup fp es) = .ok (groupK fp es, groupV fp es) := by
  have hdec := decode_pageOf fp ha (length_map_of_length Aged.k h)
    (length_map_of_length Aged.vPacked h) (length_map_of_length Aged.vMin h)
    (length_map_of_length Aged.vScale h)
  rw [List.map_map] at hdec
  exact hdec

/-- Pages that decode one by one decode together. -/
theorem decodePages_ok {σ : Type} {page : σ → List UInt8} {keys values : σ → List (Tok H D F)} :
    ∀ {l : List σ}, (∀ s ∈ l, decodePage fp (page s) = .ok (keys s, values s)) →
      decodePages fp dt (l.map page) = .ok ((l.flatMap keys).map (Tok.map dt.ofF),
        (l.flatMap values).map (Tok.map dt.ofF))
  | [], _ => rfl
  | s :: l, h => by
    rw [List.map_cons, decodePages, h s List.mem_cons_self]
    simp only [decodePages_ok fun s' hs => h s' (List.mem_cons_of_mem _ hs), bind, Except.bind,
      pure,
      Except.pure, List.flatMap_cons, List.map_append]

theorem decodePages_eq (ha : Aligned H D) {ps : List (List (Aged H D F))}
    (h : ∀ es ∈ ps, es.length = groupSize) :
    decodePages fp dt (ps.map (pageOfGroup fp))
      = .ok ((ps.flatMap (groupK fp)).map (Tok.map dt.ofF),
        (ps.flatMap (groupV fp)).map (Tok.map dt.ofF)) :=
  decodePages_ok fp dt fun es hes => decodePage_pageOfGroup fp ha (h es hes)

@[simp] theorem kRegion_nil {F B : Type} (fp : Fp F B) : kRegion fp ([] : List (Tok H D F)) = [] :=
  List.eq_nil_of_length_eq_zero (by rw [length_kRegion, List.length_nil])

@[simp] theorem vRegion_nil {F B : Type} (fp : Fp F B) : vRegion fp ([] : List (Tok H D F)) = [] :=
  List.eq_nil_of_length_eq_zero (by rw [length_vRegion, List.length_nil])

theorem decodeOpenGroup_eq {es : List (Aged H D F)} (h : es ≠ []) :
    decodeOpenGroup fp dt (es.map Aged.k) (es.map Aged.vPacked) (es.map Aged.vMin)
        (es.map Aged.vScale)
      = .ok ((groupK fp es).map (Tok.map dt.ofF), (groupV fp es).map (Tok.map dt.ofF)) := by
  have hne : ¬ ((es.map Aged.k).map (Tok.map fp.ofB)).length = 0 := by simpa using h
  unfold decodeOpenGroup
  rw [quantizeK3SequenceAffine, if_neg hne]
  simp only [encodeVMetadata, decodeMetadata_encode, List.map_map]
  rfl

theorem decodeOpen_eq (es : List (Aged H D F)) (recent : List (KV H D)) :
    decodeOpen fp dt (toSidecar es recent)
      = .ok ((groupK fp es).map (Tok.map dt.ofF), (groupV fp es).map (Tok.map dt.ofF)) := by
  rcases es with _ | ⟨e, es⟩
  · rfl
  · exact decodeOpenGroup_eq fp dt (List.cons_ne_nil e es)

theorem recentParts_eq (es : List (Aged H D F)) (recent : List (KV H D)) :
    recentParts dt (toSidecar es recent)
      = (recent.map fun kv => Tok.map dt.ofB kv.1, recent.map fun kv => Tok.map dt.ofB kv.2) := by
  rcases recent with _ | ⟨r, recent⟩
  · rfl
  · simp [recentParts, optList, Function.comp_def]

/-- A state with the pages of some groups decodes group by group. -/
theorem onlineMaterialize_eq (ha : Aligned H D) {ps : List (List (Aged H D F))}
    (hps : ∀ es ∈ ps, es.length = groupSize) (w : SeqWin H D F) :
    onlineMaterialize fp dt (hold w (ps.map (pageOfGroup fp)))
      = .ok ((ps.flatMap (groupK fp) ++ groupK fp w.opened).map (Tok.map dt.ofF)
            ++ w.recent.map fun kv => Tok.map dt.ofB kv.1,
          (ps.flatMap (groupV fp) ++ groupV fp w.opened).map (Tok.map dt.ofF)
            ++ w.recent.map fun kv => Tok.map dt.ofB kv.2) := by
  simp only [onlineMaterialize, hold, decodePages_eq fp dt ha hps, decodeOpen_eq,
    recentParts_eq, List.map_append]
  rfl

end Codec

section Append

variable {F : Type} (fp : Fp F Bf16) (cuda : Bool) {H D : ℕ}

/-- Closing a group appends its page. -/
def onlineEmit (es : List (Aged H D F)) (pages : List (List UInt8)) :
    Except String (List (List UInt8)) :=
  .ok (pages ++ [pageOfGroup fp es])

theorem emitAll_onlineEmit : ∀ (ps : List (List (Aged H D F))) (pages : List (List UInt8)),
    emitAll (onlineEmit fp) ps pages = .ok (pages ++ ps.map (pageOfGroup fp))
  | [], pages => by simp [emitAll]
  | es :: ps, pages => by
    rw [emitAll]
    refine (emitAll_onlineEmit ps _).trans ?_
    rw [List.map_cons, List.append_assoc, List.singleton_append]

theorem onlineClose_closes (ha : Aligned H D) :
    Closes (onlineClose (H := H) (D := D) fp) (onlineEmit fp) := by
  intro es recent pages h
  have hne : ∀ {α : Type} (f : Aged H D F → α), optList (es.map f) = some (es.map f) :=
    fun f => optList_of_ne_nil (by rw [Ne, List.map_eq_nil_iff]; rintro rfl; cases h)
  have hok := encodePageFromPrimary_ok fp ha onlineMismatch (length_map_of_length Aged.k h)
    (length_map_of_length Aged.vPacked h) (length_map_of_length Aged.vMin h)
    (length_map_of_length Aged.vScale h)
  unfold onlineClose
  simp only [EStateM.run_bind, EStateM.run_get, toSidecar_openK, toSidecar_openVPacked,
    toSidecar_openVMin, toSidecar_openVScale, hne, hok]
  rfl

theorem onlineAppend_run (ha : Aligned H D) (w : SeqWin H D F) (kvs : List (KV H D))
    (pages : List (List UInt8)) :
    (onlineAppend fp cuda (kvs.map Prod.fst) (kvs.map Prod.snd)).run (hold w pages)
      = .ok () (hold (w.batch (ageKV fp) kvs).1
          (pages ++ (w.batch (ageKV fp) kvs).2.map (pageOfGroup fp))) := by
  have hzip : (kvs.map Prod.fst).zip (kvs.map Prod.snd) = kvs := by
    rw [List.zip_map', List.map_id'']
    exact fun _ => rfl
  have hrun := (appendTokens_run fp cuda (onlineClose_closes fp ha) kvs w pages).1 _
    (emitAll_onlineEmit fp _ _)
  unfold onlineAppend
  rw [if_neg (by simp), hzip]
  exact hrun

theorem onlineAppends_run (ha : Aligned H D) : ∀ (chunks : List (List (KV H D)))
    (w : SeqWin H D F) (pages : List (List UInt8)),
    (onlineAppends fp cuda chunks).run (hold w pages)
      = .ok () (hold (w.batch (ageKV fp) chunks.flatten).1
          (pages ++ (w.batch (ageKV fp) chunks.flatten).2.map (pageOfGroup fp)))
  | [], w, pages => by
    simp [onlineAppends, w.batch_nil]
  | c :: chunks, w, pages => by
    rw [onlineAppends, EStateM.run_bind, onlineAppend_run fp cuda ha, List.flatten_cons,
      w.batch_append]
    simp only [onlineAppends_run ha chunks, List.append_assoc, List.map_append]

end Append

section Oracle

variable {F : Type} (fp : Fp F Bf16) (cuda : Bool) {H D : ℕ}

/-- The oracle keeps the newest four tokens and decodes the older ones as one region. -/
theorem quantizeRabit2Kv_decodesAs {B : Type} (fp : Fp F B) {key value : List (Tok H D B)}
    (hlen : key.length = value.length) :
    ∃ st, quantizeRabit2Kv fp key value = .ok st ∧ ∀ {E : Type} (dt : Dtype F B E),
      dequantizeRabit2KvAs fp dt st
        = ((kRegion fp ((key.take (key.length - residualTokens)).map (Tok.map fp.ofB))).map
              (Tok.map dt.ofF) ++ (key.drop (key.length - residualTokens)).map (Tok.map dt.ofB),
            (vRegion fp ((value.take (key.length - residualTokens)).map (Tok.map fp.ofB))).map
              (Tok.map dt.ofF)
              ++ (value.drop (key.length - residualTokens)).map (Tok.map dt.ofB)) := by
  have hcount : key.length - min key.length residualTokens = key.length - residualTokens := by omega
  have hid : ∀ l : List (Tok H D B), l.map (Tok.map id) = l := List.map_id
  unfold quantizeRabit2Kv quantizeRabit2KvFrom
  rw [if_neg (not_not.2 hlen)]
  simp only [hcount, hid]
  by_cases h0 : key.length - residualTokens = 0
  · simp only [h0, if_true]
    refine ⟨_, rfl, fun dt => ?_⟩
    simp [dequantizeRabit2KvAs]
  · have hk : ¬ ((key.take (key.length - residualTokens)).map (Tok.map fp.ofB)).length = 0 := by
      rw [List.length_map, List.length_take]
      omega
    have hv : ¬ ((value.take (key.length - residualTokens)).map (Tok.map fp.ofB)).length = 0 := by
      rw [List.length_map, List.length_take]
      omega
    simp only [h0, if_false, quantizeK3SequenceAffine, quantizeV2GroupAffine, if_neg hk, if_neg hv]
    exact ⟨_, rfl, fun dt => rfl⟩

theorem quantizeRabit2Kv_decodes {B : Type} (fp : Fp F B) {key value : List (Tok H D B)}
    (hlen : key.length = value.length) :
    ∃ st, quantizeRabit2Kv fp key value = .ok st ∧ dequantizeRabit2Kv fp st
      = (kRegion fp ((key.take (key.length - residualTokens)).map (Tok.map fp.ofB))
            ++ (key.drop (key.length - residualTokens)).map (Tok.map fp.ofB),
          vRegion fp ((value.take (key.length - residualTokens)).map (Tok.map fp.ofB))
            ++ (value.drop (key.length - residualTokens)).map (Tok.map fp.ofB)) := by
  have hid : ∀ l : List (Tok H D F), l.map (Tok.map id) = l := List.map_id
  obtain ⟨st, hst, hdq⟩ := quantizeRabit2Kv_decodesAs fp hlen
  refine ⟨st, hst, ?_⟩
  rw [dequantizeRabit2Kv, hdq fp.float32]
  simp only [Fp.float32, hid]

/-- The window of a whole sequence. -/
def seqWin (fp : Fp F Bf16) (kvs : List (KV H D)) : SeqWin H D F × List (List (Aged H D F)) :=
  (Win.empty (by decide)).batch (ageKV fp) kvs

theorem seqWin_entries (kvs : List (KV H D)) :
    (Win.empty (r := residualTokens) (b := groupSize) (by decide)).entries (ageKV fp) kvs
      = (kvs.take (kvs.length - residualTokens)).map (ageKV fp) := by
  simp [Win.entries, Win.leaving, Win.empty]

theorem seqWin_recent (kvs : List (KV H D)) :
    (seqWin fp kvs).1.recent = kvs.drop (kvs.length - residualTokens) := by
  simp [seqWin, Win.leaving, Win.empty]

theorem length_seqWin_pages (kvs : List (KV H D)) :
    (seqWin fp kvs).2.length = (kvs.length - residualTokens) / groupSize := by
  rw [seqWin, Win.batch_pages, length_chunks, seqWin_entries, List.length_map, List.length_take,
    Nat.min_eq_left (Nat.sub_le _ _)]

theorem onlineNew_eq : (onlineNew : Online H D F) = hold (Win.empty (by decide)) [] := rfl

/-- The pages and the open group of a sequence decode to the region of its old tokens. -/
theorem seqWin_groupK (hD : metadataGroupSize ∣ D) (kvs : List (KV H D)) :
    (seqWin fp kvs).2.flatMap (groupK fp) ++ groupK fp (seqWin fp kvs).1.opened
      = kRegion fp ((kvs.take (kvs.length - residualTokens)).map fun kv =>
        Tok.map fp.ofB kv.1) := by
  rw [seqWin, Win.batch_pages, Win.batch_opened]
  refine (byRows_eq (by decide) (groupK_append fp hD) _).trans ?_
  rw [seqWin_entries, groupK_map_ageKV]

theorem seqWin_groupV (hv : metadataGroupSize ∣ groupSize * (H * vGroups D)) (kvs : List (KV H D)) :
    (seqWin fp kvs).2.flatMap (groupV fp) ++ groupV fp (seqWin fp kvs).1.opened
      = vRegion fp ((kvs.take (kvs.length - residualTokens)).map fun kv =>
        Tok.map fp.ofB kv.2) := by
  rw [seqWin, Win.batch_pages, Win.batch_opened]
  refine (byRows_eq (by decide) (groupV_append fp hv) _).trans ?_
  rw [seqWin_entries, groupV_map_ageKV]

theorem length_of_mem_seqWin {kvs : List (KV H D)} {es : List (Aged H D F)}
    (h : es ∈ (seqWin fp kvs).2) : es.length = groupSize :=
  length_of_mem_chunks h

theorem onlineTotalTokens_hold (w : SeqWin H D F) (pages : List (List UInt8)) :
    onlineTotalTokens (hold w pages)
      = pages.length * groupSize + w.opened.length + w.recent.length := by
  simp [onlineTotalTokens, hold]

theorem onlineInit_ok {Dk Dv : ℕ} {layout : Rabit2PageLayout}
    (h : onlineInit H Dk Dv = .ok layout) :
    metadataGroupSize ∣ Dk ∧ metadataGroupSize ∣ groupSize * (H * vGroups Dv) := by
  unfold onlineInit at h
  by_cases hk : Dk % metadataGroupSize = 0
  · by_cases hv : groupSize * H * vGroups Dv % metadataGroupSize = 0
    · exact ⟨Nat.dvd_of_mod_eq_zero hk, Nat.mul_assoc groupSize H _ ▸ Nat.dvd_of_mod_eq_zero hv⟩
    · rw [if_neg (not_not.2 hk), if_pos hv] at h
      cases h
  · rw [if_pos hk] at h
    cases h

theorem aligned_of_onlineInit {layout : Rabit2PageLayout} (h : onlineInit H D D = .ok layout) :
    Aligned H D :=
  ⟨(onlineInit_ok h).1.mul_left H, (onlineInit_ok h).2⟩

/-- The state a fresh online reference reaches, whatever the chunks. -/
theorem onlineAppends_new (ha : Aligned H D) (chunks : List (List (KV H D))) :
    (onlineAppends fp cuda chunks).run onlineNew
      = .ok () (hold (seqWin fp chunks.flatten).1
          ((seqWin fp chunks.flatten).2.map (pageOfGroup fp))) := by
  rw [onlineNew_eq, onlineAppends_run fp cuda ha]
  rfl

theorem Tok.map_id' {α : Type} (l : List (Tok H D α)) : l.map (Tok.map id) = l :=
  List.map_id l

/-- What the state of a sequence decodes to. -/
theorem onlineMaterialize_seqWin {layout : Rabit2PageLayout} (h : onlineInit H D D = .ok layout)
    (kvs : List (KV H D)) :
    onlineMaterialize fp fp.float32
        (hold (seqWin fp kvs).1 ((seqWin fp kvs).2.map (pageOfGroup fp)))
      = .ok (kRegion fp (((kvs.map Prod.fst).take (kvs.length - residualTokens)).map
            (Tok.map fp.ofB)) ++
            ((kvs.map Prod.fst).drop (kvs.length - residualTokens)).map (Tok.map fp.ofB),
          vRegion fp (((kvs.map Prod.snd).take (kvs.length - residualTokens)).map
            (Tok.map fp.ofB)) ++
            ((kvs.map Prod.snd).drop (kvs.length - residualTokens)).map (Tok.map fp.ofB)) := by
  obtain ⟨hD, hv⟩ := onlineInit_ok h
  have ha := aligned_of_onlineInit h
  rw [onlineMaterialize_eq fp _ ha fun es hes => length_of_mem_seqWin fp hes, seqWin_groupK fp hD,
    seqWin_groupV fp hv, seqWin_recent]
  simp only [← List.map_take, ← List.map_drop, List.map_map]
  rw [show (Fp.float32 fp).ofF = id from rfl, Tok.map_id', Tok.map_id']
  rfl

theorem onlineTotalTokens_seqWin (kvs : List (KV H D)) :
    onlineTotalTokens (hold (seqWin fp kvs).1 ((seqWin fp kvs).2.map (pageOfGroup fp)))
      = kvs.length := by
  rw [onlineTotalTokens_hold, List.length_map]
  refine (Win.batch_total _ _ _).trans ?_
  simp [Win.empty]

/-- The online reference decodes to the whole-prefix oracle, however the tokens arrived. -/
theorem onlineMaterialize_eq_oracle {layout : Rabit2PageLayout}
    (h : onlineInit H D D = .ok layout) (chunks : List (List (KV H D))) :
    ∃ s st, (onlineAppends fp cuda chunks).run onlineNew = .ok () s ∧
      quantizeRabit2Kv fp (chunks.flatten.map Prod.fst) (chunks.flatten.map Prod.snd) = .ok st ∧
      onlineMaterialize fp fp.float32 s = .ok (dequantizeRabit2Kv fp st) ∧
      onlineTotalTokens s = chunks.flatten.length := by
  have ha := aligned_of_onlineInit h
  have hlen : (chunks.flatten.map Prod.fst).length = (chunks.flatten.map Prod.snd).length := by
    rw [List.length_map, List.length_map]
  obtain ⟨st, hq, hdq⟩ := quantizeRabit2Kv_decodes fp hlen
  refine ⟨_, st, onlineAppends_new fp cuda ha chunks, hq, ?_, onlineTotalTokens_seqWin fp _⟩
  rw [onlineMaterialize_seqWin fp h, hdq, List.length_map]

theorem onlineMaterialize_eq_oracle_one_head :
    onlineInit 1 64 64 = .ok (pageLayout groupSize 1 64 64) ∧
      ∃ s st, (onlineAppends ratFp false [rampTokens 1 64 39, rampTokens 1 64 1]).run onlineNew
          = .ok () s ∧
        quantizeRabit2Kv ratFp ([rampTokens 1 64 39, rampTokens 1 64 1].flatten.map Prod.fst)
          ([rampTokens 1 64 39, rampTokens 1 64 1].flatten.map Prod.snd) = .ok st ∧
        onlineMaterialize ratFp ratFp.float32 s = .ok (dequantizeRabit2Kv ratFp st) ∧
        onlineTotalTokens s = 40 :=
  ⟨rfl, onlineMaterialize_eq_oracle ratFp false rfl _⟩

end Oracle

end RabitKV
