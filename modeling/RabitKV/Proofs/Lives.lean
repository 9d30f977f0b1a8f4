import RabitKV.Proofs.Isolation

/-!
# Runs of the engine

A live request has the window its own steps lead to (`Follows`), so it is where a lone run of those
steps ends. A pass comes through as long as the scheduler keeps its part: the context of a step is
what its request has so far, and its row has a block for each page (`forward_progress`).
-/

namespace RabitKV

open Chunks Stores Window

section Track

variable {F ι : Type} {H D : ℕ}

/-- The window with its copy after the given steps. -/
def track (fp : Fp F Bf16) (cuda : Bool) (steps : List (Share H D ι)) : Tracked H D F :=
  (steps.map Share.chunk).foldl (follow fp cuda) (newTrack H D F)

/-- On the fast path no decode step is followed by a chunk and then by another decode step. -/
def Undisturbed (cuda : Bool) (steps : List (Share H D ι)) : Prop :=
  fastShape cuda H D = true → ¬ Interleaved residualTokens (steps.map fun s => s.chunk.length)

/-- The tokens a request had before its latest step. -/
def Life.context (life : Life H D ι) : List (KV H D) := life.steps.dropLast.flatMap Share.chunk

variable {fp : Fp F Bf16} {cuda : Bool} {steps : List (Share H D ι)} {s : Share H D ι}

theorem track_append :
    track fp cuda (steps ++ [s]) = follow fp cuda (track fp cuda steps) s.chunk := by
  rw [track, List.map_append, List.foldl_append]
  rfl

theorem Undisturbed.init (h : Undisturbed cuda (steps ++ [s])) : Undisturbed cuda steps := by
  intro hfast hint
  refine h hfast ?_
  rw [List.map_append]
  exact hint.append _

/-- Without copies every step is a batch. -/
theorem track_plain_slow (hslow : fastShape cuda H D ≠ true) :
    (track fp cuda steps).Plain (ageKV fp) groupSize_pos (steps.flatMap Share.chunk) := by
  induction steps using List.reverseRecOn with
  | nil => exact (Win.batch_nil (ageKV fp) _).symm
  | append_singleton steps s ih =>
    have hbatch := ih.batch (ageKV fp) s.chunk
    rw [track_append, List.flatMap_append, List.flatMap_singleton, Copied.Plain, ← hbatch, follow,
      Copied.step, Copied.moved_batch _ fun hc => hslow hc.1]

/-- The window of undisturbed steps is that of their tokens. -/
theorem track_plain (hround : RoundsHalfEven fp) (hne : ∀ s ∈ steps, s.chunk ≠ [])
    (h : Undisturbed cuda steps) :
    (track fp cuda steps).Plain (ageKV fp) groupSize_pos (steps.flatMap Share.chunk) := by
  by_cases hfast : fastShape cuda H D = true
  · obtain ⟨rfl, rfl, rfl⟩ := fastShape_iff.1 hfast
    have hfollow : (follow fp true : Tracked 8 128 F → _) = Copied.advance (ageKV fp) := by
      funext c chunk
      rw [follow, kernelAge, hround.kernelFp_eq]
      rfl
    have hcut : ¬ Interleaved residualTokens
        (((steps.map Share.chunk).map List.length).take steps.length) := by
      rw [List.take_of_length_le (by simp), List.map_map]
      exact h hfast
    have hchunks : ∀ ts ∈ steps.map Share.chunk, ts ≠ [] := by
      rintro ts hts
      obtain ⟨s, hs, rfl⟩ := List.mem_map.1 hts
      exact hne s hs
    have hplain : (copyRun fp ((steps.map Share.chunk).take steps.length)).Plain (ageKV fp)
        groupSize_pos ((steps.map Share.chunk).take steps.length).flatten :=
      Copied.run_take_plain (ageKV fp) hchunks hcut le_rfl
    rw [List.take_of_length_le (List.length_map _).le] at hplain
    rw [track, hfollow]
    exact hplain
  · exact track_plain_slow hfast

end Track

section Follows

variable {F ι : Type} [DecidableEq ι] {fp : Fp F Bf16} {cuda : Bool} {L H D : ℕ}

/-- Every live request has the window its own steps lead to. -/
structure Follows (fp : Fp F Bf16) (cuda : Bool) (layer : Layer H D F ι) (lives : Lives H D ι) :
    Prop where
  holds : ∀ id life, lives id = some life → Holds fp layer id life.row (track fp cuda life.steps)
  chunks : ∀ id life, lives id = some life → ∀ s ∈ life.steps, s.chunk ≠ []

omit [DecidableEq ι] in
theorem Lives.of_drop {lives : Lives H D ι} {p : String → Bool} {id : String} {life : Life H D ι}
    (h : lives.drop p id = some life) : p id ≠ true ∧ lives id = some life := by
  by_cases hp : p id = true
  · rw [Lives.drop, if_pos hp] at h
    cases h
  · rw [Lives.drop, if_neg hp] at h
    exact ⟨hp, h⟩

variable {layer layer' : Layer H D F ι} {lives : Lives H D ι}

omit [DecidableEq ι] in
theorem Follows.drop (h : Follows fp cuda layer lives) (p : String → Bool) :
    Follows fp cuda layer (lives.drop p) :=
  ⟨fun id life hlife => h.holds id life (Lives.of_drop hlife).2,
    fun id life hlife => h.chunks id life (Lives.of_drop hlife).2⟩

omit [DecidableEq ι] in
theorem Follows.dropWhere (h : Follows fp cuda layer lives) (p : String → Bool) :
    Follows fp cuda (layer.dropWhere p) (lives.drop p) := by
  refine ⟨fun id life hlife => ?_, (h.drop p).chunks⟩
  obtain ⟨hp, hlife⟩ := Lives.of_drop hlife
  obtain ⟨⟨rt, hget, htracks⟩, hstored⟩ := h.holds id life hlife
  have hkeep : (layer.dropWhere p).runtimes id = layer.runtimes id := if_neg hp
  exact ⟨⟨rt, hkeep.trans hget, htracks⟩, hstored⟩

variable {s : Share H D ι}

/-- The life a step belongs to: what came before it, and the state that led to. -/
structure Enters (fp : Fp F Bf16) (cuda : Bool) (layer : Layer H D F ι) (s : Share H D ι)
    (c : Tracked H D F) (life : Life H D ι) (before : List (Share H D ι)) : Prop where
  life : life = ⟨s.row, before ++ [s]⟩
  chunks : ∀ t ∈ before, t.chunk ≠ []
  track : c = track fp cuda before
  stored : Stored fp layer.cache s.row c.pages

theorem Follows.enters (hk : Kept fp cuda layer lives) (hf : Follows fp cuda layer lives)
    (hadm : lives.Admits s) {rt : Runtime H D F}
    (hbind : bindRuntime s.reqId s.contextLen layer = .ok rt) :
    Aligned H D ∧ ∃ c : Tracked H D F, Tracks rt c ∧
      ∀ life, lives.enter s s.reqId = some life →
        ∃ before, Enters fp cuda layer s c life before := by
  rcases bindRuntime_cases hbind with ⟨h0, rfl, layout, hinit⟩ | ⟨h0, -, hget, -⟩
  · refine ⟨(runtimeInit_ok hinit).2.1, newTrack H D F, tracks_new, fun life hlife => ⟨[], ?_⟩⟩
    rw [Lives.enter, Function.update_self, if_pos h0, Option.some.injEq] at hlife
    exact ⟨hlife.symm, by simp, rfl, stored_nil _ _⟩
  · obtain ⟨ha, c₀, htracks₀⟩ := hk.tables _ _ hget
    rcases hl : lives s.reqId with _ | life₀
    · refine ⟨ha, c₀, htracks₀, fun life hlife => ?_⟩
      rw [Lives.enter, Function.update_self, if_neg h0, hl] at hlife
      cases hlife
    · obtain ⟨⟨rt₁, hget₁, htracks⟩, hstored⟩ := hf.holds _ _ hl
      rw [hget, Option.some.injEq] at hget₁
      subst hget₁
      refine ⟨ha, _, htracks, fun life hlife => ⟨life₀.steps, ?_⟩⟩
      rw [Lives.enter, Function.update_self, if_neg h0, hl, Option.map_some,
        Option.some.injEq] at hlife
      exact ⟨hlife.symm, hf.chunks _ _ hl, rfl, hstored.grow (hadm.grows h0 _ hl)⟩

/-- One turn of the loop, for the request served and for the others. -/
theorem Follows.enter (hk : Kept fp cuda layer lives) (hf : Follows fp cuda layer lives)
    (hadm : lives.Admits s) (hne : s.chunk ≠ []) {junk : FastBuffers F}
    (hrun : (forwardRequest fp junk cuda s.reqId s.row s.contextLen s.chunk).run layer
      = .ok () layer') : Follows fp cuda layer' (lives.enter s) := by
  obtain ⟨rt, hbind⟩ := forwardRequest_binds hne hrun
  obtain ⟨ha, c, htracks, henters⟩ := hf.enters hk hadm hbind
  have hfit := forwardRequest_fits ha junk hk.width hbind htracks hne hrun
  obtain ⟨layer₁, rt', hrun', -, hget, htracks', hothers, hrows, hstored⟩ :=
    forwardRequest_frame ha junk hk.width hbind htracks hne hfit
  rw [hrun] at hrun'
  cases hrun'
  have hold : ∀ id ≠ s.reqId, lives.enter s id = lives id := fun id hid =>
    Function.update_of_ne hid _ _
  refine ⟨fun id life h => ?_, fun id life h => ?_⟩
  · by_cases hid : id = s.reqId
    · subst hid
      obtain ⟨before, rfl, -, rfl, hbefore⟩ := henters life h
      rw [track_append]
      exact ⟨⟨rt', hget, htracks'⟩, hstored hadm.nodup hbefore⟩
    · rw [hold id hid] at h
      obtain ⟨⟨rt₁, hget₁, htracks₁⟩, hstored₁⟩ := hf.holds id life h
      refine ⟨⟨rt₁, (hothers id hid).trans hget₁, htracks₁⟩, ?_⟩
      exact hstored₁.congr fun b hb => hrows b fun hmem =>
        hadm.disjoint id life hid h hb hmem
  · by_cases hid : id = s.reqId
    · subst hid
      obtain ⟨before, rfl, hchunks, -, -⟩ := henters life h
      intro t ht
      rcases List.mem_append.1 ht with hmem | hmem
      · exact hchunks t hmem
      · rwa [List.mem_singleton.1 hmem]
    · rw [hold id hid] at h
      exact hf.chunks id life h

theorem Reached.follows {l : Fin L} {e : Engine L H D F ι} (h : Reached fp cuda l e lives) :
    Follows fp cuda (e.layers l) lives := by
  have hsurvives : Survives fp cuda fun (layer : Layer H D F ι) lives =>
      Kept fp cuda layer lives ∧ Follows fp cuda layer lives :=
    ⟨fun p hP => ⟨hP.1.drop p, hP.2.drop p⟩, fun p hP => ⟨hP.1.dropWhere p, hP.2.dropWhere p⟩,
      fun hP hadm hne hrun => ⟨hP.1.enter hadm hne hrun, hP.2.enter hP.1 hadm hne hrun⟩⟩
  refine (hsurvives.reached h fun layer hempty hwidth => ⟨⟨hwidth, ?_, ?_, ?_⟩, ?_, ?_⟩).2
  · intro id rt hget
    rw [hempty id] at hget
    cases hget
  all_goals
    intro id life hlife
    cases hlife

end Follows

section Progress

variable {F ι : Type} {fp : Fp F Bf16} {cuda : Bool} {L H D : ℕ}

/-- The steps before `s` of the life it belongs to. -/
def Lives.before (lives : Lives H D ι) (s : Share H D ι) : List (Share H D ι) :=
  if s.contextLen = 0 then [] else ((lives s.reqId).map Life.steps).getD []

/-- The scheduler's promise for one step. -/
structure Lives.Scheduled (cuda : Bool) (lives : Lives H D ι) (s : Share H D ι) : Prop where
  context : s.contextLen = ((lives.before s).flatMap Share.chunk).length
  undisturbed : Undisturbed cuda (lives.before s ++ [s])
  room : (((lives.before s ++ [s]).flatMap Share.chunk).length - residualTokens) / groupSize
    ≤ s.row.length

/-- The promise for the steps of a batch, each at its turn. -/
def Lives.ScheduledAll (cuda : Bool) : Lives H D ι → List (Share H D ι) → Prop
  | _, [] => True
  | lives, s :: ss => lives.Scheduled cuda s ∧ (lives.enter s).ScheduledAll cuda ss

variable [DecidableEq ι] {layer : Layer H D F ι} {lives : Lives H D ι} {layout : Rabit2PageLayout}
  (hinit : runtimeInit H D D = .ok layout) (hround : RoundsHalfEven fp)

section Request

variable {s : Share H D ι} (hs : lives.Scheduled cuda s)

include hinit hround hs

omit [DecidableEq ι] in
/-- The runtime of a scheduled step. -/
theorem bindRuntime_scheduled (hf : Follows fp cuda layer lives) :
    ∃ rt, bindRuntime s.reqId s.contextLen layer = .ok rt ∧
      Tracks rt (track fp cuda (lives.before s)) ∧ ∀ t ∈ lives.before s, t.chunk ≠ [] := by
  obtain ⟨hcontext, hund, -⟩ := hs
  unfold Lives.before at *
  by_cases h0 : s.contextLen = 0
  · rw [if_pos h0, h0]
    exact ⟨{}, bindRuntime_new hinit layer, tracks_new, by simp⟩
  · rw [if_neg h0] at hcontext hund ⊢
    rcases hl : lives s.reqId with _ | life
    · rw [hl] at hcontext
      exact absurd hcontext h0
    · rw [hl] at hcontext hund
      obtain ⟨⟨rt, hget, htracks⟩, -⟩ := hf.holds _ _ hl
      have hplain := track_plain hround (hf.chunks _ _ hl) hund.init
      have hcontext' : s.contextLen = (life.steps.flatMap Share.chunk).length := hcontext
      refine ⟨rt, bindRuntime_next h0 (by omega) hget ?_, htracks, hf.chunks _ _ hl⟩
      rw [htracks.total.trans hplain.total, hcontext']

/-- A scheduled step comes through. -/
theorem forwardRequest_progress (hk : Kept fp cuda layer lives) (hf : Follows fp cuda layer lives)
    (hne : s.chunk ≠ []) (junk : FastBuffers F) :
    ∃ layer', (forwardRequest fp junk cuda s.reqId s.row s.contextLen s.chunk).run layer
      = .ok () layer' := by
  obtain ⟨rt, hbind, htracks, hchunks⟩ := bindRuntime_scheduled hinit hround hs hf
  have hall : ∀ t ∈ lives.before s ++ [s], t.chunk ≠ [] := by
    intro t ht
    rcases List.mem_append.1 ht with hmem | hmem
    · exact hchunks t hmem
    · rwa [List.mem_singleton.1 hmem]
  have hnext := track_plain hround hall hs.undisturbed
  have hpages : (track fp cuda (lives.before s ++ [s])).pages.length ≤ s.row.length := by
    rw [show (track fp cuda (lives.before s ++ [s])).pages = _ from congrArg Prod.snd hnext]
    exact (length_seqWin_pages fp _).trans_le hs.room
  rw [track_append] at hpages
  have hfit : Fits s.row (track fp cuda (lives.before s)).pages.length
      (moves fp cuda (track fp cuda (lives.before s)) s.chunk).2.1 :=
    Or.inr (by rwa [← List.length_append])
  obtain ⟨layer', -, hrun, -⟩ := forwardRequest_frame (runtimeInit_ok hinit).2.1 junk hk.width hbind
    htracks hne hfit
  exact ⟨layer', hrun⟩

end Request

include hinit hround

/-- So does a batch of scheduled steps. -/
theorem forwardItems_progress {junk : String → FastBuffers F} {blockTable : List (List ι)}
    {tokens : List (KV H D)} : ∀ (items : List (String × ℤ × ℤ)) (q0 : ℤ) (seqIdx : ℕ)
    {layer : Layer H D F ι} {lives : Lives H D ι}, Kept fp cuda layer lives →
    Follows fp cuda layer lives → seqIdx + items.length ≤ blockTable.length →
    lives.AdmitsAll (shares blockTable tokens q0 seqIdx items) →
    lives.ScheduledAll cuda (shares blockTable tokens q0 seqIdx items) →
    ∃ layer', (forwardItems fp cuda junk blockTable tokens q0 seqIdx items).run layer
      = .ok () layer'
  | [], _, _, layer, _, _, _, _, _, _ => ⟨layer, rfl⟩
  | (reqId, qLen, contextLen) :: rest, q0, seqIdx, layer, lives, hk, hf, hrows, hadm, hsched => by
    rw [List.length_cons] at hrows
    rw [shares] at hadm hsched
    rw [forwardItems]
    by_cases hlen : ((tokens.drop q0.toNat).take qLen.toNat).length = 0
    · simp only [if_pos hlen] at hadm hsched ⊢
      exact forwardItems_progress rest _ _ hk hf (by omega) hadm hsched
    · have hrow : blockTable[seqIdx]? = some (blockTable.getD seqIdx []) := by
        rw [List.getD_eq_getElem?_getD, List.getElem?_eq_getElem (by omega)]
        rfl
      have hne : (tokens.drop q0.toNat).take qLen.toNat ≠ [] := fun hc => hlen (by rw [hc]; rfl)
      simp only [if_neg hlen] at hadm hsched ⊢
      obtain ⟨mid, hone⟩ := forwardRequest_progress hinit hround hsched.1 hk hf hne (junk reqId)
      obtain ⟨layer', hrest⟩ := forwardItems_progress rest (q0 + qLen) (seqIdx + 1)
        (hk.enter hadm.1 hne hone) (hf.enter hk hadm.1 hne hone) (by omega) hadm.2 hsched.2
      refine ⟨layer', ?_⟩
      rw [hrow]
      simp only [EStateM.run_bind, hone]
      exact hrest

omit hinit hround in
/-- Layers that come through one by one come through one after another. -/
theorem forwardLayers_progress {junk : Fin L → String → FastBuffers F} {batch : BatchMeta ι}
    {tokens : Fin L → List (KV H D)} : ∀ {ls : List (Fin L)} {e : Engine L H D F ι}, ls.Nodup →
    (∀ l ∈ ls, ∃ layer', (forwardLayer fp cuda (junk l) e.activeBatch batch (tokens l)).run
      (e.layers l) = .ok () layer') →
    ∃ e', (forwardLayers fp cuda junk batch tokens ls).run e = .ok () e'
  | [], e, _, _ => ⟨e, rfl⟩
  | l :: ls, e, hnodup, h => by
    rw [List.nodup_cons] at hnodup
    obtain ⟨layer', hlayer⟩ := h l List.mem_cons_self
    have hrest : ∀ l' ∈ ls, ∃ layer'', (forwardLayer fp cuda (junk l') e.activeBatch batch
        (tokens l')).run (Function.update e.layers l layer' l') = .ok () layer'' := by
      intro l' hl'
      have hne : l' ≠ l := fun hc => hnodup.1 (hc ▸ hl')
      rw [Function.update_of_ne hne]
      exact h l' (List.mem_cons_of_mem _ hl')
    obtain ⟨e', he'⟩ := forwardLayers_progress (e := ⟨e.activeBatch,
      Function.update e.layers l layer'⟩) hnodup.2 hrest
    refine ⟨e', ?_⟩
    simp only [forwardLayers, EStateM.run_bind, EStateM.run_get, onLayer_ok hlayer]
    exact he'

/-- A pass over a published batch comes through on every layer. -/
theorem forward_progress {e : Engine L H D F ι} (lives : Fin L → Lives H D ι)
    (h : ∀ l, Reached fp cuda l e (lives l)) {junk : Fin L → String → FastBuffers F}
    {batch : BatchMeta ι} {tokens : Fin L → List (KV H D)} {items : List (String × ℤ × ℤ)}
    (hitems : ∀ l, forwardBatch e.activeBatch batch (tokens l).length = .ok items)
    (hrows : items.length ≤ batch.blockTable.length)
    (hadm : ∀ l, ((lives l).drop ((EngineOp.forward junk batch tokens).ends l e)).AdmitsAll
      ((EngineOp.forward junk batch tokens).shares l e))
    (hsched : ∀ l, ((lives l).drop
      ((EngineOp.forward junk batch tokens).ends l e)).ScheduledAll cuda
      ((EngineOp.forward junk batch tokens).shares l e)) :
    ∃ e', ((EngineOp.forward junk batch tokens).exec fp cuda).run e = .ok () e' := by
  refine forwardLayers_progress (List.nodup_finRange L) fun l _ => ?_
  have hshares : (EngineOp.forward junk batch tokens).shares l e
      = shares batch.blockTable (tokens l) 0 0 items := by
    simp only [EngineOp.shares, hitems l]
  have hadm := hadm l
  have hsched := hsched l
  rw [hshares] at hadm hsched
  unfold forwardLayer
  by_cases h0 : (tokens l).length = 0
  · rw [if_pos h0]
    exact ⟨_, rfl⟩
  · rw [if_neg h0]
    simp only [hitems l]
    exact forwardItems_progress hinit hround items 0 0 ((h l).kept.drop _) ((h l).follows.drop _)
      (by omega) hadm hsched

end Progress

section Isolated

variable {F ι : Type} [DecidableEq ι] {fp : Fp F Bf16} {cuda : Bool} {L H D : ℕ}

/-- A live request is where its own steps since its latest step at context 0 lead on any layer with
nobody else around, page bytes included. Finishing requests removes their runtimes from every layer
and touches nothing else. -/
theorem request_isolated {l : Fin L} {e : Engine L H D F ι} {lives : Lives H D ι}
    (h : Reached fp cuda l e lives) :
    (∀ id life, lives id = some life → ∃ rt, (e.layers l).runtimes id = some rt ∧
      rt.closedPages ≤ life.row.length ∧ (∀ s ∈ life.steps, s.reqId = id) ∧
      (∃ first later, life.steps = first :: later ∧ first.contextLen = 0 ∧
        ∀ s ∈ later, s.contextLen ≠ 0) ∧
      ∀ (layer : Layer H D F ι) (own : List (FastBuffers F × Share H D ι)),
        layer.cache.width = (pageLayout groupSize H D D).pageBytes →
        own.map Prod.snd = life.steps →
        ∃ layer' rt', (aloneRun fp cuda own).run layer = .ok () layer' ∧
          layer'.runtimes id = some rt' ∧ rt'.side = rt.side ∧ rt'.closedPages = rt.closedPages ∧
          ∀ b ∈ life.row.take rt.closedPages, layer'.cache.rows b = (e.layers l).cache.rows b) ∧
    ∀ reqIds, ∃ n e', (finishRequests reqIds).run e = .ok n e' ∧ ∀ l',
      (e'.layers l').cache = (e.layers l').cache ∧ ∀ id,
        (e'.layers l').runtimes id = if id ∈ reqIds then none else (e.layers l').runtimes id := by
  have hk := h.kept
  refine ⟨?_, ?_⟩
  · intro id life hlife
    obtain ⟨c, ⟨⟨rt, hget, htracks⟩, hstored⟩, hends⟩ := hk.live id life hlife
    obtain ⟨hown, hfirst⟩ := hk.own id life hlife
    refine ⟨rt, hget, ?_, hown, hfirst, ?_⟩
    · rw [htracks.closedPages]
      exact hstored.length_le
    · intro layer own hwidth hsteps
      obtain ⟨layer', hrun, -, ⟨rt', hget', htracks'⟩, hstored'⟩ := hends layer own hwidth hsteps
      refine ⟨layer', rt', hrun, hget', htracks'.side.trans htracks.side.symm,
        htracks'.closedPages.trans htracks.closedPages.symm, ?_⟩
      rw [htracks.closedPages]
      exact hstored.rows_eq hstored'
  · intro reqIds
    refine ⟨_, _, finishRequests_run reqIds e, fun l' => ⟨rfl, fun id => ?_⟩⟩
    simp only [Layer.dropWhere, List.contains_iff_mem]

end Isolated

section Concrete

variable {F : Type} {fp : Fp F Bf16}

/-- One layer of one head, with nobody on it. -/
def idleEngine (F : Type) : Engine 1 1 64 F ℕ :=
  ⟨[], fun _ => ⟨fun _ => none, (pageLayout groupSize 1 64 64).pageBytes, fun _ => []⟩⟩

theorem idleEngine_reached : Reached fp true 0 (idleEngine F) fun _ => none :=
  Reached.start (fun _ => rfl) rfl

/-- Two requests start, with 37 and 38 tokens. -/
def startPass (junk : Fin 1 → String → FastBuffers F) (tokens : List (KV 1 64)) :
    EngineOp 1 1 64 F ℕ :=
  .forward junk ⟨[0, 37, 75], [], [[2, 0], [1]]⟩ fun _ => tokens

/-- Request `b` goes on with one token, and `c` starts with 40 tokens on the blocks of `a`. -/
def nextPass (junk : Fin 1 → String → FastBuffers F) (tokens : List (KV 1 64)) :
    EngineOp 1 1 64 F ℕ :=
  .forward junk ⟨[0, 1, 41], [], [[1, 3], [2, 0]]⟩ fun _ => tokens

section Shares

variable (id : String) (tokens : List (KV 1 64))

def startA : Share 1 64 ℕ := ⟨id, [2, 0], 0, tokens.take 37⟩

def startB : Share 1 64 ℕ := ⟨"b", [1], 0, (tokens.drop 37).take 38⟩

def nextB : Share 1 64 ℕ := ⟨"b", [1, 3], 38, tokens.take 1⟩

def startC : Share 1 64 ℕ := ⟨"c", [2, 0], 0, (tokens.drop 1).take 40⟩

variable {id tokens} (junk : Fin 1 → String → FastBuffers F) {e : Engine 1 1 64 F ℕ}

theorem startPass_shares (hlen : tokens.length = 75)
    (hactive : e.activeBatch = [(id, 37, 0), ("b", 38, 0)]) :
    (startPass junk tokens).shares 0 e = [startA id tokens, startB tokens] := by
  simp [startPass, EngineOp.shares, forwardBatch, shares, hactive, hlen, startA, startB]

theorem nextPass_shares (hlen : tokens.length = 41)
    (hactive : e.activeBatch = [("b", 1, 38), ("c", 40, 0)]) :
    (nextPass junk tokens).shares 0 e = [nextB tokens, startC tokens] := by
  simp [nextPass, EngineOp.shares, forwardBatch, shares, hactive, hlen, nextB, startC]

end Shares

section Lives

variable (first : List (KV 1 64)) {tokens : List (KV 1 64)}

/-- Nobody is live. -/
abbrev nobody : Lives 1 64 ℕ := fun _ => none

theorem drop_nobody (p : String → Bool) : Lives.drop nobody p = nobody :=
  funext fun _ => ite_self none

/-- Request `b` after its first step, alone. -/
def onlyB : Lives 1 64 ℕ := Function.update nobody "b" (some ⟨[1], [startB first]⟩)

theorem onlyB_of_ne {id : String} (h : id ≠ "b") : onlyB first id = none :=
  Function.update_of_ne h _ _

theorem drop_onlyB {p : String → Bool} (h : p "b" = false) :
    Lives.drop (onlyB first) p = onlyB first := by
  funext id
  by_cases hid : id = "b"
  · rw [Lives.drop, hid, h]
    rfl
  · rw [Lives.drop, onlyB_of_ne first hid, ite_self]

/-- The shape of the layer takes no copies. -/
theorem undisturbed_small (steps : List (Share 1 64 ℕ)) : Undisturbed true steps :=
  fun h => absurd h (by decide)

theorem start_admitted (a : String) : nobody.AdmitsAll [startA a first, startB first] := by
  refine ⟨⟨show [2, 0].Nodup by decide, fun _ _ _ h => (nomatch h), fun h => absurd rfl h⟩,
    ⟨List.nodup_singleton 1, fun id life _ h => ?_, fun h => absurd rfl h⟩, trivial⟩
  by_cases ha : id = a
  · subst ha
    rw [Lives.enter, startA, Function.update_self] at h
    obtain rfl := Option.some.inj h
    exact show [2, 0].Disjoint [1] by simp
  · have hother : nobody.enter (startA a first) id = nobody id := Function.update_of_ne ha _ _
    rw [hother] at h
    cases h

theorem start_scheduled (a : String) (hlen : first.length = 75) :
    nobody.ScheduledAll true [startA a first, startB first] := by
  refine ⟨⟨rfl, undisturbed_small _, ?_⟩, ⟨rfl, undisturbed_small _, ?_⟩, trivial⟩
  · simp [Lives.before, startA, hlen, residualTokens, groupSize]
  · simp [Lives.before, startB, hlen, residualTokens, groupSize]

theorem next_admitted : (onlyB first).AdmitsAll [nextB tokens, startC tokens] := by
  refine ⟨⟨show [1, 3].Nodup by decide, fun id life hid h => ?_, fun _ life h => ?_⟩,
    ⟨show [2, 0].Nodup by decide, fun id life _ h => ?_, fun h => absurd rfl h⟩, trivial⟩
  · rw [onlyB_of_ne first hid] at h
    cases h
  · obtain rfl := Option.some.inj h
    exact show [1] <+: [1, 3] by decide
  · by_cases hb : id = "b"
    · subst hb
      obtain rfl := Option.some.inj h
      exact show [1, 3].Disjoint [2, 0] by simp
    · have hother : (onlyB first).enter (nextB tokens) id = onlyB first id :=
        Function.update_of_ne hb _ _
      rw [hother, onlyB_of_ne first hb] at h
      cases h

theorem next_scheduled (hfirst : first.length = 75) (hlen : tokens.length = 41) :
    (onlyB first).ScheduledAll true [nextB tokens, startC tokens] := by
  have hbefore : (onlyB first).before (nextB tokens) = [startB first] := rfl
  refine ⟨⟨?_, undisturbed_small _, ?_⟩, ⟨rfl, undisturbed_small _, ?_⟩, trivial⟩
  · rw [hbefore]
    simp [nextB, startB, hfirst]
  · rw [hbefore]
    simp [nextB, startB, hfirst, hlen, residualTokens, groupSize]
  · simp [Lives.before, startC, hlen, residualTokens, groupSize]

/-- What the two passes and the end of `a` between them make of the live requests. -/
theorem onlyB_eq :
    Lives.drop (Lives.drop ([startA "a" first, startB first].foldl Lives.enter nobody)
        fun id => ["a"].contains id)
      (fun id => !(["b", "c"] : List String).isEmpty && profileTag.isPrefixOf id)
      = onlyB first := by
  funext id
  by_cases hb : id = "b"
  · subst hb
    rfl
  · rw [onlyB_of_ne first hb]
    by_cases ha : id = "a"
    · subst ha
      rfl
    · have hstart : [startA "a" first, startB first].foldl Lives.enter nobody id = none :=
        (Function.update_of_ne hb _ _).trans (Function.update_of_ne ha _ _)
      rw [Lives.drop, Lives.drop, hstart, ite_self, ite_self]

end Lives

section Run

variable {first tokens : List (KV 1 64)} (hfirst : first.length = 75) (hlen : tokens.length = 41)
  (junk : Fin 1 → String → FastBuffers F) {e : Engine 1 1 64 F ℕ}

include hfirst in
/-- Both requests start. -/
theorem startPass_run (hround : RoundsHalfEven fp) (h : Reached fp true 0 e nobody)
    {a : String} (hactive : e.activeBatch = [(a, 37, 0), ("b", 38, 0)]) :
    ∃ e', ((startPass junk first).exec fp true).run e = .ok () e' ∧
      Reached fp true 0 e' ([startA a first, startB first].foldl Lives.enter nobody) := by
  have hshares := startPass_shares junk hfirst hactive
  have hadm : (Lives.drop nobody ((startPass junk first).ends 0 e)).AdmitsAll
      ((startPass junk first).shares 0 e) := by
    rw [hshares, drop_nobody]
    exact start_admitted first a
  obtain ⟨e', hrun⟩ : ∃ e', ((startPass junk first).exec fp true).run e = .ok () e' :=
    forward_progress rfl hround (fun _ => nobody)
      (fun l => by rwa [Subsingleton.elim l 0]) (fun _ => by rw [hactive, hfirst]; rfl) le_rfl
      (fun l => by rwa [Subsingleton.elim l 0]) fun l => by
        rw [Subsingleton.elim l 0, drop_nobody]
        exact hshares ▸ start_scheduled first a hfirst
  have hreached := h.step hrun hadm
  rw [EngineOp.lives, drop_nobody, hshares] at hreached
  exact ⟨e', hrun, hreached⟩

include hfirst hlen in
/-- One of them goes on, and another one starts on the blocks of the one that has ended. -/
theorem nextPass_run (hround : RoundsHalfEven fp) (h : Reached fp true 0 e (onlyB first))
    (hactive : e.activeBatch = [("b", 1, 38), ("c", 40, 0)]) :
    (Lives.drop (onlyB first) ((nextPass junk tokens).ends 0 e)).AdmitsAll
        ((nextPass junk tokens).shares 0 e) ∧
      ∃ e', ((nextPass junk tokens).exec fp true).run e = .ok () e' ∧
        Reached fp true 0 e' ([nextB tokens, startC tokens].foldl Lives.enter (onlyB first)) := by
  have hshares := nextPass_shares junk hlen hactive
  have hends : (nextPass junk tokens).ends 0 e "b" = false := by
    change ((nextPass junk tokens).shares 0 e).any _ = false
    rw [hshares]
    rfl
  have hadm : (Lives.drop (onlyB first) ((nextPass junk tokens).ends 0 e)).AdmitsAll
      ((nextPass junk tokens).shares 0 e) := by
    rw [hshares, drop_onlyB first hends]
    exact next_admitted first
  obtain ⟨e', hrun⟩ : ∃ e', ((nextPass junk tokens).exec fp true).run e = .ok () e' :=
    forward_progress rfl hround (fun _ => onlyB first)
      (fun l => by rwa [Subsingleton.elim l 0]) (fun _ => by rw [hactive, hlen]; rfl) le_rfl
      (fun l => by rwa [Subsingleton.elim l 0]) fun l => by
        rw [Subsingleton.elim l 0]
        have hsched := next_scheduled first hfirst hlen
        rw [← hshares, ← drop_onlyB first hends] at hsched
        exact hsched
  have hreached := h.step hrun hadm
  rw [EngineOp.lives, drop_onlyB first hends, hshares] at hreached
  exact ⟨hadm, e', hrun, hreached⟩

include hfirst in
/-- Two requests start, one of them ends, and the next batch is published. -/
theorem onlyB_reached (hround : RoundsHalfEven fp) :
    ∃ e₁ e₂ e₃ e₄ : Engine 1 1 64 F ℕ,
      ((EngineOp.setActive ["a", "b"] [37, 38] [0, 0]).exec fp true).run (idleEngine F)
        = .ok () e₁ ∧
      ((startPass junk first).exec fp true).run e₁ = .ok () e₂ ∧
      ((EngineOp.finish ["a"]).exec fp true).run e₂ = .ok () e₃ ∧
      ((EngineOp.setActive ["b", "c"] [1, 40] [38, 0]).exec fp true).run e₃ = .ok () e₄ ∧
      e₄.activeBatch = [("b", 1, 38), ("c", 40, 0)] ∧ Reached fp true 0 e₄ (onlyB first) := by
  have hpublish : ((EngineOp.setActive ["a", "b"] [37, 38] [0, 0]).exec fp true).run (idleEngine F)
      = .ok () ⟨[("a", 37, 0), ("b", 38, 0)], fun l =>
        ((idleEngine F).layers l).dropWhere fun id => profileTag.isPrefixOf id⟩ := rfl
  have hpublished := idleEngine_reached.step hpublish trivial
  rw [EngineOp.lives, drop_nobody] at hpublished
  obtain ⟨e₂, hstart, hstarted⟩ := startPass_run hfirst junk hround hpublished rfl
  have hfinish : ((EngineOp.finish ["a"]).exec fp true).run e₂ = .ok () ⟨e₂.activeBatch, fun l =>
      (e₂.layers l).dropWhere fun id => ["a"].contains id⟩ := rfl
  have hnext : ((EngineOp.setActive ["b", "c"] [1, 40] [38, 0]).exec fp true).run
      ⟨e₂.activeBatch, fun l => (e₂.layers l).dropWhere fun id => ["a"].contains id⟩
      = .ok () ⟨[("b", 1, 38), ("c", 40, 0)], fun l => ((e₂.layers l).dropWhere fun id =>
        ["a"].contains id).dropWhere fun id => profileTag.isPrefixOf id⟩ := rfl
  exact ⟨_, e₂, _, _, hpublish, hstart, hfinish, hnext, rfl,
    onlyB_eq first ▸ (hstarted.step hfinish trivial).step hnext trivial⟩

end Run

/-- Two requests start, one of them ends, and a third one starts on its blocks while the other goes
on. Both that are live then are where lone runs of their steps end. -/
theorem request_isolated_reused_blocks :
    ∃ (e₁ e₂ e₃ e₄ e : Engine 1 1 64 ℚ ℕ) (lives : Lives 1 64 ℕ),
    ((EngineOp.setActive ["a", "b"] [37, 38] [0, 0]).exec ratFp true).run (idleEngine ℚ)
      = .ok () e₁ ∧
    ((startPass (fun _ _ => zeroBuffers) (rampTokens 1 64 75)).exec ratFp true).run e₁
      = .ok () e₂ ∧
    ((EngineOp.finish ["a"]).exec ratFp true).run e₂ = .ok () e₃ ∧
    ((EngineOp.setActive ["b", "c"] [1, 40] [38, 0]).exec ratFp true).run e₃ = .ok () e₄ ∧
    ((nextPass (fun _ _ => zeroBuffers) (rampTokens 1 64 41)).exec ratFp true).run e₄ = .ok () e ∧
    Reached ratFp true 0 e lives ∧ lives "a" = none ∧
    lives "b" = some ⟨[1, 3], [startB (rampTokens 1 64 75), nextB (rampTokens 1 64 41)]⟩ ∧
    lives "c" = some ⟨[2, 0], [startC (rampTokens 1 64 41)]⟩ ∧
    ∀ id life, lives id = some life → ∃ rt layer' rt', (e.layers 0).runtimes id = some rt ∧
      (aloneRun ratFp true (life.steps.map fun s => (zeroBuffers, s))).run
        ((idleEngine ℚ).layers 0) = .ok () layer' ∧
      layer'.runtimes id = some rt' ∧ rt'.side = rt.side ∧ rt'.closedPages = rt.closedPages ∧
      ∀ b ∈ life.row.take rt.closedPages, layer'.cache.rows b = (e.layers 0).cache.rows b := by
  have hfirst := length_rampTokens 1 64 75
  have hnext := length_rampTokens 1 64 41
  obtain ⟨e₁, e₂, e₃, e₄, hpublish, hstart, hfinish, hpublish', hactive, hreached⟩ :=
    onlyB_reached hfirst (fun _ _ => zeroBuffers) ratFp_roundsHalfEven
  obtain ⟨-, e, hpass, hreached⟩ := nextPass_run hfirst hnext (fun _ _ => zeroBuffers)
    ratFp_roundsHalfEven hreached hactive
  refine ⟨e₁, e₂, e₃, e₄, e, _, hpublish, hstart, hfinish, hpublish', hpass, hreached, rfl, rfl,
    rfl, fun id life hlife => ?_⟩
  obtain ⟨rt, hget, -, -, -, halone⟩ := (request_isolated hreached).1 id life hlife
  obtain ⟨layer', rt', hlone, hget', hside, hclosed, hrows⟩ := halone ((idleEngine ℚ).layers 0)
    (life.steps.map fun s => (zeroBuffers, s)) rfl (by rw [List.map_map]; exact List.map_id _)
  exact ⟨rt, layer', rt', hget, hlone, hget', hside, hclosed, hrows⟩

/-- A request under a synthetic id loses its runtime when another batch is published. -/
theorem synthetic_request_dropped : ∃ e₁ e₂ e₃ rt,
    ((EngineOp.setActive ["__rabit_profile_0", "b"] [37, 38] [0, 0]).exec ratFp true).run
      (idleEngine ℚ) = .ok () e₁ ∧
    ((startPass (fun _ _ => zeroBuffers) (rampTokens 1 64 75)).exec ratFp true).run e₁
      = .ok () e₂ ∧
    (e₂.layers 0).runtimes "__rabit_profile_0" = some rt ∧
    ((EngineOp.setActive ["b"] [1] [38]).exec ratFp true).run e₂ = .ok () e₃ ∧
    (e₃.layers 0).runtimes "__rabit_profile_0" = none := by
  have hpublish : ((EngineOp.setActive ["__rabit_profile_0", "b"] [37, 38] [0, 0]).exec ratFp
      true).run (idleEngine ℚ) = .ok () ⟨[("__rabit_profile_0", 37, 0), ("b", 38, 0)], fun l =>
        ((idleEngine ℚ).layers l).dropWhere fun id => profileTag.isPrefixOf id⟩ := rfl
  have hpublished := idleEngine_reached.step hpublish trivial
  rw [EngineOp.lives, drop_nobody] at hpublished
  obtain ⟨e₂, hstart, hreached⟩ := startPass_run (length_rampTokens 1 64 75)
    (fun _ _ => zeroBuffers) ratFp_roundsHalfEven hpublished rfl
  obtain ⟨⟨rt, hget, -⟩, -⟩ := hreached.follows.holds "__rabit_profile_0" _ rfl
  have htag : profileTag.isPrefixOf "__rabit_profile_0" = true := by decide +kernel
  exact ⟨_, e₂, _, rt, hpublish, hstart, hget, rfl, if_pos htag⟩

end Concrete

end RabitKV
