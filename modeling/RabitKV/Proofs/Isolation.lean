import RabitKV.Isolation
import RabitKV.Proofs.Serve

/-!
# Requests on a shared cache are isolated

A runtime follows a window with its copy (`Tracks`), and the pages of the window lie at the first
blocks of the request's row (`Stored`). A step of a request moves its window in a way that depends
on nothing else and writes blocks of its own row only (`forwardRequest_moves`). So the windows of
the live requests survive the steps of the others, and each of them is the window a lone run ends
in.
-/

namespace RabitKV

open Chunks Stores Window

section Track

variable {F ι : Type} {fp : Fp F Bf16} {H D : ℕ}

/-- The pages lie at the first blocks of the row. -/
def Stored (fp : Fp F Bf16) (cache : Cache ι) (row : List ι) (ps : List (List (Aged H D F))) :
    Prop :=
  ∀ (i : ℕ) (es : List (Aged H D F)), ps[i]? = some es →
    ∃ b, row[i]? = some b ∧ cache.rows b = pageOfGroup fp es

theorem stored_nil (cache : Cache ι) (row : List ι) :
    Stored (H := H) (D := D) fp cache row [] := by
  intro i es h
  cases h

theorem Stored.length_le {cache : Cache ι} {row : List ι} {ps : List (List (Aged H D F))}
    (h : Stored fp cache row ps) : ps.length ≤ row.length := by
  rcases Nat.eq_zero_or_pos ps.length with h0 | hpos
  · omega
  · obtain ⟨b, hb, -⟩ := h (ps.length - 1) _ (List.getElem?_eq_getElem (by omega))
    have := (List.getElem?_eq_some_iff.1 hb).1
    omega

theorem Stored.grow {cache : Cache ι} {row row' : List ι} {ps : List (List (Aged H D F))}
    (h : Stored fp cache row ps) (hrow : row <+: row') : Stored fp cache row' ps := by
  intro i es hes
  obtain ⟨b, hb, hpage⟩ := h i es hes
  obtain ⟨more, rfl⟩ := hrow
  exact ⟨b, by rw [List.getElem?_append_left (List.getElem?_eq_some_iff.1 hb).1]; exact hb, hpage⟩

/-- Writes to other blocks leave the pages alone. -/
theorem Stored.congr {cache cache' : Cache ι} {row : List ι} {ps : List (List (Aged H D F))}
    (h : Stored fp cache row ps) (hrows : ∀ b ∈ row, cache'.rows b = cache.rows b) :
    Stored fp cache' row ps := by
  intro i es hes
  obtain ⟨b, hb, hpage⟩ := h i es hes
  exact ⟨b, hb, (hrows b (List.mem_of_getElem? hb)).trans hpage⟩

/-- Two caches that store the same pages agree on their blocks. -/
theorem Stored.rows_eq {cache cache' : Cache ι} {row : List ι} {ps : List (List (Aged H D F))}
    (h : Stored fp cache row ps) (h' : Stored fp cache' row ps) :
    ∀ b ∈ row.take ps.length, cache'.rows b = cache.rows b := by
  intro b hb
  obtain ⟨i, hi, hget⟩ := List.mem_take_iff_getElem.1 hb
  obtain ⟨b₁, hb₁, hpage₁⟩ := h i _ (List.getElem?_eq_getElem (by omega))
  obtain ⟨b₂, hb₂, hpage₂⟩ := h' i _ (List.getElem?_eq_getElem (by omega))
  rw [List.getElem?_eq_getElem (by omega), Option.some.injEq] at hb₁ hb₂
  rw [← hget, hb₁, hpage₁, ← hb₁, hb₂, hpage₂]

variable [DecidableEq ι]

theorem Stored.write {cache : Cache ι} {row : List ι} {ps qs : List (List (Aged H D F))}
    (h : Stored fp cache row ps) (hnodup : row.Nodup) (hfit : Fits row ps.length qs) :
    Stored fp (written fp row ⟨ps.length, cache⟩ qs).cache row (ps ++ qs) := by
  intro i es hes
  by_cases hi : i < ps.length
  · rw [List.getElem?_append_left hi] at hes
    obtain ⟨b, hb, hpage⟩ := h i es hes
    exact ⟨b, hb, (written_rows_of_lt fp hnodup qs hi hb).trans hpage⟩
  · rw [List.getElem?_append_right (Nat.le_of_not_lt hi)] at hes
    have hlt := (List.getElem?_eq_some_iff.1 hes).1
    have hlong : ps.length + qs.length ≤ row.length := by
      refine hfit.resolve_left ?_
      rintro rfl
      cases hlt
    obtain ⟨b, hb⟩ : ∃ b, row[i]? = some b := ⟨_, List.getElem?_eq_getElem (by omega)⟩
    refine ⟨b, hb, written_rows_get fp hnodup (p := ⟨ps.length, cache⟩) (i := i - ps.length) ?_ hes⟩
    show row[ps.length + (i - ps.length)]? = some b
    rw [Nat.add_sub_cancel' (Nat.le_of_not_lt hi), hb]

end Track

section Bind

variable {F ι : Type} {H D : ℕ} {reqId : String} {contextLen : ℤ} {rt : Runtime H D F}

/-- A request starts afresh at context 0 and else continues a runtime of that length. -/
theorem bindRuntime_cases {layer : Layer H D F ι}
    (h : bindRuntime reqId contextLen layer = .ok rt) :
    (contextLen = 0 ∧ rt = {} ∧ ∃ layout, runtimeInit H D D = .ok layout) ∨
      (contextLen ≠ 0 ∧ 0 ≤ contextLen ∧ layer.runtimes reqId = some rt ∧
        (totalTokens rt.closedPages rt.side : ℤ) = contextLen) := by
  unfold bindRuntime at h
  by_cases hneg : contextLen < 0
  · rw [if_pos hneg] at h
    cases h
  rw [if_neg hneg] at h
  by_cases h0 : contextLen = 0
  · rw [if_pos h0] at h
    rcases hinit : runtimeInit H D D with e | layout <;> rw [hinit] at h <;> cases h
    exact Or.inl ⟨h0, rfl, layout, rfl⟩
  · rw [if_neg h0] at h
    rcases hget : layer.runtimes reqId with _ | rt₀ <;> rw [hget] at h
    · cases h
    · by_cases hlen : (totalTokens rt₀.closedPages rt₀.side : ℤ) = contextLen
      · simp only [hlen, ne_eq, not_true_eq_false, if_false, Except.ok.injEq] at h
        subst h
        exact Or.inr ⟨h0, by omega, rfl, hlen⟩
      · simp only [hlen, ne_eq, not_false_eq_true, if_true] at h
        cases h

theorem bindRuntime_new {layout : Rabit2PageLayout} (h : runtimeInit H D D = .ok layout)
    (layer : Layer H D F ι) : bindRuntime reqId 0 layer = .ok {} := by
  unfold bindRuntime
  rw [if_neg (by omega), if_pos rfl, h]
  rfl

theorem bindRuntime_next {layer : Layer H D F ι} (h0 : contextLen ≠ 0) (hpos : 0 ≤ contextLen)
    (hget : layer.runtimes reqId = some rt)
    (hlen : (totalTokens rt.closedPages rt.side : ℤ) = contextLen) :
    bindRuntime reqId contextLen layer = .ok rt := by
  unfold bindRuntime
  rw [if_neg (by omega), if_neg h0, hget]
  simp only [hlen, ne_eq, not_true_eq_false, if_false]

theorem Tracks.total_eq {rt rt' : Runtime H D F} {c : Tracked H D F} (h : Tracks rt c)
    (h' : Tracks rt' c) :
    totalTokens rt'.closedPages rt'.side = totalTokens rt.closedPages rt.side :=
  h'.total.trans h.total.symm

variable [DecidableEq ι] {fp : Fp F Bf16} {cuda : Bool} {junk : FastBuffers F}

theorem forwardRequest_binds {row : List ι} {chunk : List (KV H D)} {layer layer' : Layer H D F ι}
    (hne : chunk ≠ [])
    (h : (forwardRequest fp junk cuda reqId row contextLen chunk).run layer = .ok () layer') :
    ∃ rt, bindRuntime reqId contextLen layer = .ok rt := by
  have hlen : ¬ chunk.length = 0 := fun hc => hne (List.eq_nil_of_length_eq_zero hc)
  unfold forwardRequest at h
  rw [if_neg hlen] at h
  rcases hbind : bindRuntime reqId contextLen layer with e | rt
  · simp only [EStateM.run_bind, EStateM.run_get, hbind] at h
    cases h
  · exact ⟨rt, rfl⟩

end Bind

section Alone

variable {F ι : Type} [DecidableEq ι] {fp : Fp F Bf16} {cuda : Bool} {H D : ℕ}

/-- A batch of one request is one turn of the loop. -/
theorem alone_eq (junk : FastBuffers F) {s : Share H D ι} (hne : s.chunk ≠ []) :
    s.alone fp cuda junk
      = forwardRequest fp junk cuda s.reqId s.row s.contextLen s.chunk := by
  have hlen : ¬ s.chunk.length = 0 := fun h => hne (List.eq_nil_of_length_eq_zero h)
  unfold Share.alone forwardLayer
  rw [if_neg hlen]
  simp only [forwardBatch, ne_eq, List.cons_ne_nil, not_false_eq_true, if_true, List.length_cons,
    List.length_nil, not_true_eq_false, if_false, List.map_cons, List.map_nil, List.sum_cons,
    List.sum_nil, Int.add_zero, forwardItems, Int.toNat_zero, List.drop_zero, Int.toNat_natCast,
    List.take_length, if_neg hlen, List.getElem?_cons_zero, bind_pure_unit]

theorem aloneRun_append (own : List (FastBuffers F × Share H D ι)) (junk : FastBuffers F)
    (s : Share H D ι) :
    aloneRun fp cuda (own ++ [(junk, s)])
      = (do aloneRun fp cuda own
            s.alone fp cuda junk) := by
  induction own with
  | nil => simp [aloneRun]
  | cons o own ih =>
    rw [List.cons_append, aloneRun, aloneRun, ih, bind_assoc]

end Alone

section Step

variable {F ι : Type} [DecidableEq ι] {fp : Fp F Bf16} {cuda : Bool} {H D : ℕ}

/-- A layer has a request in the state `c`, its pages at the first blocks of the row. -/
structure Holds (fp : Fp F Bf16) (layer : Layer H D F ι) (id : String) (row : List ι)
    (c : Tracked H D F) : Prop where
  runtime : ∃ rt, layer.runtimes id = some rt ∧ Tracks rt c
  stored : Stored fp layer.cache row c.pages

/-- Steps of one request: it starts at context 0 and goes on from there. -/
structure OwnSteps (id : String) (steps : List (Share H D ι)) : Prop where
  own : ∀ s ∈ steps, s.reqId = id
  first : ∃ first later, steps = first :: later ∧ first.contextLen = 0 ∧
    ∀ s ∈ later, s.contextLen ≠ 0

/-- Alone on any layer, the steps of this life end in the state `c`. -/
def EndsIn (fp : Fp F Bf16) (cuda : Bool) (id : String) (life : Life H D ι) (c : Tracked H D F) :
    Prop :=
  ∀ (layer : Layer H D F ι) (own : List (FastBuffers F × Share H D ι)),
    layer.cache.width = (pageLayout groupSize H D D).pageBytes → own.map Prod.snd = life.steps →
    ∃ layer', (aloneRun fp cuda own).run layer = .ok () layer' ∧
      layer'.cache.width = (pageLayout groupSize H D D).pageBytes ∧ Holds fp layer' id life.row c

/-- What a layer keeps from operation to operation. -/
structure Kept (fp : Fp F Bf16) (cuda : Bool) (layer : Layer H D F ι) (lives : Lives H D ι) :
    Prop where
  width : layer.cache.width = (pageLayout groupSize H D D).pageBytes
  tables : ∀ id rt, layer.runtimes id = some rt → Aligned H D ∧ ∃ c, Tracks rt c
  own : ∀ id life, lives id = some life → OwnSteps id life.steps
  live : ∀ id life, lives id = some life →
    ∃ c, Holds fp layer id life.row c ∧ EndsIn fp cuda id life c

section Served

variable (ha : Aligned H D) (junk : FastBuffers F) {s : Share H D ι} {layer : Layer H D F ι}
  (hwidth : layer.cache.width = (pageLayout groupSize H D D).pageBytes) {rt : Runtime H D F}
  (hbind : bindRuntime s.reqId s.contextLen layer = .ok rt) {c : Tracked H D F}
  (htracks : Tracks rt c) (hne : s.chunk ≠ [])
  (hfit : Fits s.row c.pages.length (moves fp cuda c s.chunk).2.1)

include ha hwidth hbind htracks hne hfit

/-- A step of a request keeps the other requests' runtimes and blocks. -/
theorem forwardRequest_frame :
    ∃ layer' rt', (forwardRequest fp junk cuda s.reqId s.row s.contextLen s.chunk).run layer
        = .ok () layer' ∧ layer'.cache.width = layer.cache.width ∧
      layer'.runtimes s.reqId = some rt' ∧ Tracks rt' (follow fp cuda c s.chunk) ∧
      (∀ id ≠ s.reqId, layer'.runtimes id = layer.runtimes id) ∧
      (∀ b ∉ s.row, layer'.cache.rows b = layer.cache.rows b) ∧
      (s.row.Nodup → Stored fp layer.cache s.row c.pages →
        Stored fp layer'.cache s.row (follow fp cuda c s.chunk).pages) := by
  obtain ⟨rt', hrun, htracks'⟩ := forwardRequest_moves ha junk hwidth hbind htracks hne hfit
  refine ⟨_, rt', hrun, rfl, Function.update_self _ _ _, htracks', ?_, ?_, ?_⟩
  · intro id hid
    exact Function.update_of_ne hid _ _
  · intro b hb
    refine written_rows_of_notMem fp fun hmem => hb ?_
    exact List.mem_of_mem_drop (List.mem_of_mem_take hmem)
  · intro hnodup hstored
    exact hstored.write hnodup hfit

end Served

/-- The lone run of a life that has just begun. -/
theorem endsIn_first {layout : Rabit2PageLayout} (hinit : runtimeInit H D D = .ok layout)
    {s : Share H D ι} (h0 : s.contextLen = 0) (hnodup : s.row.Nodup) (hne : s.chunk ≠ [])
    (hfit : Fits s.row 0 (moves fp cuda (newTrack H D F) s.chunk).2.1) :
    EndsIn fp cuda s.reqId ⟨s.row, [s]⟩ (follow fp cuda (newTrack H D F) s.chunk) := by
  intro layer own hwidth hown
  obtain ⟨⟨junk, s'⟩, rfl, rfl⟩ := List.map_eq_singleton_iff.1 hown
  have hbind : bindRuntime s'.reqId s'.contextLen layer = .ok ({} : Runtime H D F) := by
    rw [h0]
    exact bindRuntime_new hinit layer
  obtain ⟨layer', rt', hrun, hwidth', hget, htracks, -, -, hstored⟩ := forwardRequest_frame
    (runtimeInit_ok hinit).2.1 junk hwidth hbind tracks_new hne hfit
  refine ⟨layer', ?_, hwidth'.trans hwidth, ⟨rt', hget, htracks⟩, ?_⟩
  · rw [aloneRun, aloneRun, bind_pure_unit, alone_eq junk hne]
    exact hrun
  · exact hstored hnodup (stored_nil _ _)

/-- The lone run of a life that goes on. -/
theorem EndsIn.next (ha : Aligned H D) {life : Life H D ι} {s : Share H D ι} {c : Tracked H D F}
    (h : EndsIn fp cuda s.reqId life c) (h0 : s.contextLen ≠ 0) (hpos : 0 ≤ s.contextLen)
    {rt : Runtime H D F} (htracks : Tracks rt c)
    (hlen : (totalTokens rt.closedPages rt.side : ℤ) = s.contextLen) (hgrow : life.row <+: s.row)
    (hnodup : s.row.Nodup) (hne : s.chunk ≠ [])
    (hfit : Fits s.row c.pages.length (moves fp cuda c s.chunk).2.1) :
    EndsIn fp cuda s.reqId ⟨s.row, life.steps ++ [s]⟩ (follow fp cuda c s.chunk) := by
  intro layer own hwidth hown
  obtain ⟨before, tail, rfl, hbefore, htail⟩ := List.map_eq_append_iff.1 hown
  obtain ⟨⟨junk, s'⟩, rfl, rfl⟩ := List.map_eq_singleton_iff.1 htail
  obtain ⟨mid, hmid, hmidwidth, ⟨rt₁, hget₁, htracks₁⟩, hstored⟩ := h layer before hwidth hbefore
  have hbind : bindRuntime s'.reqId s'.contextLen mid = .ok rt₁ :=
    bindRuntime_next h0 hpos hget₁ (by rw [htracks.total_eq htracks₁]; exact hlen)
  obtain ⟨layer', rt', hrun, hwidth', hget, htracks', -, -, hstored'⟩ := forwardRequest_frame
    ha junk hmidwidth hbind htracks₁ hne hfit
  refine ⟨layer', ?_, hwidth'.trans hmidwidth, ⟨rt', hget, htracks'⟩, ?_⟩
  · rw [aloneRun_append, EStateM.run_bind, hmid, alone_eq junk hne]
    exact hrun
  · exact hstored' hnodup (hstored.grow hgrow)

omit [DecidableEq ι] in
theorem OwnSteps.append {id : String} {steps : List (Share H D ι)} (h : OwnSteps id steps)
    {s : Share H D ι} (hid : s.reqId = id) (h0 : s.contextLen ≠ 0) :
    OwnSteps id (steps ++ [s]) := by
  obtain ⟨hown, first, later, hsteps, hfirst, hlater⟩ := h
  refine ⟨?_, first, later ++ [s], by rw [hsteps]; rfl, hfirst, ?_⟩
  · intro s' hs'
    rcases List.mem_append.1 hs' with hmem | hmem
    · exact hown s' hmem
    · rwa [List.mem_singleton.1 hmem]
  · intro s' hs'
    rcases List.mem_append.1 hs' with hmem | hmem
    · exact hlater s' hmem
    · rwa [List.mem_singleton.1 hmem]

/-- The life a step of the request leads to, from its state `c` before the step. -/
structure Joins (fp : Fp F Bf16) (cuda : Bool) (layer : Layer H D F ι) (s : Share H D ι)
    (c : Tracked H D F) (life : Life H D ι) : Prop where
  row : life.row = s.row
  own : OwnSteps s.reqId life.steps
  stored : Stored fp layer.cache s.row c.pages
  ends : Fits s.row c.pages.length (moves fp cuda c s.chunk).2.1 →
    EndsIn fp cuda s.reqId life (follow fp cuda c s.chunk)

/-- The state of a request before its step, the one its life is in if it has one. -/
theorem Kept.joins {layer : Layer H D F ι} {lives : Lives H D ι} (hk : Kept fp cuda layer lives)
    {s : Share H D ι} (hadm : lives.Admits s) (hne : s.chunk ≠ []) {rt : Runtime H D F}
    (hbind : bindRuntime s.reqId s.contextLen layer = .ok rt) :
    Aligned H D ∧ ∃ c : Tracked H D F, Tracks rt c ∧
      ∀ life, lives.enter s s.reqId = some life → Joins fp cuda layer s c life := by
  rcases bindRuntime_cases hbind with ⟨h0, rfl, layout, hinit⟩ | ⟨h0, hpos, hget, hlen⟩
  · refine ⟨(runtimeInit_ok hinit).2.1, newTrack H D F, tracks_new, fun life hlife => ?_⟩
    rw [Lives.enter, Function.update_self, if_pos h0, Option.some.injEq] at hlife
    subst hlife
    exact ⟨rfl, ⟨by simp, s, [], rfl, h0, by simp⟩, stored_nil _ _,
      fun hfit => endsIn_first hinit h0 hadm.nodup hne hfit⟩
  · obtain ⟨ha, c₀, htracks₀⟩ := hk.tables _ _ hget
    rcases hl : lives s.reqId with _ | life₀
    · refine ⟨ha, c₀, htracks₀, fun life hlife => ?_⟩
      rw [Lives.enter, Function.update_self, if_neg h0, hl] at hlife
      cases hlife
    · obtain ⟨c, ⟨⟨rt₁, hget₁, htracks⟩, hstored⟩, hends⟩ := hk.live _ _ hl
      rw [hget, Option.some.injEq] at hget₁
      subst hget₁
      have hgrow := hadm.grows h0 _ hl
      refine ⟨ha, c, htracks, fun life hlife => ?_⟩
      rw [Lives.enter, Function.update_self, if_neg h0, hl, Option.map_some,
        Option.some.injEq] at hlife
      subst hlife
      exact ⟨rfl, (hk.own _ _ hl).append rfl h0, hstored.grow hgrow,
        fun hfit => hends.next ha h0 hpos htracks hlen hgrow hadm.nodup hne hfit⟩

/-- One turn of the loop keeps what the layer keeps, for the request served and for the others. -/
theorem Kept.enter {layer layer' : Layer H D F ι} {lives : Lives H D ι}
    (hk : Kept fp cuda layer lives) {s : Share H D ι} (hadm : lives.Admits s) (hne : s.chunk ≠ [])
    {junk : FastBuffers F}
    (hrun : (forwardRequest fp junk cuda s.reqId s.row s.contextLen s.chunk).run layer
      = .ok () layer') : Kept fp cuda layer' (lives.enter s) := by
  obtain ⟨rt, hbind⟩ := forwardRequest_binds hne hrun
  obtain ⟨ha, c, htracks, hjoins⟩ := hk.joins hadm hne hbind
  have hfit := forwardRequest_fits ha junk hk.width hbind htracks hne hrun
  obtain ⟨layer₁, rt', hrun', hwidth, hget, htracks', hothers, hrows, hstored⟩ :=
    forwardRequest_frame ha junk hk.width hbind htracks hne hfit
  rw [hrun] at hrun'
  cases hrun'
  have hold : ∀ id ≠ s.reqId, lives.enter s id = lives id := fun id hid =>
    Function.update_of_ne hid _ _
  refine ⟨hwidth.trans hk.width, ?_, ?_, ?_⟩
  · intro id rt₁ h
    by_cases hid : id = s.reqId
    · rw [hid, hget, Option.some.injEq] at h
      exact ⟨ha, _, h ▸ htracks'⟩
    · rw [hothers id hid] at h
      exact hk.tables id rt₁ h
  · intro id life h
    by_cases hid : id = s.reqId
    · subst hid
      exact (hjoins life h).own
    · rw [hold id hid] at h
      exact hk.own id life h
  · intro id life h
    by_cases hid : id = s.reqId
    · subst hid
      obtain ⟨hrow, -, hbefore, hends⟩ := hjoins life h
      refine ⟨_, ⟨⟨rt', hget, htracks'⟩, ?_⟩, hends hfit⟩
      rw [hrow]
      exact hstored hadm.nodup hbefore
    · rw [hold id hid] at h
      obtain ⟨c₁, ⟨⟨rt₁, hget₁, htracks₁⟩, hstored₁⟩, hends⟩ := hk.live id life h
      refine ⟨c₁, ⟨⟨rt₁, (hothers id hid).trans hget₁, htracks₁⟩, ?_⟩, hends⟩
      exact hstored₁.congr fun b hb => hrows b fun hmem =>
        hadm.disjoint id life hid h hb hmem

end Step

section Engine

variable {F ι : Type} {fp : Fp F Bf16} {cuda : Bool} {L H D : ℕ}

theorem Kept.drop [DecidableEq ι] {layer : Layer H D F ι} {lives : Lives H D ι}
    (hk : Kept fp cuda layer lives) (p : String → Bool) : Kept fp cuda layer (lives.drop p) := by
  have hlives : ∀ id life, lives.drop p id = some life → lives id = some life := by
    intro id life h
    by_cases hp : p id = true
    · rw [Lives.drop, if_pos hp] at h
      cases h
    · rwa [Lives.drop, if_neg hp] at h
  exact ⟨hk.width, hk.tables, fun id life h => hk.own id life (hlives id life h),
    fun id life h => hk.live id life (hlives id life h)⟩

/-- Runtimes of requests that are live no more may go. -/
theorem Kept.dropWhere [DecidableEq ι] {layer : Layer H D F ι} {lives : Lives H D ι}
    (hk : Kept fp cuda layer lives) (p : String → Bool) :
    Kept fp cuda (layer.dropWhere p) (lives.drop p) := by
  have hk' := hk.drop p
  have hkeep : ∀ id, p id ≠ true → (layer.dropWhere p).runtimes id = layer.runtimes id :=
    fun id hp => if_neg hp
  refine ⟨hk.width, ?_, hk'.own, ?_⟩
  · intro id rt h
    by_cases hp : p id = true
    · have hgone : (layer.dropWhere p).runtimes id = none := if_pos hp
      rw [hgone] at h
      cases h
    · rw [hkeep id hp] at h
      exact hk.tables id rt h
  · intro id life h
    have hp : p id ≠ true := by
      intro hp
      rw [Lives.drop, if_pos hp] at h
      cases h
    obtain ⟨c, ⟨⟨rt, hget, htracks⟩, hstored⟩, hends⟩ := hk'.live id life h
    exact ⟨c, ⟨⟨rt, (hkeep id hp).trans hget, htracks⟩, hstored⟩, hends⟩

section Forward

variable [DecidableEq ι]

omit [DecidableEq ι] in
theorem onLayer_ok {l : Fin L} {m : LayerM H D F ι Unit} {e : Engine L H D F ι}
    {layer : Layer H D F ι} (h : m.run (e.layers l) = .ok () layer) :
    (onLayer l m).run e = .ok () ⟨e.activeBatch, Function.update e.layers l layer⟩ := by
  simp only [onLayer, EStateM.run] at h ⊢
  rw [h]

omit [DecidableEq ι] in
theorem onLayer_run {l : Fin L} {m : LayerM H D F ι Unit} {e e' : Engine L H D F ι}
    (h : (onLayer l m).run e = .ok () e') :
    m.run (e.layers l) = .ok () (e'.layers l) ∧ e'.activeBatch = e.activeBatch ∧
      ∀ l' ≠ l, e'.layers l' = e.layers l' := by
  simp only [onLayer, EStateM.run] at h ⊢
  rcases hm : m (e.layers l) with ⟨⟨⟩, layer⟩ | ⟨err, layer⟩ <;> rw [hm] at h <;> cases h
  refine ⟨?_, rfl, fun l' hl' => Function.update_of_ne hl' _ _⟩
  simp only [Function.update_self]

/-- Every layer takes its own forward pass on the published batch. -/
theorem forwardLayers_run {junk : Fin L → String → FastBuffers F} {batch : BatchMeta ι}
    {tokens : Fin L → List (KV H D)} : ∀ {ls : List (Fin L)} {e e' : Engine L H D F ι}, ls.Nodup →
    (forwardLayers fp cuda junk batch tokens ls).run e = .ok () e' →
    (∀ l ∈ ls, (forwardLayer fp cuda (junk l) e.activeBatch batch (tokens l)).run (e.layers l)
      = .ok () (e'.layers l)) ∧ ∀ l ∉ ls, e'.layers l = e.layers l
  | [], e, e', _, h => by
    cases h
    exact ⟨by simp, fun _ _ => rfl⟩
  | l :: ls, e, e', hnodup, h => by
    rw [List.nodup_cons] at hnodup
    simp only [forwardLayers, EStateM.run_bind, EStateM.run_get] at h
    rcases hl : (onLayer l (forwardLayer fp cuda (junk l) e.activeBatch batch (tokens l))).run e
      with ⟨⟨⟩, mid⟩ | ⟨err, mid⟩ <;> rw [hl] at h
    · obtain ⟨hrun, hactive, hothers⟩ := onLayer_run hl
      obtain ⟨hin, hout⟩ := forwardLayers_run hnodup.2 h
      refine ⟨fun l' hl' => ?_, fun l' hl' => ?_⟩
      · rcases List.mem_cons.1 hl' with rfl | hmem
        · rw [hout l' hnodup.1]
          exact hrun
        · have hne : l' ≠ l := fun hc => hnodup.1 (hc ▸ hmem)
          rw [← hactive, ← hothers l' hne]
          exact hin l' hmem
      · rw [List.mem_cons, not_or] at hl'
        rw [hout l' hl'.2, hothers l' hl'.1]
    · cases h

omit [DecidableEq ι] in
/-- A batch without tokens serves nobody. -/
theorem shares_nil (blockTable : List (List ι)) : ∀ (items : List (String × ℤ × ℤ)) (q0 : ℤ)
    (seqIdx : ℕ), shares (H := H) (D := D) blockTable [] q0 seqIdx items = []
  | [], _, _ => rfl
  | (reqId, qLen, contextLen) :: rest, q0, seqIdx => by
    rw [shares]
    simp only [List.drop_nil, List.take_nil, List.length_nil, if_true]
    exact shares_nil blockTable rest _ _

end Forward

theorem finishRequests_run (reqIds : List String) (e : Engine L H D F ι) :
    (finishRequests reqIds).run e
      = .ok ((List.finRange L).map fun l => (e.layers l).countHeld reqIds).sum
          { e with layers := fun l => (e.layers l).dropWhere fun id => reqIds.contains id } := rfl

theorem setActiveBatch_run {reqIds : List String} {queryLens contextLens : List ℤ}
    {e e' : Engine L H D F ι}
    (h : (setActiveBatch reqIds queryLens contextLens).run e = .ok () e') :
    e' = ⟨reqIds.zip (queryLens.zip contextLens), fun l => if reqIds = [] then e.layers l
      else (e.layers l).dropWhere fun id => profileTag.isPrefixOf id⟩ := by
  unfold setActiveBatch at h
  by_cases hlen : ¬ (reqIds.length = queryLens.length ∧ queryLens.length = contextLens.length)
  · simp only [if_pos hlen] at h
    cases h
  by_cases hq : (queryLens.any fun q => q ≤ 0) = true
  · simp only [if_neg hlen, if_pos hq] at h
    cases h
  by_cases hc : (contextLens.any fun c => c < 0) = true
  · simp only [if_neg hlen, if_neg hq, if_pos hc] at h
    cases h
  · simp only [if_neg hlen, if_neg hq, if_neg hc] at h
    cases h
    rfl

end Engine

section Survives

variable {F ι : Type} [DecidableEq ι] {fp : Fp F Bf16} {cuda : Bool} {L H D : ℕ}
  {P : Layer H D F ι → Lives H D ι → Prop}

/-- What holds of a layer and its live requests survives what the operations do to them. -/
structure Survives (fp : Fp F Bf16) (cuda : Bool) (P : Layer H D F ι → Lives H D ι → Prop) :
    Prop where
  drop : ∀ {layer : Layer H D F ι} {lives : Lives H D ι} (p : String → Bool),
    P layer lives → P layer (lives.drop p)
  dropWhere : ∀ {layer : Layer H D F ι} {lives : Lives H D ι} (p : String → Bool),
    P layer lives → P (layer.dropWhere p) (lives.drop p)
  enter : ∀ {layer layer' : Layer H D F ι} {lives : Lives H D ι} {s : Share H D ι}
    {junk : FastBuffers F}, P layer lives → lives.Admits s → s.chunk ≠ [] →
    (forwardRequest fp junk cuda s.reqId s.row s.contextLen s.chunk).run layer = .ok () layer' →
    P layer' (lives.enter s)

/-- A turn of the loop: the request sits it out, or it is served and the loop goes on. -/
theorem forwardItems_cons {junk : String → FastBuffers F} {blockTable : List (List ι)}
    {tokens : List (KV H D)} {q0 : ℤ} {seqIdx : ℕ} {reqId : String} {qLen contextLen : ℤ}
    {rest : List (String × ℤ × ℤ)} {layer layer' : Layer H D F ι}
    (hlen : ((tokens.drop q0.toNat).take qLen.toNat).length ≠ 0)
    (hrun : (forwardItems fp cuda junk blockTable tokens q0 seqIdx
      ((reqId, qLen, contextLen) :: rest)).run layer = .ok () layer') :
    ∃ row mid, blockTable[seqIdx]? = some row ∧
      (forwardRequest fp (junk reqId) cuda reqId row contextLen
        ((tokens.drop q0.toNat).take qLen.toNat)).run layer = .ok () mid ∧
      (forwardItems fp cuda junk blockTable tokens (q0 + qLen) (seqIdx + 1) rest).run mid
        = .ok () layer' := by
  rw [forwardItems] at hrun
  simp only [if_neg hlen] at hrun
  rcases hrow : blockTable[seqIdx]? with _ | row <;> rw [hrow] at hrun
  · cases hrun
  · simp only [EStateM.run_bind] at hrun
    rcases hone : (forwardRequest fp (junk reqId) cuda reqId row contextLen
      ((tokens.drop q0.toNat).take qLen.toNat)).run layer with ⟨⟨⟩, mid⟩ | ⟨e, mid⟩ <;>
      rw [hone] at hrun
    · exact ⟨row, mid, rfl, hone, hrun⟩
    · cases hrun

theorem Survives.forwardItems (h : Survives fp cuda P) {junk : String → FastBuffers F}
    {blockTable : List (List ι)} {tokens : List (KV H D)} :
    ∀ (items : List (String × ℤ × ℤ)) (q0 : ℤ) (seqIdx : ℕ) {layer layer' : Layer H D F ι}
      {lives : Lives H D ι}, P layer lives →
    (RabitKV.forwardItems fp cuda junk blockTable tokens q0 seqIdx items).run layer
      = .ok () layer' →
    lives.AdmitsAll (shares blockTable tokens q0 seqIdx items) →
    P layer' ((shares blockTable tokens q0 seqIdx items).foldl Lives.enter lives)
  | [], _, _, layer, layer', lives, hP, hrun, _ => by
    cases hrun
    exact hP
  | (reqId, qLen, contextLen) :: rest, q0, seqIdx, layer, layer', lives, hP, hrun, hadm => by
    rw [shares] at hadm ⊢
    by_cases hlen : ((tokens.drop q0.toNat).take qLen.toNat).length = 0
    · rw [RabitKV.forwardItems] at hrun
      simp only [if_pos hlen] at hrun hadm ⊢
      exact h.forwardItems rest _ _ hP hrun hadm
    · obtain ⟨row, mid, hrow, hone, hrest⟩ := forwardItems_cons hlen hrun
      have hget : blockTable.getD seqIdx [] = row := by
        rw [List.getD_eq_getElem?_getD, hrow]
        rfl
      simp only [if_neg hlen, hget] at hadm ⊢
      have hne : (tokens.drop q0.toNat).take qLen.toNat ≠ [] :=
        fun hc => hlen (by rw [hc]; rfl)
      exact h.forwardItems rest _ _ (h.enter hP hadm.1 hne hone) hrest hadm.2

theorem Survives.forward (h : Survives fp cuda P) {junk : Fin L → String → FastBuffers F}
    {batch : BatchMeta ι} {tokens : Fin L → List (KV H D)} {l : Fin L} {e : Engine L H D F ι}
    {layer' : Layer H D F ι} {lives : Lives H D ι} (hP : P (e.layers l) lives)
    (hrun : (forwardLayer fp cuda (junk l) e.activeBatch batch (tokens l)).run (e.layers l)
      = .ok () layer')
    (hadm : lives.AdmitsAll ((EngineOp.forward junk batch tokens).shares l e)) :
    P layer' (((EngineOp.forward junk batch tokens).shares l e).foldl Lives.enter lives) := by
  simp only [EngineOp.shares] at hadm ⊢
  unfold forwardLayer at hrun
  by_cases h0 : (tokens l).length = 0
  · rw [if_pos h0] at hrun
    cases hrun
    rw [List.eq_nil_of_length_eq_zero h0]
    rcases forwardBatch e.activeBatch batch ([] : List (KV H D)).length with err | items
    · exact hP
    · simp only [shares_nil]
      exact hP
  · rw [if_neg h0] at hrun
    rcases hbatch : forwardBatch e.activeBatch batch (tokens l).length with err | items <;>
      simp only [hbatch] at hrun hadm ⊢
    · cases hrun
    · exact h.forwardItems items 0 0 hP hrun hadm

/-- What survives the operations holds of every state a run reaches. -/
theorem Survives.reached (h : Survives fp cuda P) {l : Fin L} {e : Engine L H D F ι}
    {lives : Lives H D ι} (hreached : Reached fp cuda l e lives)
    (hstart : ∀ layer : Layer H D F ι, (∀ id, layer.runtimes id = none) →
      layer.cache.width = (pageLayout groupSize H D D).pageBytes → P layer fun _ => none) :
    P (e.layers l) lives := by
  induction hreached with
  | start hempty hwidth => exact hstart _ hempty hwidth
  | @step e e' lives op _ hrun hadm ih =>
    cases op with
    | finish reqIds =>
      rw [EngineOp.exec, EStateM.run_bind, finishRequests_run] at hrun
      cases hrun
      exact h.dropWhere _ ih
    | preempt reqIds =>
      cases hrun
      exact h.drop _ ih
    | setActive reqIds queryLens contextLens =>
      rw [EngineOp.exec] at hrun
      rw [setActiveBatch_run hrun]
      rcases reqIds with _ | ⟨id, reqIds⟩
      · simp only [if_true]
        exact h.drop (EngineOp.ends l e (.setActive [] queryLens contextLens)) ih
      · simp only [List.cons_ne_nil, if_false]
        exact h.dropWhere _ ih
    | forward junk batch tokens =>
      rw [EngineOp.exec] at hrun
      have hlayer := (forwardLayers_run (List.nodup_finRange L) hrun).1 l (List.mem_finRange l)
      exact h.forward (h.drop _ ih) hlayer hadm

end Survives

section Kept

variable {F ι : Type} [DecidableEq ι] {fp : Fp F Bf16} {cuda : Bool} {L H D : ℕ}

theorem Reached.kept {l : Fin L} {e : Engine L H D F ι} {lives : Lives H D ι}
    (h : Reached fp cuda l e lives) : Kept fp cuda (e.layers l) lives := by
  have hsurvives : Survives fp cuda (Kept (H := H) (D := D) (ι := ι) fp cuda) :=
    ⟨fun p hk => hk.drop p, fun p hk => hk.dropWhere p,
      fun hk hadm hne hrun => hk.enter hadm hne hrun⟩
  refine hsurvives.reached h fun layer hempty hwidth => ⟨hwidth, fun id rt hget => ?_,
    fun id life hlife => ?_, fun id life hlife => ?_⟩
  · rw [hempty id] at hget
    cases hget
  · cases hlife
  · cases hlife

end Kept

end RabitKV
