import RabitKV.Proofs.Serve

/-!
# A failed append cannot be resumed

`_flush_open_page` raises before it resets the open group, so an append that finds the block table
too short leaves a full group open (`Jammed`). Only a group of exactly 32 tokens is closed, so the
next token makes it 33 and no page is ever written again, whatever the table
(`append_jammed`). An append loses nothing exactly when it does not raise.
-/

namespace RabitKV

open Window Chunks

section Jam

variable {F σ : Type} (fp : Fp F Bf16) (cuda : Bool) {H D : ℕ} {close : SideM H D F σ Unit}
  {emit : List (Aged H D F) → σ → Except String σ}

theorem Jammed.le_openK {st : Held H D F σ} (h : Jammed st) : groupSize ≤ lenOpt st.side.openK := by
  obtain ⟨es, recent, hlen, hside⟩ := h
  rwa [hside, toSidecar_openK, lenOpt_optList, List.length_map]

theorem appendToken_jammed (hclose : Closes close emit) {st : Held H D F σ} (h : Jammed st)
    (kv : KV H D) :
    ∃ st', Jammed st' ∧ st'.rest = st.rest ∧
      (appendToken fp cuda close kv).run st = .ok () st' := by
  obtain ⟨side, s⟩ := st
  obtain ⟨es, recent, hlen, rfl⟩ := h
  by_cases hr : (recent ++ [kv]).length ≤ residualTokens
  · exact ⟨⟨toSidecar es (recent ++ [kv]), s⟩, ⟨es, _, hlen, rfl⟩, rfl,
      appendToken_waits fp cuda es hr s⟩
  · obtain ⟨old, rest, hcons⟩ : ∃ old rest, recent ++ [kv] = old :: rest :=
      List.exists_cons_of_ne_nil (by simp)
    have hgrown : (es ++ [ageKV fp old]).length = es.length + 1 := by simp
    have hrun := appendAged_run fp cuda hclose es rest old s
    rw [if_neg (by omega), ← appendToken_ages fp cuda es hcons hr s] at hrun
    exact ⟨⟨toSidecar (es ++ [ageKV fp old]) rest, s⟩, ⟨_, rest, by omega, rfl⟩, rfl, hrun⟩

theorem appendTokens_jammed (hclose : Closes close emit) :
    ∀ (kvs : List (KV H D)) {st : Held H D F σ}, Jammed st →
      ∃ st', Jammed st' ∧ st'.rest = st.rest ∧
        (appendTokens fp cuda close kvs).run st = .ok () st'
  | [], st, h => ⟨st, h, rfl, rfl⟩
  | kv :: kvs, st, h => by
    obtain ⟨st₁, h₁, hrest₁, hrun₁⟩ := appendToken_jammed fp cuda hclose h kv
    obtain ⟨st₂, h₂, hrest₂, hrun₂⟩ := appendTokens_jammed hclose kvs h₁
    refine ⟨st₂, h₂, hrest₂.trans hrest₁, ?_⟩
    rw [appendTokens, EStateM.run_bind, hrun₁]
    exact hrun₂

/-- A full group that was not closed is never closed: later tokens pile up behind it. -/
theorem append_jammed {ι : Type} [DecidableEq ι] (ha : Aligned H D) (row : List ι)
    (kvs : List (KV H D)) {st : Held H D F (Physical ι)} (h : Jammed st) :
    ∃ st', Jammed st' ∧ st'.rest = st.rest ∧
      (append fp cuda row (kvs.map Prod.fst) (kvs.map Prod.snd)).run st = .ok () st' := by
  rw [append_eq_appendTokens]
  exact appendTokens_jammed fp cuda (flushOpenPage_closes fp row ha) kvs h

end Jam

section Resume

variable {F ι σ : Type} {H D : ℕ}

/-- `total_tokens` of a runtime. -/
abbrev heldTokens (s : Held H D F (Physical ι)) : ℕ := totalTokens s.rest.closedPages s.side

/-- A call that found the table too short has lost nothing: the open group is not full, the tokens
taken in are counted and stand in order, and a second call with the other tokens and a longer table
ends where one call with that table ends. -/
def LosesNothing (call : List ι → List (KV H D) → EStateM String σ Unit)
    (held : σ → Held H D F (Physical ι)) (s : σ) (row : List ι) (chunk : List (KV H D)) : Prop :=
  ∀ st, (call row chunk).run s = .error tooShort st →
    lenOpt (held st).side.openK < groupSize ∧
    ∃ n ≤ chunk.length, heldTokens (held st) = heldTokens (held s) + n ∧
      (held st).side.openK.getD [] ++ (held st).side.recentK.getD [] <:+
        (held s).side.openK.getD [] ++ (held s).side.recentK.getD []
          ++ (chunk.take n).map Prod.fst ∧
      (held st).side.recentV.getD [] <:+
        (held s).side.recentV.getD [] ++ (chunk.take n).map Prod.snd ∧
      ∀ row' s', row <+: row' → (call row' chunk).run s = .ok () s' →
        ∃ st', (call row' (chunk.drop n)).run st = .ok () st' ∧ held st' = held s'

variable {call : List ι → List (KV H D) → EStateM String σ Unit}
  (held : σ → Held H D F (Physical ι)) {s : σ} {row : List ι} {chunk : List (KV H D)}

theorem losesNothing_of_ok {s' : σ} (h : (call row chunk).run s = .ok () s') :
    LosesNothing call held s row chunk := by
  intro st hst
  rw [h] at hst
  cases hst

theorem not_losesNothing_of_jammed {st : σ} (h : (call row chunk).run s = .error tooShort st)
    (hjam : Jammed (held st)) : ¬ LosesNothing call held s row chunk :=
  fun hloses => (hloses st h).1.not_ge hjam.le_openK

end Resume

section Blocks

variable {F ι : Type} {H D : ℕ}

/-- How many pages `n` tokens close behind `o` open and `r` recent ones. -/
def pagesClosed (o r n : ℕ) : ℕ := (o + (r + n - residualTokens)) / groupSize

/-- The table names a block for each of the next `k` pages. -/
def HasBlocks (row : List ι) (closedPages k : ℕ) : Prop := k = 0 ∨ closedPages + k ≤ row.length

theorem length_pages (age : KV H D → Aged H D F) (w : SeqWin H D F) (kvs : List (KV H D)) :
    (w.batch age kvs).2.length = pagesClosed w.opened.length w.recent.length kvs.length := by
  rw [length_batch_pages, lenOpt_openK, lenOpt_recentK, pagesClosed]

theorem fits_iff_hasBlocks {row : List ι} {closedPages : ℕ} (age : KV H D → Aged H D F)
    (w : SeqWin H D F) (kvs : List (KV H D)) :
    Fits row closedPages (w.batch age kvs).2
      ↔ HasBlocks row closedPages
          (pagesClosed w.opened.length w.recent.length kvs.length) := by
  rw [Fits, HasBlocks, length_pages, ← length_pages age w kvs, List.length_eq_zero_iff]

end Blocks

section Iff

variable {F ι : Type} [DecidableEq ι] (fp : Fp F Bf16) {H D : ℕ}

/-- The rebound append. -/
abbrev fastCall (junk : FastBuffers F) (cuda : Bool) (row : List ι) (chunk : List (KV H D)) :
    LiveM H D F ι Unit :=
  fastDecodeAppend fp junk cuda row (chunk.map Prod.fst) (chunk.map Prod.snd)

/-- The plain append. -/
abbrev plainCall (cuda : Bool) (row : List ι) (chunk : List (KV H D)) :
    SideM H D F (Physical ι) Unit :=
  append fp cuda row (chunk.map Prod.fst) (chunk.map Prod.snd)

/-- The open tokens a call of the rebound append works behind: the private ones when one token takes
the fast path and the buffers are ready. -/
def openBehind (cuda : Bool) (s : Live H D F ι) (n : ℕ) : ℕ :=
  if fastShape cuda H D = true ∧ n = 1 ∧ residualTokens ≤ lenOpt s.held.side.recentK then
    (s.fast.map Fast.openLen).getD (lenOpt s.held.side.openK)
  else lenOpt s.held.side.openK

variable {row : List ι} {p : Physical ι} {cuda : Bool} (ha : Aligned H D)
  (hwidth : p.cache.width = (pageLayout groupSize H D D).pageBytes)

include ha hwidth

theorem plainCall_losesNothing_iff (w : SeqWin H D F) (chunk : List (KV H D)) :
    LosesNothing (plainCall fp cuda) id (hold w p) row chunk
      ↔ Fits row p.closedPages (w.batch (ageKV fp) chunk).2 := by
  refine ⟨fun h => ?_, fun h => losesNothing_of_ok id (append_run fp cuda row ha w chunk hwidth h)⟩
  by_contra hrow
  obtain ⟨hpages, hlong⟩ := not_or.1 hrow
  obtain ⟨st, hjam, hrun⟩ :=
    append_raises fp cuda row ha w chunk hwidth hpages (Nat.lt_of_not_le hlong)
  exact not_losesNothing_of_jammed id hrun hjam h

theorem fastCall_losesNothing_iff (junk : FastBuffers F) {c : Tracked H D F}
    {fast : Option (Fast F)} (hfast : Option.Rel FastRep fast c.copy) (chunk : List (KV H D)) :
    LosesNothing (fastCall fp junk cuda) Live.held ⟨hold c.pub p, fast⟩ row chunk
      ↔ Fits row p.closedPages (moves fp cuda c chunk).2.1 := by
  by_cases hone : chunk.length = 1
  · obtain ⟨kv, rfl⟩ := List.length_eq_one_iff.1 hone
    refine ⟨fun h => ?_, fun h => ?_⟩
    · by_contra hrow
      obtain ⟨st, left, hjam, hrun⟩ := fastDecodeAppend_one_raises ha hwidth junk hfast kv hrow
      exact not_losesNothing_of_jammed Live.held hrun hjam h
    · obtain ⟨fast', hrun, -⟩ := fastDecodeAppend_one ha hwidth junk hfast kv h
      exact losesNothing_of_ok Live.held hrun
  · rw [moves, Copied.moved_batch _ fun hc => hone hc.2.1]
    refine ⟨fun h => ?_, fun h => ?_⟩
    · by_contra hrow
      obtain ⟨st, hjam, hrun⟩ := slowAppend_raises ha hwidth c.pub hrow fast
      rw [← fastDecodeAppend_many junk hone] at hrun
      exact not_losesNothing_of_jammed Live.held hrun hjam h
    · have hcall : fastCall fp junk cuda row chunk = _ := fastDecodeAppend_many junk hone
      exact losesNothing_of_ok Live.held
        ((congrArg (EStateM.run · _) hcall).trans (slowAppend_run ha hwidth c.pub h fast))

omit ha hwidth [DecidableEq ι] in
/-- The pages of a call of the rebound append, counted. -/
theorem fits_moves_iff {c : Tracked H D F} {fast : Option (Fast F)}
    (hfast : Option.Rel FastRep fast c.copy) (chunk : List (KV H D)) :
    Fits row p.closedPages (moves fp cuda c chunk).2.1
      ↔ HasBlocks row p.closedPages (pagesClosed
          (openBehind cuda ⟨hold c.pub p, fast⟩ chunk.length) c.pub.recent.length
          chunk.length) := by
  have hrecent : lenOpt (hold c.pub p).side.recentK = c.pub.recent.length := lenOpt_recentK c.pub
  have hopen : lenOpt (hold c.pub p).side.openK = c.pub.opened.length := lenOpt_openK c.pub
  unfold openBehind
  rw [hrecent, hopen]
  by_cases hfull : fastShape cuda H D = true ∧ chunk.length = 1 ∧
      residualTokens ≤ c.pub.recent.length
  · have hpub : c.pub.recent.length = residualTokens := Nat.le_antisymm c.pub.recent_le hfull.2.2
    rw [moves, Copied.moved_single _ hfull, if_pos hfull, fits_iff_hasBlocks]
    rcases hc : c.copy with _ | w <;> rw [hc] at hfast <;> cases hfast
    · rfl
    · rename_i f hrep
      rw [Option.getD_some, hrep.length_recent, hpub, ← hrep.openLen]
      rfl
  · rw [moves, Copied.moved_batch _ hfull, if_neg hfull, fits_iff_hasBlocks]

end Iff

section Main

variable {F ι : Type} [DecidableEq ι] (fp : Fp F Bf16) {H D : ℕ}

/-- Plain or rebound, an append that finds the table too short always loses something: it loses
nothing exactly when the table has a block for every page the chunk closes. -/
theorem append_losesNothing_iff {layout : Rabit2PageLayout}
    (hinit : runtimeInit H D D = .ok layout) (cuda : Bool) (s : Held H D F (Physical ι))
    (hside : s.side.WF) (hwidth : s.rest.cache.width = layout.pageBytes) (row : List ι)
    (chunk : List (KV H D)) :
    (LosesNothing (plainCall fp cuda) id s row chunk
      ↔ HasBlocks row s.rest.closedPages
          (pagesClosed (lenOpt s.side.openK) (lenOpt s.side.recentK) chunk.length)) ∧
    ∀ (junk : FastBuffers F) (fast : Option (Fast F)),
      (∀ f, fast = some f → ∃ w : SeqWin H D F, FastRep f w) →
      (LosesNothing (fastCall fp junk cuda) Live.held ⟨s, fast⟩ row chunk
        ↔ HasBlocks row s.rest.closedPages (pagesClosed (openBehind cuda ⟨s, fast⟩ chunk.length)
            (lenOpt s.side.recentK) chunk.length)) := by
  obtain ⟨rfl, ha, -⟩ := runtimeInit_ok hinit
  obtain ⟨side, p⟩ := s
  obtain ⟨w, rfl⟩ := hside.exists_win
  simp only [lenOpt_openK, lenOpt_recentK]
  refine ⟨?_, fun junk fast hfast => ?_⟩
  · exact (plainCall_losesNothing_iff fp ha hwidth w chunk).trans
      (fits_iff_hasBlocks (ageKV fp) w chunk)
  · obtain ⟨copy, hcopy⟩ : ∃ copy : Option (SeqWin H D F), Option.Rel FastRep fast copy := by
      rcases fast with _ | f
      · exact ⟨none, Option.Rel.none⟩
      · obtain ⟨w', hw'⟩ := hfast f rfl
        exact ⟨some w', Option.Rel.some hw'⟩
    exact (fastCall_losesNothing_iff fp ha hwidth junk (c := ⟨w, [], copy⟩) hcopy chunk).trans
      (fits_moves_iff fp (c := ⟨w, [], copy⟩) hcopy chunk)

/-- A fresh runtime over an empty cache. -/
def freshOne : Held 1 64 ℚ (Physical ℕ) :=
  freshRuntime ⟨(pageLayout groupSize 1 64 64).pageBytes, fun _ => []⟩

theorem append_losesNothing_iff_one_head :
    runtimeInit 1 64 64 = .ok (pageLayout groupSize 1 64 64) ∧ freshOne.side.WF ∧
      (LosesNothing (plainCall ratFp true) id freshOne [7] (rampTokens 1 64 36)
        ↔ HasBlocks [7] 0 (pagesClosed 0 0 36)) := by
  have hwf : freshOne.side.WF := toSidecar_wf (Win.empty (by decide))
  have hiff := (append_losesNothing_iff ratFp
    (show runtimeInit 1 64 64 = .ok (pageLayout groupSize 1 64 64) from rfl) true freshOne hwf rfl
    [7] (rampTokens 1 64 36)).1
  rw [show (rampTokens 1 64 36).length = 36 by simp [rampTokens]] at hiff
  exact ⟨rfl, hwf, hiff⟩

/-- 36 tokens close one page. With an empty table the append raises and leaves the group full; no
later append closes it, whatever its tokens and its table. One append with a block closes the
page. -/
theorem append_short_table_jams :
    (∃ st, (plainCall ratFp true [] (rampTokens 1 64 36)).run freshOne = .error tooShort st ∧
      ∀ row more, ∃ st', (plainCall ratFp true row more).run st = .ok () st' ∧
        32 ≤ lenOpt st'.side.openK ∧ st'.rest = st.rest) ∧
    (∃ s', (plainCall ratFp true [7] (rampTokens 1 64 36)).run freshOne = .ok () s' ∧
      lenOpt s'.side.openK < 32 ∧ s'.rest.closedPages = 1) ∧
    ¬ LosesNothing (plainCall ratFp true) id freshOne [] (rampTokens 1 64 36) := by
  obtain ⟨-, ha, -⟩ := runtimeInit_ok (H := 1) (D := 64) rfl
  have hpages : (Win.batch (ageKV ratFp) (Win.empty (by decide) : SeqWin 1 64 ℚ)
      (rampTokens 1 64 36)).2.length = 1 := by
    rw [length_pages]
    simp [rampTokens, Win.empty, pagesClosed, residualTokens, groupSize]
  obtain ⟨st, hjam, hrun⟩ := append_raises ratFp true ([] : List ℕ) ha (Win.empty (by decide))
    (rampTokens 1 64 36) (p := freshOne.rest) rfl (List.ne_nil_of_length_eq_add_one hpages)
    (by rw [hpages]; decide)
  have hone := append_run ratFp true [7] ha (Win.empty (by decide)) (rampTokens 1 64 36)
    (p := freshOne.rest) rfl (Or.inr (by rw [hpages]; decide))
  refine ⟨⟨st, hrun, fun row more => ?_⟩, ⟨_, hone, ?_, ?_⟩,
    not_losesNothing_of_jammed id hrun hjam⟩
  · obtain ⟨st', hjam', hrest, hrun'⟩ := append_jammed ratFp true ha row more hjam
    exact ⟨st', hrun', hjam'.le_openK, hrest⟩
  · exact (lenOpt_openK _).trans_lt (Win.opened_lt _)
  · exact congrArg (0 + ·) hpages

end Main

end RabitKV
