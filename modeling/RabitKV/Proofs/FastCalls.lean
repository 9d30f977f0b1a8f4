import RabitKV.Proofs.Serve

/-!
# Append calls alone keep the fast path exact

Every call of the rebound append either works on the buffers and points the public fields at them,
or drops the buffers. So as long as nothing but append changes the runtime, the buffers hold the
public window whenever they are kept (`Synced`), and each call is the plain one.
-/

namespace RabitKV

open Window Chunks

section Calls

variable {F ι : Type} [DecidableEq ι] {fp : Fp F Bf16}

/-- Buffers that are kept hold the public window. -/
def Synced {H D : ℕ} (fast : Option (Fast F)) (w : SeqWin H D F) : Prop :=
  ∀ f, fast = some f → FastRep f w

theorem synced_none {H D : ℕ} (w : SeqWin H D F) : Synced none w := by
  intro f hf
  cases hf

theorem Synced.exists_copy {H D : ℕ} {fast : Option (Fast F)} {w : SeqWin H D F}
    (h : Synced fast w) :
    ∃ copy : Option (SeqWin H D F), Option.Rel FastRep fast copy ∧ copy.getD w = w := by
  rcases fast with _ | f
  · exact ⟨none, Option.Rel.none, rfl⟩
  · exact ⟨some w, Option.Rel.some (h f rfl), rfl⟩

/-- A token that finds its copy in step with the window moves both alike. -/
theorem moves_synced (hround : RoundsHalfEven fp) (cuda : Bool) {c : Tracked 8 128 F}
    (hc : c.copy.getD c.pub = c.pub) (kv : KV 8 128) :
    (moves fp cuda c [kv]).1 = (c.pub.batch (ageKV fp) [kv]).1 ∧
      (moves fp cuda c [kv]).2.1 = (c.pub.batch (ageKV fp) [kv]).2 ∧
      ((moves fp cuda c [kv]).2.2 = none ∨
        (moves fp cuda c [kv]).2.2 = some (c.pub.batch (ageKV fp) [kv]).1) := by
  by_cases hfull : fastShape cuda 8 128 = true ∧ [kv].length = 1 ∧
      residualTokens ≤ c.pub.recent.length
  · rw [moves, Copied.moved_single _ hfull, kernelAge, hround.kernelFp_eq, hc]
    exact ⟨rfl, rfl, Or.inr rfl⟩
  · rw [moves, Copied.moved_batch _ hfull]
    exact ⟨rfl, rfl, Or.inl rfl⟩

variable {row : List ι} {p : Physical ι}
  (hwidth : p.cache.width = (pageLayout groupSize 8 128 128).pageBytes)

include hwidth

/-- One call leaves the window of its tokens, and the buffers in step with it. -/
theorem fastDecodeAppend_synced (hround : RoundsHalfEven fp) {w : SeqWin 8 128 F}
    {fast : Option (Fast F)} (hfast : Synced fast w) (call : AppendCall 8 128 F)
    (hrow : Fits row p.closedPages (w.batch (ageKV fp) call.chunk).2) :
    ∃ fast', Synced fast' (w.batch (ageKV fp) call.chunk).1 ∧
      (fastDecodeAppend fp call.junk call.cuda row (call.chunk.map Prod.fst)
          (call.chunk.map Prod.snd)).run ⟨hold w p, fast⟩
        = .ok () ⟨hold (w.batch (ageKV fp) call.chunk).1
            (written fp row p (w.batch (ageKV fp) call.chunk).2), fast'⟩ := by
  obtain ⟨chunk, cuda, junk⟩ := call
  by_cases hone : chunk.length = 1
  · obtain ⟨kv, rfl⟩ := List.length_eq_one_iff.1 hone
    obtain ⟨copy, hcopy, hsame⟩ := hfast.exists_copy
    obtain ⟨hpub, hpages, hnext⟩ := moves_synced hround cuda (c := ⟨w, [], copy⟩) hsame kv
    obtain ⟨fast', hrun, hrep⟩ := fastDecodeAppend_one aligned_production hwidth junk
      (c := ⟨w, [], copy⟩) hcopy kv (by rw [hpages]; exact hrow)
    rw [hpub, hpages] at hrun
    refine ⟨fast', ?_, hrun⟩
    intro f hf
    rw [hf] at hrep
    rcases hnext with hnext | hnext <;> rw [hnext] at hrep <;> cases hrep
    assumption
  · rw [fastDecodeAppend_many junk hone]
    exact ⟨none, synced_none _, slowAppend_run aligned_production hwidth w hrow fast⟩

omit hwidth in
/-- Any calls of the rebound append end in the state of the plain ones. -/
theorem fastCalls_run (hround : RoundsHalfEven fp) :
    ∀ (calls : List (AppendCall 8 128 F)) {w : SeqWin 8 128 F} {p : Physical ι}
      {fast : Option (Fast F)}, p.cache.width = (pageLayout groupSize 8 128 128).pageBytes →
      Synced fast w →
      p.closedPages + (w.batch (ageKV fp) (calls.flatMap AppendCall.chunk)).2.length
        ≤ row.length →
      ∃ w' p' fast', (fastCalls fp row calls).run ⟨hold w p, fast⟩ = .ok () ⟨hold w' p', fast'⟩ ∧
        (plainCalls fp row calls).run (hold w p) = .ok () (hold w' p')
  | [], w, p, fast, _, _, _ => ⟨w, p, fast, rfl, rfl⟩
  | call :: calls, w, p, fast, hwidth, hfast, hrow => by
    rw [List.flatMap_cons, w.batch_append, List.length_append] at hrow
    have hfits : Fits row p.closedPages (w.batch (ageKV fp) call.chunk).2 := Or.inr (by omega)
    obtain ⟨fast₁, hsync, hrun⟩ := fastDecodeAppend_synced hwidth hround hfast call hfits
    have hplain := append_run fp call.cuda row aligned_production w call.chunk hwidth hfits
    obtain ⟨w', p', fast', hfastRun, hplainRun⟩ := fastCalls_run hround calls
      (p := written fp row p (w.batch (ageKV fp) call.chunk).2) hwidth hsync
      (by rw [written_closedPages]; omega)
    refine ⟨w', p', fast', ?_, ?_⟩
    · rw [fastCalls, EStateM.run_bind, hrun]
      exact hfastRun
    · rw [plainCalls, EStateM.run_bind, hplain]
      exact hplainRun

end Calls

section Main

variable {F ι : Type} [DecidableEq ι] {fp : Fp F Bf16}

theorem optList_eq_none_iff {α β : Type} {a : List α} {b : List β} (h : a.length = b.length) :
    optList a = none ↔ b.length = 0 := by
  rcases a with _ | ⟨x, a⟩
  · simp [optList, ← h]
  · simp [optList, ← h]

/-- After any calls of append alone, the rebound append has left the public fields, the number of
closed pages and the cache that the plain one leaves. -/
theorem fastCalls_eq_plainCalls (hround : RoundsHalfEven fp) (row : List ι) (cache : Cache ι)
    (hwidth : cache.width = (pageLayout groupSize 8 128 128).pageBytes)
    (calls : List (AppendCall 8 128 F))
    (hrow : ((calls.flatMap AppendCall.chunk).length - residualTokens) / groupSize ≤ row.length) :
    ∃ s fast,
      (fastCalls fp row calls).run ⟨freshRuntime cache, none⟩ = .ok () ⟨s, fast⟩ ∧
      (plainCalls fp row calls).run (freshRuntime cache) = .ok () s ∧
      (s.side.openK = none ↔ lenOpt s.side.openK = 0) ∧
      (s.side.openVPacked = none ↔ lenOpt s.side.openK = 0) ∧
      (s.side.openVMin = none ↔ lenOpt s.side.openK = 0) ∧
      (s.side.openVScale = none ↔ lenOpt s.side.openK = 0) := by
  have hpages : 0 + (Win.batch (ageKV fp) (Win.empty groupSize_pos : SeqWin 8 128 F)
      (calls.flatMap AppendCall.chunk)).2.length ≤ row.length := by
    rw [Win.batch_pages, length_chunks, Win.length_entries, Win.leaving, List.length_append]
    simpa [Win.empty] using hrow
  obtain ⟨w, p, fast, hfast, hplain⟩ := fastCalls_run hround calls (w := Win.empty groupSize_pos)
    (p := ⟨0, cache⟩) hwidth (synced_none _) hpages
  have hnone : ∀ {α : Type} (f : Aged 8 128 F → α),
      optList (w.opened.map f) = none ↔ lenOpt (toSidecar w.opened w.recent).openK = 0 := by
    intro α f
    rw [toSidecar_openK, lenOpt_optList]
    exact optList_eq_none_iff (by rw [List.length_map, List.length_map])
  exact ⟨hold w p, fast, hfast, hplain, hnone _, hnone _, hnone _, hnone _⟩

theorem fastCalls_eq_plainCalls_mixed : RoundsHalfEven ratFp ∧
    ∃ s fast,
      (fastCalls ratFp [1, 0] [⟨rampTokens 8 128 34, false, zeroBuffers⟩,
          ⟨rampTokens 8 128 1, true, zeroBuffers⟩, ⟨rampTokens 8 128 1, true, zeroBuffers⟩,
          ⟨rampTokens 8 128 2, true, zeroBuffers⟩]).run
        ⟨freshRuntime idleLayer.cache, none⟩ = .ok () ⟨s, fast⟩ ∧
      (plainCalls ratFp [1, 0] [⟨rampTokens 8 128 34, false, zeroBuffers⟩,
          ⟨rampTokens 8 128 1, true, zeroBuffers⟩, ⟨rampTokens 8 128 1, true, zeroBuffers⟩,
          ⟨rampTokens 8 128 2, true, zeroBuffers⟩]).run (freshRuntime idleLayer.cache)
        = .ok () s := by
  obtain ⟨s, fast, hfast, hplain, -⟩ := fastCalls_eq_plainCalls ratFp_roundsHalfEven [1, 0]
    idleLayer.cache rfl [⟨rampTokens 8 128 34, false, zeroBuffers⟩,
      ⟨rampTokens 8 128 1, true, zeroBuffers⟩, ⟨rampTokens 8 128 1, true, zeroBuffers⟩,
      ⟨rampTokens 8 128 2, true, zeroBuffers⟩]
    (by simp [rampTokens, residualTokens, groupSize])
  exact ⟨ratFp_roundsHalfEven, s, fast, hfast, hplain⟩

end Main

end RabitKV
