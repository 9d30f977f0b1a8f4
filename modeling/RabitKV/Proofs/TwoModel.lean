import RabitKV.Lib.Checked
import RabitKV.Lib.Trace
import RabitKV.TwoModel

/-!
# What the record of an attempt is worth

The local variables say what the trace says (`Consistent`), except that a request is only known once
the flag has been read after it. So the record is right exactly when every request was noticed.
-/

namespace RabitKV

open Checked Trace

/-- The models that were started, in order. -/
def startedModels (tr : List Event) : List Model :=
  tr.filterMap fun e => match e with
    | .started m => some m
    | _ => none

/-- Cancellation was requested, by the flag or by an interrupt. -/
def Requested (tr : List Event) : Prop := .request ∈ tr ∨ .interrupted ∈ tr

/-- An interrupt was caught, or the flag was read after a request. -/
def Noticed (tr : List Event) : Prop := .interrupted ∈ tr ∨ Then .request .poll tr

/-- The first model returned 0, with verified artifacts and a verified archive. -/
def Authorised (tr : List Event) : Prop :=
  .returned .llama3_1_8b 0 ∈ tr ∧ .verified .llama3_1_8b ∈ tr ∧ .archived .llama3_1_8b ∈ tr

section Trace

variable {tr : List Event} {e : Event} {m : Model}

theorem startedModels_concat (tr : List Event) (e : Event) :
    startedModels (tr ++ [e]) = startedModels tr ++ startedModels [e] :=
  List.filterMap_append

theorem mem_startedModels : m ∈ startedModels tr ↔ .started m ∈ tr := by
  simp only [startedModels, List.mem_filterMap]
  constructor
  · rintro ⟨e, he, hm⟩
    cases e <;> simp at hm
    exact hm ▸ he
  · exact fun h => ⟨_, h, rfl⟩

theorem Noticed.requested (h : Noticed tr) : Requested tr :=
  h.elim Or.inr fun h => Or.inl h.left_mem

theorem noticed_concat (he : e ≠ .interrupted) :
    Noticed (tr ++ [e]) ↔ Noticed tr ∨ (e = .poll ∧ .request ∈ tr) := by
  have hmem : .interrupted ∈ tr ++ [e] ↔ .interrupted ∈ tr := by
    simp [he.symm]
  rw [Noticed, hmem, then_concat, Noticed, or_assoc]

end Trace

/-- The variables of an attempt say what its trace says. -/
structure Consistent (s : Attempt) : Prop where
  flag : s.flag = true ↔ .request ∈ s.trace
  cancelled : s.cancelled = true ↔ Noticed s.trace
  codes : ∀ m, s.codes m = some 0 → .returned m 0 ∈ s.trace ∧ .verified m ∈ s.trace
  archived : ∀ m, s.archived m = true ↔ .archived m ∈ s.trace
  complete : ∀ m, s.archived m = true → .verified m ∈ s.trace → s.cancelled = false →
    s.codes m = some 0
  fresh : ∀ m, .started m ∉ s.trace → .verified m ∉ s.trace ∧ s.archived m = false
  authorised : Before (.started .qwen2_5_7b) Authorised s.trace

section Primitives

variable {s s' : Attempt} {m : Model} {e : Event}

/-- An event that neither verifies nor archives, with the flag and the local variable it leaves. -/
theorem Consistent.concat (h : Consistent s) (htrace : s'.trace = s.trace ++ [e])
    (hcodes : s'.codes = s.codes) (harchived : s'.archived = s.archived)
    (hverified : ∀ m, e ≠ .verified m) (hnot : ∀ m, e ≠ .archived m)
    (hflag : s'.flag = true ↔ .request ∈ s.trace ++ [e])
    (hcancelled : s'.cancelled = true ↔ Noticed (s.trace ++ [e]))
    (hmono : s.cancelled = true → s'.cancelled = true)
    (hauth : e = .started .qwen2_5_7b → Authorised s.trace) : Consistent s' := by
  have hv : ∀ m, .verified m ∈ s.trace ++ [e] ↔ .verified m ∈ s.trace := fun m => by
    simp [(hverified m).symm]
  have ha : ∀ m, .archived m ∈ s.trace ++ [e] ↔ .archived m ∈ s.trace := fun m => by
    simp [(hnot m).symm]
  refine ⟨by rwa [htrace], by rwa [htrace], ?_, ?_, ?_, ?_, ?_⟩
  · intro m hm
    rw [hcodes] at hm
    obtain ⟨h1, h2⟩ := h.codes m hm
    rw [htrace]
    exact ⟨List.mem_append_left _ h1, List.mem_append_left _ h2⟩
  · intro m
    rw [harchived, htrace, ha]
    exact h.archived m
  · intro m hm hvm hc
    rw [harchived] at hm
    rw [htrace, hv] at hvm
    rw [hcodes]
    refine h.complete m hm hvm (Bool.eq_false_iff.2 fun htrue => ?_)
    rw [hmono htrue] at hc
    cases hc
  · intro m hm
    rw [htrace] at hm ⊢
    rw [hv, harchived]
    exact h.fresh m fun hs => hm (List.mem_append_left _ hs)
  · rw [htrace]
    exact h.authorised.concat hauth

theorem Consistent.request (h : Consistent s) : Consistent s.request := by
  refine h.concat (e := .request) rfl rfl rfl (by simp) (by simp) (by simp [Attempt.request]) ?_ id
    (by simp)
  rw [noticed_concat (by simp), ← h.cancelled]
  simp [Attempt.request, Attempt.emit]

theorem Consistent.atMoment (h : Consistent s) (cancellation : Bool) (requests : Moment → Bool)
    (p : Moment) : Consistent (atMoment cancellation requests p s) := by
  unfold RabitKV.atMoment
  split_ifs
  · exact h.request
  · exact h

theorem Consistent.poll (h : Consistent s) (cancellation : Bool) :
    Consistent (pollFlag cancellation s) := by
  unfold pollFlag
  split_ifs with hc hcan
  · exact h
  · refine h.concat (e := .poll) rfl rfl rfl (by simp) (by simp) ?_ ?_ (fun ht => absurd ht hc)
      (by simp)
    · simpa [Attempt.emit] using h.flag
    · rw [noticed_concat (by simp), ← h.cancelled]
      simpa [hc, Attempt.emit] using h.flag
  · exact h

/-- A model is started or returns. -/
theorem Consistent.emit (h : Consistent s) (he : e = .started m ∨ ∃ code, e = .returned m code)
    (hauth : e = .started .qwen2_5_7b → Authorised s.trace) : Consistent (s.emit e) := by
  have hne : e ≠ .request ∧ e ≠ .poll ∧ e ≠ .interrupted ∧ (∀ m, e ≠ .verified m) ∧
      ∀ m, e ≠ .archived m := by
    rcases he with rfl | ⟨code, rfl⟩ <;> simp
  obtain ⟨hr, hp, hi, hv, ha⟩ := hne
  refine h.concat rfl rfl rfl hv ha ?_ ?_ id hauth
  · simpa [Attempt.emit, hr.symm] using h.flag
  · rw [noticed_concat hi, ← h.cancelled]
    simp [Attempt.emit, hp]

theorem Consistent.interrupt (h : Consistent s) :
    Consistent { s.emit .interrupted with cancelled := true } := by
  refine h.concat (e := .interrupted) rfl rfl rfl (by simp) (by simp) ?_ ?_ (fun _ => rfl) (by simp)
  · simpa [Attempt.emit] using h.flag
  · simp [Noticed]

/-- A code other than 0 is set where the model is not archived, or the attempt cancelled. -/
theorem Consistent.setCode (h : Consistent s) {code : ℤ} (hcode : code ≠ 0)
    (hm : s.archived m = false ∨ s.cancelled = true) : Consistent (s.setCode m code) where
  flag := h.flag
  cancelled := h.cancelled
  codes k hk := by
    rcases eq_or_ne k m with rfl | hkm
    · simp [Attempt.setCode, hcode] at hk
    · exact h.codes k (by simpa [Attempt.setCode, hkm] using hk)
  archived := h.archived
  complete k ha hv hc := by
    rcases eq_or_ne k m with rfl | hkm
    · rcases hm with hm | hm
      · exact absurd ha (by simp [Attempt.setCode, hm])
      · exact absurd hc (by simp [Attempt.setCode, hm])
    · simpa [Attempt.setCode, hkm] using h.complete k ha hv hc
  fresh := h.fresh
  authorised := h.authorised

theorem Consistent.setError (h : Consistent s) (m : Model) (text : String) :
    Consistent (s.setError m text) :=
  ⟨h.flag, h.cancelled, h.codes, h.archived, h.complete, h.fresh, h.authorised⟩

/-- The artifacts of a model that returned 0 are verified. -/
theorem Consistent.verify (h : Consistent s) (hstart : .started m ∈ s.trace)
    (hreturned : .returned m 0 ∈ s.trace) : Consistent ((s.setCode m 0).emit (.verified m)) where
  flag := by simpa [Attempt.setCode, Attempt.emit] using h.flag
  cancelled := by
    simp only [Attempt.setCode, Attempt.emit]
    rw [noticed_concat (by simp), h.cancelled]
    simp
  codes k hk := by
    rcases eq_or_ne k m with rfl | hkm
    · simp [Attempt.setCode, Attempt.emit, hreturned]
    · obtain ⟨h1, h2⟩ := h.codes k (by simpa [Attempt.setCode, Attempt.emit, hkm] using hk)
      exact ⟨List.mem_append_left _ h1, List.mem_append_left _ h2⟩
  archived k := by simpa [Attempt.setCode, Attempt.emit] using h.archived k
  complete k ha hv hc := by
    rcases eq_or_ne k m with rfl | hkm
    · simp [Attempt.setCode, Attempt.emit]
    · have hvk : .verified k ∈ s.trace := by simpa [Attempt.setCode, Attempt.emit, hkm] using hv
      simpa [Attempt.setCode, Attempt.emit, hkm] using h.complete k ha hvk hc
  fresh k hk := by
    have hkm : k ≠ m := by
      rintro rfl
      exact hk (List.mem_append_left _ hstart)
    obtain ⟨h1, h2⟩ := h.fresh k fun hs => hk (List.mem_append_left _ hs)
    exact ⟨by simpa [Attempt.setCode, Attempt.emit, hkm] using h1, h2⟩
  authorised := h.authorised.concat (by simp)

/-- The directory of a model is archived. -/
theorem Consistent.archive (h : Consistent s) (hstart : .started m ∈ s.trace)
    (hcode : .verified m ∈ s.trace → s.cancelled = false → s.codes m = some 0) :
    Consistent { s.emit (.archived m) with archived := Function.update s.archived m true } where
  flag := by simpa [Attempt.emit] using h.flag
  cancelled := by
    simp only [Attempt.emit]
    rw [noticed_concat (by simp), h.cancelled]
    simp
  codes k hk := by
    obtain ⟨h1, h2⟩ := h.codes k hk
    exact ⟨List.mem_append_left _ h1, List.mem_append_left _ h2⟩
  archived k := by
    rcases eq_or_ne k m with rfl | hkm
    · simp [Attempt.emit]
    · simpa [Attempt.emit, hkm] using h.archived k
  complete k ha hv hc := by
    have hvk : .verified k ∈ s.trace := by simpa [Attempt.emit] using hv
    rcases eq_or_ne k m with rfl | hkm
    · exact hcode hvk hc
    · exact h.complete k (by simpa [hkm] using ha) hvk hc
  fresh k hk := by
    have hkm : k ≠ m := by
      rintro rfl
      exact hk (List.mem_append_left _ hstart)
    obtain ⟨h1, h2⟩ := h.fresh k fun hs => hk (List.mem_append_left _ hs)
    exact ⟨by simpa [Attempt.emit] using h1, by simpa [hkm] using h2⟩
  authorised := h.authorised.concat (by simp)

end Primitives

section Steps

variable (cancellation : Bool) (requests : Moment → Bool) {calls : Behaviour} {s s' : Attempt}
  {m : Model} {r : Raised}

theorem atMoment_spec (p : Moment) (s : Attempt) :
    (atMoment cancellation requests p s).codes = s.codes ∧
      (atMoment cancellation requests p s).archived = s.archived ∧
      (atMoment cancellation requests p s).cancelled = s.cancelled ∧
      startedModels (atMoment cancellation requests p s).trace = startedModels s.trace ∧
      ∀ e, e ≠ .request → (e ∈ (atMoment cancellation requests p s).trace ↔ e ∈ s.trace) := by
  unfold atMoment
  split_ifs
  · refine ⟨rfl, rfl, rfl, ?_, fun e he => by simp [Attempt.request, Attempt.emit, he]⟩
    exact (startedModels_concat _ _).trans (List.append_nil _)
  · exact ⟨rfl, rfl, rfl, rfl, fun e _ => Iff.rfl⟩

theorem pollFlag_spec (s : Attempt) :
    (pollFlag cancellation s).codes = s.codes ∧ (pollFlag cancellation s).archived = s.archived ∧
      (s.cancelled = true → (pollFlag cancellation s).cancelled = true) ∧
      startedModels (pollFlag cancellation s).trace = startedModels s.trace ∧
      ∀ e, e ≠ .poll → (e ∈ (pollFlag cancellation s).trace ↔ e ∈ s.trace) := by
  unfold pollFlag
  split_ifs with hc hcan
  · exact ⟨rfl, rfl, id, rfl, fun e _ => Iff.rfl⟩
  · refine ⟨rfl, rfl, fun ht => absurd ht hc, ?_, fun e he => by simp [Attempt.emit, he]⟩
    exact (startedModels_concat _ _).trans (List.append_nil _)
  · exact ⟨rfl, rfl, id, rfl, fun e _ => Iff.rfl⟩

theorem runFailed_spec (h : Consistent s) (hm : s.archived m = false)
    (hv : .verified m ∉ s.trace) (hs : runFailed cancellation m s r = .ok s') :
    Consistent s' ∧ s'.archived m = false ∧ .verified m ∉ s'.trace ∧
      startedModels s'.trace = startedModels s.trace := by
  cases r with
  | keyboardInterrupt =>
    obtain rfl := Except.ok.inj hs
    have hquiet : startedModels (s.trace ++ [.interrupted]) = startedModels s.trace :=
      (startedModels_concat _ _).trans (List.append_nil _)
    cases cancellation with
    | false =>
      refine ⟨(h.interrupt.setCode (by decide) (.inl hm)).setError m _, hm, ?_, hquiet⟩
      simpa [Attempt.setCode, Attempt.setError, Attempt.emit] using hv
    | true =>
      refine ⟨(h.interrupt.request.setCode (by decide) (.inl hm)).setError m _, hm, ?_, ?_⟩
      · simpa [Attempt.setCode, Attempt.setError, Attempt.request, Attempt.emit] using hv
      · refine Eq.trans ?_ hquiet
        exact (startedModels_concat _ _).trans (List.append_nil _)
  | exception text =>
    obtain rfl := Except.ok.inj hs
    exact ⟨(h.setCode (by decide) (.inl hm)).setError m _, hm, hv, rfl⟩
  | systemExit text =>
    obtain rfl := Except.ok.inj hs
    exact ⟨(h.setCode (by decide) (.inl hm)).setError m _, hm, hv, rfl⟩
  | other => cases hs

/-- The handlers set the code themselves. -/
theorem runFailed_setCode (s : Attempt) (code : ℤ) (r : Raised) :
    runFailed cancellation m (s.setCode m code) r = runFailed cancellation m s r := by
  cases r with
  | keyboardInterrupt =>
    cases cancellation <;>
      simp [runFailed, Attempt.setCode, Attempt.setError, Attempt.request, Attempt.emit]
  | exception text => simp [runFailed, Attempt.setCode, Attempt.setError]
  | systemExit text => simp [runFailed, Attempt.setCode, Attempt.setError]
  | other => rfl

theorem archiveFailed_spec (h : Consistent s) (hm : s.archived m = false)
    (hs : archiveFailed m s r = .ok s') :
    Consistent s' ∧ startedModels s'.trace = startedModels s.trace := by
  cases r with
  | keyboardInterrupt =>
    obtain rfl := Except.ok.inj hs
    exact ⟨(h.interrupt.setCode (by decide) (.inl hm)).setError m _,
      (startedModels_concat _ _).trans (List.append_nil _)⟩
  | exception text =>
    obtain rfl := Except.ok.inj hs
    exact ⟨(h.setCode (by decide) (.inl hm)).setError m _, rfl⟩
  | systemExit text => cases hs
  | other => cases hs

theorem atMoment_setCode (p : Moment) (s : Attempt) (m : Model) (code : ℤ) :
    atMoment cancellation requests p (s.setCode m code)
      = (atMoment cancellation requests p s).setCode m code := by
  unfold atMoment
  split_ifs
  · rfl
  · rfl

/-- What is left of a model after its `try`. -/
structure Ran (m : Model) (s : Attempt) : Prop where
  consistent : Consistent s
  archived : s.archived m = false
  code : .verified m ∈ s.trace → s.cancelled = false → s.codes m = some 0
  started : .started m ∈ s.trace

theorem runFailed_ran (h : Consistent s) (hm : s.archived m = false) (hv : .verified m ∉ s.trace)
    (hstart : .started m ∈ s.trace) (hs : runFailed cancellation m s r = .ok s') :
    Ran m s' ∧ startedModels s'.trace = startedModels s.trace := by
  obtain ⟨hc, ha, hv', hquiet⟩ := runFailed_spec cancellation h hm hv hs
  refine ⟨⟨hc, ha, fun hmem => absurd hmem hv', ?_⟩, hquiet⟩
  rw [← mem_startedModels, hquiet, mem_startedModels]
  exact hstart

theorem tryRun_spec (h : Consistent s) (hfresh : .started m ∉ s.trace)
    (hauth : m = .qwen2_5_7b → Authorised s.trace)
    (hs : tryRun cancellation requests calls m s = .ok s') :
    Ran m s' ∧ startedModels s'.trace = startedModels s.trace ++ [m] := by
  obtain ⟨hv, ha⟩ := h.fresh m hfresh
  -- the state while the model runs
  have hstarted : Consistent (s.emit (.started m)) :=
    h.emit (Or.inl rfl) fun heq => hauth (Event.started.inj heq)
  have hc1 := hstarted.atMoment cancellation requests (.run m)
  obtain ⟨-, ha1, -, hs1, hmem1⟩ :=
    atMoment_spec cancellation requests (.run m) (s.emit (.started m))
  unfold tryRun at hs
  generalize atMoment cancellation requests (.run m) (s.emit (.started m)) = u at *
  have hua : u.archived m = false := by rw [ha1]; exact ha
  have huv : .verified m ∉ u.trace := by
    rw [hmem1 _ (by simp)]
    simpa [Attempt.emit] using hv
  have hustart : .started m ∈ u.trace := by
    rw [hmem1 _ (by simp)]
    simp [Attempt.emit]
  have hus : startedModels u.trace = startedModels s.trace ++ [m] :=
    hs1.trans (startedModels_concat _ _)
  rw [← hus]
  rcases hrun : calls.run m with r | code
  · rw [hrun] at hs
    exact runFailed_ran cancellation hc1 hua huv hustart hs
  · rw [hrun] at hs
    have hquiet : startedModels (u.trace ++ [.returned m code]) = startedModels u.trace :=
      (startedModels_concat _ _).trans (List.append_nil _)
    by_cases hzero : code = 0
    · subst hzero
      -- the state while the artifacts are checked
      have hc2 := (hc1.emit (m := m) (Or.inr ⟨0, rfl⟩) (by simp)).atMoment cancellation requests
        (.artifacts m)
      obtain ⟨-, ha2, -, hs2, hmem2⟩ :=
        atMoment_spec cancellation requests (.artifacts m) (u.emit (.returned m 0))
      have hcomm : atMoment cancellation requests (.artifacts m)
            ((u.setCode m 0).emit (.returned m 0))
          = (atMoment cancellation requests (.artifacts m) (u.emit (.returned m 0))).setCode m 0 :=
        atMoment_setCode cancellation requests (.artifacts m) (u.emit (.returned m 0)) m 0
      simp only [if_true, hcomm] at hs
      generalize atMoment cancellation requests (.artifacts m) (u.emit (.returned m 0)) = w at *
      have hws : startedModels w.trace = startedModels u.trace := hs2.trans hquiet
      have hwstart : .started m ∈ w.trace := by
        rw [← mem_startedModels, hws, mem_startedModels]
        exact hustart
      have hwret : .returned m 0 ∈ w.trace := by
        rw [hmem2 _ (by simp)]
        simp [Attempt.emit]
      rw [← hws]
      rcases hart : calls.requireQualityArtifacts m with r | _
      · rw [hart] at hs
        simp only [runFailed_setCode] at hs
        refine runFailed_ran cancellation hc2 (by rw [ha2]; exact hua) ?_ hwstart hs
        rw [hmem2 _ (by simp)]
        simpa [Attempt.emit] using huv
      · rw [hart] at hs
        obtain rfl := Except.ok.inj hs
        refine ⟨⟨hc2.verify hwstart hwret, ?_, fun _ _ => ?_, ?_⟩, ?_⟩
        · change w.archived m = false
          rw [ha2]
          exact hua
        · simp [Attempt.setCode, Attempt.emit]
        · exact List.mem_append_left _ hwstart
        · exact (startedModels_concat _ _).trans (List.append_nil _)
    · simp only [if_neg hzero] at hs
      obtain rfl := Except.ok.inj hs
      refine ⟨⟨(hc1.setCode hzero (.inl hua)).emit (m := m) (Or.inr ⟨code, rfl⟩) (by simp), hua,
        fun hmem => ?_, List.mem_append_left _ hustart⟩, hquiet⟩
      exact absurd hmem (by simpa [Attempt.setCode, Attempt.emit] using huv)

theorem Ran.atMoment (h : Ran m s) (p : Moment) : Ran m (atMoment cancellation requests p s) := by
  obtain ⟨hcodes, ha, hc, -, hmem⟩ := atMoment_spec cancellation requests p s
  refine ⟨h.consistent.atMoment cancellation requests p, by rw [ha]; exact h.archived, ?_, ?_⟩
  · rw [hmem _ (by simp), hc, hcodes]
    exact h.code
  · rw [hmem _ (by simp)]
    exact h.started

/-- The read of the flag after the model. -/
theorem Ran.poll (h : Ran m s) (hs : s' = if (pollFlag cancellation s).cancelled
      then (pollFlag cancellation s).setCode m 130 else pollFlag cancellation s) :
    Ran m s' ∧ startedModels s'.trace = startedModels s.trace := by
  obtain ⟨hcodes, ha, hc, hquiet, hmem⟩ := pollFlag_spec cancellation s
  have hcons := h.consistent.poll cancellation
  split_ifs at hs with hcan
  · subst hs
    refine ⟨⟨hcons.setCode (by decide) (.inr hcan), by rw [← h.archived, ← ha]; rfl, ?_, ?_⟩,
      hquiet⟩
    · intro _ hfalse
      exact absurd hcan (by simpa [Attempt.setCode] using hfalse)
    · exact (hmem _ (by simp)).2 h.started
  · subst hs
    refine ⟨⟨hcons, by rw [ha]; exact h.archived, fun hv _ => ?_, (hmem _ (by simp)).2 h.started⟩,
      hquiet⟩
    rw [hcodes]
    refine h.code ((hmem _ (by simp)).1 hv) (Bool.eq_false_iff.2 fun ht => ?_)
    exact hcan (hc ht)

theorem tryArchive_spec (h : Ran m s) (hs : tryArchive cancellation requests calls m s = .ok s') :
    Consistent s' ∧ startedModels s'.trace = startedModels s.trace := by
  have hquiet := fun p u => (atMoment_spec cancellation requests p u).2.2.2.1
  have h1 := h.atMoment cancellation requests (.isDir m)
  have h2 := h1.atMoment cancellation requests (.archive m)
  have h3 := h2.atMoment cancellation requests (.requireArchive m)
  unfold tryArchive at hs
  rcases hdir : calls.isDir m with r | isDir
  · rw [hdir] at hs
    cases hs
  · rcases isDir with _ | _
    · rw [hdir] at hs
      obtain rfl := Except.ok.inj hs
      exact ⟨h1.consistent, hquiet _ _⟩
    · rw [hdir] at hs
      rcases harch : calls.archive m with r | _
      · simp only [harch] at hs
        obtain ⟨hc, hq⟩ := archiveFailed_spec h2.consistent h2.archived hs
        exact ⟨hc, by rw [hq, hquiet, hquiet]⟩
      · rcases hreq : calls.requireArchive m with r | _
        · simp only [harch, hreq] at hs
          obtain ⟨hc, hq⟩ := archiveFailed_spec h3.consistent h3.archived hs
          exact ⟨hc, by rw [hq, hquiet, hquiet, hquiet]⟩
        · simp only [harch, hreq] at hs
          obtain rfl := Except.ok.inj hs
          refine ⟨h3.consistent.archive h3.started h3.code, ?_⟩
          refine (startedModels_concat _ _).trans ((List.append_nil _).trans ?_)
          rw [hquiet, hquiet, hquiet]

theorem runModel_spec (h : Consistent s) (hfresh : .started m ∉ s.trace)
    (hauth : m = .qwen2_5_7b → Authorised s.trace)
    (hs : runModel cancellation requests calls m s = .ok s') :
    Consistent s' ∧ startedModels s'.trace = startedModels s.trace ++ [m] := by
  have hquiet := fun p u => (atMoment_spec cancellation requests p u).2.2.2.1
  obtain ⟨u, hrun, hs⟩ := exists_of_bind_ok hs
  obtain ⟨hran, hstarted⟩ := tryRun_spec cancellation requests h hfresh hauth hrun
  obtain ⟨hpolled, hq⟩ := (hran.atMoment cancellation requests (.afterRun m)).poll cancellation rfl
  obtain ⟨w, harchive, hs⟩ := exists_of_bind_ok hs
  obtain ⟨hw, hqw⟩ := tryArchive_spec cancellation requests hpolled harchive
  obtain rfl := Except.ok.inj hs
  refine ⟨hw.atMoment cancellation requests (.afterArchive m), ?_⟩
  rw [hquiet, hqw, hq, hquiet, hstarted]

/-- A turn of the loop: the attempt has been cancelled, or the second model is refused, or the model
is run and the loop goes on. -/
theorem runModels_cons {ms : List Model}
    (hs : runModels cancellation requests calls (m :: ms) s = .ok s') {u : Attempt}
    (hu : u = pollFlag cancellation (atMoment cancellation requests (.top m) s)) :
    (u.cancelled = true ∧ s' = u) ∨
      (u.cancelled = false ∧ (m = .qwen2_5_7b ∧
        ¬ (u.codes .llama3_1_8b = some 0 ∧ u.archived .llama3_1_8b = true)) ∧ s' = u) ∨
      (u.cancelled = false ∧
        (m = .qwen2_5_7b → u.codes .llama3_1_8b = some 0 ∧ u.archived .llama3_1_8b = true) ∧
        ∃ w, runModel cancellation requests calls m u = .ok w ∧
          runModels cancellation requests calls ms w = .ok s') := by
  unfold runModels at hs
  rw [← hu] at hs
  have hblocked : (u.codes .llama3_1_8b ≠ some 0 ∨ u.archived .llama3_1_8b = false)
      ↔ ¬ (u.codes .llama3_1_8b = some 0 ∧ u.archived .llama3_1_8b = true) := by
    rw [not_and_or, Bool.not_eq_true]
  by_cases hcan : u.cancelled = true
  · simp only [if_pos hcan] at hs
    exact Or.inl ⟨hcan, (Except.ok.inj hs).symm⟩
  · by_cases hrefused : m = .qwen2_5_7b ∧
        (u.codes .llama3_1_8b ≠ some 0 ∨ u.archived .llama3_1_8b = false)
    · simp only [if_neg hcan, if_pos hrefused] at hs
      rw [hblocked] at hrefused
      exact Or.inr (Or.inl ⟨Bool.eq_false_iff.2 hcan, hrefused, (Except.ok.inj hs).symm⟩)
    · simp only [if_neg hcan, if_neg hrefused] at hs
      rw [hblocked, not_and, not_not] at hrefused
      exact Or.inr (Or.inr ⟨Bool.eq_false_iff.2 hcan, hrefused, exists_of_bind_ok hs⟩)

/-- The loop over the models still to come. -/
theorem runModels_spec : ∀ {ms past : List Model} {s s' : Attempt}, past ++ ms = models →
    Consistent s → startedModels s.trace = past →
    runModels cancellation requests calls ms s = .ok s' →
    Consistent s' ∧ startedModels s'.trace <+: models
  | [], past, s, s', hpast, h, hstarted, hs => by
    obtain rfl := Except.ok.inj hs
    rw [hstarted, ← hpast, List.append_nil]
    exact ⟨h, List.prefix_rfl⟩
  | m :: ms, past, s, s', hpast, h, hstarted, hs => by
    have hc := (h.atMoment cancellation requests (.top m)).poll cancellation
    have hu : startedModels
        (pollFlag cancellation (atMoment cancellation requests (.top m) s)).trace = past := by
      rw [(pollFlag_spec cancellation _).2.2.2.1, (atMoment_spec cancellation requests _ _).2.2.2.1,
        hstarted]
    have hturn := runModels_cons cancellation requests hs rfl
    generalize pollFlag cancellation (atMoment cancellation requests (.top m) s) = u at *
    have hpre : startedModels u.trace <+: models := by
      rw [hu, ← hpast]
      exact List.prefix_append _ _
    rcases hturn with ⟨-, rfl⟩ | ⟨-, -, rfl⟩ | ⟨-, hfirst, w, hrun, hs⟩
    · exact ⟨hc, hpre⟩
    · exact ⟨hc, hpre⟩
    · have hfresh : .started m ∉ u.trace := by
        rw [← mem_startedModels, hu]
        have hnodup : (past ++ m :: ms).Nodup := hpast ▸ by decide
        exact fun hmem => (List.nodup_append.1 hnodup).2.2 m hmem m List.mem_cons_self rfl
      have hauth : m = .qwen2_5_7b → Authorised u.trace := fun hm => by
        obtain ⟨hcode, harchived⟩ := hfirst hm
        obtain ⟨hret, hver⟩ := hc.codes _ hcode
        exact ⟨hret, hver, (hc.archived _).1 harchived⟩
      obtain ⟨hw, hstartedw⟩ := runModel_spec cancellation requests hc hfresh hauth hrun
      have hnext : (past ++ [m]) ++ ms = models := by
        rw [List.append_assoc]
        exact hpast
      exact runModels_spec hnext hw (by rw [hstartedw, hu]) hs

theorem consistent_start : Consistent {} where
  flag := by simp
  cancelled := by simp [Noticed, not_then_nil]
  codes := by simp
  archived := by simp
  complete := by simp
  fresh := by simp
  authorised := before_nil

end Steps

/-- The record and the return value say what happened: a valid attempt is one in which both models
returned 0 with verified artifacts and archives and no cancellation was requested, and a cancelled
one is recorded as such. -/
def HonestRecord (tr : List Event) (record : TwoModelRecord) (code : ℤ) : Prop :=
  (record.valid = true ↔
    (∀ m, .returned m 0 ∈ tr ∧ .verified m ∈ tr ∧ .archived m ∈ tr) ∧ ¬ Requested tr) ∧
  (code = 0 ↔
    (∀ m, .returned m 0 ∈ tr ∧ .verified m ∈ tr ∧ .archived m ∈ tr) ∧ ¬ Requested tr) ∧
  (Requested tr → record.cancelled = true ∧ code = 130)

section Record

variable {s : Attempt}

theorem mem_models (m : Model) : m ∈ models := by
  cases m <;> decide

theorem twoModelRecord_valid (attempt : ℤ) (s : Attempt) :
    (twoModelRecord attempt s).valid = true ↔
      s.cancelled = false ∧ ∀ m, s.codes m = some 0 ∧ s.archived m = true := by
  simp only [twoModelRecord, Bool.and_eq_true, Bool.not_eq_true', List.all_eq_true, beq_iff_eq,
    and_assoc]
  refine and_congr_right fun _ => ⟨fun h m => ?_, fun h => ?_⟩
  · exact ⟨h.1 m (mem_models m), h.2 m (mem_models m)⟩
  · exact ⟨fun m _ => (h m).1, fun m _ => (h m).2⟩

theorem Consistent.valid_iff (h : Consistent s) (attempt : ℤ) :
    (twoModelRecord attempt s).valid = true ↔
      (∀ m, .returned m 0 ∈ s.trace ∧ .verified m ∈ s.trace ∧ .archived m ∈ s.trace) ∧
        ¬ Noticed s.trace := by
  rw [twoModelRecord_valid, ← h.cancelled, Bool.not_eq_true]
  constructor
  · rintro ⟨hc, hall⟩
    refine ⟨fun m => ?_, hc⟩
    obtain ⟨hcode, ha⟩ := hall m
    obtain ⟨hret, hver⟩ := h.codes m hcode
    exact ⟨hret, hver, (h.archived m).1 ha⟩
  · rintro ⟨hall, hc⟩
    refine ⟨hc, fun m => ?_⟩
    obtain ⟨-, hver, harch⟩ := hall m
    have ha := (h.archived m).2 harch
    exact ⟨h.complete m ha hver hc, ha⟩

/-- The value `run_two_model` returns. -/
def returnCode (record : TwoModelRecord) : ℤ :=
  if record.cancelled then 130 else if record.valid then 0 else 1

theorem returnCode_eq_zero (attempt : ℤ) (s : Attempt) :
    returnCode (twoModelRecord attempt s) = 0 ↔ (twoModelRecord attempt s).valid = true := by
  have hexcl : (twoModelRecord attempt s).valid = true →
      (twoModelRecord attempt s).cancelled = false :=
    fun hv => ((twoModelRecord_valid attempt s).1 hv).1
  unfold returnCode
  rcases hc : (twoModelRecord attempt s).cancelled with _ | _
  · rcases hv : (twoModelRecord attempt s).valid with _ | _ <;> simp
  · rcases hv : (twoModelRecord attempt s).valid with _ | _
    · simp
    · exact absurd (hexcl hv) (by simp [hc])

theorem Consistent.honest_iff (h : Consistent s) (attempt : ℤ) :
    HonestRecord s.trace (twoModelRecord attempt s) (returnCode (twoModelRecord attempt s)) ↔
      (Requested s.trace → Noticed s.trace) := by
  have hrecord : (twoModelRecord attempt s).cancelled = s.cancelled := rfl
  constructor
  · rintro ⟨-, -, hcancelled⟩ hreq
    exact h.cancelled.1 (hcancelled hreq).1
  · intro hnotice
    have hiff : Requested s.trace ↔ Noticed s.trace := ⟨hnotice, Noticed.requested⟩
    refine ⟨?_, ?_, fun hreq => ?_⟩
    · rw [hiff]
      exact h.valid_iff attempt
    · rw [returnCode_eq_zero, hiff]
      exact h.valid_iff attempt
    · have hc : (twoModelRecord attempt s).cancelled = true := h.cancelled.2 (hnotice hreq)
      exact ⟨hc, by rw [returnCode, hc]; rfl⟩

end Record

section Attempt

variable {cancellation : Bool} {requests : Moment → Bool} {calls : Behaviour} {attempt : ℤ}
  {record : TwoModelRecord} {code : ℤ} {s : Attempt}

/-- A request that arrives after the loop changes nothing in the record. -/
theorem twoModelRecord_atMoment (cancellation : Bool) (requests : Moment → Bool) (p : Moment)
    (attempt : ℤ) (s : Attempt) :
    twoModelRecord attempt (atMoment cancellation requests p s) = twoModelRecord attempt s := by
  unfold atMoment
  split_ifs
  · rfl
  · rfl

/-- A written record is the record of the attempt the loop ends in, up to requests after it. -/
theorem runTwoModel_ok
    (h : runTwoModel cancellation requests calls attempt = .ok (record, code, s)) :
    ∃ u, runModels cancellation requests calls models {} = .ok u ∧
      s = atMoment cancellation requests .record (atMoment cancellation requests .finish u) ∧
      record = twoModelRecord attempt s ∧ code = returnCode record := by
  unfold runTwoModel at h
  obtain ⟨-, -, h⟩ := exists_of_bind_ok h
  obtain ⟨u, hrun, h⟩ := exists_of_bind_ok h
  have hwrite : (calls.writeRecord >>= fun _ => Except.ok
      (twoModelRecord attempt (atMoment cancellation requests .finish u),
        returnCode (twoModelRecord attempt (atMoment cancellation requests .finish u)),
        atMoment cancellation requests .record (atMoment cancellation requests .finish u)))
      = Except.ok (record, code, s) := by
    by_cases hc : (atMoment cancellation requests .finish u).cancelled = true
    · simp only [if_pos hc] at h
      obtain ⟨-, -, h⟩ := exists_of_bind_ok h
      exact h
    · simp only [if_neg hc] at h
      exact h
  obtain ⟨-, -, hresult⟩ := exists_of_bind_ok hwrite
  obtain ⟨rfl, hrest⟩ := Prod.mk.inj (Except.ok.inj hresult)
  obtain ⟨rfl, rfl⟩ := Prod.mk.inj hrest
  refine ⟨u, hrun, rfl, ?_, rfl⟩
  rw [twoModelRecord_atMoment cancellation requests .record]

theorem runTwoModel_consistent
    (h : runTwoModel cancellation requests calls attempt = .ok (record, code, s)) :
    Consistent s ∧ startedModels s.trace <+: models := by
  obtain ⟨u, hrun, rfl, -, -⟩ := runTwoModel_ok h
  have hstart : [] ++ models = models := rfl
  obtain ⟨hu, hstarted⟩ := runModels_spec cancellation requests hstart consistent_start rfl hrun
  have hquiet := fun p u => (atMoment_spec cancellation requests p u).2.2.2.1
  refine ⟨(hu.atMoment cancellation requests .finish).atMoment cancellation requests .record, ?_⟩
  rw [hquiet, hquiet]
  exact hstarted

end Attempt

end RabitKV
