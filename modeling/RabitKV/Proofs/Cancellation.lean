import RabitKV.Proofs.TwoModel

/-!
# Which requests an attempt hears of

What the calls do decides through which moments an attempt goes, as long as nothing cancels it, and
which of them lie before the last read of the flag (`Behaviour.seen`) and which after it
(`Behaviour.unseen`). A run keeps to that (`Hears`), so a request is missed exactly when the first
one comes at an unseen moment and no call raises `KeyboardInterrupt` before.
-/

namespace RabitKV

open Checked Trace

namespace Behaviour

variable (calls : Behaviour)

/-- The model returns 0 with verified artifacts and a verified archive. -/
def Passes (m : Model) : Prop :=
  (calls.run m = .ok 0 ∧ calls.requireQualityArtifacts m = .ok ()) ∧
    calls.isDir m = .ok true ∧ calls.archive m = .ok () ∧ calls.requireArchive m = .ok ()

instance (m : Model) : Decidable (calls.Passes m) := inferInstanceAs (Decidable (_ ∧ _))

/-- `KeyboardInterrupt` while the model runs or its artifacts are checked. -/
def InterruptsRun (m : Model) : Prop :=
  calls.run m = .error .keyboardInterrupt ∨
    (calls.run m = .ok 0 ∧ calls.requireQualityArtifacts m = .error .keyboardInterrupt)

/-- `KeyboardInterrupt` while the model is archived. -/
def InterruptsArchive (m : Model) : Prop :=
  calls.isDir m = .ok true ∧ (calls.archive m = .error .keyboardInterrupt ∨
    (calls.archive m = .ok () ∧ calls.requireArchive m = .error .keyboardInterrupt))

/-- `KeyboardInterrupt` in a model that is started. -/
def Interrupts : Prop :=
  (calls.InterruptsRun .llama3_1_8b ∨ calls.InterruptsArchive .llama3_1_8b) ∨
    (calls.Passes .llama3_1_8b ∧
      (calls.InterruptsRun .qwen2_5_7b ∨ calls.InterruptsArchive .qwen2_5_7b))

/-- The moments of a model up to the read of the flag after its first `try`. -/
def runMoments (m : Model) : List Moment :=
  [.run m] ++ (if calls.run m = .ok 0 then [.artifacts m] else []) ++ [.afterRun m]

/-- The moments of a model after that read. -/
def archiveMoments (m : Model) : List Moment :=
  [.isDir m] ++ (if calls.isDir m = .ok true then
    [.archive m] ++ if calls.archive m = .ok () then [.requireArchive m] else [] else [])
    ++ [.afterArchive m]

/-- The moments up to the read of the flag at the head of the loop for the second model. -/
def firstMoments : List Moment :=
  [.top .llama3_1_8b] ++ calls.runMoments .llama3_1_8b ++ calls.archiveMoments .llama3_1_8b
    ++ [.top .qwen2_5_7b]

/-- The moments before the last read of the flag: those up to the second model, and its run if it is
started. -/
def seen : List Moment :=
  calls.firstMoments ++ if calls.Passes .llama3_1_8b then calls.runMoments .qwen2_5_7b else []

/-- The moments after it: the archive of the second model if it is started, the end of the loop and
the time before the record is written. -/
def unseen : List Moment :=
  (if calls.Passes .llama3_1_8b then calls.archiveMoments .qwen2_5_7b else [])
    ++ [.finish] ++ [.record]

end Behaviour

section Hears

variable (cancellation : Bool) (requests : Moment → Bool)

/-- The local variable tells of the requests at the moments `early` and of the interrupts `caught`;
while it does not, the flag tells of those at the moments `late`. -/
structure Hears (early late : List Moment) (caught : Prop) (s : Attempt) : Prop where
  cancelled : s.cancelled = true ↔ caught ∨ (cancellation && early.any requests) = true
  flag : s.cancelled = false → s.flag = (cancellation && late.any requests)

variable {cancellation requests} {early late : List Moment} {caught caught' : Prop}
  {s s' : Attempt} {calls : Behaviour} {m : Model} {r : Raised}

theorem hears_start : Hears cancellation requests [] [] False {} where
  cancelled := by simp
  flag := by simp

/-- What neither the flag nor the local variable takes part in. -/
theorem Hears.keep (h : Hears cancellation requests early late caught s)
    (hc : s'.cancelled = s.cancelled) (hf : s'.flag = s.flag) (hiff : caught' ↔ caught) :
    Hears cancellation requests early late caught' s' :=
  ⟨by rw [hc, hiff]; exact h.cancelled, fun hs => by rw [hf]; exact h.flag (hc ▸ hs)⟩

theorem Hears.interrupt (hc : s.cancelled = true) (hcaught : caught) :
    Hears cancellation requests early late caught s :=
  ⟨iff_of_true hc (Or.inl hcaught), fun hs => by rw [hc] at hs; cases hs⟩

/-- A cancelled attempt hears no more, whatever comes. -/
theorem Hears.of_cancelled {early' late' : List Moment}
    (h : Hears cancellation requests early late caught s) (hc : s.cancelled = true)
    (hearly : early ⊆ early') (hcaught : caught → caught') :
    Hears cancellation requests early' late' caught' s := by
  refine ⟨iff_of_true hc ((h.cancelled.1 hc).imp hcaught fun hany => ?_), fun hs => ?_⟩
  · rw [Bool.and_eq_true, List.any_eq_true] at hany ⊢
    obtain ⟨hcan, p, hp, hreq⟩ := hany
    exact ⟨hcan, p, hearly hp, hreq⟩
  · rw [hc] at hs
    cases hs

theorem Hears.atMoment (h : Hears cancellation requests early late caught s) (p : Moment) :
    Hears cancellation requests early (late ++ [p]) caught
      (atMoment cancellation requests p s) := by
  have hany : (cancellation && (late ++ [p]).any requests)
      = ((cancellation && late.any requests) || (cancellation && requests p)) := by
    rw [List.any_append, ← Bool.and_or_distrib_left]
    simp
  unfold RabitKV.atMoment
  split_ifs with hreq
  · refine ⟨h.cancelled, fun _ => ?_⟩
    rw [hany, hreq, Bool.or_true]
    rfl
  · refine ⟨h.cancelled, fun hs => ?_⟩
    rw [hany, Bool.eq_false_iff.2 hreq, Bool.or_false]
    exact h.flag hs

theorem Hears.poll (h : Hears cancellation requests early late caught s) :
    Hears cancellation requests (early ++ late) [] caught (pollFlag cancellation s) := by
  have hany : (cancellation && (early ++ late).any requests) = true
      ↔ (cancellation && early.any requests) = true ∨
        (cancellation && late.any requests) = true := by
    rw [List.any_append, Bool.and_or_distrib_left, Bool.or_eq_true]
  unfold pollFlag
  split_ifs with hc hcan
  · exact h.of_cancelled hc (List.subset_append_left _ _) id
  · have hflag := h.flag (Bool.eq_false_iff.2 hc)
    refine ⟨?_, fun hs => ?_⟩
    · change s.flag = true ↔ _
      rw [hany, hflag, ← or_assoc, ← h.cancelled, iff_false_intro hc, false_or]
    · exact hs.trans (by simp)
  · -- without a `Cancellation` the flag is never set
    refine ⟨?_, fun hs => ?_⟩
    · rw [h.cancelled]
      simp [Bool.eq_false_iff.2 hcan]
    · rw [h.flag hs]
      simp [Bool.eq_false_iff.2 hcan]

/-- The handlers of either `try` hear of an interrupt. -/
theorem Hears.runFailed (h : Hears cancellation requests early late caught s)
    (hs : runFailed cancellation m s r = .ok s') :
    Hears cancellation requests early late (caught ∨ r = .keyboardInterrupt) s' := by
  cases r with
  | keyboardInterrupt =>
    obtain rfl := Except.ok.inj hs
    refine Hears.interrupt ?_ (Or.inr rfl)
    cases cancellation <;> rfl
  | exception text =>
    obtain rfl := Except.ok.inj hs
    exact h.keep rfl rfl (by simp)
  | systemExit text =>
    obtain rfl := Except.ok.inj hs
    exact h.keep rfl rfl (by simp)
  | other => cases hs

theorem Hears.archiveFailed (h : Hears cancellation requests early late caught s)
    (hs : archiveFailed m s r = .ok s') :
    Hears cancellation requests early late (caught ∨ r = .keyboardInterrupt) s' := by
  cases r with
  | keyboardInterrupt =>
    obtain rfl := Except.ok.inj hs
    exact Hears.interrupt rfl (Or.inr rfl)
  | exception text =>
    obtain rfl := Except.ok.inj hs
    exact h.keep rfl rfl (by simp)
  | systemExit text => cases hs
  | other => cases hs

/-- The first `try`. -/
theorem Hears.tryRun (h : Hears cancellation requests early late caught s)
    (hs : tryRun cancellation requests calls m s = .ok s') :
    Hears cancellation requests early
      (late ++ ([.run m] ++ if calls.run m = .ok 0 then [.artifacts m] else []))
      (caught ∨ calls.InterruptsRun m) s' := by
  have hstarted : Hears cancellation requests early late caught (s.emit (.started m)) :=
    h.keep rfl rfl Iff.rfl
  have hrun := hstarted.atMoment (.run m)
  unfold RabitKV.tryRun at hs
  rw [← List.append_assoc]
  rcases hcode : calls.run m with r | code
  · rw [hcode] at hs
    rw [if_neg (by simp), List.append_nil]
    refine (hrun.runFailed hs).keep rfl rfl ?_
    simp [Behaviour.InterruptsRun, hcode]
  · rw [hcode] at hs
    by_cases hzero : code = 0
    · subst hzero
      have hreturned : Hears cancellation requests early (late ++ [.run m]) caught
          (((RabitKV.atMoment cancellation requests (.run m) (s.emit (.started m))).setCode m
            0).emit (.returned m 0)) := hrun.keep rfl rfl Iff.rfl
      have hart := hreturned.atMoment (.artifacts m)
      rw [if_pos rfl]
      simp only [if_true] at hs
      rcases hcheck : calls.requireQualityArtifacts m with r | _
      · rw [hcheck] at hs
        refine (hart.runFailed hs).keep rfl rfl ?_
        simp [Behaviour.InterruptsRun, hcode, hcheck]
      · rw [hcheck] at hs
        obtain rfl := Except.ok.inj hs
        refine hart.keep rfl rfl ?_
        simp [Behaviour.InterruptsRun, hcode, hcheck]
    · simp only [if_neg hzero] at hs
      obtain rfl := Except.ok.inj hs
      rw [if_neg (by simpa using hzero), List.append_nil]
      refine hrun.keep rfl rfl ?_
      simp [Behaviour.InterruptsRun, hcode, hzero]

/-- The second `try`. -/
theorem Hears.tryArchive (h : Hears cancellation requests early late caught s)
    (hs : tryArchive cancellation requests calls m s = .ok s') :
    Hears cancellation requests early
      (late ++ ([.isDir m] ++ if calls.isDir m = .ok true then
        [.archive m] ++ if calls.archive m = .ok () then [.requireArchive m] else [] else []))
      (caught ∨ calls.InterruptsArchive m) s' := by
  have hdir := h.atMoment (.isDir m)
  unfold RabitKV.tryArchive at hs
  rw [← List.append_assoc]
  rcases hd : calls.isDir m with r | isDir <;> rw [hd] at hs
  · cases hs
  rcases isDir with _ | _
  · obtain rfl := Except.ok.inj hs
    rw [if_neg (by simp), List.append_nil]
    exact hdir.keep rfl rfl (by simp [Behaviour.InterruptsArchive, hd])
  rw [if_pos rfl, ← List.append_assoc]
  have harch := hdir.atMoment (.archive m)
  rcases ha : calls.archive m with r | _ <;> simp only [ha] at hs
  · rw [if_neg (by simp), List.append_nil]
    refine (harch.archiveFailed hs).keep rfl rfl ?_
    simp [Behaviour.InterruptsArchive, hd, ha]
  rw [if_pos rfl]
  have hreq := harch.atMoment (.requireArchive m)
  rcases hr : calls.requireArchive m with r | _ <;> simp only [hr] at hs
  · refine (hreq.archiveFailed hs).keep rfl rfl ?_
    simp [Behaviour.InterruptsArchive, hd, ha, hr]
  · obtain rfl := Except.ok.inj hs
    refine hreq.keep rfl rfl ?_
    simp [Behaviour.InterruptsArchive, hd, ha, hr]

/-- One model: its run is heard of, its archive is not yet. -/
theorem Hears.runModel (h : Hears cancellation requests early late caught s)
    (hs : runModel cancellation requests calls m s = .ok s') :
    Hears cancellation requests (early ++ (late ++ calls.runMoments m)) (calls.archiveMoments m)
      (caught ∨ calls.InterruptsRun m ∨ calls.InterruptsArchive m) s' := by
  obtain ⟨u, hrun, hs⟩ := exists_of_bind_ok hs
  obtain ⟨w, harchive, hs⟩ := exists_of_bind_ok hs
  obtain rfl := Except.ok.inj hs
  have hpolled := ((h.tryRun hrun).atMoment (.afterRun m)).poll
  rw [List.append_assoc late] at hpolled
  have hcode : Hears cancellation requests (early ++ (late ++ calls.runMoments m)) []
      (caught ∨ calls.InterruptsRun m)
      (if (pollFlag cancellation (RabitKV.atMoment cancellation requests (.afterRun m) u)).cancelled
        then (pollFlag cancellation (RabitKV.atMoment cancellation requests (.afterRun m)
          u)).setCode m 130
        else pollFlag cancellation (RabitKV.atMoment cancellation requests (.afterRun m) u)) := by
    split_ifs
    · exact hpolled.keep rfl rfl Iff.rfl
    · exact hpolled
  exact ((hcode.tryArchive harchive).atMoment (.afterArchive m)).keep rfl rfl or_assoc.symm

end Hears

section Passes

variable {cancellation : Bool} {requests : Moment → Bool} {s s' : Attempt} {calls : Behaviour}
  {m : Model} {r : Raised}

theorem runFailed_code (hs : runFailed cancellation m s r = .ok s') :
    s'.archived = s.archived ∧ s'.codes m ≠ some 0 := by
  cases r with
  | keyboardInterrupt =>
    obtain rfl := Except.ok.inj hs
    cases cancellation <;> simp [Attempt.setCode, Attempt.setError, Attempt.request, Attempt.emit]
  | exception text =>
    obtain rfl := Except.ok.inj hs
    simp [Attempt.setCode, Attempt.setError]
  | systemExit text =>
    obtain rfl := Except.ok.inj hs
    simp [Attempt.setCode, Attempt.setError]
  | other => cases hs

theorem archiveFailed_archived (hs : archiveFailed m s r = .ok s') : s'.archived = s.archived := by
  cases r with
  | keyboardInterrupt =>
    obtain rfl := Except.ok.inj hs
    rfl
  | exception text =>
    obtain rfl := Except.ok.inj hs
    rfl
  | systemExit text => cases hs
  | other => cases hs

theorem tryRun_code (hs : tryRun cancellation requests calls m s = .ok s') :
    s'.archived = s.archived ∧ (s'.codes m = some 0 ↔
      calls.run m = .ok 0 ∧ calls.requireQualityArtifacts m = .ok ()) := by
  have hkeep := fun p u => (atMoment_spec cancellation requests p u).2.1
  unfold tryRun at hs
  rcases hcode : calls.run m with r | code <;> rw [hcode] at hs
  · obtain ⟨harch, hne⟩ := runFailed_code hs
    exact ⟨harch.trans (hkeep _ _), iff_of_false hne (by simp)⟩
  · by_cases hzero : code = 0
    · subst hzero
      simp only [if_true] at hs
      rcases hcheck : calls.requireQualityArtifacts m with r | _ <;> rw [hcheck] at hs
      · obtain ⟨harch, hne⟩ := runFailed_code hs
        exact ⟨harch.trans ((hkeep _ _).trans (hkeep _ _)), iff_of_false hne (by simp)⟩
      · obtain rfl := Except.ok.inj hs
        refine ⟨(hkeep _ _).trans (hkeep _ _), iff_of_true ?_ ⟨rfl, rfl⟩⟩
        simp only [Attempt.emit, (atMoment_spec cancellation requests _ _).1, Attempt.setCode,
          Function.update_self]
    · simp only [if_neg hzero] at hs
      obtain rfl := Except.ok.inj hs
      refine ⟨hkeep _ _, iff_of_false ?_ (by simp [hzero])⟩
      simp [Attempt.setCode, Attempt.emit, hzero]

theorem tryArchive_archived (hm : s.archived m = false)
    (hs : tryArchive cancellation requests calls m s = .ok s') :
    (s'.archived m = true ↔ calls.isDir m = .ok true ∧ calls.archive m = .ok () ∧
      calls.requireArchive m = .ok ()) ∧ (s'.archived m = true → s'.codes = s.codes) := by
  have hkeep := fun p u => (atMoment_spec cancellation requests p u).2.1
  have hcodes := fun p u => (atMoment_spec cancellation requests p u).1
  unfold tryArchive at hs
  have hnot : ∀ {u : Attempt}, u.archived = s.archived → ¬ u.archived m = true := fun hu => by
    rw [hu, hm]
    simp
  rcases hd : calls.isDir m with r | isDir <;> rw [hd] at hs
  · cases hs
  rcases isDir with _ | _
  · obtain rfl := Except.ok.inj hs
    have hno := hnot (hkeep (.isDir m) s)
    exact ⟨iff_of_false hno (by simp), fun h => absurd h hno⟩
  rcases ha : calls.archive m with r | _ <;> simp only [ha] at hs
  · have hno := hnot ((archiveFailed_archived hs).trans ((hkeep _ _).trans (hkeep _ _)))
    exact ⟨iff_of_false hno (by simp), fun h => absurd h hno⟩
  rcases hr : calls.requireArchive m with r | _ <;> simp only [hr] at hs
  · have hno := hnot ((archiveFailed_archived hs).trans
      ((hkeep _ _).trans ((hkeep _ _).trans (hkeep _ _))))
    exact ⟨iff_of_false hno (by simp), fun h => absurd h hno⟩
  · obtain rfl := Except.ok.inj hs
    refine ⟨iff_of_true (Function.update_self _ _ _) ⟨rfl, rfl, rfl⟩, fun _ => ?_⟩
    exact (hcodes _ _).trans ((hcodes _ _).trans (hcodes _ _))

/-- A model of an attempt that goes on is known by its calls. -/
theorem runModel_passes (hm : s.archived m = false)
    (hs : runModel cancellation requests calls m s = .ok s') (hc : s'.cancelled = false) :
    s'.codes m = some 0 ∧ s'.archived m = true ↔ calls.Passes m := by
  obtain ⟨u, hrun, hs⟩ := exists_of_bind_ok hs
  obtain ⟨w, harchive, hs⟩ := exists_of_bind_ok hs
  obtain rfl := Except.ok.inj hs
  obtain ⟨hcodes, harch, hcan, -, -⟩ := atMoment_spec cancellation requests (.afterArchive m) w
  obtain ⟨hcodes₁, harch₁, -⟩ := atMoment_spec cancellation requests (.afterRun m) u
  obtain ⟨hcodes₂, harch₂, -⟩ :=
    pollFlag_spec cancellation (atMoment cancellation requests (.afterRun m) u)
  obtain ⟨harch₀, hcode⟩ := tryRun_code hrun
  generalize pollFlag cancellation (atMoment cancellation requests (.afterRun m) u) = v at *
  -- a cancelled attempt would still be cancelled
  have hv : ¬ v.cancelled = true := fun hv => by
    rw [if_pos hv] at harchive
    have hhears : Hears cancellation requests [] [] True (v.setCode m 130) :=
      Hears.interrupt hv trivial
    have htrue := (hhears.tryArchive harchive).cancelled.2 (Or.inl (Or.inl trivial))
    rw [hcan, htrue] at hc
    cases hc
  rw [if_neg hv] at harchive
  obtain ⟨hiff, hkeep⟩ := tryArchive_archived (by rw [harch₂, harch₁, harch₀]; exact hm) harchive
  rw [hcodes, harch, Behaviour.Passes, ← hcode, ← hiff]
  refine and_congr_left fun hw => ?_
  rw [hkeep hw, hcodes₂, hcodes₁]

end Passes

section Loop

variable {cancellation : Bool} {requests : Moment → Bool} {s : Attempt} {calls : Behaviour}

/-- The loop up to its second turn, if it gets there. -/
theorem firstModel_hears {w : Attempt} (hrun : runModel cancellation requests calls .llama3_1_8b
      (pollFlag cancellation (atMoment cancellation requests (.top .llama3_1_8b) {})) = .ok w)
    {u : Attempt} (hu : u = pollFlag cancellation (atMoment cancellation requests
      (.top .qwen2_5_7b) w)) :
    Hears cancellation requests calls.firstMoments []
        (calls.InterruptsRun .llama3_1_8b ∨ calls.InterruptsArchive .llama3_1_8b) u ∧
      (u.cancelled = false → (u.codes .llama3_1_8b = some 0 ∧ u.archived .llama3_1_8b = true
        ↔ calls.Passes .llama3_1_8b)) := by
  subst hu
  have hstart : Hears cancellation requests [] [] False {} := hears_start
  have hsecond := ((((hstart.atMoment (.top .llama3_1_8b)).poll).runModel hrun).atMoment
    (.top .qwen2_5_7b)).poll
  simp only [List.nil_append, ← List.append_assoc, false_or] at hsecond
  refine ⟨hsecond, fun hc => ?_⟩
  obtain ⟨hcodes, harch, hcan, -⟩ := atMoment_spec cancellation requests (.top .qwen2_5_7b) w
  obtain ⟨hcodes', harch', hmono, -⟩ :=
    pollFlag_spec cancellation (atMoment cancellation requests (.top .qwen2_5_7b) w)
  have hw : w.cancelled = false := Bool.eq_false_iff.2 fun hw => by
    rw [hmono (hcan.trans hw)] at hc
    cases hc
  rw [hcodes', hcodes, harch', harch]
  refine runModel_passes ?_ hrun hw
  rw [(pollFlag_spec cancellation _).2.1, (atMoment_spec cancellation requests _ _).2.1]

/-- The whole loop. -/
theorem runModels_hears (hs : runModels cancellation requests calls models {} = .ok s) :
    Hears cancellation requests calls.seen
      (if calls.Passes .llama3_1_8b then calls.archiveMoments .qwen2_5_7b else [])
      calls.Interrupts s := by
  have hstart : Hears cancellation requests [] [] False {} := hears_start
  rcases runModels_cons cancellation requests hs rfl with ⟨hc, rfl⟩ | ⟨-, ⟨hm, -⟩, -⟩ |
    ⟨-, -, w, hrun, hs⟩
  · refine ((hstart.atMoment (.top .llama3_1_8b)).poll).of_cancelled hc ?_ False.elim
    simp [Behaviour.seen, Behaviour.firstMoments]
  · cases hm
  obtain ⟨hsecond, hpasses⟩ := firstModel_hears hrun rfl
  rcases runModels_cons cancellation requests hs rfl with ⟨hc, rfl⟩ | ⟨hc, ⟨-, hnot⟩, rfl⟩ |
    ⟨hc, hpass, v, hrun', hs⟩
  · exact hsecond.of_cancelled hc (List.subset_append_left _ _) Or.inl
  · have hno : ¬ calls.Passes .llama3_1_8b := fun h => hnot ((hpasses hc).2 h)
    rw [Behaviour.seen, if_neg hno, if_neg hno, List.append_nil]
    exact hsecond.keep rfl rfl (by simp [Behaviour.Interrupts, hno])
  · have hyes : calls.Passes .llama3_1_8b := (hpasses hc).1 (hpass rfl)
    obtain rfl := Except.ok.inj hs
    have hall := hsecond.runModel hrun'
    rw [List.nil_append] at hall
    rw [Behaviour.seen, if_pos hyes, if_pos hyes]
    exact hall.keep rfl rfl (by simp [Behaviour.Interrupts, hyes])

end Loop

section Attempt

variable {cancellation : Bool} {requests : Moment → Bool} {calls : Behaviour} {attempt : ℤ}
  {record : TwoModelRecord} {code : ℤ} {s : Attempt}

/-- The first request comes after the last read of the flag, and no call is interrupted. -/
def LateRequest (cancellation : Bool) (requests : Moment → Bool) (calls : Behaviour) : Prop :=
  cancellation = true ∧ calls.seen.any requests = false ∧ calls.unseen.any requests = true ∧
    ¬ calls.Interrupts

theorem runTwoModel_hears
    (h : runTwoModel cancellation requests calls attempt = .ok (record, code, s)) :
    Hears cancellation requests calls.seen calls.unseen calls.Interrupts s := by
  obtain ⟨u, hrun, rfl, -, -⟩ := runTwoModel_ok h
  exact ((runModels_hears hrun).atMoment .finish).atMoment .record

/-- A request is missed exactly when it is late. -/
theorem Hears.noticed_iff (hh : Hears cancellation requests calls.seen calls.unseen calls.Interrupts
      s) (hc : Consistent s) :
    (Requested s.trace → Noticed s.trace) ↔ ¬ LateRequest cancellation requests calls := by
  rw [← hc.cancelled]
  by_cases hcan : s.cancelled = true
  · refine iff_of_true (fun _ => hcan) ?_
    rintro ⟨-, hseen, -, hint⟩
    rcases hh.cancelled.1 hcan with h | h
    · exact hint h
    · rw [hseen, Bool.and_false] at h
      cases h
  · have hflag := hh.flag (Bool.eq_false_iff.2 hcan)
    have hquiet := hcan
    rw [hh.cancelled, not_or] at hquiet
    obtain ⟨hint, hseen⟩ := hquiet
    have hreq : Requested s.trace ↔ s.flag = true := by
      rw [hc.flag]
      refine ⟨fun h => h.resolve_right fun hi => ?_, Or.inl⟩
      exact hcan (hc.cancelled.2 (Or.inl hi))
    rw [hreq, hflag, iff_false_intro hcan, imp_false, not_iff_not, Bool.and_eq_true]
    constructor
    · rintro ⟨hcancellation, hlate⟩
      refine ⟨hcancellation, ?_, hlate, hint⟩
      rw [hcancellation, Bool.true_and] at hseen
      exact Bool.eq_false_iff.2 hseen
    · rintro ⟨hcancellation, -, hlate, -⟩
      exact ⟨hcancellation, hlate⟩

/-- Every written record is about models started once and in order, the second after the first has
passed. It is honest exactly when the first request is not late. -/
theorem runTwoModel_honest_iff
    (h : runTwoModel cancellation requests calls attempt = .ok (record, code, s)) :
    startedModels s.trace <+: models ∧ Before (.started .qwen2_5_7b) Authorised s.trace ∧
      (HonestRecord s.trace record code ↔ ¬ LateRequest cancellation requests calls) := by
  obtain ⟨hc, hstarted⟩ := runTwoModel_consistent h
  obtain ⟨-, -, -, rfl, rfl⟩ := runTwoModel_ok h
  refine ⟨hstarted, hc.authorised, ?_⟩
  rw [hc.honest_iff attempt, (runTwoModel_hears h).noticed_iff hc]

end Attempt

/-- Both models run, return 0 and are archived. -/
def bothModelsPass : Behaviour where
  writeRegistration := .ok ()
  run _ := .ok 0
  requireQualityArtifacts _ := .ok ()
  isDir _ := .ok true
  archive _ := .ok ()
  requireArchive _ := .ok ()
  archiveCancelled := .ok ()
  writeRecord := .ok ()

/-- A request during the first archive is heard of before the second model. -/
theorem runTwoModel_honest_iff_first_archive :
    ∃ record code s, runTwoModel true (fun p => p == .archive .llama3_1_8b) bothModelsPass 1
        = .ok (record, code, s) ∧ startedModels s.trace = [.llama3_1_8b] ∧
      HonestRecord s.trace record code := by
  have hrun : ∃ record code s, runTwoModel true (fun p => p == .archive .llama3_1_8b)
      bothModelsPass 1 = .ok (record, code, s) ∧ startedModels s.trace = [.llama3_1_8b] :=
    ⟨_, _, _, rfl, rfl⟩
  obtain ⟨record, code, s, hrun, hstarted⟩ := hrun
  refine ⟨record, code, s, hrun, hstarted, (runTwoModel_honest_iff hrun).2.2.2 ?_⟩
  rintro ⟨-, hseen, -⟩
  exact absurd hseen (by decide)

/-- A request during the second archive is not: the attempt is recorded as valid. -/
theorem runTwoModel_request_during_second_archive :
    ∃ record code s, runTwoModel true (fun p => p == .archive .qwen2_5_7b) bothModelsPass 1
        = .ok (record, code, s) ∧ Requested s.trace ∧ record.valid = true ∧ code = 0 ∧
      ¬ HonestRecord s.trace record code := by
  refine ⟨_, _, _, rfl, Or.inl (by decide), rfl, rfl, fun h => ?_⟩
  have hcancelled := (h.2.2 (Or.inl (by decide))).1
  cases hcancelled

end RabitKV
