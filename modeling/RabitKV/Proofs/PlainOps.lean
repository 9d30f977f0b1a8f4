import RabitKV.PlainOps
import RabitKV.Proofs.ChunkPlan

/-!
# The shape of a runtime

After any plain operations the number `n` of tokens taken in decides the lengths of all fields
(`Shape`): an operation batches its tokens into the window, and a batch keeps the closed form. An
operation writes the pages of all tokens passed to it, so at most the blocks for the tokens held and
passed.
-/

namespace RabitKV

open Chunks Window

section Shape

variable {F : Type} {H D : ℕ}

/-- A window with `closed` pages before it holds `n` tokens. -/
structure Shape (w : SeqWin H D F) (closed n : ℕ) : Prop where
  recent : w.recent.length = min n residualTokens
  old : closed * groupSize + w.opened.length = n - residualTokens

variable {w : SeqWin H D F} {closed n : ℕ}

theorem Shape.closed_eq (h : Shape w closed n) : closed = (n - residualTokens) / groupSize := by
  have hlt := w.opened_lt
  have hold := h.old
  unfold groupSize at *
  omega

theorem Shape.opened_eq (h : Shape w closed n) :
    w.opened.length = (n - residualTokens) % groupSize := by
  have hlt := w.opened_lt
  have hold := h.old
  unfold groupSize at *
  omega

theorem shape_empty : Shape (Win.empty (by decide) : SeqWin H D F) 0 0 := ⟨rfl, rfl⟩

/-- A batch keeps the closed form. -/
theorem Shape.batch (h : Shape w closed n) (fp : Fp F Bf16) (kvs : List (KV H D)) :
    Shape (w.batch (ageKV fp) kvs).1 (closed + (w.batch (ageKV fp) kvs).2.length)
      (n + kvs.length) := by
  have htotal := w.batch_total (ageKV fp) kvs
  have hrecent := h.recent
  have hold := h.old
  have hlen : (w.batch (ageKV fp) kvs).1.recent.length = min (n + kvs.length) residualTokens := by
    rw [Win.batch_recent, List.length_drop, Win.leaving, List.length_append, hrecent]
    omega
  refine ⟨hlen, ?_⟩
  rw [hlen] at htotal
  rw [Nat.add_mul]
  omega

/-- The pages of a batch end at the count of old tokens. -/
theorem Shape.pages_le (h : Shape w closed n) (fp : Fp F Bf16) (kvs : List (KV H D)) :
    closed + (w.batch (ageKV fp) kvs).2.length ≤ cdiv (n + kvs.length) groupSize := by
  have hclosed := (h.batch fp kvs).closed_eq
  unfold cdiv groupSize residualTokens at *
  omega

end Shape

section Exec

variable {F ι : Type} [DecidableEq ι] (fp : Fp F Bf16) {H D : ℕ} (row : List ι)

/-- The state an operation leaves: the window of the tokens taken in, and the pages of all tokens
passed. -/
def PlainOp.after (op : PlainOp H D) (w : SeqWin H D F) (p : Physical ι) :
    Held H D F (Physical ι) :=
  hold (w.batch (ageKV fp) op.taken).1
    ⟨p.closedPages + (w.batch (ageKV fp) op.taken).2.length,
      (written fp row p (w.batch (ageKV fp) op.passed).2).cache⟩

/-- The table has a block for every page of the tokens passed. -/
def PlainOp.Fits (op : PlainOp H D) (w : SeqWin H D F) (p : Physical ι) : Prop :=
  (w.batch (ageKV fp) op.passed).2 = [] ∨
    p.closedPages + (w.batch (ageKV fp) op.passed).2.length ≤ row.length

variable (ha : Aligned H D) (w : SeqWin H D F) {p : Physical ι}
  (hw : p.cache.width = (pageLayout groupSize H D D).pageBytes)

include ha hw

theorem PlainOp.exec_run (op : PlainOp H D) (hfit : op.Fits fp row w p) :
    (op.exec fp row).run (hold w p) = .ok () (op.after fp row w p) := by
  cases op with
  | append cuda kvs => exact append_run fp cuda row ha w kvs hw hfit
  | bulk kvs => exact (bulkAppend_run fp row ha w kvs hw).trans (if_pos hfit)
  | plan kvs steps pos le =>
    have hne : kvs ≠ [] := List.ne_nil_of_length_pos (by omega)
    have hplan := (chunkPlan_run fp row ha w hne hw).trans (if_pos hfit)
    have hsteps := applySteps_run fp w p.closedPages
      (written fp row p (w.batch (ageKV fp) kvs).2).cache kvs steps 0 (by omega)
    rw [stepped_zero, Nat.zero_add] at hsteps
    rw [PlainOp.exec, EStateM.run_bind, hplan]
    simp only [EStateM.run_bind, hsteps]
    rfl

theorem PlainOp.exec_raises (op : PlainOp H D) (hfit : ¬ op.Fits fp row w p) :
    ∃ e s, (op.exec fp row).run (hold w p) = .error e s := by
  cases op with
  | append cuda kvs =>
    obtain ⟨hne, hlong⟩ := not_or.1 hfit
    obtain ⟨s, -, hs⟩ := append_raises fp cuda row ha w kvs hw hne (Nat.lt_of_not_le hlong)
    exact ⟨_, s, hs⟩
  | bulk kvs => exact ⟨_, _, (bulkAppend_run fp row ha w kvs hw).trans (if_neg hfit)⟩
  | plan kvs steps pos le =>
    have hne : kvs ≠ [] := List.ne_nil_of_length_pos (by omega)
    have hplan := (chunkPlan_run fp row ha w hne hw).trans (if_neg hfit)
    rw [PlainOp.exec, EStateM.run_bind, hplan]
    exact ⟨_, _, rfl⟩

end Exec

section Run

variable {F ι : Type} [DecidableEq ι] (fp : Fp F Bf16) {H D : ℕ} (row : List ι)

/-- What holds after a run that has taken the tokens held from `n` to `n'`, writing below block
`top`. -/
def Reaches (n' top : ℕ) (cache : Cache ι) (s : Held H D F (Physical ι)) : Prop :=
  ∃ w closed cache', s = hold w ⟨closed, cache'⟩ ∧ Shape w closed n' ∧
    ∀ id, id ∉ row.take top → cache'.rows id = cache.rows id

theorem cdiv_le_cdiv {a b : ℕ} (h : a ≤ b) : cdiv a groupSize ≤ cdiv b groupSize := by
  unfold cdiv groupSize
  omega

/-- One step and then the rest: what a run of operations reaches, and that it does not raise when
the table is long enough. -/
theorem PlainOp.execAll_run (ha : Aligned H D) : ∀ (ops : List (PlainOp H D)) {w : SeqWin H D F}
    {closed n : ℕ} {cache : Cache ι}, Shape w closed n →
    cache.width = (pageLayout groupSize H D D).pageBytes →
    (∀ s, (PlainOp.execAll fp row ops).run (hold w ⟨closed, cache⟩) = .ok () s →
      Reaches row (n + PlainOp.total ops) (cdiv (PlainOp.peak n ops) groupSize) cache s) ∧
    (cdiv (PlainOp.peak n ops) groupSize ≤ row.length →
      ∃ s, (PlainOp.execAll fp row ops).run (hold w ⟨closed, cache⟩) = .ok () s)
  | [], w, closed, n, cache, hshape, _ => by
    refine ⟨fun s hs => ?_, fun _ => ⟨_, rfl⟩⟩
    cases hs
    exact ⟨w, closed, cache, rfl, hshape, fun _ _ => rfl⟩
  | op :: ops, w, closed, n, cache, hshape, hw => by
    have hpages := hshape.pages_le fp op.passed
    have hpeak := le_max_left (n + op.passed.length) (PlainOp.peak (n + op.taken.length) ops)
    have hpeak' := le_max_right (n + op.passed.length) (PlainOp.peak (n + op.taken.length) ops)
    have ih := PlainOp.execAll_run ha ops (hshape.batch fp op.taken)
      (show (written fp row ⟨closed, cache⟩ (w.batch (ageKV fp) op.passed).2).cache.width
        = _ from hw)
    rw [PlainOp.execAll, EStateM.run_bind]
    by_cases hfit : op.Fits fp row w ⟨closed, cache⟩
    · rw [PlainOp.exec_run fp row ha w hw op hfit]
      refine ⟨fun s hs => ?_, fun hlong => ih.2 ((cdiv_le_cdiv hpeak').trans hlong)⟩
      obtain ⟨w', closed', cache', rfl, hshape', hframe⟩ := ih.1 s hs
      refine ⟨w', closed', cache', rfl, ?_, fun id hid => (hframe id fun hmem => hid ?_).trans ?_⟩
      · rw [PlainOp.total, List.map_cons, List.sum_cons, ← Nat.add_assoc]
        exact hshape'
      · exact (List.take_sublist_take_left (cdiv_le_cdiv hpeak')).subset hmem
      · refine written_rows_of_notMem_take fp fun hmem => hid ?_
        exact (List.take_sublist_take_left (hpages.trans (cdiv_le_cdiv hpeak))).subset hmem
    · obtain ⟨e, s, hs⟩ := PlainOp.exec_raises fp row ha w hw op hfit
      rw [hs]
      refine ⟨fun _ h => (by cases h), fun hlong => absurd (Or.inr ?_) hfit⟩
      exact (hpages.trans (cdiv_le_cdiv hpeak)).trans hlong

end Run

section Bytes

variable {F : Type} {H D : ℕ}

/-- Sidecar bytes of one open token. -/
def openTokenBytes (H D : ℕ) : ℕ := H * D * 2 + H * vPackedDim D + H * vGroups D * 8

/-- Sidecar bytes of one recent token. -/
def recentTokenBytes (H D : ℕ) : ℕ := H * D * 4

theorem sidecarBytes_eq (w : SeqWin H D F) :
    sidecarBytes (toSidecar w.opened w.recent)
      = w.opened.length * openTokenBytes H D + w.recent.length * recentTokenBytes H D := by
  simp only [sidecarBytes, tensorBytes, toSidecar_openK, toSidecar_openVPacked, toSidecar_openVMin,
    toSidecar_openVScale, toSidecar_recentK, toSidecar_recentV, lenOpt_optList, List.length_map,
    openTokenBytes, recentTokenBytes]
  ring

theorem stagingBytes_eq (hH : 0 < H) (hD : 0 < D) :
    rabit2ExactOnlineStagingBytes H D D residualTokens groupSize
      = .ok (31 * openTokenBytes H D + residualTokens * recentTokenBytes H D) := by
  have hmin : ¬ min H (min D D) = 0 := by omega
  unfold rabit2ExactOnlineStagingBytes
  rw [if_neg hmin]
  refine congrArg Except.ok ?_
  have hg : cdiv D groupSize = vGroups D := rfl
  have hp : packedDim (cdiv D groupSize * groupSize) 2 = vPackedDim D := rfl
  rw [hp, hg, openTokenBytes, recentTokenBytes]
  simp only [groupSize, residualTokens, Nat.add_one_sub_one, Nat.max_zero]
  ring

/-- The sidecar stays within the staging bound and meets it only when it is full. -/
theorem sidecarBytes_le (hH : 0 < H) (hD : 0 < D) (w : SeqWin H D F) :
    sidecarBytes (toSidecar w.opened w.recent)
        ≤ 31 * openTokenBytes H D + residualTokens * recentTokenBytes H D ∧
      (sidecarBytes (toSidecar w.opened w.recent)
          = 31 * openTokenBytes H D + residualTokens * recentTokenBytes H D ↔
        w.opened.length = 31 ∧ w.recent.length = residualTokens) := by
  have hopen : 0 < openTokenBytes H D := by
    have := Nat.mul_pos hH hD
    unfold openTokenBytes
    omega
  have hrecent : 0 < recentTokenBytes H D := by
    have := Nat.mul_pos hH hD
    unfold recentTokenBytes
    omega
  have ho : w.opened.length ≤ 31 := Nat.le_of_lt_succ w.opened_lt
  have hle := Nat.mul_le_mul_right (openTokenBytes H D) ho
  have hle' := Nat.mul_le_mul_right (recentTokenBytes H D) w.recent_le
  rw [sidecarBytes_eq]
  refine ⟨by omega, fun h => ?_, fun h => by rw [h.1, h.2]⟩
  exact ⟨Nat.eq_of_mul_eq_mul_right hopen (by omega), Nat.eq_of_mul_eq_mul_right hrecent (by omega)⟩

end Bytes

section Law

variable {F ι : Type} [DecidableEq ι] (fp : Fp F Bf16) {H D : ℕ} (row : List ι)

/-- The shape law, the block budget and the sidecar bound of a runtime. -/
theorem plainOps_shape {layout : Rabit2PageLayout} (hr : runtimeInit H D D = .ok layout)
    (cache : Cache ι) (hwidth : cache.width = layout.pageBytes) (ops : List (PlainOp H D)) :
    (∀ s, (PlainOp.execAll fp row ops).run (freshRuntime cache) = .ok () s →
      s.rest.closedPages = (PlainOp.total ops - 4) / 32 ∧
      lenOpt s.side.openK = (PlainOp.total ops - 4) % 32 ∧
      lenOpt s.side.recentK = min (PlainOp.total ops) 4 ∧
      totalTokens s.rest.closedPages s.side = PlainOp.total ops ∧
      (∀ id, id ∉ row.take (cdiv (PlainOp.peak 0 ops) 32) →
        s.rest.cache.rows id = cache.rows id) ∧
      ∃ staging, rabit2ExactOnlineStagingBytes H D D residualTokens groupSize = .ok staging ∧
        sidecarBytes s.side ≤ staging ∧
        (sidecarBytes s.side = staging ↔ lenOpt s.side.openK = 31 ∧ lenOpt s.side.recentK = 4)) ∧
    (cdiv (PlainOp.peak 0 ops) 32 ≤ row.length →
      ∃ s, (PlainOp.execAll fp row ops).run (freshRuntime cache) = .ok () s) := by
  obtain ⟨rfl, ha, hH, hD, -⟩ := runtimeInit_ok hr
  rw [freshRuntime_eq]
  have hrun := PlainOp.execAll_run fp row ha ops shape_empty hwidth
  refine ⟨fun s hs => ?_, hrun.2⟩
  obtain ⟨w, closed, cache', rfl, hshape, hframe⟩ := hrun.1 s hs
  rw [Nat.zero_add] at hshape
  have hopen : lenOpt (toSidecar w.opened w.recent).openK = w.opened.length := lenOpt_openK w
  have hrecent : lenOpt (toSidecar w.opened w.recent).recentK = w.recent.length := lenOpt_recentK w
  have hbytes := sidecarBytes_le hH hD w
  have hold := hshape.old
  refine ⟨hshape.closed_eq, hopen.trans hshape.opened_eq, hrecent.trans hshape.recent, ?_, hframe,
    _, stagingBytes_eq hH hD, hbytes.1, ?_⟩
  · refine (totalTokens_hold w closed).trans ?_
    rw [hshape.recent]
    omega
  · rw [← hopen, ← hrecent] at hbytes
    exact hbytes.2

theorem plainOps_shape_abandoned_plan :
    ∃ s, (PlainOp.execAll ratFp [2, 0, 1] [.append true (rampTokens 1 64 3),
        .plan (rampTokens 1 64 40) 32 (by decide) (by simp [rampTokens])]).run
          (freshRuntime (⟨(pageLayout groupSize 1 64 64).pageBytes, fun _ => []⟩ : Cache (Fin 3)))
        = .ok () s ∧
      s.rest.closedPages = 0 ∧ lenOpt s.side.openK = 31 ∧
      totalTokens s.rest.closedPages s.side = 35 := by
  have hinit : runtimeInit 1 64 64 = .ok (pageLayout groupSize 1 64 64) := rfl
  have hlaw := plainOps_shape ratFp ([2, 0, 1] : List (Fin 3)) hinit
    ⟨(pageLayout groupSize 1 64 64).pageBytes, fun _ => []⟩ rfl
    [.append true (rampTokens 1 64 3),
      .plan (rampTokens 1 64 40) 32 (by decide) (by simp [rampTokens])]
  have htotal : PlainOp.total [.append true (rampTokens 1 64 3),
      .plan (rampTokens 1 64 40) 32 (by decide) (by simp [rampTokens])] = 35 := by
    simp [PlainOp.total, PlainOp.taken, rampTokens]
  obtain ⟨s, hs⟩ := hlaw.2 (by simp [PlainOp.peak, PlainOp.passed, PlainOp.taken, rampTokens, cdiv])
  obtain ⟨hclosed, hopen, -, hn, -⟩ := hlaw.1 s hs
  rw [htotal] at hclosed hopen hn
  exact ⟨s, hs, hclosed, hopen, hn⟩

end Law

end RabitKV
