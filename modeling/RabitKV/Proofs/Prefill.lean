import RabitKV.Prefill
import RabitKV.Proofs.Attention
import RabitKV.Proofs.Bfloat

/-!
# Dense attention in exact arithmetic

A row of `_fwd_kernel` keeps the exponential masses of the lanes it has seen, the numerators up to
the rounding of the weights (`DenseState`); a block of keys keeps that (`DenseState.step`). Lanes
a row may not see come last and weigh `2 ^ (-10 ^ 8)` each. So a row is softmax attention over the
keys it may see, up to the rounding of the weights and the weight of those lanes.
-/

namespace RabitKV

open Softmax Stores

/-- Exact arithmetic, with any rounding to bfloat16. -/
noncomputable def realPrefillFp (toB : EReal → Bf16) (ofB : Bf16 → ℝ) : PrefillFp EReal where
  toAttnFp := realFp toB ofB
  exp2 := fun x => (EReal.exp (x * (Real.log ((2 : ℚ) : ℝ) : ℝ)) : EReal)

/-- The dtype of V keeps a weight up to a share of it and, below the normal range of the dtype, a
constant. -/
structure RoundsWeights {E : Type} (toE : E → ℝ) (ofE : EReal → E) (u η : ℝ) : Prop where
  share : 0 ≤ u
  least : 0 ≤ η
  near : ∀ x : ℝ, 0 ≤ x → x ≤ 1 → |toE (ofE (x : EReal)) - x| ≤ u * x + η

theorem bf16_roundsWeights : RoundsWeights bf16ToReal realToBf16 (1 / 2 ^ 8) (1 / 2 ^ 134) :=
  ⟨by norm_num, by norm_num, fun _ h0 h1 => abs_realToBf16_sub_le h0 h1⟩

section Step

variable {τ : Type*} (score : τ → ℝ) (value : ℕ → τ → ℝ) (u η : ℝ)

/-- A numerator relative to the shift `m`. -/
def NearMass (m : ℝ) (tokens : List τ) (d : ℕ) (x : ℝ) : Prop :=
  |x - mass score (value d) m tokens|
    ≤ u * mass score (fun t => |value d t|) m tokens + η * (tokens.map fun t => |value d t|).sum

/-- The state of a row that has seen `tokens`; its maximum is in base 2, and is the score of one of
them. -/
inductive DenseState : List τ → Partial EReal → Prop
  | fresh {st : Partial EReal} (hm : st.m = ⊥) (hl : st.l = 0) (hacc : ∀ d, st.acc d = 0) :
      DenseState [] st
  | shifted {tokens : List τ} {st : Partial EReal} (m : ℝ) (hm : st.m = m)
      (hmax : ∃ t ∈ tokens, score t = m * Real.log 2)
      (hl : st.l = (mass score (fun _ => 1) (m * Real.log 2) tokens : ℝ))
      (hacc : ∀ d, ∃ x : ℝ, st.acc d = x ∧
        NearMass score value u η (m * Real.log 2) tokens d x) :
      DenseState tokens st

variable {score value u η} (toB : EReal → Bf16) (ofB : Bf16 → ℝ) {tokens : List τ}
  {st : Partial EReal}

theorem realPrefillFp_exp2 (x y : ℝ) :
    (realPrefillFp toB ofB).exp2 ((realPrefillFp toB ofB).sub x y)
      = (Real.exp (x * Real.log 2 - y * Real.log 2) : ℝ) := by
  have hlog : Real.log ((2 : ℚ) : ℝ) = Real.log 2 := by norm_num
  have hsub : (realPrefillFp toB ofB).sub x y = ((x - y : ℝ) : EReal) := rfl
  have hexp : (realPrefillFp toB ofB).exp2 ((x - y : ℝ) : EReal)
      = (EReal.exp (((x - y : ℝ) : EReal) * (Real.log ((2 : ℚ) : ℝ) : ℝ)) : EReal) := rfl
  rw [hsub, hexp, hlog, ← EReal.coe_mul, EReal.exp_coe, EReal.coe_ennreal_ofReal,
    max_eq_left (Real.exp_nonneg _), sub_mul]

theorem sum_abs_nonneg (v : τ → ℝ) (tokens : List τ) : 0 ≤ (tokens.map fun t => |v t|).sum := by
  refine List.sum_nonneg fun y hy => ?_
  obtain ⟨t, -, rfl⟩ := List.mem_map.1 hy
  exact abs_nonneg _

/-- What `alpha` makes of the state, for any new maximum that is not below. -/
theorem DenseState.rescale (h : DenseState score value u η tokens st) (hη : 0 ≤ η) {m' : ℝ}
    (hle : st.m ≤ m') :
    st.l * (realPrefillFp toB ofB).exp2 ((realPrefillFp toB ofB).sub st.m m')
        = (mass score (fun _ => 1) (m' * Real.log 2) tokens : ℝ) ∧
      ∀ d, ∃ x : ℝ, st.acc d * (realPrefillFp toB ofB).exp2 ((realPrefillFp toB ofB).sub st.m m')
          = x ∧ NearMass score value u η (m' * Real.log 2) tokens d x := by
  cases h with
  | fresh hm hl hacc => simp [hm, hl, hacc, NearMass]
  | shifted m hm hmax hl hacc =>
    have hmul : ∀ v : τ → ℝ, mass score v (m * Real.log 2) tokens
        * Real.exp (m * Real.log 2 - m' * Real.log 2) = mass score v (m' * Real.log 2) tokens :=
      fun v => by rw [mul_comm, exp_mul_mass]
    have hone : Real.exp (m * Real.log 2 - m' * Real.log 2) ≤ 1 := by
      rw [hm, EReal.coe_le_coe_iff] at hle
      rw [Real.exp_le_one_iff]
      exact sub_nonpos.2 (mul_le_mul_of_nonneg_right hle (Real.log_nonneg (by norm_num)))
    rw [hm, realPrefillFp_exp2]
    refine ⟨by rw [hl, ← EReal.coe_mul, hmul], fun d => ?_⟩
    obtain ⟨x, hx, hnear⟩ := hacc d
    have habs : 0 ≤ η * (tokens.map fun t => |value d t|).sum :=
      mul_nonneg hη (sum_abs_nonneg _ _)
    refine ⟨_, by rw [hx, ← EReal.coe_mul], ?_⟩
    rw [NearMass, ← hmul, ← hmul, ← sub_mul, abs_mul, abs_of_pos (Real.exp_pos _), ← mul_assoc]
    refine (mul_le_mul_of_nonneg_right hnear (Real.exp_pos _).le).trans ?_
    rw [add_mul]
    exact add_le_add_right (mul_le_of_le_one_right habs hone) _

theorem DenseState.m_ne_top (h : DenseState score value u η tokens st) : st.m ≠ ⊤ := by
  cases h with
  | fresh hm => simp [hm]
  | shifted m hm => simp [hm]

/-- The maximum of a state is attained. -/
theorem DenseState.attained (h : DenseState score value u η tokens st) {m : ℝ} (hm : st.m = m) :
    ∃ t ∈ tokens, score t = m * Real.log 2 := by
  cases h with
  | fresh hbot => simp [hm] at hbot
  | shifted m' hm' hmax =>
    obtain rfl : m' = m := EReal.coe_eq_coe_iff.1 (hm'.symm.trans hm)
    exact hmax

/-- The quotient a row is finished with. -/
theorem DenseState.div (h : DenseState score value u η tokens st) (hne : tokens ≠ []) (hu : 0 ≤ u)
    (hη : 0 ≤ η) {V A : ℝ} {d : ℕ} (hV : ∀ t ∈ tokens, |value d t| ≤ V)
    (hA : (tokens.map fun t => |value d t|).sum ≤ A) :
    ∃ y : ℝ, (realPrefillFp toB ofB).div (st.acc d) st.l = y ∧
      |y - attend score (value d) tokens| ≤ u * V + η * A := by
  cases h with
  | fresh => exact absurd rfl hne
  | shifted m hm hmax hl hacc =>
    obtain ⟨x, hx, hnear⟩ := hacc d
    obtain ⟨t, ht, hscore⟩ := hmax
    refine ⟨x / mass score (fun _ => 1) (m * Real.log 2) tokens, ?_,
      (abs_div_sub_attend_le hV hu (mul_nonneg hη (sum_abs_nonneg _ _))
        (one_le_mass_one ht hscore) hnear).trans
        (add_le_add_right (mul_le_mul_of_nonneg_left hA hη) _)⟩
    rw [hx, hl, EReal.coe_div]
    rfl

end Step

section Row

variable {Q E : Type} {toB : EReal → Bf16} {ofB : Bf16 → ℝ} {toF : Q → ℝ} {ofF : EReal → Q}
  {toE : E → ℝ} {ofE : EReal → E} {a : FwdArgs EReal Q E} {curBatch curHead posQ : ℕ} {u η : ℝ}

/-- The lanes of a row in exact arithmetic: scores in base 2, and values. -/
structure DenseLanes (toB : EReal → Bf16) (ofB : Bf16 → ℝ) (toF : Q → ℝ) (ofF : EReal → Q)
    (toE : E → ℝ) (ofE : EReal → E) (a : FwdArgs EReal Q E) (curBatch curHead posQ : ℕ)
    (s : ℕ → ℝ) (value : ℕ → ℕ → ℝ) : Prop where
  score : ∀ t, fwdScore (realPrefillFp toB ofB) (realQ toF ofF) (realQ toE ofE) a curBatch curHead
    posQ t = s t
  value : ∀ t d, loadFwdKv (realPrefillFp toB ofB) (realQ toE ofE) a curBatch curHead a.v t d
    = value d t

variable {s : ℕ → ℝ} {value : ℕ → ℕ → ℝ}

/-- The new maximum of a row bounds the old one and the scores of the block, and is one of them. -/
theorem fwdStep_m (hl : DenseLanes toB ofB toF ofF toE ofE a curBatch curHead posQ s value)
    (hn : 0 < a.blockN) {st : Partial EReal} (hm : st.m ≠ ⊤) (startN : ℕ) :
    ∃ m' : ℝ, (fwdStep (realPrefillFp toB ofB) (realQ toF ofF) (realQ toE ofE) a curBatch curHead
        posQ st startN).m = m' ∧ st.m ≤ m' ∧ (∀ i < a.blockN, s (startN + i) ≤ m') ∧
      (st.m = m' ∨ ∃ i < a.blockN, s (startN + i) = m') := by
  obtain ⟨k, hk⟩ : ∃ k, a.blockN = k + 1 := ⟨a.blockN - 1, by omega⟩
  have hdef : (fwdStep (realPrefillFp toB ofB) (realQ toF ofF) (realQ toE ofE) a curBatch curHead
      posQ st startN).m = max st.m ((realFp toB ofB).amax
        ((List.range a.blockN).map fun i => (s (startN + i) : EReal))) := by
    simp only [fwdStep, hl.score]
    rfl
  obtain ⟨m₀, hm₀⟩ : ∃ m₀ : ℝ, (realFp toB ofB).amax
      ((List.range a.blockN).map fun i => (s (startN + i) : EReal)) = m₀ := by
    refine realFp_amax toB ofB (x := (s (startN + 0) : EReal)) (fun x hx => ?_)
      (List.mem_map.2 ⟨0, List.mem_range.2 hn, rfl⟩) (EReal.coe_ne_bot _)
    obtain ⟨i, -, rfl⟩ := List.mem_map.1 hx
    exact EReal.coe_ne_top _
  have hmax : ((List.range a.blockN).map fun i => (s (startN + i) : EReal)).max?
      = some (m₀ : EReal) := by
    rw [← hm₀, hk, List.range_succ_eq_map, List.map_cons]
    exact List.max?_cons'
  obtain ⟨hmem, hall⟩ := List.max?_eq_some_iff.1 hmax
  have hle : ∀ i < a.blockN, s (startN + i) ≤ m₀ := fun i hi =>
    EReal.coe_le_coe_iff.1 (hall _ (List.mem_map.2 ⟨i, List.mem_range.2 hi, rfl⟩))
  obtain ⟨i₀, hi₀, hscore⟩ := List.mem_map.1 hmem
  have hattained : ∃ i < a.blockN, s (startN + i) = m₀ :=
    ⟨i₀, List.mem_range.1 hi₀, EReal.coe_eq_coe_iff.1 hscore⟩
  rw [hdef, hm₀]
  rcases le_total st.m m₀ with hlow | hhigh
  · exact ⟨m₀, max_eq_right hlow, hlow, hle, Or.inr hattained⟩
  · -- the old maximum is real, as it is not below a real one
    lift st.m to ℝ using ⟨hm, fun h => by simp [h] at hhigh⟩ with m
    exact ⟨m, max_eq_left hhigh, le_rfl,
      fun i hi => (hle i hi).trans (EReal.coe_le_coe_iff.1 hhigh), Or.inl rfl⟩

/-- One block of keys. -/
theorem DenseState.step (hl : DenseLanes toB ofB toF ofF toE ofE a curBatch curHead posQ s value)
    (hn : 0 < a.blockN) (hround : RoundsWeights toE ofE u η)
    {tokens : List ℕ} {st : Partial EReal}
    (h : DenseState (fun t => s t * Real.log 2) value u η tokens st) (startN : ℕ) :
    DenseState (fun t => s t * Real.log 2) value u η
      (tokens ++ (List.range a.blockN).map (startN + ·))
      (fwdStep (realPrefillFp toB ofB) (realQ toF ofF) (realQ toE ofE) a curBatch curHead posQ st
        startN) := by
  obtain ⟨m', hm', hold, hle, hmax⟩ := fwdStep_m hl hn h.m_ne_top startN
  have hlog : 0 ≤ Real.log 2 := Real.log_nonneg (by norm_num)
  obtain ⟨hl', hacc'⟩ := h.rescale toB ofB hround.least hold
  set weight : ℕ → ℝ := fun i => Real.exp (s (startN + i) * Real.log 2 - m' * Real.log 2)
    with hweight
  have hone : ∀ i < a.blockN, weight i ≤ 1 := fun i hi => by
    rw [hweight, Real.exp_le_one_iff]
    exact sub_nonpos.2 (mul_le_mul_of_nonneg_right (hle i hi) hlog)
  have hp : ∀ i, (realPrefillFp toB ofB).exp2 ((realPrefillFp toB ofB).sub
      (fwdScore (realPrefillFp toB ofB) (realQ toF ofF) (realQ toE ofE) a curBatch curHead posQ
        (startN + i)) m') = (weight i : EReal) := fun i => by
    rw [hl.score, realPrefillFp_exp2]
  have hm'' := hm'
  simp only [fwdStep] at hm''
  refine .shifted m' hm' ?_ ?_ fun d => ?_
  · rcases hmax with hkept | ⟨i, hi, hscore⟩
    · obtain ⟨t, ht, hscore⟩ := h.attained hkept
      exact ⟨t, List.mem_append_left _ ht, hscore⟩
    · exact ⟨startN + i, List.mem_append_right _ (List.mem_map_of_mem (List.mem_range.2 hi)),
        by rw [hscore]⟩
  · simp only [fwdStep, hm'', hp]
    refine (congrArg₂ (· + ·) hl' (coe_sum_map weight (List.range a.blockN))).trans ?_
    rw [mass_append, ← EReal.coe_add]
    simp only [mass, List.map_map, Function.comp_def, mul_one, hweight]
  · obtain ⟨x, hx, hxle⟩ := hacc' d
    have hnew : |((List.range a.blockN).map fun i =>
          toE (ofE (weight i : EReal)) * value d (startN + i)).sum
          - mass (fun i => s (startN + i) * Real.log 2) (fun i => value d (startN + i))
            (m' * Real.log 2) (List.range a.blockN)|
        ≤ u * mass (fun i => s (startN + i) * Real.log 2) (fun i => |value d (startN + i)|)
            (m' * Real.log 2) (List.range a.blockN)
          + η * ((List.range a.blockN).map fun i => |value d (startN + i)|).sum :=
      abs_sum_mul_sub_mass_le _ fun i hi =>
        hround.near _ (Real.exp_pos _).le (hone i (List.mem_range.1 hi))
    refine ⟨x + ((List.range a.blockN).map fun i =>
      toE (ofE (weight i : EReal)) * value d (startN + i)).sum, ?_, ?_⟩
    · simp only [fwdStep, hm'', hp, hl.value]
      rw [EReal.coe_add, ← coe_sum_map]
      simp only [EReal.coe_mul]
      exact congrArg₂ (· + ·) hx rfl
    · rw [NearMass, mass_append, mass_append, mul_add, add_sub_add_comm, List.map_append,
        List.sum_append, mul_add, add_add_add_comm]
      refine (abs_add_le _ _).trans (add_le_add hxle ?_)
      simpa only [mass, List.map_map, Function.comp_def] using hnew

/-- All blocks of a row. -/
theorem denseState_row (hl : DenseLanes toB ofB toF ofF toE ofE a curBatch curHead posQ s value)
    (hn : 0 < a.blockN) (hround : RoundsWeights toE ofE u η) (blocks : ℕ) :
    DenseState (fun t => s t * Real.log 2) value u η (List.range (blocks * a.blockN))
      (((List.range blocks).map (· * a.blockN)).foldl
        (fwdStep (realPrefillFp toB ofB) (realQ toF ofF) (realQ toE ofE) a curBatch curHead posQ)
        ⟨(realPrefillFp toB ofB).negInf, (realPrefillFp toB ofB).lit 0,
          fun _ => (realPrefillFp toB ofB).lit 0⟩) := by
  have hzero : (realPrefillFp toB ofB).lit 0 = 0 := realFp_lit_zero toB ofB
  induction blocks with
  | zero =>
    rw [Nat.zero_mul]
    exact .fresh rfl hzero fun _ => hzero
  | succ blocks ih =>
    rw [List.range_succ, List.map_append, List.foldl_append, Nat.succ_mul, List.range_add]
    exact ih.step hl hn hround (blocks * a.blockN)

end Row

section Lanes

variable {Q E : Type} (toF : Q → ℝ) (toE : E → ℝ) (a : FwdArgs EReal Q E)
  (curBatch curHead posQ : ℕ) (smScale : ℝ)

/-- `<q, k[t]>` -/
noncomputable def fwdDot (t : ℕ) : ℝ :=
  ∑ d : Fin a.lk, toF (a.q.get (a.bStartLoc curBatch + posQ) curHead d)
    * toE (a.k.get (a.bStartLoc curBatch + t) (curHead / a.kvGroupNum) d)

/-- The score of a lane, in base 2. -/
noncomputable def laneScore (t : ℕ) : ℝ :=
  if a.mask curBatch posQ t then fwdDot toF toE a curBatch curHead posQ t * smScale
  else ((-(10 ^ 8) : ℚ) : ℝ)

/-- The value of a lane. -/
def laneValue (d t : ℕ) : ℝ :=
  if t < a.bSeqlen curBatch ∧ d < a.lk then
    toE (a.v.get (a.bStartLoc curBatch + t) (curHead / a.kvGroupNum) d)
  else 0

variable {a curBatch posQ smScale} (toB : EReal → Bf16) (ofB : Bf16 → ℝ) (ofF : EReal → Q)
  (ofE : EReal → E)

theorem FwdArgs.lt_of_mask {t : ℕ} (h : a.mask curBatch posQ t = true) :
    t < a.bSeqlen curBatch := by
  simp only [FwdArgs.mask] at h
  split_ifs at h <;> simp_all

/-- Lanes beyond the head size add nothing to a score. -/
theorem denseLanes (hscale : a.smScale = smScale) (hD : a.lk ≤ a.blockDmodel)
    (hq : posQ < a.bSeqlen curBatch) :
    DenseLanes toB ofB toF ofF toE ofE a curBatch curHead posQ
      (laneScore toF toE a curBatch curHead posQ smScale)
      (laneValue toE a curBatch curHead) := by
  refine ⟨fun t => ?_, fun t d => ?_⟩
  · unfold fwdScore laneScore
    by_cases hmask : a.mask curBatch posQ t = true
    · have ht := FwdArgs.lt_of_mask hmask
      have hsum : ((List.range a.blockDmodel).map fun d =>
          loadFwdQ (realPrefillFp toB ofB) (realQ toF ofF) a curBatch curHead posQ d
            * loadFwdKv (realPrefillFp toB ofB) (realQ toE ofE) a curBatch curHead a.k t d).sum
          = (fwdDot toF toE a curBatch curHead posQ t : ℝ) := by
        rw [fwdDot, Fin.sum_univ_def, ← coe_sum_map]
        refine sum_lanes (by simpa using hD) (fun d hd => ?_) fun d _ hd => ?_
        · have hd' : d < a.lk := by simpa using hd
          simp [loadFwdQ, loadFwdKv, hq, ht, hd', realQ]
        · have hd' : ¬ d < a.lk := by simpa using hd
          simp [loadFwdQ, hd', realPrefillFp]
      rw [if_pos hmask, if_pos hmask, hscale, EReal.coe_mul, ← hsum]
      rfl
    · rw [if_neg hmask, if_neg hmask]
      rfl
  · unfold loadFwdKv laneValue
    by_cases h : t < a.bSeqlen curBatch ∧ d < a.lk
    · rw [if_pos h, if_pos (by simp [h.1, h.2])]
      rfl
    · rw [if_neg h, if_neg (by simpa using h), EReal.coe_zero]
      exact realFp_lit_zero toB ofB

end Lanes

section Visible

variable {F Q E : Type} {a : FwdArgs F Q E} {curBatch posQ startM block : ℕ}

/-- How many keys a row may see without windows. -/
def FwdArgs.visible (a : FwdArgs F Q E) (curBatch posQ : ℕ) : ℕ :=
  if a.isCausal then posQ + 1 else a.bSeqlen curBatch

theorem FwdArgs.mask_eq (hwq : a.slidingWindowQ ≤ 0) (hwk : a.slidingWindowK ≤ 0)
    (hq : posQ < a.bSeqlen curBatch) (t : ℕ) :
    a.mask curBatch posQ t = decide (t < a.visible curBatch posQ) := by
  rw [FwdArgs.mask, FwdArgs.visible, if_neg (not_lt.2 hwk), if_neg (not_lt.2 hwq)]
  rcases a.isCausal
  · rfl
  · rw [if_pos rfl, if_pos rfl, ← Bool.decide_and]
    exact decide_eq_decide.2 (by omega)

/-- The blocks of a row hold the keys it may see and less than a block of others. -/
theorem FwdArgs.lanes (hM : a.blockM = block) (hblock : 0 < block)
    (hq : posQ < a.bSeqlen curBatch) (hlo : startM * block ≤ posQ)
    (hhi : posQ < (startM + 1) * block) :
    a.visible curBatch posQ ≤ cdiv (a.endN curBatch startM) block * block ∧
      cdiv (a.endN curBatch startM) block * block - a.visible curBatch posQ ≤ block := by
  have hend : a.endN curBatch startM = if a.isCausal then
      min (a.bSeqlen curBatch) ((startM + 1) * block) else a.bSeqlen curBatch := by
    have hlt : block * startM < a.bSeqlen curBatch := by
      rw [Nat.mul_comm]
      omega
    rw [FwdArgs.endN, hM]
    simp only [if_pos hlt, Nat.one_mul]
  have hle := le_cdiv_mul (n := a.endN curBatch startM) hblock
  have hlast : (startM + 1) * block = startM * block + block := Nat.succ_mul _ _
  rw [FwdArgs.visible]
  rcases hc : a.isCausal <;> rw [hc] at hend
  · have hceil := Nat.div_mul_le_self (a.endN curBatch startM + block - 1) block
    simp only [Bool.false_eq_true, if_false] at hend ⊢
    rw [cdiv] at hle ⊢
    omega
  · simp only [if_true] at hend ⊢
    have hceil := Nat.mul_le_mul_right block
      (cdiv_le hblock (hend.le.trans (min_le_right _ ((startM + 1) * block))))
    omega

end Visible

section Output

variable {Q E : Type} (toF : Q → ℝ) (toE : E → ℝ) (ofF : EReal → Q) (ofE : EReal → E)
  (toB : EReal → Bf16) (ofB : Bf16 → ℝ) {a : FwdArgs EReal Q E} {curBatch posQ startM block : ℕ}
  (curHead : ℕ) {smScale u η : ℝ}

/-- A row of the kernel has seen all its lanes. -/
theorem denseState_fwdRow (hscale : a.smScale = smScale) (hD : a.lk ≤ a.blockDmodel)
    (hN : a.blockN = block) (hblock : 0 < block) (hround : RoundsWeights toE ofE u η)
    (hq : posQ < a.bSeqlen curBatch) (startM : ℕ) :
    DenseState (fun t => laneScore toF toE a curBatch curHead posQ smScale t * Real.log 2)
      (laneValue toE a curBatch curHead) u η
      (List.range (cdiv (a.endN curBatch startM) block * block))
      (fwdRow (realPrefillFp toB ofB) (realQ toF ofF) (realQ toE ofE) a curBatch curHead startM
        posQ) := by
  have h := denseState_row (denseLanes toF toE curHead toB ofB ofF ofE hscale hD hq)
    (by omega) hround (cdiv (a.endN curBatch startM) block)
  rw [hN] at h
  unfold fwdRow
  rw [hN]
  exact h

variable {curHead} in
theorem abs_laneValue_le {d : ℕ} {V : ℝ} (hq : posQ < a.bSeqlen curBatch)
    (hV : ∀ t < a.bSeqlen curBatch,
      |toE (a.v.get (a.bStartLoc curBatch + t) (curHead / a.kvGroupNum) d)| ≤ V) (t : ℕ) :
    |laneValue toE a curBatch curHead d t| ≤ V := by
  rw [laneValue]
  split_ifs with ht
  · exact hV t ht.1
  · rw [abs_zero]
    exact (abs_nonneg _).trans (hV posQ hq)

variable {curHead} in
/-- Lanes past the end of the sequence have no value. -/
theorem sum_abs_laneValue_le {d : ℕ} {V : ℝ} (hq : posQ < a.bSeqlen curBatch)
    (hV : ∀ t < a.bSeqlen curBatch,
      |toE (a.v.get (a.bStartLoc curBatch + t) (curHead / a.kvGroupNum) d)| ≤ V) (n : ℕ) :
    ((List.range n).map fun t => |laneValue toE a curBatch curHead d t|).sum
      ≤ a.bSeqlen curBatch * V := by
  have hV0 : 0 ≤ V := (abs_nonneg _).trans (hV posQ hq)
  have hmin : ((List.range n).map fun t => |laneValue toE a curBatch curHead d t|).sum
      ≤ (min n (a.bSeqlen curBatch) : ℕ) * V := by
    induction n with
    | zero => simp
    | succ n ih =>
      rw [List.range_succ, List.map_append, List.sum_append, List.map_singleton, List.sum_singleton]
      rcases Nat.lt_or_ge n (a.bSeqlen curBatch) with hn | hn
      · rw [Nat.min_eq_left hn.le] at ih
        rw [Nat.min_eq_left hn, Nat.cast_succ, add_one_mul]
        exact add_le_add ih (abs_laneValue_le toE hq hV n)
      · have hlane : laneValue toE a curBatch curHead d n = 0 := if_neg fun h => by omega
        rw [Nat.min_eq_right hn] at ih
        rw [Nat.min_eq_right (by omega), hlane, abs_zero, add_zero]
        exact ih
  exact hmin.trans (mul_le_mul_of_nonneg_right (by exact_mod_cast Nat.min_le_right _ _) hV0)

variable (smScale) in
/-- The lanes a row may not see, at most one block of them. -/
theorem mass_hidden_le (hwq : a.slidingWindowQ ≤ 0) (hwk : a.slidingWindowK ≤ 0)
    (hq : posQ < a.bSeqlen curBatch) {k : ℕ} (hk : k ≤ block) :
    mass (fun t => laneScore toF toE a curBatch curHead posQ smScale t * Real.log 2) (fun _ => 1) 0
        ((List.range k).map (a.visible curBatch posQ + ·))
      ≤ block * Real.exp (-(10 ^ 8) * Real.log 2) := by
  have hterm : ∀ i, Real.exp (laneScore toF toE a curBatch curHead posQ smScale
      (a.visible curBatch posQ + i) * Real.log 2 - 0) * 1
      = Real.exp (-(10 ^ 8) * Real.log 2) := fun i => by
    rw [laneScore, FwdArgs.mask_eq hwq hwk hq, if_neg (by simp)]
    norm_num
  simp only [mass, List.map_map, Function.comp_def, hterm, List.map_const', List.sum_replicate,
    List.length_range, nsmul_eq_mul]
  exact mul_le_mul_of_nonneg_right (by exact_mod_cast hk) (Real.exp_pos _).le

/-- What a row divides is softmax attention over the keys it may see, up to the rounding of the
weights and the weight of the lanes it may not see. -/
theorem fwdRow_div (hscale : a.smScale = smScale) (hD : a.lk ≤ a.blockDmodel)
    (hM : a.blockM = block) (hN : a.blockN = block) (hblock : 0 < block)
    (hwq : a.slidingWindowQ ≤ 0) (hwk : a.slidingWindowK ≤ 0) (hround : RoundsWeights toE ofE u η)
    (hq : posQ < a.bSeqlen curBatch) (hlo : startM * block ≤ posQ)
    (hhi : posQ < (startM + 1) * block) {d : ℕ} (hd : d < a.lk) {V : ℝ}
    (hV : ∀ t < a.bSeqlen curBatch,
      |toE (a.v.get (a.bStartLoc curBatch + t) (curHead / a.kvGroupNum) d)| ≤ V) :
    ∃ y : ℝ, (realPrefillFp toB ofB).div
        ((fwdRow (realPrefillFp toB ofB) (realQ toF ofF) (realQ toE ofE) a curBatch curHead startM
          posQ).acc d)
        (fwdRow (realPrefillFp toB ofB) (realQ toF ofF) (realQ toE ofE) a curBatch curHead startM
          posQ).l = y ∧
      |y - attend (fun t => fwdDot toF toE a curBatch curHead posQ t * smScale * Real.log 2)
          (fun t => toE (a.v.get (a.bStartLoc curBatch + t) (curHead / a.kvGroupNum) d))
          (List.range (a.visible curBatch posQ))|
        ≤ u * V + η * (a.bSeqlen curBatch * V) + 2 * V * (block * Real.exp (-(10 ^ 8) * Real.log 2)
          / ((List.range (a.visible curBatch posQ)).map fun t =>
            Real.exp (fwdDot toF toE a curBatch curHead posQ t * smScale * Real.log 2)).sum) := by
  have hmask := FwdArgs.mask_eq hwq hwk hq
  obtain ⟨hvis, hrest⟩ := FwdArgs.lanes hM hblock hq hlo hhi
  set N := cdiv (a.endN curBatch startM) block * block with hNdef
  set n := a.visible curBatch posQ with hn
  set s := laneScore toF toE a curBatch curHead posQ smScale with hs
  have hsplit : List.range N = List.range n ++ (List.range (N - n)).map (n + ·) := by
    rw [← List.range_add, Nat.add_sub_cancel' hvis]
  have hnpos : 0 < n := by
    rw [hn, FwdArgs.visible]
    split_ifs <;> omega
  have hne : List.range n ≠ [] := List.ne_nil_of_length_pos (by rwa [List.length_range])
  have hnV : n ≤ a.bSeqlen curBatch := by
    rw [hn, FwdArgs.visible]
    split_ifs <;> omega
  have hV0 : 0 ≤ V := (abs_nonneg _).trans (hV posQ hq)
  have hvalue := abs_laneValue_le toE hq hV
  have hrow := denseState_fwdRow toF toE ofF ofE toB ofB curHead hscale hD hN hblock hround hq
    startM
  have hNne : List.range N ≠ [] := List.ne_nil_of_length_pos (by rw [List.length_range]; omega)
  obtain ⟨y, hy, hyle⟩ := hrow.div toB ofB hNne hround.share hround.least (fun t _ => hvalue t)
    (sum_abs_laneValue_le toE hq hV N)
  refine ⟨y, hy, ?_⟩
  have hseen : ∀ t ∈ List.range n, s t * Real.log 2
      = fwdDot toF toE a curBatch curHead posQ t * smScale * Real.log 2 := fun t ht => by
    rw [hs, laneScore, hmask, if_pos (decide_eq_true (List.mem_range.1 ht))]
  have hseenV : ∀ t ∈ List.range n, laneValue toE a curBatch curHead d t
      = toE (a.v.get (a.bStartLoc curBatch + t) (curHead / a.kvGroupNum) d) := fun t ht => by
    have := List.mem_range.1 ht
    rw [laneValue, if_pos ⟨by omega, hd⟩]
  have hleak : |attend (fun t => s t * Real.log 2) (laneValue toE a curBatch curHead d)
        (List.range n ++ (List.range (N - n)).map (n + ·))
        - attend (fun t => s t * Real.log 2) (laneValue toE a curBatch curHead d) (List.range n)|
      ≤ 2 * V * (mass (fun t => s t * Real.log 2) (fun _ => 1) 0 ((List.range (N - n)).map (n + ·))
        / mass (fun t => s t * Real.log 2) (fun _ => 1) 0 (List.range n)) :=
    abs_attend_append_sub_le hne fun t _ => hvalue t
  have hmore := mass_hidden_le toF toE curHead smScale hwq hwk hq hrest
  have hmass : mass (fun t => s t * Real.log 2) (fun _ => 1) 0 (List.range n)
      = ((List.range n).map fun t =>
        Real.exp (fwdDot toF toE a curBatch curHead posQ t * smScale * Real.log 2)).sum := by
    simp only [mass, sub_zero, mul_one]
    exact congrArg List.sum (List.map_congr_left fun t ht => by rw [hseen t ht])
  have hpos := mass_one_pos (fun t => s t * Real.log 2) 0 hne
  rw [hmass] at hleak hpos
  rw [← attend_congr hseen hseenV]
  rw [hsplit] at hyle
  refine (abs_sub_le _ _ _).trans (add_le_add hyle (hleak.trans ?_))
  gcongr

end Output

section Launch

variable {F Q E : Type} {fp : PrefillFp F} {dtq : QDtype F Q} {dtv : QDtype F E}

/-- What a row stores for channel `d`. -/
def rowStore (fp : PrefillFp F) (dtq : QDtype F Q) (dtv : QDtype F E) (a : FwdArgs F Q E)
    (curBatch curHead startM posQ d : ℕ) : ℕ × Q :=
  ((a.bStartLoc curBatch + posQ) * a.strideObs + curHead * a.strideOh + d,
    dtq.ofF (fp.div ((fwdRow fp dtq dtv a curBatch curHead startM posQ).acc d)
      (fwdRow fp dtq dtv a curBatch curHead startM posQ).l))

theorem mem_fwdKernel {a : FwdArgs F Q E} {batch head blocks : ℕ} {w : ℕ × Q} :
    w ∈ fwdKernel fp dtq dtv a batch head blocks ↔ ∃ b < batch, ∃ h < head, ∃ startM < blocks,
      ∃ i < a.blockM, startM * a.blockM + i < a.bSeqlen b ∧ ∃ d < a.blockDmodel, d < a.lk ∧
        rowStore fp dtq dtv a b h startM (startM * a.blockM + i) d = w := by
  simp only [fwdKernel, fwdProgram, List.mem_flatMap, List.mem_map, List.mem_filter,
    List.mem_range, decide_eq_true_eq, rowStore]
  constructor
  · rintro ⟨b, hb, h, hh, startM, hM, _, ⟨⟨i, hi, rfl⟩, hq⟩, d, ⟨hd, hlk⟩, hw⟩
    exact ⟨b, hb, h, hh, startM, hM, i, hi, hq, d, hd, hlk, hw⟩
  · rintro ⟨b, hb, h, hh, startM, hM, i, hi, hq, d, hd, hlk, hw⟩
    exact ⟨b, hb, h, hh, startM, hM, _, ⟨⟨i, hi, rfl⟩, hq⟩, d, ⟨hd, hlk⟩, hw⟩

/-- A call with a contiguous output, sequences that lie one behind the other and no windows. -/
structure ContextCall.Valid (c : ContextCall F Q E) : Prop where
  obs : c.strideObs = c.qHeads * c.headDim
  oh : c.strideOh = c.headDim
  apart : ∀ b b', b < b' → b' < c.batch → c.bStartLoc b + c.bSeqLen b ≤ c.bStartLoc b'
  longest : ∀ b < c.batch, c.bSeqLen b ≤ c.maxInputLen
  windowQ : c.slidingWindowQ.getD 0 ≤ 0
  windowK : c.slidingWindowK.getD 0 ≤ 0

variable {c : ContextCall F Q E} {block : ℕ}

/-- A token of a sequence belongs to no other sequence. -/
theorem ContextCall.Valid.token_inj (hc : c.Valid) {b b' i i' : ℕ} (hb : b < c.batch)
    (hb' : b' < c.batch) (hi : i < c.bSeqLen b) (hi' : i' < c.bSeqLen b')
    (h : c.bStartLoc b + i = c.bStartLoc b' + i') : b = b' ∧ i = i' := by
  rcases lt_trichotomy b b' with hlt | rfl | hlt
  · have := hc.apart b b' hlt hb'
    omega
  · exact ⟨rfl, by omega⟩
  · have := hc.apart b' b hlt hb
    omega

theorem ContextCall.Valid.addr_lt {h d : ℕ} (hh : h < c.qHeads) (hd : d < c.headDim) :
    h * c.headDim + d < c.qHeads * c.headDim := by
  have := Nat.mul_le_mul_right c.headDim (Nat.succ_le_of_lt hh)
  rw [Nat.succ_mul] at this
  omega

variable (fp dtq dtv block) in
theorem ContextCall.Valid.rowStore_fst (hc : c.Valid) (b h startM i d : ℕ) :
    (rowStore fp dtq dtv (c.args fp block) b h startM i d).1
      = (c.bStartLoc b + i) * (c.qHeads * c.headDim) + (h * c.headDim + d) := by
  have hfst : (rowStore fp dtq dtv (c.args fp block) b h startM i d).1
      = (c.bStartLoc b + i) * c.strideObs + h * c.strideOh + d := rfl
  rw [hfst, hc.obs, hc.oh, Nat.add_assoc]

/-- The stores of a call are those of the rows, each by the program of its block. -/
theorem mem_contextAttentionFwd (hc : c.Valid) (hblock : 0 < block) {w : ℕ × Q} :
    w ∈ contextAttentionFwd fp dtq dtv block c ↔ ∃ b < c.batch, ∃ h < c.qHeads,
      ∃ i < c.bSeqLen b, ∃ d < c.headDim,
        rowStore fp dtq dtv (c.args fp block) b h (i / block) i d = w := by
  refine mem_fwdKernel.trans ⟨?_, ?_⟩
  · rintro ⟨b, hb, h, hh, startM, -, i, hi, hq, d, -, hd, rfl⟩
    have hM : (startM * block + i) / block = startM := Chunks.mul_add_div hi
    refine ⟨b, hb, h, hh, startM * block + i, hq, d, hd, ?_⟩
    rw [hM]
    rfl
  · rintro ⟨b, hb, h, hh, i, hi, d, hd, rfl⟩
    have hpos : i / block * block + i % block = i := by rw [Nat.mul_comm, Nat.div_add_mod]
    refine ⟨b, hb, h, hh, i / block, ?_, i % block, Nat.mod_lt i hblock, ?_, d,
      lt_of_lt_of_le hd (le_nextPowerOf2 _), hd, ?_⟩
    · rw [lt_cdiv_iff hblock]
      exact (Nat.div_mul_le_self i block).trans_lt (hi.trans_le (hc.longest b hb))
    · exact lt_of_eq_of_lt hpos hi
    · exact congrArg (fun j => rowStore fp dtq dtv (c.args fp block) b h (i / block) j d) hpos

theorem contextAttentionFwd_row (hc : c.Valid) (hblock : 0 < block) (mem : ℕ → Q) {b i h d : ℕ}
    (hb : b < c.batch) (hi : i < c.bSeqLen b) (hh : h < c.qHeads) (hd : d < c.headDim) :
    storeAll mem (contextAttentionFwd fp dtq dtv block c)
        ((c.bStartLoc b + i) * (c.qHeads * c.headDim) + (h * c.headDim + d))
      = (rowStore fp dtq dtv (c.args fp block) b h (i / block) i d).2 := by
  refine storeAll_of_forall mem ?_ fun w hw hfst => ?_
  · rw [← hc.rowStore_fst fp dtq dtv block b h (i / block)]
    exact List.mem_map_of_mem
      ((mem_contextAttentionFwd hc hblock).2 ⟨b, hb, h, hh, i, hi, d, hd, rfl⟩)
  · obtain ⟨b', hb', h', hh', i', hi', d', hd', rfl⟩ := (mem_contextAttentionFwd hc hblock).1 hw
    rw [hc.rowStore_fst] at hfst
    obtain ⟨htok, hrest⟩ := Chunks.mul_add_inj (ContextCall.Valid.addr_lt hh' hd')
      (ContextCall.Valid.addr_lt hh hd) hfst
    obtain ⟨rfl, rfl⟩ := Chunks.mul_add_inj hd' hd hrest
    obtain ⟨rfl, rfl⟩ := hc.token_inj hb' hb hi' hi htok
    rfl

/-- Nothing else is stored. -/
theorem contextAttentionFwd_frame (hc : c.Valid) (hblock : 0 < block) (mem : ℕ → Q) {t j : ℕ}
    (hj : j < c.qHeads * c.headDim)
    (ht : ∀ b < c.batch, t < c.bStartLoc b ∨ c.bStartLoc b + c.bSeqLen b ≤ t) :
    storeAll mem (contextAttentionFwd fp dtq dtv block c) (t * (c.qHeads * c.headDim) + j)
      = mem (t * (c.qHeads * c.headDim) + j) := by
  refine storeAll_of_notMem mem fun hmem => ?_
  obtain ⟨w, hw, hfst⟩ := List.mem_map.1 hmem
  obtain ⟨b, hb, h, hh, i, hi, d, hd, rfl⟩ := (mem_contextAttentionFwd hc hblock).1 hw
  rw [hc.rowStore_fst] at hfst
  obtain ⟨htok, -⟩ := Chunks.mul_add_inj (ContextCall.Valid.addr_lt hh hd) hj hfst
  rcases ht b hb with hlt | hge <;> omega

end Launch

section Exact

variable {Q E : Type} (toB : EReal → Bf16) (ofB : Bf16 → ℝ) (toF : Q → ℝ) (ofF : EReal → Q)
  (toE : E → ℝ) (ofE : EReal → E) (c : ContextCall EReal Q E) (scale : ℝ)

/-- The score of token `t` for row `i` of sequence `b`: the base-2 exponentials of the kernel, with
its constant for `1 / ln 2`. -/
noncomputable def promptScore (b h i t : ℕ) : ℝ :=
  scale * rcpLn2 * Real.log ((2 : ℚ) : ℝ) * ∑ d : Fin c.headDim,
    toF (c.q.get (c.bStartLoc b + i) h d)
      * toE (c.k.get (c.bStartLoc b + t) (h / (c.qHeads / c.kvHeads)) d)

/-- Entry `d` of the value of token `t`. -/
def promptValue (b h d t : ℕ) : ℝ :=
  toE (c.v.get (c.bStartLoc b + t) (h / (c.qHeads / c.kvHeads)) d)

/-- The tokens row `i` of sequence `b` attends to. -/
def promptTokens (b i : ℕ) : List ℕ :=
  List.range (if c.isCausal then i + 1 else c.bSeqLen b)

variable {c scale} {block : ℕ} {u η : ℝ}

/-- What a row stores, against softmax attention over the tokens of the row. -/
theorem contextAttentionFwd_near (hc : c.Valid) (hblock : 0 < block)
    (hscale : c.softmaxScale = scale) (hround : RoundsWeights toE ofE u η) (mem : ℕ → Q)
    {b i h d : ℕ} (hb : b < c.batch) (hi : i < c.bSeqLen b) (hh : h < c.qHeads) (hd : d < c.headDim)
    {V : ℝ} (hV : ∀ t < c.bSeqLen b, |promptValue toE c b h d t| ≤ V) :
    ∃ y : ℝ, storeAll mem (contextAttentionFwd (realPrefillFp toB ofB) (realQ toF ofF)
        (realQ toE ofE) block c)
        ((c.bStartLoc b + i) * (c.qHeads * c.headDim) + (h * c.headDim + d)) = ofF y ∧
      |y - attend (promptScore toF toE c scale b h i) (promptValue toE c b h d)
          (promptTokens c b i)|
        ≤ u * V + η * (c.bSeqLen b * V) + 2 * V * (block * Real.exp (-(10 ^ 8) * Real.log 2)
          / ((promptTokens c b i).map fun t =>
            Real.exp (promptScore toF toE c scale b h i t)).sum) := by
  have hsm : (c.args (realPrefillFp toB ofB) block).smScale = ((scale * rcpLn2 : ℝ) : EReal) := by
    rw [EReal.coe_mul, ← hscale]
    rfl
  have hhi : i < (i / block + 1) * block := by
    rw [Nat.mul_comm]
    exact Nat.lt_mul_div_succ i hblock
  obtain ⟨y, hy, hle⟩ := fwdRow_div toF toE ofF ofE toB ofB h hsm (le_nextPowerOf2 c.headDim) rfl
    rfl hblock hc.windowQ hc.windowK hround hi (Nat.div_mul_le_self i block) hhi hd hV
  refine ⟨y, ?_, ?_⟩
  · rw [contextAttentionFwd_row hc hblock mem hb hi hh hd]
    exact congrArg ofF hy
  · have hscore : promptScore toF toE c scale b h i = fun t =>
        fwdDot toF toE (c.args (realPrefillFp toB ofB) block) b h i t * (scale * rcpLn2)
          * Real.log 2 := by
      funext t
      have hlog : Real.log ((2 : ℚ) : ℝ) = Real.log 2 := by norm_num
      rw [promptScore, hlog, mul_comm, ← mul_assoc]
      rfl
    rw [hscore]
    exact hle

end Exact

section Concrete

end Concrete

end RabitKV
