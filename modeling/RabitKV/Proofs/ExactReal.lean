import RabitKV.Attention
import RabitKV.ExactReal
import RabitKV.Lib.Softmax
import RabitKV.Proofs.FastAppend

/-!
# Partials in exact arithmetic

Scores, exponentials and sums of real numbers are real numbers, and lanes that a mask leaves out add
nothing. So a partial holds a real shift and the exponential masses relative to it
(`realFp_partialOf`), and the reduction merges them into `attend` (`realFp_reduce`).
-/

namespace RabitKV

open Softmax

section Primitives

variable (toB : EReal → Bf16) (ofB : Bf16 → ℝ)

theorem realFp_roundsHalfEven : RoundsHalfEven (realFp toB ofB).toFp := by
  intro x
  have hodd : ∀ n : ℤ, n % 2 ≠ 0 ↔ n % 2 = 1 := fun n => by omega
  simp only [roundEvenNonneg, realFp, decide_eq_true_eq, hodd]
  norm_num

@[simp] theorem realFp_lit_zero : (realFp toB ofB).lit 0 = 0 := by simp [realFp]

@[simp] theorem realFp_mul (x y : EReal) : (realFp toB ofB).mul x y = x * y := rfl

theorem realFp_sum (l : List EReal) : (realFp toB ofB).sum l = l.sum := rfl

theorem coe_sum_map {τ : Type*} (f : τ → ℝ) (l : List τ) :
    (l.map fun t => (f t : EReal)).sum = ((l.map f).sum : ℝ) := by
  induction l with
  | nil => simp
  | cons t l ih => simp [ih]

theorem realFp_exp_sub (x y : ℝ) :
    (realFp toB ofB).exp ((realFp toB ofB).sub x y) = (Real.exp (x - y) : ℝ) := by
  simp only [realFp, ← EReal.coe_sub, EReal.exp_coe, EReal.coe_ennreal_ofReal,
    max_eq_left (Real.exp_nonneg _)]

/-- A maximum over real lanes and lanes at minus infinity is real. -/
theorem realFp_amax {l : List EReal} (htop : ∀ x ∈ l, x ≠ ⊤) {x : EReal} (hx : x ∈ l)
    (hbot : x ≠ ⊥) : ∃ m : ℝ, (realFp toB ofB).amax l = m := by
  obtain ⟨y, ys, rfl⟩ := List.exists_cons_of_ne_nil (List.ne_nil_of_mem hx)
  have hmax : (y :: ys).max? = some ((realFp toB ofB).amax (y :: ys)) := List.max?_cons'
  obtain ⟨hmem, hle⟩ := List.max?_eq_some_iff.1 hmax
  lift (realFp toB ofB).amax (y :: ys) to ℝ using
    ⟨htop _ hmem, fun h => hbot (le_bot_iff.1 (h ▸ hle x hx))⟩ with m
  exact ⟨m, rfl⟩

end Primitives

section Partials

variable {τ : Type*} {D : ℕ} (k v : τ → Fin D → ℝ) (q : Fin D → ℝ) (scale : ℝ)

/-- `<q, K[t]> * scale` -/
def tokenScore (t : τ) : ℝ := (∑ d, k t d * q d) * scale

/-- A partial over `tokens`: a shift and the masses relative to it. -/
structure IsPartial (tokens : List τ) (p : Partial EReal) (m : ℝ) : Prop where
  shift : p.m = m
  l : p.l = (mass (tokenScore k q scale) (fun _ => 1) m tokens : ℝ)
  acc : ∀ d : Fin D, p.acc d = (mass (tokenScore k q scale) (fun t => v t d) m tokens : ℝ)

variable {k v q scale} {tokens : List τ} {rows blockD : ℕ} {valid : ℕ → Bool} {qval : ℕ → EReal}
  {kval vval : ℕ → ℕ → EReal} (toB : EReal → Bf16) (ofB : Bf16 → ℝ)

theorem realFp_dot (hD : D ≤ blockD) (hq : ∀ d : Fin D, qval d = q d)
    (hpad : ∀ d, D ≤ d → qval d = 0) {krow : ℕ → EReal} {t : τ} (hk : ∀ d : Fin D, krow d = k t d) :
    (realFp toB ofB).mul ((realFp toB ofB).sum ((List.range blockD).map fun d =>
      (realFp toB ofB).mul (krow d) (qval d))) scale = tokenScore k q scale t := by
  have hsum : ((List.range blockD).map fun d => krow d * qval d).sum
      = ((List.finRange D).map fun d => ((k t d * q d : ℝ) : EReal)).sum := by
    refine sum_lanes (by simpa using hD) (fun d hd => ?_) fun d _ hd => ?_
    · have hd' : d < D := by simpa using hd
      rw [EReal.coe_mul, ← hk, ← hq]
      simp
    · rw [hpad d (by simpa using hd), mul_zero]
  rw [coe_sum_map, ← Fin.sum_univ_def] at hsum
  simp only [realFp_mul, realFp_sum, hsum, tokenScore, EReal.coe_mul]

/-- The lanes beyond the tokens add nothing, whatever they loaded. -/
theorem realFp_partialOf (hne : tokens ≠ []) (hrows : tokens.length ≤ rows) (hD : D ≤ blockD)
    (hvalid : ∀ t < rows, valid t = decide (t < tokens.length)) (hq : ∀ d : Fin D, qval d = q d)
    (hpad : ∀ d, D ≤ d → qval d = 0)
    (hk : ∀ (t : ℕ) (ht : t < tokens.length) (d : Fin D), kval t d = k tokens[t] d)
    (hv : ∀ (t : ℕ) (ht : t < tokens.length) (d : Fin D), vval t d = v tokens[t] d) :
    ∃ m, IsPartial k v q scale tokens
      (partialOf (realFp toB ofB) rows blockD valid scale qval kval vval) m := by
  have hlen : 0 < tokens.length := List.length_pos_of_ne_nil hne
  set scores : ℕ → EReal := fun t => if valid t then
    (realFp toB ofB).mul ((realFp toB ofB).sum ((List.range blockD).map fun d =>
      (realFp toB ofB).mul (kval t d) (qval d))) scale else (realFp toB ofB).negInf with hscores
  have hin : ∀ (t : ℕ) (ht : t < tokens.length), valid t = true ∧
      scores t = tokenScore k q scale tokens[t] := by
    intro t ht
    have hon : valid t = true := by rw [hvalid t (by omega), decide_eq_true ht]
    exact ⟨hon, by rw [hscores]; simp only [hon, if_true, realFp_dot toB ofB hD hq hpad (hk t ht)]⟩
  have hoff : ∀ t < rows, tokens.length ≤ t → valid t = false := fun t ht hle => by
    rw [hvalid t ht, decide_eq_false (by omega)]
  obtain ⟨m, hm⟩ : ∃ m : ℝ, (realFp toB ofB).amax ((List.range rows).map scores) = m := by
    have h0 : scores 0 ∈ (List.range rows).map scores :=
      List.mem_map_of_mem (List.mem_range.2 (by omega))
    refine realFp_amax toB ofB (fun x hx => ?_) h0 (by simp [(hin 0 hlen).2])
    obtain ⟨t, ht, rfl⟩ := List.mem_map.1 hx
    rcases Nat.lt_or_ge t tokens.length with hlt | hge
    · simp [(hin t hlt).2]
    · simp [hscores, hoff t (List.mem_range.1 ht) hge, realFp]
  set weight : ℕ → EReal := fun t => if valid t then
    (realFp toB ofB).exp ((realFp toB ofB).sub (scores t) m)
    else (realFp toB ofB).lit 0 with hweight
  have hwin : ∀ (t : ℕ) (ht : t < tokens.length),
      weight t = (Real.exp (tokenScore k q scale tokens[t] - m) : ℝ) := fun t ht => by
    simp only [hweight, (hin t ht).1, if_true, (hin t ht).2, realFp_exp_sub]
  have hwout : ∀ t < rows, tokens.length ≤ t → weight t = 0 := fun t ht hle => by
    simp [hweight, hoff t ht hle]
  have hp : partialOf (realFp toB ofB) rows blockD valid scale qval kval vval
      = ⟨m, ((List.range rows).map weight).sum,
        fun d => ((List.range rows).map fun t => weight t * vval t d).sum⟩ := by
    simp only [partialOf, ← hscores, hm, hweight]
    rfl
  rw [hp]
  refine ⟨m, rfl, ?_, fun d => ?_⟩
  · simp only [mass, mul_one, ← coe_sum_map]
    exact sum_lanes hrows hwin hwout
  · simp only [mass, ← coe_sum_map]
    refine sum_lanes hrows (fun t ht => ?_) fun t ht hle => ?_
    · rw [hwin t ht, hv t ht d, EReal.coe_mul]
    · rw [hwout t ht hle, zero_mul]

end Partials

section Reduce

variable {τ : Type*} {D : ℕ} {k v : τ → Fin D → ℝ} {q : Fin D → ℝ} {scale : ℝ} {a : ReduceArgs}
  {qh : ℕ} {mem : Slot → EReal} {tokens : ℕ → List τ} {part : ℕ → Partial EReal} {m : ℕ → ℝ}

/-- The slots of segment `s` hold a partial. -/
structure SlotsHold {F : Type} (a : ReduceArgs) (qh : ℕ) (mem : Slot → F) (s : ℕ) (p : Partial F) :
    Prop where
  m : mem (.m (a.ptrs.m + (s * a.numQHeads + qh))) = p.m
  l : mem (.l (a.ptrs.l + (s * a.numQHeads + qh))) = p.l
  acc : ∀ d < a.headSize,
    mem (.acc (a.ptrs.acc + ((s * a.numQHeads + qh) * a.headSize + d))) = p.acc d

variable (toB : EReal → Bf16) (ofB : Bf16 → ℝ)

theorem realFp_reduceWeight (hn : 0 < a.numSegments) (hS : a.numSegments ≤ a.blockS)
    (hmem : ∀ s < a.numSegments, SlotsHold a qh mem s (part s))
    (hpart : ∀ s < a.numSegments, IsPartial k v q scale (tokens s) (part s) (m s)) :
    ∃ M : ℝ, (∀ s < a.numSegments,
        reduceWeight (realFp toB ofB) a qh mem s = (Real.exp (m s - M) : ℝ)) ∧
      ∀ s, a.numSegments ≤ s → reduceWeight (realFp toB ofB) a qh mem s = 0 := by
  have hms : ∀ s < a.numSegments, (msLoad (realFp toB ofB) a qh s).eval mem = (m s : ℝ) :=
    fun s hs => by
      simp only [msLoad, Loads.Load.eval_masked, decide_eq_true hs, if_true, (hmem s hs).m,
        (hpart s hs).shift]
  obtain ⟨M, hM⟩ : ∃ M : ℝ, (realFp toB ofB).amax
      ((List.range a.blockS).map fun s => (msLoad (realFp toB ofB) a qh s).eval mem) = M := by
    have h0 := List.mem_map_of_mem (f := fun s => (msLoad (realFp toB ofB) a qh s).eval mem)
      (List.mem_range.2 (by omega : 0 < a.blockS))
    refine realFp_amax toB ofB (fun x hx => ?_) h0 (by simp [hms 0 hn])
    obtain ⟨s, -, rfl⟩ := List.mem_map.1 hx
    rcases Nat.lt_or_ge s a.numSegments with hlt | hge
    · simp [hms s hlt]
    · simp [msLoad, Nat.not_lt.2 hge, realFp]
  refine ⟨M, fun s hs => ?_, fun s hs => ?_⟩
  · simp only [reduceWeight, hM, if_pos hs, hms s hs, realFp_exp_sub]
  · simp only [reduceWeight, if_neg (Nat.not_lt.2 hs), realFp_lit_zero]

/-- The reduction of partials that cover the tokens segment by segment. -/
theorem realFp_reduce (hD : a.headSize = D) (hn : 0 < a.numSegments)
    (hS : a.numSegments ≤ a.blockS)
    (hmem : ∀ s < a.numSegments, SlotsHold a qh mem s (part s))
    (hpart : ∀ s < a.numSegments, IsPartial k v q scale (tokens s) (part s) (m s))
    (hne : (List.range a.numSegments).flatMap tokens ≠ []) :
    (∃ r : ℝ, 0 < r ∧ reduceDenom (realFp toB ofB) a qh mem = r) ∧
      ∀ d : Fin D, reduceOut (realFp toB ofB) a qh mem d
        = (attend (tokenScore k q scale) (fun t => v t d)
          ((List.range a.numSegments).flatMap tokens) : ℝ) := by
  obtain ⟨M, hin, hout⟩ := realFp_reduceWeight toB ofB hn hS hmem hpart
  have hlanes : ∀ (f : ℕ → EReal) (value : τ → ℝ),
      (∀ s < a.numSegments, f s = ((Real.exp (m s - M)
        * mass (tokenScore k q scale) value (m s) (tokens s) : ℝ) : EReal)) →
      (∀ s, a.numSegments ≤ s → f s = 0) → ((List.range a.blockS).map f).sum
        = (mass (tokenScore k q scale) value M
          ((List.range a.numSegments).flatMap tokens) : ℝ) := by
    intro f value hf hf0
    rw [← sum_rescaled_mass, ← coe_sum_map]
    exact sum_lanes (by simpa using hS) (fun s hs => by simpa using hf s (by simpa using hs))
      fun s _ hs => hf0 s (by simpa using hs)
  have hdenom : reduceDenom (realFp toB ofB) a qh mem = (mass (tokenScore k q scale) (fun _ => 1) M
      ((List.range a.numSegments).flatMap tokens) : ℝ) := by
    refine hlanes _ _ (fun s hs => ?_) fun s hs => ?_
    · simp only [lsLoad, Loads.Load.eval_masked, decide_eq_true hs, if_true, hin s hs, realFp_mul,
        (hmem s hs).l, (hpart s hs).l, EReal.coe_mul]
    · rw [hout s hs, realFp_mul, zero_mul]
  refine ⟨⟨_, mass_one_pos _ M hne, hdenom⟩, fun d => ?_⟩
  have hnum : ((List.range a.blockS).map fun s => (realFp toB ofB).mul
      ((accLoad (realFp toB ofB) a qh s d).eval mem) (reduceWeight (realFp toB ofB) a qh mem s)).sum
        = (mass (tokenScore k q scale) (fun t => v t d) M
          ((List.range a.numSegments).flatMap tokens) : ℝ) := by
    have hd : d.1 < a.headSize := hD.symm ▸ d.2
    refine hlanes _ _ (fun s hs => ?_) fun s hs => ?_
    · simp only [accLoad, Loads.Load.eval_masked, decide_eq_true hs, decide_eq_true hd,
        Bool.and_self,
        if_true, hin s hs, realFp_mul, (hmem s hs).acc d hd, (hpart s hs).acc d, EReal.coe_mul]
      exact mul_comm _ _
    · rw [hout s hs, realFp_mul, mul_zero]
  rw [reduceOut, realFp_sum, hnum, hdenom, attend_eq_mass_div _ _ M, EReal.coe_div]
  rfl

end Reduce

end RabitKV
