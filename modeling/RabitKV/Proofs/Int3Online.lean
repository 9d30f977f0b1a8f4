import RabitKV.AttentionHelpers
import RabitKV.Proofs.ExactReal

/-!
# The online softmax in exact arithmetic

A row of an attention loop starts with nothing or with a sink. `SoftmaxState` says that its state
holds the exponential masses of the tokens seen so far, relative to its running maximum; a tile that
shows the row some more tokens keeps it (`SoftmaxState.tile`). The running maximum need not be the
maximum: a row that has seen nothing yet takes zero. The states of several segments merge into the
mass of all their tokens, relative to the largest of their maxima (`segments_max`, `segments_sum`).
-/

namespace RabitKV

open Softmax

section Lanes

variable {β : Type*} [AddCommMonoid β]

/-- Lanes that a mask leaves out add nothing. -/
theorem sum_map_mask {τ : Type*} (mask : τ → Bool) (f : τ → β) : ∀ l : List τ,
    (l.map fun t => if mask t then f t else 0).sum = ((l.filter mask).map f).sum
  | [] => rfl
  | t :: l => by
    by_cases h : mask t = true <;> simp [h, sum_map_mask mask f l]

end Lanes

section Primitives

variable (toB : EReal → Bf16) (ofB : Bf16 → ℝ)

@[simp] theorem realFp_exp (x : ℝ) : (realFp toB ofB).exp x = (Real.exp x : ℝ) := by
  simp only [realFp, EReal.exp_coe, EReal.coe_ennreal_ofReal, max_eq_left (Real.exp_nonneg _)]

theorem realFp_exp_bot_sub (x : ℝ) :
    (realFp toB ofB).exp ((realFp toB ofB).sub ⊥ x) = 0 := by
  simp [realFp]

theorem realFp_maximum (x y : EReal) : (realFp toB ofB).maximum x y = max x y := rfl

theorem realFp_lt_negInf (x : EReal) :
    (realFp toB ofB).lt (realFp toB ofB).negInf x = decide (⊥ < x) := rfl

theorem realFp_amax_ne_top {l : List EReal} (htop : ∀ x ∈ l, x ≠ ⊤) :
    (realFp toB ofB).amax l ≠ ⊤ := by
  cases l with
  | nil => simp [Fp.amax]
  | cons y ys =>
    have hmax : (y :: ys).max? = some ((realFp toB ofB).amax (y :: ys)) := List.max?_cons'
    exact htop _ (List.max?_eq_some_iff.1 hmax).1

end Primitives

section Step

variable {τ : Type*} (score : τ → ℝ) (value : ℕ → τ → ℝ)

/-- The state of a row that has seen `tokens`. -/
inductive SoftmaxState : List τ → Partial EReal → Prop
  | fresh {st : Partial EReal} (hm : st.m = ⊥) (hl : st.l = 1) (hacc : ∀ d, st.acc d = 0) :
      SoftmaxState [] st
  | shifted {tokens : List τ} {st : Partial EReal} (m : ℝ) (hm : st.m = m)
      (hl : st.l = (mass score (fun _ => 1) m tokens : ℝ))
      (hacc : ∀ d, st.acc d = (mass score (value d) m tokens : ℝ)) : SoftmaxState tokens st

/-- The lanes of a tile: the visible ones hold tokens, the others minus infinity and any finite
value. -/
structure TileLanes (n : ℕ) (visible : ℕ → Bool) (token : ℕ → τ) (s vScale : ℕ → EReal)
    (v : ℕ → ℕ → EReal) : Prop where
  score : ∀ t, s t = if visible t then (score (token t) : EReal) else ⊥
  value : ∀ t d, ∃ x y : ℝ, vScale t = x ∧ v t d = y ∧
    (visible t = true → x * y = value d (token t))

variable {score value} (toB : EReal → Bf16) (ofB : Bf16 → ℝ) {tokens : List τ} {st : Partial EReal}

theorem SoftmaxState.m_ne_top (h : SoftmaxState score value tokens st) : st.m ≠ ⊤ := by
  cases h with
  | fresh hm => simp [hm]
  | shifted m hm => simp [hm]

theorem SoftmaxState.m_ne_bot (h : SoftmaxState score value tokens st) (hne : tokens ≠ []) :
    st.m ≠ ⊥ := by
  cases h with
  | fresh => exact absurd rfl hne
  | shifted m hm => simp [hm]

/-- What `alpha` makes of the state, for any new shift. -/
theorem SoftmaxState.rescale (h : SoftmaxState score value tokens st) (m' : ℝ) :
    st.l * (realFp toB ofB).exp ((realFp toB ofB).sub st.m m')
        = (mass score (fun _ => 1) m' tokens : ℝ) ∧
      ∀ d, st.acc d * (realFp toB ofB).exp ((realFp toB ofB).sub st.m m')
        = (mass score (value d) m' tokens : ℝ) := by
  cases h with
  | fresh hm hl hacc => simp [hm, hacc, realFp_exp_bot_sub]
  | shifted m hm hl hacc =>
    simp only [hm, hl, hacc, realFp_exp_sub, ← EReal.coe_mul, mul_comm _ (Real.exp _),
      exp_mul_mass, implies_true, and_self]

variable {n : ℕ} {visible : ℕ → Bool} {token : ℕ → τ} {s vScale : ℕ → EReal} {v : ℕ → ℕ → EReal}

/-- The tokens a tile shows the row. -/
def tileTokens (n : ℕ) (visible : ℕ → Bool) (token : ℕ → τ) : List τ :=
  ((List.range n).filter visible).map token

/-- The running maximum of `softmax_step` is a real number. -/
theorem softmaxStep_m (hl : TileLanes score value n visible token s vScale v) {m l : EReal}
    (hm : m ≠ ⊤) : ∃ m' : ℝ, (softmaxStep (realFp toB ofB) n s m l).m = m' := by
  have hmax : max m ((realFp toB ofB).amax ((List.range n).map s)) ≠ ⊤ := by
    have hlanes : (realFp toB ofB).amax ((List.range n).map s) ≠ ⊤ := by
      refine realFp_amax_ne_top toB ofB fun x hx => ?_
      obtain ⟨t, -, rfl⟩ := List.mem_map.1 hx
      rw [hl.score]
      split_ifs <;> simp
    rcases max_choice m ((realFp toB ofB).amax ((List.range n).map s)) with h | h <;> rw [h]
    exacts [hm, hlanes]
  have hdef : (softmaxStep (realFp toB ofB) n s m l).m
      = if ⊥ < max m ((realFp toB ofB).amax ((List.range n).map s)) then
        max m ((realFp toB ofB).amax ((List.range n).map s)) else 0 := by
    simp only [softmaxStep, realFp_lit_zero, realFp_lt_negInf, realFp_maximum, decide_eq_true_eq]
  generalize max m ((realFp toB ofB).amax ((List.range n).map s)) = x at hmax hdef
  by_cases hbot : x = ⊥
  · exact ⟨0, by simp [hdef, hbot]⟩
  · lift x to ℝ using ⟨hmax, hbot⟩ with m'
    exact ⟨m', by simp [hdef]⟩

/-- The weights of `softmax_step`: a lane that shows nothing weighs nothing. -/
theorem softmaxStep_p (hl : TileLanes score value n visible token s vScale v) {m l : EReal} {m' : ℝ}
    (hm' : (softmaxStep (realFp toB ofB) n s m l).m = m') (t : ℕ) :
    (softmaxStep (realFp toB ofB) n s m l).p t
      = if visible t then (Real.exp (score (token t) - m') : EReal) else 0 := by
  have hp : (softmaxStep (realFp toB ofB) n s m l).p t
      = (realFp toB ofB).exp ((realFp toB ofB).sub (s t) m') := by
    rw [← hm']
    rfl
  rw [hp, hl.score]
  split_ifs
  · exact realFp_exp_sub toB ofB _ _
  · exact realFp_exp_bot_sub toB ofB _

/-- One tile of an attention loop. -/
theorem SoftmaxState.tile (h : SoftmaxState score value tokens st)
    (hl : TileLanes score value n visible token s vScale v) {st' : Partial EReal}
    (hm : st'.m = (softmaxStep (realFp toB ofB) n s st.m st.l).m)
    (hL : st'.l = (softmaxStep (realFp toB ofB) n s st.m st.l).l)
    (hacc : ∀ d, st'.acc d = st.acc d * (softmaxStep (realFp toB ofB) n s st.m st.l).alpha
      + ((List.range n).map fun t => (softmaxStep (realFp toB ofB) n s st.m st.l).p t * vScale t
        * v t d).sum) :
    SoftmaxState score value (tokens ++ tileTokens n visible token) st' := by
  obtain ⟨m', hm'⟩ := softmaxStep_m toB ofB hl h.m_ne_top (l := st.l)
  have hp := softmaxStep_p toB ofB hl hm'
  have halpha : (softmaxStep (realFp toB ofB) n s st.m st.l).alpha
      = (realFp toB ofB).exp ((realFp toB ofB).sub st.m m') := by
    rw [← hm']
    rfl
  have hlDef : (softmaxStep (realFp toB ofB) n s st.m st.l).l
      = st.l * (softmaxStep (realFp toB ofB) n s st.m st.l).alpha
        + ((List.range n).map (softmaxStep (realFp toB ofB) n s st.m st.l).p).sum := rfl
  refine .shifted m' (hm.trans hm') ?_ fun d => ?_
  · have hsum : ((List.range n).map (softmaxStep (realFp toB ofB) n s st.m st.l).p).sum
        = (mass score (fun _ => 1) m' (tileTokens n visible token) : ℝ) := by
      simp only [funext hp, sum_map_mask, mass, tileTokens, List.map_map, Function.comp_def,
        mul_one, ← coe_sum_map]
    rw [hL, hlDef, halpha, (h.rescale toB ofB m').1, hsum, mass_append, EReal.coe_add]
  · have hterm : ∀ t, (softmaxStep (realFp toB ofB) n s st.m st.l).p t * vScale t * v t d
        = if visible t then
          ((Real.exp (score (token t) - m') * value d (token t) : ℝ) : EReal) else 0 := by
      intro t
      obtain ⟨x, y, hx, hy, hxy⟩ := hl.value t d
      rw [hp, hx, hy]
      split_ifs with hvis
      · rw [← hxy hvis, mul_assoc, ← EReal.coe_mul, ← EReal.coe_mul]
      · rw [zero_mul, zero_mul]
    have hsum : ((List.range n).map fun t => (softmaxStep (realFp toB ofB) n s st.m st.l).p t
        * vScale t * v t d).sum = (mass score (value d) m' (tileTokens n visible token) : ℝ) := by
      simp only [hterm, sum_map_mask, mass, tileTokens, List.map_map, Function.comp_def,
        ← coe_sum_map]
    rw [hacc, halpha, (h.rescale toB ofB m').2, hsum, mass_append, EReal.coe_add]

/-- The quotient a row is finished with. -/
theorem SoftmaxState.div (h : SoftmaxState score value tokens st) (hne : tokens ≠ []) (d : ℕ) :
    (realFp toB ofB).div (st.acc d) st.l = (attend score (value d) tokens : ℝ) := by
  cases h with
  | fresh => exact absurd rfl hne
  | shifted m hm hl hacc =>
    rw [hl, hacc, attend_eq_mass_div _ _ m, EReal.coe_div]
    rfl

end Step

section Merge

variable {τ : Type*} {score : τ → ℝ} {value : ℕ → τ → ℝ} (toB : EReal → Bf16) (ofB : Bf16 → ℝ)
  {segs act : ℕ} {part : ℕ → Partial EReal} {tokens : ℕ → List τ} {mx : ℕ → EReal}

/-- The overall maximum of segments of which one has seen a token. -/
theorem segments_max (hact : act ≤ segs)
    (h : ∀ s < act, SoftmaxState score value (tokens s) (part s))
    (hmx : ∀ s, mx s = if s < act then (part s).m else ⊥)
    (hne : (List.range act).flatMap tokens ≠ []) :
    ∃ M : ℝ, (realFp toB ofB).amax ((List.range segs).map mx) = M := by
  obtain ⟨s, hs, hseen⟩ : ∃ s < act, tokens s ≠ [] := by
    by_contra hc
    push Not at hc
    exact hne (List.flatMap_eq_nil_iff.2 fun s hs => hc s (List.mem_range.1 hs))
  have hmem : mx s ∈ (List.range segs).map mx :=
    List.mem_map_of_mem (List.mem_range.2 (by omega))
  refine realFp_amax toB ofB (fun x hx => ?_) hmem ?_
  · obtain ⟨s', -, rfl⟩ := List.mem_map.1 hx
    rw [hmx]
    split_ifs with hs'
    · exact (h s' hs').m_ne_top
    · simp
  · rw [hmx, if_pos hs]
    exact (h s hs).m_ne_bot hseen

/-- Lanes rescaled by `exp(segm_max - overall_max)` and added. -/
theorem segments_sum (hact : act ≤ segs) {M : ℝ} {lane : ℕ → EReal} {val : τ → ℝ}
    (hin : ∀ s < act, lane s * (realFp toB ofB).exp ((realFp toB ofB).sub (mx s) M)
      = (mass score val M (tokens s) : ℝ))
    (hout : ∀ s, act ≤ s → lane s = 0) :
    ((List.range segs).map fun s =>
      lane s * (realFp toB ofB).exp ((realFp toB ofB).sub (mx s) M)).sum
      = (mass score val M ((List.range act).flatMap tokens) : ℝ) := by
  rw [mass_flatMap, ← coe_sum_map]
  refine sum_lanes (by simpa using hact) (fun s hs => ?_) fun s _ hs => ?_
  · rw [List.getElem_range]
    exact hin s (by simpa using hs)
  · rw [hout s (by simpa using hs), zero_mul]

end Merge

end RabitKV
