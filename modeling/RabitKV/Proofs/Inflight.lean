import RabitKV.Inflight
import RabitKV.Lib.Checked
import RabitKV.Lib.Profile

/-!
# The sweep computes the overlap profile

Between two event times the number of requests in flight is the running count, so every step of the
loop extends lengths and stretches by one piece (`Swept.step`). Between events of one time the count
may dip, but it never exceeds a count that is attained (`exists_level_ge`).
-/

namespace RabitKV

open MeasureTheory Profile Set

section Order

variable {α β : Type} [LinearOrder α] [LinearOrder β]

instance : Std.Total (tupleLe (α := α) (β := β)) := ⟨fun x y => by
  rcases lt_trichotomy x.1 y.1 with h | h | h
  · exact Or.inl (Or.inl h)
  · exact (le_total x.2 y.2).imp (fun hle => Or.inr ⟨h, hle⟩) fun hle => Or.inr ⟨h.symm, hle⟩
  · exact Or.inr (Or.inl h)⟩

instance : IsTrans (α × β) tupleLe := ⟨fun x y z hxy hyz => by
  rcases hxy with hxy | ⟨hxy, hxy'⟩
  · rcases hyz with hyz | ⟨hyz, -⟩
    · exact Or.inl (hxy.trans hyz)
    · exact Or.inl (hyz ▸ hxy)
  · rcases hyz with hyz | ⟨hyz, hyz'⟩
    · exact Or.inl (hxy ▸ hyz)
    · exact Or.inr ⟨hxy.trans hyz, hxy'.trans hyz'⟩⟩

instance : Std.Antisymm (tupleLe (α := α) (β := β)) := ⟨fun x y hxy hyx => by
  rcases hxy with hxy | ⟨hxy, hxy'⟩
  · rcases hyx with hyx | ⟨hyx, -⟩
    · exact absurd hxy hyx.not_gt
    · exact absurd hyx hxy.ne'
  · rcases hyx with hyx | ⟨-, hyx'⟩
    · exact absurd hxy hyx.ne'
    · exact Prod.ext hxy (hxy'.antisymm hyx')⟩

theorem tupleLe.fst_le {x y : α × β} (h : tupleLe x y) : x.1 ≤ y.1 := by
  rcases h with h | ⟨h, -⟩
  · exact h.le
  · exact h.le

theorem head_le_of_sorted {l : List (α × β)} (hsort : l.Pairwise tupleLe) {a e : α × β}
    (ha : l.head? = some a) (he : e ∈ l) : a.1 ≤ e.1 := by
  rcases l with _ | ⟨b, l⟩
  · cases he
  · obtain rfl := Option.some.inj ha
    rcases List.mem_cons.1 he with rfl | he
    · exact le_rfl
    · exact ((List.pairwise_cons.1 hsort).1 e he).fst_le

theorem le_last_of_sorted {l : List (α × β)} (hsort : l.Pairwise tupleLe) {a e : α × β}
    (ha : l.getLast? = some a) (he : e ∈ l) : e.1 ≤ a.1 := by
  obtain ⟨l, rfl⟩ := List.getLast?_eq_some_iff.1 ha
  rcases List.mem_append.1 he with he | he
  · exact ((List.pairwise_append.1 hsort).2.2 e he a (List.mem_singleton_self a)).fst_le
  · rw [List.mem_singleton.1 he]

/-- Sorting forgets the order of the list. -/
theorem insertionSort_tupleLe_perm {l l' : List (α × β)} (h : l.Perm l') :
    l.insertionSort tupleLe = l'.insertionSort tupleLe :=
  List.Perm.eq_of_pairwise' (List.pairwise_insertionSort _ _) (List.pairwise_insertionSort _ _)
    ((List.perm_insertionSort _ _).trans (h.trans (List.perm_insertionSort _ _).symm))

end Order

section Levels

/-- The time booked for level `k`. -/
def levelTime (l : List (ℤ × ℚ)) (k : ℤ) : ℚ := (l.map fun p => if p.1 = k then p.2 else 0).sum

theorem levelTime_cons (p : ℤ × ℚ) (l : List (ℤ × ℚ)) (k : ℤ) :
    levelTime (p :: l) k = (if p.1 = k then p.2 else 0) + levelTime l k := by
  rw [levelTime, List.map_cons, List.sum_cons, levelTime]

theorem levelTime_addAt (k : ℤ) (dt : ℚ) (l : List (ℤ × ℚ)) (j : ℤ) :
    levelTime (addAt k dt l) j = levelTime l j + if k = j then dt else 0 := by
  induction l with
  | nil => simp [levelTime, addAt]
  | cons p l ih =>
    rw [addAt, levelTime_cons p]
    by_cases hik : p.1 = k
    · rw [if_pos hik, levelTime_cons, hik]
      split_ifs
      · ring
      · ring
    · rw [if_neg hik, levelTime_cons, ih]
      ring

theorem levelTime_of_notMem {l : List (ℤ × ℚ)} {k : ℤ} (h : k ∉ l.map Prod.fst) :
    levelTime l k = 0 := by
  refine List.sum_eq_zero fun v hv => ?_
  obtain ⟨p, hp, rfl⟩ := List.mem_map.1 hv
  exact if_neg fun hk => h (List.mem_map.2 ⟨p, hp, hk⟩)

theorem levelTime_of_mem {l : List (ℤ × ℚ)} (hnodup : (l.map Prod.fst).Nodup) {k : ℤ} {v : ℚ}
    (h : (k, v) ∈ l) : levelTime l k = v := by
  induction l with
  | nil => cases h
  | cons p l ih =>
    rw [List.map_cons, List.nodup_cons] at hnodup
    rw [levelTime_cons]
    rcases List.mem_cons.1 h with rfl | h
    · rw [if_pos rfl, levelTime_of_notMem hnodup.1, add_zero]
    · have hne : p.1 ≠ k := fun hk => hnodup.1 (List.mem_map.2 ⟨(k, v), h, hk.symm⟩)
      rw [if_neg hne, zero_add, ih hnodup.2 h]

theorem mem_fst_addAt {k j : ℤ} {dt : ℚ} {l : List (ℤ × ℚ)}
    (h : j ∈ (addAt k dt l).map Prod.fst) : j = k ∨ j ∈ l.map Prod.fst := by
  induction l with
  | nil => simpa [addAt] using h
  | cons p l ih =>
    simp only [addAt] at h
    split_ifs at h with hik
    · exact Or.inr h
    · rcases List.mem_cons.1 h with h | h
      · exact Or.inr (List.mem_cons.2 (Or.inl h))
      · exact (ih h).imp_right fun h => List.mem_cons_of_mem _ h

theorem nodup_addAt {k : ℤ} {dt : ℚ} {l : List (ℤ × ℚ)} (h : (l.map Prod.fst).Nodup) :
    ((addAt k dt l).map Prod.fst).Nodup := by
  induction l with
  | nil => simp [addAt]
  | cons p l ih =>
    rw [List.map_cons, List.nodup_cons] at h
    simp only [addAt]
    split_ifs with hik
    · exact List.nodup_cons.2 h
    · refine List.nodup_cons.2 ⟨fun hmem => ?_, ih h.2⟩
      exact (mem_fst_addAt hmem).elim hik h.1

theorem pos_addAt {k : ℤ} {dt : ℚ} (hdt : 0 < dt) {l : List (ℤ × ℚ)} (h : ∀ p ∈ l, 0 < p.2) :
    ∀ p ∈ addAt k dt l, 0 < p.2 := by
  induction l with
  | nil =>
    intro p hp
    rw [addAt, List.mem_singleton] at hp
    rw [hp, zero_add]
    exact hdt
  | cons q l ih =>
    have hq := h q List.mem_cons_self
    have hl : ∀ p ∈ l, 0 < p.2 := fun p hp => h p (List.mem_cons_of_mem _ hp)
    intro p hp
    simp only [addAt] at hp
    split_ifs at hp with hik
    · rcases List.mem_cons.1 hp with rfl | hp
      · exact add_pos hq hdt
      · exact hl p hp
    · rcases List.mem_cons.1 hp with rfl | hp
      · exact hq
      · exact ih hl p hp

theorem sum_addAt (k : ℤ) (dt : ℚ) (l : List (ℤ × ℚ)) :
    ((addAt k dt l).map Prod.snd).sum = (l.map Prod.snd).sum + dt := by
  induction l with
  | nil => simp [addAt]
  | cons p l ih =>
    simp only [addAt]
    split_ifs with hik
    · simp only [List.map_cons, List.sum_cons]
      ring
    · simp only [List.map_cons, List.sum_cons, ih]
      ring

end Levels

section Sweep

/-- What the loop has accumulated over `[start, t_prev)` of the level `f`. -/
structure Swept (f : ℝ → ℤ) (target : ℤ) (start : ℚ) (s : SweepState) : Prop where
  start_le : start ≤ s.tPrev
  allC : (s.allC : ℝ) = lengthWhere f (target ≤ ·) start s.tPrev
  level : ∀ k, (levelTime s.atLevel k : ℝ) = lengthWhere f (· = k) start s.tPrev
  keys : (s.atLevel.map Prod.fst).Nodup
  pos : ∀ p ∈ s.atLevel, 0 < p.2
  total : (s.atLevel.map Prod.snd).sum = s.tPrev - start
  run : LastStretch {t | target ≤ f t} start s.tPrev s.run
  longest : LongestStretch {t | target ≤ f t} start s.tPrev s.longest

variable {f : ℝ → ℤ} {target : ℤ} {start : ℚ} {s : SweepState} {e : ℚ × ℤ}

theorem sweepStep_of_le (h : e.1 ≤ s.tPrev) : sweepStep target s e
      = { s with inflight := s.inflight + e.2, peak := max s.peak (s.inflight + e.2)
                 tPrev := e.1 } := by
  have hdt : ¬ (e.1 - s.tPrev > 0) := by linarith
  simp only [sweepStep, if_neg hdt]

theorem sweepStep_of_ge (h : s.tPrev < e.1) (ht : target ≤ s.inflight) : sweepStep target s e
    = { inflight := s.inflight + e.2, peak := max s.peak (s.inflight + e.2), tPrev := e.1
        atLevel := addAt s.inflight (e.1 - s.tPrev) s.atLevel
        allC := s.allC + (e.1 - s.tPrev), run := s.run + (e.1 - s.tPrev)
        longest := max s.longest (s.run + (e.1 - s.tPrev)) } := by
  have hdt : e.1 - s.tPrev > 0 := by linarith
  simp only [sweepStep, if_pos hdt, ge_iff_le, if_pos ht]

theorem sweepStep_of_lt (h : s.tPrev < e.1) (ht : ¬ target ≤ s.inflight) : sweepStep target s e
    = { s with inflight := s.inflight + e.2, peak := max s.peak (s.inflight + e.2), tPrev := e.1
               atLevel := addAt s.inflight (e.1 - s.tPrev) s.atLevel, run := 0 } := by
  have hdt : e.1 - s.tPrev > 0 := by linarith
  simp only [sweepStep, if_pos hdt, ge_iff_le, if_neg ht]

theorem sweepStep_inflight (target : ℤ) (s : SweepState) (e : ℚ × ℤ) :
    (sweepStep target s e).inflight = s.inflight + e.2 ∧
      (sweepStep target s e).peak = max s.peak (s.inflight + e.2) ∧
      (sweepStep target s e).tPrev = e.1 := by
  rcases le_or_gt e.1 s.tPrev with h | h
  · rw [sweepStep_of_le h]
    exact ⟨rfl, rfl, rfl⟩
  · by_cases ht : target ≤ s.inflight
    · rw [sweepStep_of_ge h ht]
      exact ⟨rfl, rfl, rfl⟩
    · rw [sweepStep_of_lt h ht]
      exact ⟨rfl, rfl, rfl⟩

theorem Swept.step (h : Swept f target start s) (htime : s.tPrev ≤ e.1)
    (hconst : ∀ t ∈ Ico (s.tPrev : ℝ) e.1, f t = s.inflight) :
    Swept f target start (sweepStep target s e) := by
  have hstart : (start : ℝ) ≤ s.tPrev := by exact_mod_cast h.start_le
  have hcast : (s.tPrev : ℝ) ≤ e.1 := by exact_mod_cast htime
  have hlevel : ∀ k, ((levelTime s.atLevel k + if s.inflight = k then e.1 - s.tPrev else 0 : ℚ) : ℝ)
      = lengthWhere f (· = k) start e.1 := by
    intro k
    rw [lengthWhere_extend (· = k) hstart hcast hconst, ← h.level k]
    split_ifs <;> push_cast <;> ring
  rcases htime.eq_or_lt with heq | hlt
  · rw [sweepStep_of_le heq.ge]
    exact ⟨heq ▸ h.start_le, heq ▸ h.allC, heq ▸ h.level, h.keys, h.pos, heq ▸ h.total,
      heq ▸ h.run, heq ▸ h.longest⟩
  · have hltR : (s.tPrev : ℝ) < e.1 := by exact_mod_cast hlt
    by_cases ht : target ≤ s.inflight
    · have hG : Ico (s.tPrev : ℝ) e.1 ⊆ {t | target ≤ f t} := fun t htt => by
        change target ≤ f t
        rwa [hconst t htt]
      have hlast := h.run.extend hcast hG
      rw [sweepStep_of_ge hlt ht]
      refine ⟨h.start_le.trans htime, ?_, ?_, nodup_addAt h.keys, pos_addAt (by linarith) h.pos, ?_,
        ?_, ?_⟩
      · rw [lengthWhere_extend (target ≤ ·) hstart hcast hconst, if_pos ht, ← h.allC]
        push_cast
        ring
      · intro k
        rw [levelTime_addAt]
        exact hlevel k
      · rw [sum_addAt, h.total]
        ring
      · push_cast
        exact hlast
      · push_cast
        exact h.longest.extend hlast hcast hG
    · have hG : ∀ t ∈ Ico (s.tPrev : ℝ) e.1, t ∉ {t | target ≤ f t} := fun t htt => by
        change ¬ target ≤ f t
        rwa [hconst t htt]
      rw [sweepStep_of_lt hlt ht]
      refine ⟨h.start_le.trans htime, ?_, ?_, nodup_addAt h.keys, pos_addAt (by linarith) h.pos, ?_,
        ?_, ?_⟩
      · rw [lengthWhere_extend (target ≤ ·) hstart hcast hconst, if_neg ht, ← h.allC, add_zero]
      · intro k
        rw [levelTime_addAt]
        exact hlevel k
      · rw [sum_addAt, h.total]
        ring
      · push_cast
        exact LastStretch.cut hstart hltR hG
      · exact h.longest.cut hltR hG

/-- The sum of the jumps of a list of events. -/
def jumps (es : List (ℚ × ℤ)) : ℤ := (es.map Prod.snd).sum

/-- The running count and its peak after the events `past`. -/
structure Counted (past : List (ℚ × ℤ)) (s : SweepState) : Prop where
  inflight : s.inflight = jumps past
  le_peak : ∀ pre, pre <+: past → jumps pre ≤ s.peak
  peak : ∃ pre, pre <+: past ∧ jumps pre = s.peak
  past_le : ∀ x ∈ past, x.1 ≤ s.tPrev

variable {past todo : List (ℚ × ℤ)}

theorem jumps_concat (past : List (ℚ × ℤ)) (e : ℚ × ℤ) :
    jumps (past ++ [e]) = jumps past + e.2 := by
  simp [jumps]

theorem Counted.step (h : Counted past s) (htime : s.tPrev ≤ e.1) :
    Counted (past ++ [e]) (sweepStep target s e) := by
  obtain ⟨hin, hpeak, htp⟩ := sweepStep_inflight target s e
  refine ⟨?_, ?_, ?_, ?_⟩
  · rw [hin, h.inflight, jumps_concat]
  · intro pre hpre
    rw [hpeak]
    rcases List.prefix_concat_iff.1 hpre with rfl | hpre
    · rw [jumps_concat, ← h.inflight]
      exact le_max_right _ _
    · exact (h.le_peak pre hpre).trans (le_max_left _ _)
  · rw [hpeak]
    rcases max_choice s.peak (s.inflight + e.2) with hm | hm
    · obtain ⟨pre, hpre, hsum⟩ := h.peak
      exact ⟨pre, hpre.trans (List.prefix_append _ _), hsum.trans hm.symm⟩
    · exact ⟨past ++ [e], List.prefix_rfl, by rw [jumps_concat, ← h.inflight, hm]⟩
  · intro x hx
    rw [htp]
    rcases List.mem_append.1 hx with hx | hx
    · exact (h.past_le x hx).trans htime
    · rw [List.mem_singleton.1 hx]

theorem foldl_sweepStep_tPrev (es : List (ℚ × ℤ)) (s : SweepState) {last : ℚ × ℤ}
    (hlast : es.getLast? = some last) : (es.foldl (sweepStep target) s).tPrev = last.1 := by
  obtain ⟨es, rfl⟩ := List.getLast?_eq_some_iff.1 hlast
  rw [List.foldl_append, List.foldl_cons, List.foldl_nil]
  exact (sweepStep_inflight target _ last).2.2

/-- The loop over the events still to come. -/
theorem sweep_run : ∀ {todo past : List (ℚ × ℤ)} {s : SweepState},
    (past ++ todo).Pairwise tupleLe → (∀ x ∈ todo, s.tPrev ≤ x.1) → Counted past s →
    Swept (level (past ++ todo)) target start s →
    Counted (past ++ todo) (todo.foldl (sweepStep target) s) ∧
      Swept (level (past ++ todo)) target start (todo.foldl (sweepStep target) s)
  | [], past, s, _, _, hc, hs => by
    rw [List.append_nil] at *
    exact ⟨hc, hs⟩
  | e :: todo, past, s, hsort, hle, hc, hs => by
    have htime : s.tPrev ≤ e.1 := hle e List.mem_cons_self
    have hrest : ∀ x ∈ todo, e.1 ≤ x.1 := fun x hx =>
      tupleLe.fst_le ((List.pairwise_cons.1 (List.pairwise_append.1 hsort).2.1).1 x hx)
    have hconst : ∀ t ∈ Ico (s.tPrev : ℝ) e.1, level (past ++ e :: todo) t = s.inflight := by
      rintro t ⟨hge, hlt⟩
      have hpast : ∀ x ∈ past, (x.1 : ℝ) ≤ t := fun x hx => by
        refine le_trans ?_ hge
        exact_mod_cast hc.past_le x hx
      have htodo : ∀ x ∈ e :: todo, t < x.1 := fun x hx => by
        refine hlt.trans_le ?_
        rcases List.mem_cons.1 hx with rfl | hx
        · exact le_rfl
        · exact_mod_cast hrest x hx
      rw [level_append, level_of_le hpast, level_of_lt htodo, add_zero, hc.inflight, jumps]
    have hcut : past ++ e :: todo = (past ++ [e]) ++ todo := by simp
    have hstep := hs.step htime hconst
    rw [hcut] at hsort hstep ⊢
    have htp := (sweepStep_inflight target s e).2.2
    exact sweep_run hsort (fun x hx => htp ▸ hrest x hx) (hc.step htime) hstep

end Sweep

section Peak

variable {es : List (ℚ × ℤ)}

/-- A running count between events of one time is not above the level after them: ends come before
starts, so what is still to come at that time only adds. -/
theorem exists_level_ge (hsort : es.Pairwise tupleLe) (hjump : ∀ e ∈ es, e.2 = 1 ∨ e.2 = -1) :
    ∀ pre : List (ℚ × ℤ), pre <+: es → ∃ t : ℝ, jumps pre ≤ level es t := by
  intro pre
  induction pre using List.reverseRecOn with
  | nil =>
    intro _
    rcases es with _ | ⟨e, es⟩
    · exact ⟨0, le_rfl⟩
    · refine ⟨e.1 - 1, (level_of_lt fun x hx => ?_).ge⟩
      have hle : (e.1 : ℝ) ≤ x.1 := by
        rcases List.mem_cons.1 hx with rfl | hx
        · exact le_rfl
        · exact_mod_cast ((List.pairwise_cons.1 hsort).1 x hx).fst_le
      linarith
  | append_singleton pre e ih =>
    intro hpre
    obtain ⟨rest, rfl⟩ := hpre
    rw [jumps_concat]
    rcases hjump e (by simp) with h1 | h1
    · refine ⟨e.1, ?_⟩
      have hpast : ∀ x ∈ pre ++ [e], (x.1 : ℝ) ≤ e.1 := by
        intro x hx
        rcases List.mem_append.1 hx with hx | hx
        · have hle := (List.pairwise_append.1 (List.pairwise_append.1 hsort).1).2.2 x hx e
            (List.mem_singleton_self e)
          exact_mod_cast hle.fst_le
        · rw [List.mem_singleton.1 hx]
      have hrest : 0 ≤ level rest e.1 := by
        refine level_nonneg fun x hx hle => ?_
        have hlex := (List.pairwise_append.1 hsort).2.2 e (by simp) x hx
        rcases hlex with hlt | ⟨-, hle2⟩
        · have hcast : (x.1 : ℝ) ≤ e.1 := hle
          have hnot : x.1 ≤ e.1 := by exact_mod_cast hcast
          exact absurd hlt hnot.not_gt
        · rw [h1] at hle2
          omega
      rw [level_append, level_of_le hpast, ← jumps, jumps_concat]
      omega
    · obtain ⟨t, ht⟩ := ih ((List.prefix_append pre [e]).trans (List.prefix_append _ rest))
      exact ⟨t, by omega⟩

/-- A level is the running count after some events. -/
theorem exists_prefix_level (hsort : es.Pairwise tupleLe) (t : ℝ) :
    ∃ pre, pre <+: es ∧ level es t = jumps pre := by
  induction es with
  | nil => exact ⟨[], List.prefix_rfl, rfl⟩
  | cons e es ih =>
    obtain ⟨hhead, htail⟩ := List.pairwise_cons.1 hsort
    rcases le_or_gt (e.1 : ℝ) t with hle | hlt
    · obtain ⟨pre, hpre, hlevel⟩ := ih htail
      refine ⟨e :: pre, List.cons_prefix_cons.2 ⟨rfl, hpre⟩, ?_⟩
      have hcons : level (e :: es) t = e.2 + level es t := by
        rw [level, List.map_cons, List.sum_cons, if_pos hle, level]
      rw [hcons, hlevel, jumps, jumps, List.map_cons, List.sum_cons]
    · refine ⟨[], List.nil_prefix, ?_⟩
      refine (level_of_lt fun x hx => hlt.trans_le ?_).trans rfl
      rcases List.mem_cons.1 hx with rfl | hx
      · exact le_rfl
      · exact_mod_cast (hhead x hx).fst_le

end Peak

section Count

/-- The requests in flight at time `t`. -/
noncomputable def inflightCount (iv : List (ℚ × ℚ)) (t : ℝ) : ℕ :=
  iv.countP fun p => decide ((p.1 : ℝ) ≤ t ∧ t < p.2)

variable {iv : List (ℚ × ℚ)}

theorem level_sweepEvents (hiv : ∀ p ∈ iv, p.1 ≤ p.2) (t : ℝ) :
    level (sweepEvents iv) t = inflightCount iv t := by
  rw [sweepEvents, level_perm (List.perm_insertionSort _ _), level_append]
  induction iv with
  | nil => simp [level, inflightCount]
  | cons p iv ih =>
    have hp : (p.1 : ℝ) ≤ p.2 := by exact_mod_cast hiv p List.mem_cons_self
    have htail := ih fun q hq => hiv q (List.mem_cons_of_mem _ hq)
    simp only [level, List.map_cons, List.sum_cons, inflightCount, List.countP_cons] at htail ⊢
    rw [Nat.cast_add, ← htail]
    by_cases h1 : (p.1 : ℝ) ≤ t
    · by_cases h2 : t < p.2
      · simp only [h1, h2, not_le.2 h2, if_true, if_false, and_self, decide_true]
        push_cast
        ring
      · simp only [h1, h2, not_lt.1 h2, if_true, and_false, decide_false]
        push_cast
        ring
    · have h2 : ¬ ((p.2 : ℝ) ≤ t) := fun h => h1 (hp.trans h)
      simp only [h1, h2, if_false, false_and, decide_false]
      push_cast
      ring

theorem sweepEvents_sorted (iv : List (ℚ × ℚ)) : (sweepEvents iv).Pairwise tupleLe :=
  List.pairwise_insertionSort _ _

theorem mem_sweepEvents {e : ℚ × ℤ} : e ∈ sweepEvents iv ↔
    (∃ p ∈ iv, e = (p.1, 1)) ∨ ∃ p ∈ iv, e = (p.2, -1) := by
  simp only [sweepEvents, List.mem_insertionSort, List.mem_append, List.mem_map, eq_comm]

theorem requestIntervals_eq (hiv : ∀ p ∈ iv, 0 < p.1 ∧ p.1 ≤ p.2) :
    requestIntervals (iv.map fun p => ⟨some p.1, some p.2⟩) = some iv := by
  unfold requestIntervals
  induction iv with
  | nil => rfl
  | cons p iv ih =>
    rw [List.map_cons, List.mapM_cons, ih fun q hq => hiv q (List.mem_cons_of_mem _ hq)]
    simp [hiv p List.mem_cons_self]

theorem requestIntervals_perm (hiv : ∀ p ∈ iv, 0 < p.1 ∧ p.1 ≤ p.2) {rows : List RequestRow}
    (h : rows.Perm (iv.map fun p => ⟨some p.1, some p.2⟩)) :
    ∃ iv', iv'.Perm iv ∧ requestIntervals rows = some iv' := by
  have hperm := h.map fun r => (r.scheduledTs.getD 0, r.lastTokenTs.getD 0)
  have hid : (iv.map fun p => (⟨some p.1, some p.2⟩ : RequestRow)).map
      (fun r => (r.scheduledTs.getD 0, r.lastTokenTs.getD 0)) = iv := by
    rw [List.map_map]
    exact List.map_id iv
  rw [hid] at hperm
  have hrows : (rows.map fun r => (r.scheduledTs.getD 0, r.lastTokenTs.getD 0)).map
      (fun p => (⟨some p.1, some p.2⟩ : RequestRow)) = rows := by
    rw [List.map_map]
    refine (List.map_congr_left fun r hr => ?_).trans (List.map_id rows)
    obtain ⟨p, -, rfl⟩ := List.mem_map.1 (h.mem_iff.1 hr)
    rfl
  refine ⟨_, hperm, ?_⟩
  rw [← requestIntervals_eq fun p hp => hiv p (hperm.mem_iff.1 hp), hrows]

theorem sweepEvents_perm {iv' : List (ℚ × ℚ)} (h : iv'.Perm iv) :
    sweepEvents iv' = sweepEvents iv :=
  insertionSort_tupleLe_perm ((h.map _).append (h.map _))

/-- The first event is the first start and the last one the last end. -/
theorem sweepEvents_ends (hne : iv ≠ []) (hiv : ∀ p ∈ iv, p.1 ≤ p.2) :
    ∃ first last, (sweepEvents iv).head? = some first ∧ (sweepEvents iv).getLast? = some last ∧
      (∀ e ∈ sweepEvents iv, first.1 ≤ e.1 ∧ e.1 ≤ last.1) ∧
      IsLeast {a | ∃ p ∈ iv, a = p.1} first.1 ∧ IsGreatest {b | ∃ p ∈ iv, b = p.2} last.1 := by
  obtain ⟨q, hq⟩ := List.exists_mem_of_ne_nil iv hne
  have hnil : sweepEvents iv ≠ [] := List.ne_nil_of_mem (mem_sweepEvents.2 (Or.inl ⟨q, hq, rfl⟩))
  obtain ⟨first, hfirst⟩ := Option.ne_none_iff_exists'.1 (mt List.head?_eq_none_iff.1 hnil)
  obtain ⟨last, hlast⟩ := Option.ne_none_iff_exists'.1 (mt List.getLast?_eq_none_iff.1 hnil)
  have hbounds : ∀ e ∈ sweepEvents iv, first.1 ≤ e.1 ∧ e.1 ≤ last.1 := fun e he =>
    ⟨head_le_of_sorted (sweepEvents_sorted iv) hfirst he,
      le_last_of_sorted (sweepEvents_sorted iv) hlast he⟩
  have hstart : ∀ p ∈ iv, first.1 ≤ p.1 := fun p hp =>
    (hbounds _ (mem_sweepEvents.2 (Or.inl ⟨p, hp, rfl⟩))).1
  have hend : ∀ p ∈ iv, p.2 ≤ last.1 := fun p hp =>
    (hbounds _ (mem_sweepEvents.2 (Or.inr ⟨p, hp, rfl⟩))).2
  refine ⟨first, last, hfirst, hlast, hbounds, ⟨?_, ?_⟩, ⟨?_, ?_⟩⟩
  · rcases mem_sweepEvents.1 (List.mem_of_head? hfirst) with ⟨p, hp, he⟩ | ⟨p, hp, he⟩
    · exact ⟨p, hp, by rw [he]⟩
    · refine ⟨p, hp, le_antisymm (hstart p hp) ?_⟩
      rw [he]
      exact hiv p hp
  · rintro a ⟨p, hp, rfl⟩
    exact hstart p hp
  · rcases mem_sweepEvents.1 (List.mem_of_getLast? hlast) with ⟨p, hp, he⟩ | ⟨p, hp, he⟩
    · refine ⟨p, hp, le_antisymm ?_ (hend p hp)⟩
      rw [he]
      exact hiv p hp
    · exact ⟨p, hp, by rw [he]⟩
  · rintro b ⟨p, hp, rfl⟩
    exact hend p hp

theorem inflightCount_outside {first last : ℚ} (hfirst : ∀ p ∈ iv, first ≤ p.1)
    (hlast : ∀ p ∈ iv, p.2 ≤ last) {t : ℝ} (ht : t ∉ Ico (first : ℝ) last) :
    inflightCount iv t = 0 := by
  refine List.countP_eq_zero.2 fun p hp => ?_
  have h1 : (first : ℝ) ≤ p.1 := by exact_mod_cast hfirst p hp
  have h2 : (p.2 : ℝ) ≤ last := by exact_mod_cast hlast p hp
  simp only [decide_eq_true_eq]
  rintro ⟨ha, hb⟩
  exact ht ⟨h1.trans ha, hb.trans_le h2⟩

end Count

section Report

variable {iv : List (ℚ × ℚ)} {target : ℤ}

/-- The state before the loop. -/
def sweepStart (t : ℚ) : SweepState :=
  { inflight := 0, peak := 0, tPrev := t, atLevel := [], allC := 0, longest := 0, run := 0 }

theorem sweepStart_counted (t : ℚ) : Counted [] (sweepStart t) := by
  refine ⟨rfl, fun pre hpre => ?_, ⟨[], List.prefix_rfl, rfl⟩, by simp⟩
  rw [List.prefix_nil.1 hpre]
  rfl

theorem sweepStart_swept (f : ℝ → ℤ) (target : ℤ) (t : ℚ) : Swept f target t (sweepStart t) where
  start_le := le_rfl
  allC := by simp [sweepStart, lengthWhere_self]
  level := by simp [sweepStart, lengthWhere_self, levelTime]
  keys := List.nodup_nil
  pos := by simp [sweepStart]
  total := by simp [sweepStart]
  run := by simpa [sweepStart] using lastStretch_self {x | target ≤ f x} (t : ℝ)
  longest := by simpa [sweepStart] using longestStretch_self {x | target ≤ f x} (t : ℝ)

/-- The whole loop. -/
theorem sweepEvents_run (hne : iv ≠ []) (hiv : ∀ p ∈ iv, p.1 ≤ p.2) (target : ℤ) :
    ∃ first last s, (sweepEvents iv).head? = some first ∧ (sweepEvents iv).getLast? = some last ∧
      (sweepEvents iv).foldl (sweepStep target) (sweepStart first.1) = s ∧ s.tPrev = last.1 ∧
      IsLeast {a | ∃ p ∈ iv, a = p.1} first.1 ∧ IsGreatest {b | ∃ p ∈ iv, b = p.2} last.1 ∧
      Counted (sweepEvents iv) s ∧
      Swept (fun t => (inflightCount iv t : ℤ)) target first.1 s := by
  obtain ⟨first, last, hfirst, hlast, hbounds, hleast, hgreatest⟩ := sweepEvents_ends hne hiv
  have hrun : Counted ([] ++ sweepEvents iv)
        ((sweepEvents iv).foldl (sweepStep target) (sweepStart first.1)) ∧
      Swept (level ([] ++ sweepEvents iv)) target first.1
        ((sweepEvents iv).foldl (sweepStep target) (sweepStart first.1)) :=
    sweep_run (sweepEvents_sorted iv) (fun x hx => (hbounds x hx).1) (sweepStart_counted first.1)
      (sweepStart_swept _ target first.1)
  rw [List.nil_append, funext (level_sweepEvents hiv)] at hrun
  exact ⟨first, last, _, hfirst, hlast, rfl, foldl_sweepStep_tPrev _ _ hlast, hleast, hgreatest,
    hrun⟩

theorem peak_isGreatest (hiv : ∀ p ∈ iv, p.1 ≤ p.2) {s : SweepState}
    (h : Counted (sweepEvents iv) s) :
    IsGreatest (range fun t => (inflightCount iv t : ℤ)) s.peak := by
  have hjump : ∀ e ∈ sweepEvents iv, e.2 = 1 ∨ e.2 = -1 := by
    intro e he
    rcases mem_sweepEvents.1 he with ⟨p, -, rfl⟩ | ⟨p, -, rfl⟩
    · exact Or.inl rfl
    · exact Or.inr rfl
  have hle : ∀ t, (inflightCount iv t : ℤ) ≤ s.peak := by
    intro t
    obtain ⟨pre, hpre, hlevel⟩ := exists_prefix_level (sweepEvents_sorted iv) t
    rw [← level_sweepEvents hiv, hlevel]
    exact h.le_peak pre hpre
  obtain ⟨pre, hpre, hpeak⟩ := h.peak
  obtain ⟨t, ht⟩ := exists_level_ge (sweepEvents_sorted iv) hjump pre hpre
  rw [level_sweepEvents hiv, hpeak] at ht
  refine ⟨⟨t, le_antisymm (hle t) ht⟩, ?_⟩
  rintro k ⟨t, rfl⟩
  exact hle t

theorem total_eq_volume {first last : ℚ} (htarget : 1 ≤ target) (hfirst : ∀ p ∈ iv, first ≤ p.1)
    (hlast : ∀ p ∈ iv, p.2 ≤ last) :
    lengthWhere (fun t => (inflightCount iv t : ℤ)) (target ≤ ·) first last
      = volume.real {t | target ≤ inflightCount iv t} := by
  unfold lengthWhere
  congr 1
  ext t
  refine ⟨fun h => h.2, fun h => ⟨?_, h⟩⟩
  by_contra hout
  have hzero := inflightCount_outside hfirst hlast hout
  have hge : target ≤ inflightCount iv t := h
  omega

/-- No stretch at the target level reaches past the first start or the last end. -/
theorem stretch_isGreatest {first last : ℚ} (hspan : first ≤ last) (htarget : 1 ≤ target)
    (hfirst : ∀ p ∈ iv, first ≤ p.1) (hlast : ∀ p ∈ iv, p.2 ≤ last) {l : ℝ}
    (h : LongestStretch {t | target ≤ inflightCount iv t} first last l) :
    IsGreatest
      {l : ℝ | ∃ u v, u ≤ v ∧ l = v - u ∧ ∀ t ∈ Ico u v, target ≤ inflightCount iv t} l := by
  have hcast : (first : ℝ) ≤ last := by exact_mod_cast hspan
  have hinside : ∀ t, target ≤ inflightCount iv t → t ∈ Ico (first : ℝ) last := by
    intro t ht
    by_contra hout
    have hzero := inflightCount_outside hfirst hlast hout
    omega
  obtain ⟨⟨u, v, -, huv, -, hl, hG⟩, hmax⟩ := h
  refine ⟨⟨u, v, huv, hl, hG⟩, ?_⟩
  rintro m ⟨u', v', huv', rfl, hG'⟩
  rcases huv'.eq_or_lt with rfl | hlt
  · rw [sub_self]
    exact hmax ⟨first, first, le_rfl, le_rfl, hcast, by ring, by simp⟩
  · have hu := (hinside u' (hG' u' ⟨le_rfl, hlt⟩)).1
    have hv : v' ≤ last := by
      by_contra hgt
      rw [not_le] at hgt
      have hmem : max u' last ∈ Ico u' v' := ⟨le_max_left _ _, max_lt hlt hgt⟩
      exact (hinside _ (hG' _ hmem)).2.not_ge (le_max_right _ _)
    exact hmax ⟨u', v', hu, huv', hv, rfl, hG'⟩

/-- The fractions of the report. -/
def timeFractions (s : SweepState) (span : ℚ) : List (ℤ × ℚ) :=
  (s.atLevel.insertionSort tupleLe).map fun p => (p.1, p.2 / span)

/-- There is a fraction for every level that takes time, and it is the time it takes. -/
theorem timeFractions_spec {first last : ℚ} {s : SweepState} (hspan : 0 < last - first)
    (htp : s.tPrev = last) (h : Swept (fun t => (inflightCount iv t : ℤ)) target first s) :
    (∀ p ∈ timeFractions s (last - first), 0 ≤ p.2) ∧
      (∀ k : ℤ, (∃ v, (k, v) ∈ timeFractions s (last - first)) ↔
        0 < volume.real {t | t ∈ Ico (first : ℝ) last ∧ (inflightCount iv t : ℤ) = k}) ∧
      (∀ (k : ℤ) (v : ℚ), (k, v) ∈ timeFractions s (last - first) →
        (v : ℝ) = volume.real {t | t ∈ Ico (first : ℝ) last ∧ (inflightCount iv t : ℤ) = k}
          / (last - first : ℚ)) ∧
      ((timeFractions s (last - first)).map Prod.snd).sum = 1 ∧
      ((timeFractions s (last - first)).map Prod.fst).Nodup := by
  have hperm := List.perm_insertionSort tupleLe s.atLevel
  have hmem : ∀ {k : ℤ} {v : ℚ},
      (k, v) ∈ timeFractions s (last - first) ↔
        ∃ w, (k, w) ∈ s.atLevel ∧ v = w / (last - first) := by
    intro k v
    rw [timeFractions, List.mem_map]
    constructor
    · rintro ⟨⟨j, w⟩, hw, heq⟩
      obtain ⟨rfl, rfl⟩ := Prod.mk.inj heq
      exact ⟨w, (List.mem_insertionSort _).1 hw, rfl⟩
    · rintro ⟨w, hw, rfl⟩
      exact ⟨(k, w), (List.mem_insertionSort _).2 hw, rfl⟩
  have hlevel : ∀ k, (levelTime s.atLevel k : ℝ)
      = volume.real {t | t ∈ Ico (first : ℝ) last ∧ (inflightCount iv t : ℤ) = k} := by
    intro k
    rw [h.level k, htp]
    rfl
  refine ⟨?_, ?_, ?_, ?_, ?_⟩
  · rintro ⟨k, v⟩ hp
    obtain ⟨w, hw, rfl⟩ := hmem.1 hp
    exact (div_pos (h.pos _ hw) hspan).le
  · intro k
    rw [← hlevel k]
    constructor
    · rintro ⟨v, hv⟩
      obtain ⟨w, hw, -⟩ := hmem.1 hv
      rw [levelTime_of_mem h.keys hw]
      exact_mod_cast h.pos _ hw
    · intro hpos
      by_contra hnone
      have hkey : k ∉ s.atLevel.map Prod.fst := by
        intro hk
        obtain ⟨⟨j, w⟩, hw, rfl⟩ := List.mem_map.1 hk
        exact hnone ⟨_, hmem.2 ⟨w, hw, rfl⟩⟩
      rw [levelTime_of_notMem hkey, Rat.cast_zero] at hpos
      exact lt_irrefl _ hpos
  · intro k v hv
    obtain ⟨w, hw, rfl⟩ := hmem.1 hv
    rw [← hlevel k, levelTime_of_mem h.keys hw, Rat.cast_div]
  · have htotal : ((s.atLevel.insertionSort tupleLe).map Prod.snd).sum = last - first := by
      rw [(hperm.map Prod.snd).sum_eq, h.total, htp]
    rw [timeFractions, List.map_map]
    calc ((s.atLevel.insertionSort tupleLe).map
      (Prod.snd ∘ fun p => (p.1, p.2 / (last - first)))).sum
        = ((s.atLevel.insertionSort tupleLe).map fun p => p.2 * (last - first)⁻¹).sum := rfl
      _ = (last - first) * (last - first)⁻¹ := by rw [List.sum_map_mul_right, htotal]
      _ = 1 := mul_inv_cancel₀ hspan.ne'
  · rw [timeFractions, List.map_map]
    exact (hperm.map Prod.fst).nodup_iff.2 h.keys

/-- The report of a list of request intervals is its overlap profile, in whatever order the rows
come. -/
theorem inflightConcurrency_profile (hne : iv ≠ []) (hiv : ∀ p ∈ iv, 0 < p.1 ∧ p.1 ≤ p.2)
    (htarget : 1 ≤ target) :
    ∃ report first last, IsLeast {a | ∃ p ∈ iv, a = p.1} first ∧
      IsGreatest {b | ∃ p ∈ iv, b = p.2} last ∧ report.measuredSpan = last - first ∧
      (∀ rows : List RequestRow, rows.Perm (iv.map fun p => ⟨some p.1, some p.2⟩) →
        inflightConcurrency rows target = some report) ∧
      IsGreatest (range fun t => (inflightCount iv t : ℤ)) report.observedMax ∧
      (report.allCTotal : ℝ) = volume.real {t | target ≤ inflightCount iv t} ∧
      IsGreatest {l : ℝ | ∃ u v, u ≤ v ∧ l = v - u ∧ ∀ t ∈ Ico u v, target ≤ inflightCount iv t}
        report.allCLongest ∧
      (0 < report.measuredSpan →
        (∀ p ∈ report.timeFraction, 0 ≤ p.2) ∧
        (∀ k : ℤ, (∃ v, (k, v) ∈ report.timeFraction) ↔
          0 < volume.real {t | t ∈ Ico (first : ℝ) last ∧ (inflightCount iv t : ℤ) = k}) ∧
        (∀ (k : ℤ) (v : ℚ), (k, v) ∈ report.timeFraction →
          (v : ℝ) = volume.real {t | t ∈ Ico (first : ℝ) last ∧ (inflightCount iv t : ℤ) = k}
            / report.measuredSpan) ∧
        (report.timeFraction.map Prod.snd).sum = 1 ∧ (report.timeFraction.map Prod.fst).Nodup) := by
  have hle : ∀ p ∈ iv, p.1 ≤ p.2 := fun p hp => (hiv p hp).2
  obtain ⟨first, last, s, hfirst, hlast, hs, htp, hleast, hgreatest, hc, hw⟩ :=
    sweepEvents_run hne hle target
  have hstart : ∀ p ∈ iv, first.1 ≤ p.1 := fun p hp => hleast.2 ⟨p, hp, rfl⟩
  have hend : ∀ p ∈ iv, p.2 ≤ last.1 := fun p hp => hgreatest.2 ⟨p, hp, rfl⟩
  have hspan : first.1 ≤ last.1 := htp ▸ hw.start_le
  refine ⟨{ observedMax := s.peak, allCTotal := s.allC, allCLongest := s.longest
            measuredSpan := last.1 - first.1
            timeFraction := if last.1 - first.1 ≠ 0 then timeFractions s (last.1 - first.1)
              else [] },
    first.1, last.1, hleast, hgreatest, rfl, ?_, peak_isGreatest hle hc, ?_, ?_, ?_⟩
  · intro rows hrows
    obtain ⟨iv', hperm, hrequest⟩ := requestIntervals_perm hiv hrows
    unfold inflightConcurrency
    rw [hrequest]
    change ((sweepEvents iv').head? >>= fun first => _) = _
    rw [sweepEvents_perm hperm, hfirst]
    change ((sweepEvents iv).getLast? >>= fun last => _) = _
    rw [hlast, ← hs]
    rfl
  · rw [← total_eq_volume htarget hstart hend, ← htp]
    exact hw.allC
  · refine stretch_isGreatest hspan htarget hstart hend ?_
    rw [← htp]
    exact hw.longest
  · intro hpos
    dsimp only
    rw [if_pos hpos.ne']
    exact timeFractions_spec hpos htp hw

end Report

/-- Two requests that overlap for half of the time and an empty one. -/
theorem inflightConcurrency_profile_three_rows :
    ∃ report, inflightConcurrency
        [⟨some 2, some 2⟩, ⟨some 1, some 3⟩, ⟨some 2, some 3⟩] 2 = some report ∧
      IsGreatest (range fun t => (inflightCount [(1, 3), (2, 3), (2, 2)] t : ℤ))
        report.observedMax ∧
      (report.allCTotal : ℝ) = volume.real {t | 2 ≤ inflightCount [(1, 3), (2, 3), (2, 2)] t} := by
  have hiv : ∀ p ∈ [((1 : ℚ), (3 : ℚ)), (2, 3), (2, 2)], 0 < p.1 ∧ p.1 ≤ p.2 := by
    intro p hp
    fin_cases hp <;> norm_num
  obtain ⟨report, first, last, -, -, -, hreport, hpeak, htotal, -⟩ :=
    inflightConcurrency_profile (List.cons_ne_nil _ _) hiv (show (1 : ℤ) ≤ 2 by decide)
  refine ⟨report, hreport _ ?_, hpeak, ?_⟩
  · decide
  · exact_mod_cast htotal

end RabitKV
