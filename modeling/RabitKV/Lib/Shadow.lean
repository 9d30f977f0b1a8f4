import RabitKV.Lib.Window

/-!
# A window with a private copy

A window is advanced in two ways. A batch works on the window itself. A single item, once the window
is full, works on a private copy that is taken from the window when there is none, and the window
then follows the copy. Batches do not tell the copy. So the copy lags behind after a batch, and the
next single item brings the lag into the window.

The run keeps to the plain batches exactly when no single item that made or used the copy is
followed by a batch and then by another single item (`run_plain`, `exists_run_ne`).
-/

namespace Window

open Chunks

/-- The window, the pages emitted so far and the private copy. -/
structure Copied (r b : ℕ) (τ ε : Type*) where
  pub : Win r b τ ε
  pages : List (List ε)
  copy : Option (Win r b τ ε)

variable {r b : ℕ} {τ ε : Type*} (age : τ → ε)

/-- The next window, the pages emitted on the way and the next copy. A single item at a full window
goes through the copy, where `one` ages the items, if copies are in use (`fast`). Anything else is a
batch past the copy. -/
def Copied.moved (one : τ → ε) (fast : Bool) (s : Copied r b τ ε) (ts : List τ) :
    Win r b τ ε × List (List ε) × Option (Win r b τ ε) :=
  if fast = true ∧ ts.length = 1 ∧ r ≤ s.pub.recent.length then
    (((s.copy.getD s.pub).batch one ts).1, ((s.copy.getD s.pub).batch one ts).2,
      some ((s.copy.getD s.pub).batch one ts).1)
  else
    ((s.pub.batch age ts).1, (s.pub.batch age ts).2, if ts.length = 1 then none else s.copy)

/-- One step of the window. -/
def Copied.step (one : τ → ε) (fast : Bool) (s : Copied r b τ ε) (ts : List τ) :
    Copied r b τ ε where
  pub := (s.moved age one fast ts).1
  pages := s.pages ++ (s.moved age one fast ts).2.1
  copy := (s.moved age one fast ts).2.2

/-- Copies are in use and age as the window does. -/
abbrev Copied.advance (s : Copied r b τ ε) (ts : List τ) : Copied r b τ ε := s.step age age true ts

/-- Steps from an empty window. -/
def Copied.run (hb : 0 < b) (steps : List (List τ)) : Copied r b τ ε :=
  steps.foldl (Copied.advance age) ⟨Win.empty hb, [], none⟩

/-- The state one batch of `ts` from an empty window leaves. -/
def Copied.Plain (hb : 0 < b) (s : Copied r b τ ε) (ts : List τ) : Prop :=
  (s.pub, s.pages) = (Win.empty hb : Win r b τ ε).batch age ts

/-- A one-item step at a context of `r` or more, a longer step after it, and a one-item step after
that. -/
def Interleaved (r : ℕ) (cut : List ℕ) : Prop :=
  ∃ k < cut.length, ∃ j < k, ∃ i < j, cut.getD i 0 = 1 ∧ r ≤ (cut.take i).sum ∧
    1 < cut.getD j 0 ∧ cut.getD k 0 = 1

instance (r : ℕ) (cut : List ℕ) : Decidable (Interleaved r cut) :=
  inferInstanceAs (Decidable (∃ k < cut.length, ∃ j < k, ∃ i < j, _ ∧ _ ∧ _ ∧ _))

section Cut

variable {cut : List ℕ}

theorem sum_take_le (cut : List ℕ) {i j : ℕ} (h : i ≤ j) : (cut.take i).sum ≤ (cut.take j).sum :=
  List.Sublist.sum_le_sum (List.take_sublist_take_left h) fun _ _ => Nat.zero_le _

/-- Between the closest such steps no step has one item. -/
theorem Interleaved.closest (h : Interleaved r cut) :
    ∃ k < cut.length, ∃ i, i + 1 < k ∧ cut.getD i 0 = 1 ∧ r ≤ (cut.take i).sum ∧
      cut.getD k 0 = 1 ∧ ∀ m, i < m → m < k → cut.getD m 0 ≠ 1 := by
  obtain ⟨k, hk, j, hjk, i, hij, hi, hr, hj, hk1⟩ := h
  induction hd : k - i using Nat.strong_induction_on generalizing i k with
  | _ d ih =>
    by_cases hall : ∀ m, i < m → m < k → cut.getD m 0 ≠ 1
    · exact ⟨k, hk, i, by omega, hi, hr, hk1, hall⟩
    · push Not at hall
      obtain ⟨m, him, hmk, hm⟩ := hall
      rcases Nat.lt_trichotomy m j with hlt | rfl | hgt
      · refine ih (k - m) (by omega) k hk hjk m hlt hm ?_ hk1 rfl
        exact hr.trans (sum_take_le cut him.le)
      · omega
      · exact ih (m - i) (by omega) m (by omega) hgt i hij hi hr hm rfl

end Cut

section Step

variable {hb : 0 < b} {s : Copied r b τ ε} {xs ts : List τ}

theorem Copied.moved_single {one : τ → ε} {fast : Bool}
    (h : fast = true ∧ ts.length = 1 ∧ r ≤ s.pub.recent.length) :
    s.moved age one fast ts = (((s.copy.getD s.pub).batch one ts).1,
      ((s.copy.getD s.pub).batch one ts).2, some ((s.copy.getD s.pub).batch one ts).1) :=
  if_pos h

theorem Copied.moved_batch {one : τ → ε} {fast : Bool}
    (h : ¬ (fast = true ∧ ts.length = 1 ∧ r ≤ s.pub.recent.length)) :
    s.moved age one fast ts
      = ((s.pub.batch age ts).1, (s.pub.batch age ts).2, if ts.length = 1 then none else s.copy) :=
  if_neg h

theorem Copied.advance_single (h : ts.length = 1 ∧ r ≤ s.pub.recent.length) :
    s.advance age ts = ⟨((s.copy.getD s.pub).batch age ts).1,
      s.pages ++ ((s.copy.getD s.pub).batch age ts).2,
      some ((s.copy.getD s.pub).batch age ts).1⟩ := by
  unfold Copied.advance Copied.step
  rw [Copied.moved_single age ⟨rfl, h⟩]

theorem Copied.advance_batch (h : ¬ (ts.length = 1 ∧ r ≤ s.pub.recent.length)) :
    s.advance age ts = ⟨(s.pub.batch age ts).1, s.pages ++ (s.pub.batch age ts).2,
      if ts.length = 1 then none else s.copy⟩ := by
  unfold Copied.advance Copied.step
  rw [Copied.moved_batch age fun hc => h hc.2]

theorem Copied.Plain.length_recent (h : s.Plain age hb xs) :
    s.pub.recent.length = min r xs.length := by
  have hpub := congrArg (fun p => p.1.recent.length) h
  simp only [Win.batch_recent, List.length_drop, Win.leaving, Win.empty, List.nil_append] at hpub
  omega

theorem Copied.Plain.batch (h : s.Plain age hb xs) (ts : List τ) :
    ((s.pub.batch age ts).1, s.pages ++ (s.pub.batch age ts).2)
      = (Win.empty hb : Win r b τ ε).batch age (xs ++ ts) := by
  have hpub : s.pub = ((Win.empty hb : Win r b τ ε).batch age xs).1 := congrArg Prod.fst h
  have hpages : s.pages = ((Win.empty hb : Win r b τ ε).batch age xs).2 := congrArg Prod.snd h
  rw [Win.batch_append, ← hpub, ← hpages]

/-- A step on an up-to-date copy, or on none, is a batch. -/
theorem Copied.Plain.advance (h : s.Plain age hb xs)
    (hcopy : ts.length = 1 → s.copy = none ∨ s.copy = some s.pub) :
    (s.advance age ts).Plain age hb (xs ++ ts) := by
  by_cases h1 : ts.length = 1 ∧ r ≤ s.pub.recent.length
  · rw [Copied.advance_single age h1]
    have hget : s.copy.getD s.pub = s.pub := by
      rcases hcopy h1.1 with hc | hc <;> rw [hc] <;> rfl
    rw [hget]
    exact h.batch age ts
  · rw [Copied.advance_batch age h1]
    exact h.batch age ts

theorem Copied.Plain.total (h : s.Plain age hb xs) :
    s.pages.length * b + s.pub.opened.length + s.pub.recent.length = xs.length := by
  have hpub : s.pub = ((Win.empty hb : Win r b τ ε).batch age xs).1 := congrArg Prod.fst h
  have hpages : s.pages = ((Win.empty hb : Win r b τ ε).batch age xs).2 := congrArg Prod.snd h
  have htotal := (Win.empty hb : Win r b τ ε).batch_total age xs
  rw [← hpub, ← hpages] at htotal
  rw [htotal]
  exact Nat.zero_add _

/-- A step from a plain state fits the blocks its items need. -/
theorem Copied.Plain.length_pages_advance (h : s.Plain age hb xs) (hts : ts ≠ []) {n : ℕ}
    (hn : xs.length + ts.length ≤ n * b) : (s.advance age ts).pages.length ≤ n := by
  have htotal := h.total
  have hlen := List.length_pos_of_ne_nil hts
  by_cases h1 : ts.length = 1 ∧ r ≤ s.pub.recent.length
  · have hone : ((s.copy.getD s.pub).batch age ts).2.length ≤ 1 := by
      have hopen := (s.copy.getD s.pub).opened_lt
      have hrec := (s.copy.getD s.pub).recent_le
      rw [Win.batch_pages, length_chunks, Win.length_entries, Win.leaving, List.length_append, h1.1]
      exact (Nat.div_le_div_right (by omega)).trans (Nat.div_self hb).le
    have hlt : s.pages.length < n := by
      refine Nat.lt_of_mul_lt_mul_right (a := b) ?_
      omega
    rw [Copied.advance_single age h1, List.length_append]
    omega
  · have hpages : (s.advance age ts).pages.length * b ≤ (xs ++ ts).length := by
      have hbatch : (s.advance age ts).Plain age hb (xs ++ ts) := by
        rw [Copied.advance_batch age h1]
        exact h.batch age ts
      have := hbatch.total
      omega
    rw [List.length_append] at hpages
    exact Nat.le_of_mul_le_mul_right (hpages.trans hn) hb

/-- A batch leaves the copy as it was. -/
theorem Copied.advance_copy_of_ne (h : ts.length ≠ 1) : (s.advance age ts).copy = s.copy := by
  rw [Copied.advance_batch age fun hc => h hc.1]
  exact if_neg h

/-- A single item at a full window leaves the copy and the window alike. -/
theorem Copied.advance_copy_of_full (h : ts.length = 1) (hfull : r ≤ s.pub.recent.length) :
    (s.advance age ts).copy = some (s.advance age ts).pub := by
  rw [Copied.advance_single age ⟨h, hfull⟩]

theorem Copied.advance_copy_of_short (h : ts.length = 1) (hshort : ¬ r ≤ s.pub.recent.length) :
    (s.advance age ts).copy = none := by
  rw [Copied.advance_batch age fun hc => hshort hc.2]
  exact if_pos h

theorem Copied.run_append (steps : List (List τ)) (ts : List τ) :
    Copied.run (r := r) age hb (steps ++ [ts]) = (Copied.run age hb steps).advance age ts := by
  rw [Copied.run, List.foldl_append]
  rfl

theorem Copied.run_take_succ (steps : List (List τ)) {k : ℕ} (hk : k < steps.length) :
    Copied.run (r := r) age hb (steps.take (k + 1))
      = (Copied.run age hb (steps.take k)).advance age steps[k] := by
  rw [← List.take_append_getElem hk, Copied.run_append]

end Step

section Run

variable {hb : 0 < b}

/-- A one-item step at a context of `r` or more has been made. -/
def Touched (r : ℕ) (cut : List ℕ) : Prop :=
  ∃ i < cut.length, cut.getD i 0 = 1 ∧ r ≤ (cut.take i).sum

/-- A longer step has followed it. -/
def Lags (r : ℕ) (cut : List ℕ) : Prop :=
  ∃ j < cut.length, ∃ i < j, cut.getD i 0 = 1 ∧ r ≤ (cut.take i).sum ∧ 1 < cut.getD j 0

theorem getD_append_left {cut more : List ℕ} {i : ℕ} (hi : i < cut.length) :
    (cut ++ more).getD i 0 = cut.getD i 0 := by
  rw [List.getD_append _ _ _ _ hi]

theorem getD_append_last (cut : List ℕ) (x : ℕ) : (cut ++ [x]).getD cut.length 0 = x := by
  rw [List.getD_append_right _ _ _ _ le_rfl, Nat.sub_self]
  rfl

theorem take_append_left {cut more : List ℕ} {i : ℕ} (hi : i ≤ cut.length) :
    (cut ++ more).take i = cut.take i := List.take_append_of_le_length hi

theorem Touched.append {cut : List ℕ} (h : Touched r cut) (x : ℕ) : Touched r (cut ++ [x]) := by
  obtain ⟨i, hi, h1, hr⟩ := h
  exact ⟨i, by rw [List.length_append]; omega, by rwa [getD_append_left hi],
    by rwa [take_append_left hi.le]⟩

theorem touched_last {cut : List ℕ} (h : r ≤ cut.sum) : Touched r (cut ++ [1]) :=
  ⟨cut.length, by simp, getD_append_last cut 1, by rwa [List.take_left]⟩

theorem Lags.append {cut : List ℕ} (h : Lags r cut) (x : ℕ) : Lags r (cut ++ [x]) := by
  obtain ⟨j, hj, i, hi, h1, hr, h2⟩ := h
  exact ⟨j, by rw [List.length_append]; omega, i, hi, by rwa [getD_append_left (by omega)],
    by rwa [take_append_left (by omega)], by rwa [getD_append_left hj]⟩

theorem Touched.lags {cut : List ℕ} (h : Touched r cut) {x : ℕ} (hx : 1 < x) :
    Lags r (cut ++ [x]) := by
  obtain ⟨i, hi, h1, hr⟩ := h
  exact ⟨cut.length, by simp, i, hi, by rwa [getD_append_left hi], by rwa [take_append_left hi.le],
    by rwa [getD_append_last]⟩

theorem Lags.interleaved {cut : List ℕ} (h : Lags r cut) : Interleaved r (cut ++ [1]) := by
  obtain ⟨j, hj, i, hi, h1, hr, h2⟩ := h
  exact ⟨cut.length, by simp, j, hj, i, hi, by rwa [getD_append_left (by omega)],
    by rwa [take_append_left (by omega)], by rwa [getD_append_left hj], getD_append_last cut 1⟩

theorem Interleaved.append {cut : List ℕ} (h : Interleaved r cut) (more : List ℕ) :
    Interleaved r (cut ++ more) := by
  obtain ⟨k, hk, j, hj, i, hi, h1, hr, h2, h3⟩ := h
  exact ⟨k, by rw [List.length_append]; omega, j, hj, i, hi, by rwa [getD_append_left (by omega)],
    by rwa [take_append_left (by omega)], by rwa [getD_append_left (by omega)],
    by rwa [getD_append_left hk]⟩

theorem Interleaved.take_mono {cut : List ℕ} {m k : ℕ} (hmk : m ≤ k)
    (h : Interleaved r (cut.take m)) : Interleaved r (cut.take k) := by
  have hsplit : cut.take k = cut.take m ++ (cut.drop m).take (k - m) := by
    rw [← List.take_add, Nat.add_sub_cancel' hmk]
  rw [hsplit]
  exact h.append _

theorem length_flatten_eq_sum (steps : List (List τ)) :
    steps.flatten.length = (steps.map List.length).sum := List.length_flatten

/-- Without interleaving the run is plain, and the copy is up to date until a longer step. -/
theorem Copied.run_plain (steps : List (List τ)) : (∀ ts ∈ steps, ts ≠ []) →
    ¬ Interleaved r (steps.map List.length) →
    (Copied.run age hb steps : Copied r b τ ε).Plain age hb steps.flatten ∧
      ((Copied.run age hb steps : Copied r b τ ε).copy = none ∨
        ((Copied.run age hb steps : Copied r b τ ε).copy = some (Copied.run age hb steps).pub ∧
          Touched r (steps.map List.length)) ∨
        Lags r (steps.map List.length)) := by
  induction steps using List.reverseRecOn with
  | nil =>
    intro _ _
    exact ⟨(Win.batch_nil age _).symm, Or.inl rfl⟩
  | append_singleton steps ts ih =>
    intro hpos hint
    have hts : ts ≠ [] := hpos ts (by simp)
    rw [List.map_append, List.map_singleton] at hint ⊢
    obtain ⟨hplain, hcopy⟩ := ih (fun t ht => hpos t (by simp [ht])) fun h => hint (h.append _)
    have hclean : ts.length = 1 → (Copied.run age hb steps : Copied r b τ ε).copy = none ∨
        (Copied.run age hb steps : Copied r b τ ε).copy = some (Copied.run age hb steps).pub := by
      intro h1
      rcases hcopy with h | ⟨h, -⟩ | h
      · exact Or.inl h
      · exact Or.inr h
      · rw [h1] at hint
        exact absurd h.interleaved hint
    rw [Copied.run_append, List.flatten_append, List.flatten_singleton]
    refine ⟨hplain.advance age hclean, ?_⟩
    by_cases h1 : ts.length = 1
    · by_cases hfull : r ≤ (Copied.run age hb steps : Copied r b τ ε).pub.recent.length
      · refine Or.inr (Or.inl ⟨Copied.advance_copy_of_full age h1 hfull, ?_⟩)
        rw [hplain.length_recent, length_flatten_eq_sum] at hfull
        rw [h1]
        exact touched_last (by omega)
      · exact Or.inl (Copied.advance_copy_of_short age h1 hfull)
    · have hlong : 1 < ts.length := by
        have := List.length_pos_of_ne_nil hts
        omega
      rw [Copied.advance_copy_of_ne age h1]
      rcases hcopy with h | ⟨-, h⟩ | h
      · exact Or.inl h
      · exact Or.inr (Or.inr (h.lags hlong))
      · exact Or.inr (Or.inr (h.append _))

/-- The first single item that meets a lagging copy, and the last one the copy has seen. -/
theorem Interleaved.first {cut : List ℕ} (hpos : ∀ q ∈ cut, 0 < q) (h : Interleaved r cut) :
    ∃ k < cut.length, ¬ Interleaved r (cut.take k) ∧ cut.getD k 0 = 1 ∧ ∃ i, i + 1 < k ∧
      cut.getD i 0 = 1 ∧ r ≤ (cut.take i).sum ∧ ∀ m, i < m → m < k → cut.getD m 0 ≠ 1 := by
  induction cut using List.reverseRecOn with
  | nil =>
    obtain ⟨k, hk, -⟩ := h
    cases hk
  | append_singleton cut x ih =>
    by_cases hcut : Interleaved r cut
    · obtain ⟨k, hk, hnot, hk1, i, hik, hi, hr, hall⟩ :=
        ih (fun q hq => hpos q (by simp [hq])) hcut
      refine ⟨k, by rw [List.length_append]; omega, by rwa [take_append_left hk.le],
        by rwa [getD_append_left hk], i, hik, by rwa [getD_append_left (by omega)],
        by rwa [take_append_left (by omega)], fun m h1 h2 => ?_⟩
      rw [getD_append_left (by omega)]
      exact hall m h1 h2
    · obtain ⟨k, hk, i, hik, hi, hr, hk1, hall⟩ := h.closest
      have hlast : k = cut.length := by
        rw [List.length_append, List.length_singleton] at hk
        by_contra hne
        refine hcut ⟨k, by omega, i + 1, hik, i, by omega, ?_, ?_, ?_, ?_⟩
        · rwa [getD_append_left (by omega)] at hi
        · rwa [take_append_left (by omega)] at hr
        · have hlt : i + 1 < cut.length := by omega
          have hne1 := hall (i + 1) (by omega) hik
          rw [getD_append_left hlt] at hne1
          have hmem : cut.getD (i + 1) 0 ∈ cut := by
            rw [List.getD_eq_getElem _ _ hlt]
            exact List.getElem_mem hlt
          have := hpos _ (List.mem_append_left _ hmem)
          omega
        · rwa [getD_append_left (by omega)] at hk1
      subst hlast
      refine ⟨cut.length, hk, by rwa [List.take_left], hk1, i, hik, hi, hr, hall⟩

/-- Longer steps leave the copy as it was. -/
theorem Copied.run_copy_eq (steps : List (List τ)) {i k : ℕ} (hik : i ≤ k) (hk : k ≤ steps.length)
    (hall : ∀ m, i ≤ m → m < k → (steps.map List.length).getD m 0 ≠ 1) :
    (Copied.run age hb (steps.take k) : Copied r b τ ε).copy
      = (Copied.run age hb (steps.take i) : Copied r b τ ε).copy := by
  induction k, hik using Nat.le_induction with
  | base => rfl
  | succ k hle ih =>
    have hne := hall k hle (by omega)
    rw [List.getD_eq_getElem _ _ (by rw [List.length_map]; omega), List.getElem_map] at hne
    rw [Copied.run_take_succ age steps (by omega), Copied.advance_copy_of_ne age hne]
    exact ih (by omega) fun m h1 h2 => hall m h1 (by omega)

theorem length_take_flatten (steps : List (List τ)) (k : ℕ) :
    (steps.take k).flatten.length = ((steps.map List.length).take k).sum := by
  rw [List.length_flatten, List.map_take]

theorem Copied.run_take_plain {steps : List (List τ)} (hpos : ∀ ts ∈ steps, ts ≠ []) {k : ℕ}
    (hnot : ¬ Interleaved r ((steps.map List.length).take k)) {m : ℕ} (hm : m ≤ k) :
    (Copied.run age hb (steps.take m) : Copied r b τ ε).Plain age hb (steps.take m).flatten := by
  refine (Copied.run_plain age _ (fun ts h => hpos ts (List.mem_of_mem_take h)) fun h => hnot ?_).1
  rw [List.map_take] at h
  exact h.take_mono hm

/-- The single item works on the window as it was before the longer steps. -/
theorem Copied.run_stale {steps : List (List τ)} {k i : ℕ} (hk : k < steps.length)
    (hpos : ∀ ts ∈ steps, ts ≠ []) (hnot : ¬ Interleaved r ((steps.map List.length).take k))
    (hk1 : steps[k].length = 1) (hik : i + 1 < k)
    (hi : (steps.map List.length).getD i 0 = 1) (hr : r ≤ ((steps.map List.length).take i).sum)
    (hall : ∀ m, i < m → m < k → (steps.map List.length).getD m 0 ≠ 1) :
    (Copied.run age hb (steps.take (k + 1)) : Copied r b τ ε).pub
      = ((Win.empty hb : Win r b τ ε).batch age ((steps.take (i + 1)).flatten ++ steps[k])).1 := by
  have hplain : ∀ m ≤ k, (Copied.run age hb (steps.take m) : Copied r b τ ε).Plain age hb
      (steps.take m).flatten := fun m hm => Copied.run_take_plain age hpos hnot hm
  have hilt : i < steps.length := by omega
  have hi1 : steps[i].length = 1 := by
    rwa [List.getD_eq_getElem _ _ (by rw [List.length_map]; omega), List.getElem_map] at hi
  have hfull : ∀ m, i ≤ m → m ≤ k →
      r ≤ (Copied.run age hb (steps.take m) : Copied r b τ ε).pub.recent.length := by
    intro m him hmk
    rw [(hplain m hmk).length_recent, length_take_flatten]
    have hle := sum_take_le (steps.map List.length) him
    omega
  have hcopy : (Copied.run age hb (steps.take k) : Copied r b τ ε).copy
      = some ((Win.empty hb : Win r b τ ε).batch age (steps.take (i + 1)).flatten).1 := by
    rw [Copied.run_copy_eq age steps hik.le hk.le fun m h1 h2 => hall m (by omega) h2]
    have hpub := congrArg Prod.fst (hplain (i + 1) (by omega))
    rw [Copied.run_take_succ age steps hilt] at hpub ⊢
    rw [Copied.advance_copy_of_full age hi1 (hfull i le_rfl (by omega))]
    exact congrArg some hpub
  rw [Copied.run_take_succ age steps hk, Win.batch_append]
  rw [Copied.advance_single age ⟨hk1, hfull k (by omega) le_rfl⟩, hcopy]
  rfl

/-- Item `n - 2` from the front of a full window of `n` items or more is the last but one. -/
theorem Win.recent_last_but_one {xs : List τ} (hr : 2 ≤ r) (hlen : r ≤ xs.length) :
    ((Win.empty hb : Win r b τ ε).batch age xs).1.recent[r - 2]? = xs[xs.length - 2]? := by
  have hleave : (Win.empty hb : Win r b τ ε).leaving xs = xs.length - r := rfl
  have hrecent : ((Win.empty hb : Win r b τ ε).batch age xs).1.recent
    = xs.drop (xs.length - r) := by
    rw [Win.batch_recent, hleave]
    rfl
  rw [hrecent, List.getElem?_drop, show xs.length - r + (r - 2) = xs.length - 2 by omega]

theorem flatten_splitLengths_eq_take : ∀ (cut : List ℕ) (xs : List τ),
    (cut.splitLengths xs).flatten = xs.take cut.sum
  | [], xs => by simp
  | n :: cut, xs => by
    rw [List.splitLengths_cons, List.flatten_cons, flatten_splitLengths_eq_take cut, List.sum_cons,
      List.take_add]

theorem sum_take_le_sum (cut : List ℕ) (i : ℕ) : (cut.take i).sum ≤ cut.sum :=
  List.Sublist.sum_le_sum (List.take_sublist i cut) fun _ _ => Nat.zero_le _

theorem sum_take_succ_getD {cut : List ℕ} {i : ℕ} (hi : i < cut.length) :
    (cut.take (i + 1)).sum = (cut.take i).sum + cut.getD i 0 := by
  rw [List.sum_take_succ cut i hi, List.getD_eq_getElem _ _ hi]

variable (hb) in
/-- An interleaved cut has items for which the run parts from the plain batches. -/
theorem Copied.exists_run_ne {cut : List ℕ} (hr : 2 ≤ r) (hpos : ∀ q ∈ cut, 0 < q)
    (h : Interleaved r cut) (a c : τ) :
    ∃ steps : List (List τ), steps.map List.length = cut ∧ ∃ k < steps.length,
      (∀ m ≤ k, (Copied.run age hb (steps.take m) : Copied r b τ ε).Plain age hb
        (steps.take m).flatten) ∧
      (Copied.run age hb (steps.take (k + 1)) : Copied r b τ ε).pub.recent[r - 2]? = some a ∧
      ((Win.empty hb : Win r b τ ε).batch age (steps.take (k + 1)).flatten).1.recent[r - 2]?
        = some c := by
  obtain ⟨k, hk, hnot, hk1, i, hik, hi, hir, hall⟩ := h.first hpos
  have hnext : 0 < cut.getD (i + 1) 0 := by
    rw [List.getD_eq_getElem _ _ (by omega)]
    exact hpos _ (List.getElem_mem _)
  have hsumi := sum_take_succ_getD (show i < cut.length by omega)
  have hsumi' := sum_take_succ_getD (show i + 1 < cut.length by omega)
  have hsumk := sum_take_succ_getD hk
  have hmid := sum_take_le cut (show i + 1 + 1 ≤ k from hik)
  have htot := sum_take_le_sum cut (k + 1)
  obtain ⟨e, he⟩ : ∃ e, e = (cut.take (i + 1)).sum := ⟨_, rfl⟩
  -- the copy has seen only `a`, everything after it is `c`
  obtain ⟨xs, hxs⟩ : ∃ xs, xs = List.replicate e a ++ List.replicate (cut.sum - e) c := ⟨_, rfl⟩
  have hlen : xs.length = cut.sum := by
    rw [hxs, List.length_append, List.length_replicate, List.length_replicate]
    omega
  have hmap : (cut.splitLengths xs).map List.length = cut :=
    List.map_splitLengths_length _ _ hlen.ge
  have hflat : ∀ m, ((cut.splitLengths xs).take m).flatten = xs.take (cut.take m).sum := fun m => by
    rw [List.take_splitLength, flatten_splitLengths_eq_take]
  have hk' : k < (cut.splitLengths xs).length := by rwa [List.length_splitLengths]
  have hstep : (cut.splitLengths xs)[k].length = 1 := by
    have hget := congrArg (fun l => l.getD k 0) hmap
    rwa [List.getD_eq_getElem _ _ (by rwa [List.length_map]), List.getElem_map, hk1] at hget
  have hne : ∀ ts ∈ cut.splitLengths xs, ts ≠ [] := by
    intro ts hts hnil
    have hmem : ts.length ∈ cut := hmap ▸ List.mem_map_of_mem hts
    have := hpos _ hmem
    rw [hnil] at this
    cases this
  refine ⟨cut.splitLengths xs, hmap, k, hk', fun m hm => ?_, ?_, ?_⟩
  · exact Copied.run_take_plain age hne (by rwa [hmap]) hm
  · rw [Copied.run_stale age hk' hne (by rwa [hmap]) hstep hik (by rwa [hmap]) (by rwa [hmap])
      (by rwa [hmap]), hflat, Win.recent_last_but_one age hr]
    · rw [List.length_append, List.length_take, hstep, hlen, List.getElem?_append_left,
        List.getElem?_take_of_lt (by omega), hxs, List.getElem?_append_left,
          List.getElem?_replicate,
        if_pos (by omega)]
      · rw [List.length_replicate]
        omega
      · rw [List.length_take]
        omega
    · rw [List.length_append, List.length_take, hstep]
      omega
  · rw [hflat, Win.recent_last_but_one age hr]
    · rw [List.length_take, hlen, List.getElem?_take_of_lt (by omega), hxs,
        List.getElem?_append_right, List.length_replicate, List.getElem?_replicate,
        if_pos (by omega)]
      rw [List.length_replicate]
      omega
    · rw [List.length_take]
      omega

end Run

end Window
