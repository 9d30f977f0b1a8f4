import RabitKV.Lib.Chunks

/-!
# A residual window that fills pages

The newest `r` items wait in a window. An item that leaves the window is aged and joins the open
group; when the open group has `b` entries it is emitted as a page. `step` takes one item, `batch`
any number at once. They agree (`run_eq_batch`), and batches compose (`batch_append`).
-/

namespace Window

open Chunks

/-- The open group and the waiting items; a full group or an overfull window cannot be built. -/
@[ext]
structure Win (r b : ℕ) (τ ε : Type*) where
  opened : List ε
  recent : List τ
  opened_lt : opened.length < b
  recent_le : recent.length ≤ r

variable {r b : ℕ} {τ ε : Type*} (age : τ → ε)

/-- Nothing waiting, nothing open. -/
def Win.empty (hb : 0 < b) : Win r b τ ε := ⟨[], [], by simpa using hb, by simp⟩

/-- How many items leave the window when `ts` enter. -/
def Win.leaving (w : Win r b τ ε) (ts : List τ) : ℕ := (w.recent ++ ts).length - r

/-- The open group and every entry that joins it when `ts` enter. -/
def Win.entries (w : Win r b τ ε) (ts : List τ) : List ε :=
  w.opened ++ ((w.recent ++ ts).take (w.leaving ts)).map age

/-- All of `ts` at once: the window left behind and the pages emitted. -/
def Win.batch (w : Win r b τ ε) (ts : List τ) : Win r b τ ε × List (List ε) :=
  ({ opened := (w.entries age ts).drop ((w.entries age ts).length / b * b)
     recent := (w.recent ++ ts).drop (w.leaving ts)
     opened_lt := by
      have hb : 0 < b := Nat.lt_of_le_of_lt (Nat.zero_le _) w.opened_lt
      have hmod := Nat.div_add_mod' (w.entries age ts).length b
      have hlt := Nat.mod_lt (w.entries age ts).length hb
      rw [List.length_drop]
      omega
     recent_le := by
      rw [List.length_drop, Win.leaving]
      omega },
   chunks b (w.entries age ts))

theorem Win.length_take_one (w : Win r b τ ε) (t : τ) :
    (w.opened ++ ((w.recent ++ [t]).take 1).map age).length = w.opened.length + 1 := by
  simp

/-- One item. -/
def Win.step (w : Win r b τ ε) (t : τ) : Win r b τ ε × List (List ε) :=
  if hr : (w.recent ++ [t]).length ≤ r then
    ({ w with recent := w.recent ++ [t], recent_le := hr }, [])
  else
    have hrest : ((w.recent ++ [t]).drop 1).length ≤ r := by
      have := w.recent_le
      rw [List.length_drop, List.length_append, List.length_singleton]
      omega
    if hb : (w.opened ++ ((w.recent ++ [t]).take 1).map age).length = b then
      ({ opened := [], recent := (w.recent ++ [t]).drop 1, recent_le := hrest
         opened_lt := by rw [← hb, w.length_take_one]; simp },
       [w.opened ++ ((w.recent ++ [t]).take 1).map age])
    else
      ({ opened := w.opened ++ ((w.recent ++ [t]).take 1).map age
         recent := (w.recent ++ [t]).drop 1, recent_le := hrest
         opened_lt := by
          have := w.opened_lt
          rw [w.length_take_one] at hb ⊢
          omega }, [])

/-- Items one at a time. -/
def Win.run (w : Win r b τ ε) : List τ → Win r b τ ε × List (List ε)
  | [] => (w, [])
  | t :: ts => (((w.step age t).1.run ts).1, (w.step age t).2 ++ ((w.step age t).1.run ts).2)

theorem Win.pos (w : Win r b τ ε) : 0 < b := Nat.lt_of_le_of_lt (Nat.zero_le _) w.opened_lt

section

variable (w : Win r b τ ε) (ts us : List τ)

theorem Win.leaving_le : w.leaving ts ≤ (w.recent ++ ts).length := Nat.sub_le _ _

theorem Win.length_entries :
    (w.entries age ts).length = w.opened.length + w.leaving ts := by
  have := w.leaving_le ts
  rw [Win.entries, List.length_append, List.length_map, List.length_take]
  omega

@[simp] theorem Win.batch_recent :
    (w.batch age ts).1.recent = (w.recent ++ ts).drop (w.leaving ts) :=
  rfl

@[simp] theorem Win.batch_opened :
    (w.batch age ts).1.opened = (w.entries age ts).drop ((w.entries age ts).length / b * b) :=
  rfl

@[simp] theorem Win.batch_pages : (w.batch age ts).2 = chunks b (w.entries age ts) := rfl

theorem Win.leaving_append :
    w.leaving (ts ++ us) = w.leaving ts + (w.batch age ts).1.leaving us := by
  simp only [Win.leaving, Win.batch_recent, List.length_append, List.length_drop]
  omega

/-- The entries after both batches are the pages of the first and the entries of the second. -/
theorem Win.entries_append :
    w.entries age (ts ++ us) = (w.entries age ts).take ((w.entries age ts).length / b * b)
      ++ (w.batch age ts).1.entries age us := by
  have hsplit : (w.recent ++ (ts ++ us)).take (w.leaving (ts ++ us))
      = (w.recent ++ ts).take (w.leaving ts)
        ++ ((w.batch age ts).1.recent ++ us).take ((w.batch age ts).1.leaving us) := by
    rw [w.leaving_append age ts us, ← List.append_assoc, Win.batch_recent]
    nth_rewrite 1 [← List.take_append_drop (w.leaving ts) (w.recent ++ ts)]
    rw [List.append_assoc, List.take_append, List.length_take,
      Nat.min_eq_left (w.leaving_le ts), Nat.add_sub_cancel_left,
      List.take_of_length_le (by rw [List.length_take]; omega)]
  calc w.entries age (ts ++ us)
      = w.entries age ts
          ++ (((w.batch age ts).1.recent ++ us).take ((w.batch age ts).1.leaving us)).map age := by
        rw [Win.entries, hsplit, List.map_append, ← List.append_assoc, Win.entries]
    _ = (w.entries age ts).take ((w.entries age ts).length / b * b)
          ++ ((w.batch age ts).1.opened
            ++ (((w.batch age ts).1.recent ++ us).take
              ((w.batch age ts).1.leaving us)).map age) := by
        rw [Win.batch_opened, ← List.append_assoc, List.take_append_drop]

theorem Win.leaving_take {m : ℕ} (hm : m ≤ ts.length) :
    w.leaving (ts.take m) = w.recent.length + m - r := by
  rw [Win.leaving, List.length_append, List.length_take, Nat.min_eq_left hm]

/-- The entries of a prefix are a prefix of the entries. -/
theorem Win.entries_take {m : ℕ} (hm : m ≤ ts.length) :
    w.entries age (ts.take m)
      = (w.entries age ts).take (w.opened.length + w.leaving (ts.take m)) := by
  have hprefix : w.recent ++ ts.take m = (w.recent ++ ts).take (w.recent.length + m) := by
    rw [List.take_length_add_append]
  have hle : w.leaving (ts.take m) ≤ w.leaving ts := by
    rw [w.leaving_take ts hm, Win.leaving, List.length_append]
    omega
  have hlt : w.leaving (ts.take m) ≤ w.recent.length + m := by
    rw [w.leaving_take ts hm]
    omega
  rw [Win.entries, Win.entries, List.take_length_add_append, ← List.map_take, List.take_take,
    Nat.min_eq_left hle, hprefix, List.take_take, Nat.min_eq_left hlt]

section Full

variable {w} {t₀ : τ} {rest : List τ} (hw : w.recent = t₀ :: rest) (hfull : w.recent.length = r)
  (t : τ)

include hfull in
theorem Win.leaving_full : w.leaving [t] = 1 := by
  rw [Win.leaving, List.length_append, List.length_singleton, hfull, Nat.add_sub_cancel_left]

include hw hfull in
/-- An item that enters a full window pushes the oldest one out. -/
theorem Win.entries_full : w.entries age [t] = w.opened ++ [age t₀] := by
  rw [Win.entries, Win.leaving_full hfull t, hw]
  rfl

include hw hfull in
theorem Win.batch_recent_full : (w.batch age [t]).1.recent = rest ++ [t] := by
  rw [Win.batch_recent, Win.leaving_full hfull t, hw]
  rfl

end Full

theorem Win.length_take_entries :
    ((w.entries age ts).take ((w.entries age ts).length / b * b)).length
      = (w.entries age ts).length / b * b := by
  rw [List.length_take, Nat.min_eq_left (Nat.div_mul_le_self _ _)]

/-- Two batches are one batch. -/
theorem Win.batch_append :
    w.batch age (ts ++ us) = (((w.batch age ts).1.batch age us).1,
      (w.batch age ts).2 ++ ((w.batch age ts).1.batch age us).2) := by
  have hlen := w.length_take_entries age ts
  have hdvd : b ∣ ((w.entries age ts).take ((w.entries age ts).length / b * b)).length := by
    rw [hlen]
    exact Nat.dvd_mul_left _ _
  refine Prod.ext (Win.ext ?_ ?_) ?_
  · rw [Win.batch_opened, Win.batch_opened, w.entries_append age, List.length_append, hlen,
      Nat.add_comm, Nat.add_mul_div_right _ _ w.pos, Nat.add_mul, Nat.add_comm, ← List.drop_drop,
      List.drop_left' hlen]
  · rw [Win.batch_recent, Win.batch_recent, Win.batch_recent, w.leaving_append age,
      ← List.drop_drop,
      ← List.append_assoc, List.drop_append_of_le_length (w.leaving_le ts)]
  · rw [Win.batch_pages, Win.batch_pages, Win.batch_pages, w.entries_append age,
      chunks_append w.pos hdvd]
    congr 1
    have hrest : ((w.entries age ts).drop ((w.entries age ts).length / b * b)).length < b :=
      (w.batch age ts).1.opened_lt
    nth_rewrite 3 [← List.take_append_drop ((w.entries age ts).length / b * b) (w.entries age ts)]
    rw [chunks_append w.pos hdvd, chunks_of_lt hrest, List.append_nil]

/-- Nothing is lost: every entry and item is in a page, in the open group or waiting. -/
theorem Win.batch_total :
    (w.batch age ts).2.length * b + (w.batch age ts).1.opened.length
        + (w.batch age ts).1.recent.length = w.opened.length + w.recent.length + ts.length := by
  have hent := w.length_entries age ts
  have hle := w.leaving_le ts
  have hdiv := Nat.div_mul_le_self (w.entries age ts).length b
  rw [Win.batch_pages, length_chunks, Win.batch_opened, Win.batch_recent, List.length_drop,
    List.length_drop]
  rw [List.length_append] at hle ⊢
  omega

theorem Win.batch_nil : w.batch age [] = (w, []) := by
  have hleave : w.leaving [] = 0 := by
    have := w.recent_le
    rw [Win.leaving, List.append_nil]
    omega
  have hent : w.entries age [] = w.opened := by
    rw [Win.entries, hleave, List.take_zero, List.map_nil, List.append_nil]
  refine Prod.ext (Win.ext ?_ ?_) ?_
  · rw [Win.batch_opened, hent, Nat.div_eq_of_lt w.opened_lt, Nat.zero_mul, List.drop_zero]
  · rw [Win.batch_recent, hleave, List.append_nil, List.drop_zero]
  · rw [Win.batch_pages, hent, chunks_of_lt w.opened_lt]

/-- One item is a batch of one. -/
theorem Win.step_eq_batch (t : τ) : w.step age t = w.batch age [t] := by
  have hrec := w.recent_le
  have hopen := w.opened_lt
  have hlen : (w.recent ++ [t]).length = w.recent.length + 1 := by simp
  unfold Win.step
  split_ifs with hr hb
  · have hleave : w.leaving [t] = 0 := by rw [Win.leaving]; omega
    have hent : w.entries age [t] = w.opened := by
      rw [Win.entries, hleave, List.take_zero, List.map_nil, List.append_nil]
    refine Prod.ext (Win.ext ?_ ?_) ?_
    · rw [Win.batch_opened, hent, Nat.div_eq_of_lt hopen, Nat.zero_mul, List.drop_zero]
    · rw [Win.batch_recent, hleave, List.drop_zero]
    · rw [Win.batch_pages, hent, chunks_of_lt hopen]
  all_goals
    have hleave : w.leaving [t] = 1 := by rw [Win.leaving]; omega
    have hent : w.entries age [t] = w.opened ++ ((w.recent ++ [t]).take 1).map age := by
      rw [Win.entries, hleave]
  · refine Prod.ext (Win.ext ?_ ?_) ?_
    · rw [Win.batch_opened, hent, hb, Nat.div_self w.pos, Nat.one_mul, List.drop_of_length_le hb.le]
    · rw [Win.batch_recent, hleave]
    · rw [Win.batch_pages, hent, chunks_of_length w.pos hb]
  · have hlt : (w.opened ++ ((w.recent ++ [t]).take 1).map age).length < b := by
      rw [w.length_take_one] at hb ⊢
      omega
    refine Prod.ext (Win.ext ?_ ?_) ?_
    · rw [Win.batch_opened, hent, Nat.div_eq_of_lt hlt, Nat.zero_mul, List.drop_zero]
    · rw [Win.batch_recent, hleave]
    · rw [Win.batch_pages, hent, chunks_of_lt hlt]

/-- One item closes at most one page. -/
theorem Win.step_pages (t : τ) :
    (w.step age t).2 = [] ∨ ∃ es, (w.step age t).2 = [es] ∧ es.length = b := by
  unfold Win.step
  split_ifs with hr hb
  · exact Or.inl rfl
  · exact Or.inr ⟨_, rfl, hb⟩
  · exact Or.inl rfl

end

/-- Items one at a time are one batch. -/
theorem Win.run_eq_batch : ∀ (ts : List τ) (w : Win r b τ ε), w.run age ts = w.batch age ts
  | [], w => (w.batch_nil age).symm
  | t :: ts, w => by
    rw [Win.run, w.step_eq_batch, run_eq_batch ts]
    exact (w.batch_append age [t] ts).symm

end Window
