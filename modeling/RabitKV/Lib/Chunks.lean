import Mathlib

/-!
# Lists cut into groups of one length

`chunks n l` is `l` read as a two-dimensional row-major array with rows of `n`: row `i` is the
`n` entries from position `i * n` on. A cut at a multiple of `n` cuts the rows too
(`chunks_append`), so whatever is computed row by row can be computed on the two parts
separately. Lists of rows of one length are read back by position with `getElem?_flatMap`.
-/

namespace Chunks

variable {α β : Type*}

/-- The full rows of length `n` of a list, in order. -/
def chunks (n : ℕ) (l : List α) : List (List α) :=
  (List.range (l.length / n)).map fun i => (l.drop (i * n)).take n

/-- The least number that completes `k` to a multiple of `n`. -/
def padTo (n k : ℕ) : ℕ := (n - k % n) % n

theorem padTo_dvd {n : ℕ} (hn : 0 < n) (k : ℕ) : n ∣ k + padTo n k := by
  unfold padTo
  have hlt := Nat.mod_lt k hn
  have hdiv := Nat.div_add_mod k n
  by_cases h0 : k % n = 0
  · simp only [h0, Nat.sub_zero, Nat.mod_self, Nat.add_zero]
    exact Nat.dvd_of_mod_eq_zero h0
  · rw [Nat.mod_eq_of_lt (by omega)]
    exact ⟨k / n + 1, by rw [Nat.mul_succ]; omega⟩

theorem padTo_eq_zero {n k : ℕ} (h : n ∣ k) : padTo n k = 0 := by
  simp [padTo, Nat.mod_eq_zero_of_dvd h]

theorem padTo_lt {n : ℕ} (hn : 0 < n) (k : ℕ) : padTo n k < n := Nat.mod_lt _ hn

theorem padTo_add_of_dvd {n a : ℕ} (h : n ∣ a) (b : ℕ) : padTo n (a + b) = padTo n b := by
  obtain ⟨c, rfl⟩ := h
  simp [padTo]

/-- Completing to a multiple rounds the quotient up. -/
theorem add_padTo_div {n : ℕ} (hn : 0 < n) (k : ℕ) :
    (k + padTo n k) / n = (k + n - 1) / n := by
  obtain ⟨c, hc⟩ := padTo_dvd hn k
  have hlt := padTo_lt hn k
  rw [hc, Nat.mul_div_cancel_left _ hn]
  symm
  rw [Nat.div_eq_iff hn]
  have : c * n = n * c := Nat.mul_comm _ _
  omega

@[simp] theorem length_chunks (n : ℕ) (l : List α) : (chunks n l).length = l.length / n := by
  simp [chunks]

@[simp] theorem chunks_nil (n : ℕ) : chunks n ([] : List α) = [] := by
  simp [chunks]

theorem getElem?_chunks {n : ℕ} {l : List α} {i : ℕ} (h : i < l.length / n) :
    (chunks n l)[i]? = some ((l.drop (i * n)).take n) := by
  simp [chunks, h]

theorem mem_of_mem_chunks {n : ℕ} {l g : List α} (h : g ∈ chunks n l) {x : α} (hx : x ∈ g) :
    x ∈ l := by
  obtain ⟨i, -, rfl⟩ := List.mem_map.1 h
  exact List.mem_of_mem_drop (List.mem_of_mem_take hx)

theorem length_of_mem_chunks {n : ℕ} {l g : List α} (h : g ∈ chunks n l) : g.length = n := by
  simp only [chunks, List.mem_map, List.mem_range] at h
  obtain ⟨i, hi, rfl⟩ := h
  have h1 : (i + 1) * n ≤ l.length / n * n := Nat.mul_le_mul_right n hi
  have h2 := Nat.div_mul_le_self l.length n
  rw [Nat.succ_mul] at h1
  simp only [List.length_take, List.length_drop]
  omega

/-- A list of one row is its own only chunk. -/
theorem chunks_of_length {n : ℕ} (hn : 0 < n) {l : List α} (h : l.length = n) :
    chunks n l = [l] := by
  simp [chunks, h, Nat.div_self hn]

theorem chunks_of_lt {n : ℕ} {l : List α} (h : l.length < n) : chunks n l = [] := by
  simp [chunks, Nat.div_eq_of_lt h]

/-- A cut at a multiple of the row length cuts the rows. -/
theorem chunks_append {n : ℕ} (hn : 0 < n) {xs : List α} (h : n ∣ xs.length) (ys : List α) :
    chunks n (xs ++ ys) = chunks n xs ++ chunks n ys := by
  obtain ⟨c, hc⟩ := h
  have hlen : (xs ++ ys).length / n = c + ys.length / n := by
    rw [List.length_append, hc, Nat.mul_add_div hn]
  have hxs : xs.length / n = c := by rw [hc, Nat.mul_div_cancel_left _ hn]
  unfold chunks
  rw [hlen, hxs, List.range_add, List.map_append, List.map_map]
  congr 1
  · refine List.map_congr_left fun i hi => ?_
    have h1 : (i + 1) * n ≤ c * n := Nat.mul_le_mul_right n (List.mem_range.1 hi)
    rw [Nat.succ_mul, Nat.mul_comm c n, ← hc] at h1
    rw [List.drop_append_of_le_length (by omega), List.take_append_of_le_length]
    simp only [List.length_drop]
    omega
  · refine List.map_congr_left fun i _ => ?_
    have h1 : (c + i) * n = xs.length + i * n := by rw [Nat.add_mul, hc, Nat.mul_comm c n]
    simp only [Function.comp]
    rw [h1, List.drop_append, List.drop_eq_nil_of_le (by omega), Nat.add_sub_cancel_left,
      List.nil_append]

theorem chunks_cons_append {n : ℕ} (hn : 0 < n) {xs : List α} (h : xs.length = n)
    (ys : List α) : chunks n (xs ++ ys) = xs :: chunks n ys := by
  rw [chunks_append hn (by rw [h]), chunks_of_length hn h]
  rfl

/-- The rows of a list of whole rows read the list. -/
theorem flatten_chunks {n : ℕ} (hn : 0 < n) :
    ∀ {k : ℕ} {l : List α}, l.length = n * k → (chunks n l).flatten = l
  | 0, l, h => by
    have : l = [] := List.eq_nil_of_length_eq_zero (by simpa using h)
    simp [this]
  | k + 1, l, h => by
    have hl : (l.take n).length = n := by
      rw [List.length_take, h, Nat.mul_succ]
      omega
    have hd : (l.drop n).length = n * k := by
      rw [List.length_drop, h, Nat.mul_succ]
      omega
    conv_lhs => rw [← List.take_append_drop n l]
    rw [chunks_cons_append hn hl, List.flatten_cons, flatten_chunks hn hd,
      List.take_append_drop]

/-- Cutting the concatenation of rows of length `n` gives the rows back. -/
theorem chunks_flatten {n : ℕ} (hn : 0 < n) : ∀ {rows : List (List α)},
    (∀ r ∈ rows, r.length = n) → chunks n rows.flatten = rows
  | [], _ => by simp
  | r :: rows, h => by
    rw [List.flatten_cons, chunks_cons_append hn (h r List.mem_cons_self),
      chunks_flatten hn fun s hs => h s (List.mem_cons_of_mem _ hs)]

theorem chunks_flatMap {n : ℕ} (hn : 0 < n) {f : β → List α} {l : List β}
    (h : ∀ x ∈ l, (f x).length = n) : chunks n (l.flatMap f) = l.map f := by
  rw [List.flatMap_def]
  exact chunks_flatten hn (by simpa using h)

/-- Rows of whole groups are cut into groups row by row. -/
theorem chunks_flatMap_of_dvd {n : ℕ} (hn : 0 < n) {f : β → List α} : ∀ {l : List β},
    (∀ x ∈ l, n ∣ (f x).length) → chunks n (l.flatMap f) = l.flatMap fun x => chunks n (f x)
  | [], _ => by simp
  | x :: l, h => by
    rw [List.flatMap_cons, List.flatMap_cons, chunks_append hn (h x List.mem_cons_self),
      chunks_flatMap_of_dvd hn fun y hy => h y (List.mem_cons_of_mem _ hy)]

/-- The concatenation of rows of length `n` has at `i * n + j` the entry `j` of row `i`. -/
theorem getElem?_flatten {n : ℕ} : ∀ {rows : List (List α)}, (∀ r ∈ rows, r.length = n) →
    ∀ {i j : ℕ}, j < n → rows.flatten[i * n + j]? = rows[i]?.bind fun r => r[j]?
  | [], _, i, j, _ => by simp
  | r :: rows, h, 0, j, hj => by
    have hr := h r List.mem_cons_self
    simp [List.getElem?_append, hr, hj]
  | r :: rows, h, i + 1, j, hj => by
    have hr := h r List.mem_cons_self
    have hidx : (i + 1) * n + j - n = i * n + j := by rw [Nat.succ_mul]; omega
    have hnot : ¬ (i + 1) * n + j < n := by rw [Nat.succ_mul]; omega
    rw [List.flatten_cons, List.getElem?_append, hr, if_neg hnot, hidx,
      getElem?_flatten (fun s hs => h s (List.mem_cons_of_mem _ hs)) hj]
    simp

theorem getElem?_flatMap {n : ℕ} {l : List β} {f : β → List α}
    (h : ∀ x ∈ l, (f x).length = n) {i j : ℕ} (hj : j < n) :
    (l.flatMap f)[i * n + j]? = l[i]?.bind fun x => (f x)[j]? := by
  rw [List.flatMap_def, getElem?_flatten (by simpa using h) hj, List.getElem?_map,
    Option.bind_map]
  rfl

theorem length_flatMap_of_length {n : ℕ} {f : β → List α} :
    ∀ {l : List β}, (∀ x ∈ l, (f x).length = n) → (l.flatMap f).length = l.length * n
  | [], _ => by simp
  | x :: l, h => by
    rw [List.flatMap_cons, List.length_append, h x List.mem_cons_self,
      length_flatMap_of_length fun y hy => h y (List.mem_cons_of_mem _ hy), List.length_cons,
      Nat.succ_mul, Nat.add_comm]

theorem mul_add_lt {a b n r : ℕ} (ha : a < b) (hr : r < n) : a * n + r < b * n := by
  have h : (a + 1) * n ≤ b * n := Nat.mul_le_mul_right n ha
  rw [Nat.succ_mul] at h
  omega

theorem mul_add_inj {a a' n r r' : ℕ} (hr : r < n) (hr' : r' < n)
    (h : a * n + r = a' * n + r') : a = a' ∧ r = r' := by
  have hn : 0 < n := by omega
  have hdiv := congrArg (· / n) h
  have hmod := congrArg (· % n) h
  simp only [Nat.mul_comm _ n, Nat.mul_add_div hn, Nat.mul_add_mod, Nat.div_eq_of_lt hr,
    Nat.div_eq_of_lt hr', Nat.mod_eq_of_lt hr, Nat.mod_eq_of_lt hr', Nat.add_zero] at hdiv hmod
  exact ⟨hdiv, hmod⟩

theorem mul_add_div {a n r : ℕ} (hr : r < n) : (a * n + r) / n = a := by
  rw [Nat.mul_comm, Nat.mul_add_div (by omega), Nat.div_eq_of_lt hr, Nat.add_zero]

theorem mul_add_mod {a n r : ℕ} (hr : r < n) : (a * n + r) % n = r := by
  rw [Nat.mul_comm, Nat.mul_add_mod, Nat.mod_eq_of_lt hr]

theorem filter_range_lt {n m : ℕ} (h : n ≤ m) :
    ((List.range m).filter fun d => decide (d < n)) = List.range n := by
  obtain ⟨k, rfl⟩ := Nat.exists_eq_add_of_le h
  have hin : ((List.range n).filter fun d => decide (d < n)) = List.range n :=
    List.filter_eq_self.2 fun d hd => decide_eq_true (List.mem_range.1 hd)
  have hout : (((List.range k).map (n + ·)).filter fun d => decide (d < n)) = [] := by
    simp
  rw [List.range_add, List.filter_append, hin, hout, List.append_nil]

/-- Two intervals that hold the same of what `p` lets through. -/
theorem filter_range'_congr {p : ℕ → Bool} {s n s' n' : ℕ}
    (h : ∀ j, p j = true → (s ≤ j ∧ j < s + n ↔ s' ≤ j ∧ j < s' + n')) :
    (List.range' s n).filter p = (List.range' s' n').filter p := by
  have hlt : ∀ s n : ℕ, ((List.range' s n).filter p).Pairwise (· < ·) := fun s n =>
    (List.pairwise_lt_range' _).filter p
  have hperm : ((List.range' s n).filter p).Perm ((List.range' s' n').filter p) := by
    refine (List.perm_ext_iff_of_nodup ((hlt s n).imp Nat.ne_of_lt)
      ((hlt s' n').imp Nat.ne_of_lt)).2 fun j => ?_
    simp only [List.mem_filter, List.mem_range'_1]
    exact and_congr_left (h j)
  exact hperm.eq_of_pairwise' ((hlt s n).imp Nat.le_of_lt) ((hlt s' n').imp Nat.le_of_lt)

/-- A grid of `n` rows of `w` programs, numbered row by row. -/
theorem flatMap_range_mul (n w : ℕ) (f : ℕ → List α) :
    ((List.range n).flatMap fun i => (List.range w).flatMap fun j => f (i * w + j))
      = (List.range (n * w)).flatMap f := by
  induction n with
  | zero => simp
  | succ n ih =>
    rw [List.range_succ, List.flatMap_append, ih, Nat.succ_mul, List.range_add, List.flatMap_append,
      List.flatMap_singleton, List.flatMap_map]

theorem flatMap_range_of_le {n m : ℕ} (h : n ≤ m) {f : ℕ → List α} (hf : ∀ i, n ≤ i → f i = []) :
    (List.range m).flatMap f = (List.range n).flatMap f := by
  obtain ⟨k, rfl⟩ := Nat.exists_eq_add_of_le h
  have hnil : ((List.range k).map (n + ·)).flatMap f = [] := by
    simp [List.flatMap_eq_nil_iff, hf]
  rw [List.range_add, List.flatMap_append, hnil, List.append_nil]

/-- The two axes of a grid may be exchanged. -/
theorem flatMap_swap_perm {γ : Type*} (f : β → γ → List α) (l' : List γ) : ∀ l : List β,
    (l.flatMap fun a => l'.flatMap fun b => f a b).Perm
      (l'.flatMap fun b => l.flatMap fun a => f a b)
  | [] => by simp
  | a :: l => by
    simp only [List.flatMap_cons]
    exact ((flatMap_swap_perm f l' l).append_left _).trans (List.flatMap_append_perm l' _ _)

/-- A map that reads only the row number of each entry acts row by row. -/
theorem mapIdx_div_flatMap {γ : Type*} {n : ℕ} {f : β → List α} {ψ : β → List γ} :
    ∀ {l : List β} {φ : ℕ → α → γ}, (∀ x ∈ l, (f x).length = n) →
      (∀ g x, l[g]? = some x → (f x).map (φ g) = ψ x) →
      (l.flatMap f).mapIdx (fun p c => φ (p / n) c) = l.flatMap ψ
  | [], _, _, _ => by simp
  | x :: l, φ, h, hψ => by
    have hx := h x List.mem_cons_self
    have hrest := mapIdx_div_flatMap (l := l) (φ := fun g => φ (g + 1))
      (fun y hy => h y (List.mem_cons_of_mem _ hy)) fun g y hg => hψ (g + 1) y (by simpa using hg)
    rw [List.flatMap_cons, List.flatMap_cons, List.mapIdx_append, ← hψ 0 x rfl, ← hrest, hx]
    congr 1
    · refine List.ext_getElem (by simp) fun p hp _ => ?_
      rw [List.length_mapIdx, hx] at hp
      simp [Nat.div_eq_of_lt hp]
    · refine List.ext_getElem (by simp) fun p hp _ => ?_
      have hn : 0 < n := by
        rw [List.length_mapIdx] at hp
        obtain ⟨y, hy, hc⟩ := List.exists_of_mem_flatMap (List.getElem_mem hp)
        rw [← h y (List.mem_cons_of_mem _ hy)]
        exact List.length_pos_of_mem hc
      simp [Nat.add_div_right _ hn]

section ByRows

variable {γ : Type*} {n : ℕ} {g : List α → List γ}

/-- A map applied to the rows and to what is left of the last one. -/
def byRows (n : ℕ) (g : List α → List γ) (l : List α) : List γ :=
  (chunks n l).flatMap g ++ g (l.drop (l.length / n * n))

theorem byRows_append (hn : 0 < n) {xs : List α} (h : xs.length = n) (ys : List α) :
    byRows n g (xs ++ ys) = g xs ++ byRows n g ys := by
  have hdrop : (xs ++ ys).drop ((xs ++ ys).length / n * n) = ys.drop (ys.length / n * n) := by
    rw [List.length_append, h, Nat.add_div_left _ hn, Nat.succ_mul, Nat.add_comm, ← h,
      List.drop_append, List.drop_eq_nil_of_le (Nat.le_add_right _ _), List.nil_append,
      Nat.add_sub_cancel_left]
  rw [byRows, byRows, hdrop, chunks_cons_append hn h, List.flatMap_cons, List.append_assoc]

theorem byRows_of_lt {l : List α} (h : l.length < n) : byRows n g l = g l := by
  rw [byRows, chunks_of_lt h, Nat.div_eq_of_lt h, Nat.zero_mul]
  rfl

/-- A map that splits after `n` entries acts row by row. -/
theorem byRows_eq (hn : 0 < n) (hg : ∀ xs ys, xs.length = n → g (xs ++ ys) = g xs ++ g ys)
    (l : List α) : byRows n g l = g l := by
  induction hk : l.length using Nat.strong_induction_on generalizing l with
  | _ k ih =>
    by_cases hlt : l.length < n
    · exact byRows_of_lt hlt
    · have htake : (l.take n).length = n := by
        rw [List.length_take]
        omega
      have hrest := ih (l.drop n).length (by rw [List.length_drop]; omega) (l.drop n) rfl
      conv_lhs => rw [← List.take_append_drop n l, byRows_append hn htake, hrest]
      rw [← hg _ _ htake, List.take_append_drop]

end ByRows

end Chunks
