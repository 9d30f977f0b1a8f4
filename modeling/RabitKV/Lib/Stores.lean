import RabitKV.Lib.Chunks

/-!
# Scattered stores

A memory is a function on addresses and `storeAll` performs a list of writes in order. An address
that no write names keeps its value; when the addresses are distinct, each holds what was written
to it. `storeBlock` is the masked vector store of one program to consecutive addresses, and programs
that store to consecutive blocks one after another fill the range they cover.
-/

namespace Stores

variable {ι α : Type*} [DecidableEq ι]

/-- The writes of `ws`, in order. -/
def storeAll (m : ι → α) (ws : List (ι × α)) : ι → α :=
  ws.foldl (fun m w => Function.update m w.1 w.2) m

@[simp] theorem storeAll_nil (m : ι → α) : storeAll m [] = m := rfl

@[simp] theorem storeAll_cons (m : ι → α) (w : ι × α) (ws : List (ι × α)) :
    storeAll m (w :: ws) = storeAll (Function.update m w.1 w.2) ws := rfl

theorem storeAll_of_notMem : ∀ {ws : List (ι × α)} {i : ι} (m : ι → α),
    i ∉ ws.map Prod.fst → storeAll m ws i = m i
  | [], _, _, _ => rfl
  | w :: ws, i, m, h => by
    rw [List.map_cons, List.mem_cons, not_or] at h
    rw [storeAll_cons, storeAll_of_notMem _ h.2, Function.update_of_ne h.1]

theorem storeAll_of_mem : ∀ {ws : List (ι × α)} {i : ι} {a : α} (m : ι → α),
    (ws.map Prod.fst).Nodup → (i, a) ∈ ws → storeAll m ws i = a
  | w :: ws, i, a, m, hnd, h => by
    rw [List.map_cons, List.nodup_cons] at hnd
    rw [storeAll_cons]
    rcases List.mem_cons.1 h with rfl | h
    · rw [storeAll_of_notMem _ hnd.1, Function.update_self]
    · exact storeAll_of_mem _ hnd.2 h

/-- Writes to distinct addresses may come in any order. -/
theorem storeAll_perm {ws ws' : List (ι × α)} (h : ws.Perm ws') (hnd : (ws'.map Prod.fst).Nodup)
    (m : ι → α) : storeAll m ws = storeAll m ws' := by
  have hnd' : (ws.map Prod.fst).Nodup := (h.map Prod.fst).nodup_iff.2 hnd
  funext i
  by_cases hi : i ∈ ws.map Prod.fst
  · obtain ⟨w, hw, rfl⟩ := List.mem_map.1 hi
    rw [storeAll_of_mem m hnd' hw, storeAll_of_mem m hnd (h.mem_iff.1 hw)]
  · rw [storeAll_of_notMem m hi, storeAll_of_notMem m fun hi' =>
      hi ((h.map Prod.fst).mem_iff.2 hi')]

omit [DecidableEq ι] in
/-- Programs that store to addresses of their own. -/
theorem nodup_keys_flatMap {σ : Type*} {l : List σ} (hl : l.Nodup) {f : σ → List (ι × α)}
    (hin : ∀ s ∈ l, ((f s).map Prod.fst).Nodup)
    (hinj : ∀ s ∈ l, ∀ s' ∈ l, ∀ w ∈ f s, ∀ w' ∈ f s', w.1 = w'.1 → s = s') :
    ((l.flatMap f).map Prod.fst).Nodup := by
  rw [List.map_flatMap, List.nodup_flatMap]
  refine ⟨hin, hl.imp_of_mem fun {s s'} hs hs' hne i hi hi' => ?_⟩
  obtain ⟨w, hw, rfl⟩ := List.mem_map.1 hi
  obtain ⟨w', hw', hfst⟩ := List.mem_map.1 hi'
  exact hne (hinj s hs s' hs' w hw w' hw' hfst.symm)

omit [DecidableEq ι] in
/-- Two programs that store to one address. -/
theorem not_nodup_keys_flatMap {n i j : ℕ} (hij : i < j) (hj : j < n) {f : ℕ → List (ι × α)} {k : ι}
    (hi : k ∈ (f i).map Prod.fst) (hk : k ∈ (f j).map Prod.fst) :
    ¬ (((List.range n).flatMap f).map Prod.fst).Nodup := by
  rw [List.map_flatMap, List.nodup_flatMap]
  rintro ⟨-, hdisj⟩
  have hpair := List.pairwise_iff_getElem.1 hdisj i j (by simp; omega) (by simpa using hj) hij
  simp only [List.getElem_range] at hpair
  exact hpair hi hk

section Puts

variable {β : Type*} (put : α → β → α)

/-- Writes that change only a part of what an address holds, in order. -/
def putAll (m : ι → α) (ws : List (ι × β)) : ι → α :=
  ws.foldl (fun m w => Function.update m w.1 (put (m w.1) w.2)) m

theorem putAll_append (m : ι → α) (ws ws' : List (ι × β)) :
    putAll put m (ws ++ ws') = putAll put (putAll put m ws) ws' :=
  List.foldl_append

theorem putAll_of_notMem : ∀ {ws : List (ι × β)} {i : ι} (m : ι → α),
    i ∉ ws.map Prod.fst → putAll put m ws i = m i
  | [], _, _, _ => rfl
  | w :: ws, i, m, h => by
    rw [List.map_cons, List.mem_cons, not_or] at h
    exact (putAll_of_notMem _ h.2).trans (Function.update_of_ne h.1 _ _)

theorem putAll_concat (m : ι → α) (ws : List (ι × β)) (i : ι) (b : β) :
    putAll put m (ws ++ [(i, b)]) i = put (putAll put m ws i) b := by
  rw [putAll_append]
  exact Function.update_self _ _ _

/-- Writes that agree on what an address gets leave it there, in whatever order. -/
theorem putAll_of_forall (hput : ∀ a b b', put (put a b) b' = put a b') {i : ι} {b : β} :
    ∀ {ws : List (ι × β)} (m : ι → α), i ∈ ws.map Prod.fst → (∀ w ∈ ws, w.1 = i → w.2 = b) →
      putAll put m ws i = put (m i) b
  | w :: ws, m, hmem, h => by
    have htail : ∀ w' ∈ ws, w'.1 = i → w'.2 = b := fun w' hw' => h w' (List.mem_cons_of_mem _ hw')
    have hstep : putAll put m (w :: ws) i
        = putAll put (Function.update m w.1 (put (m w.1) w.2)) ws i := rfl
    rw [hstep]
    by_cases hi : w.1 = i
    · have hb := h w List.mem_cons_self hi
      by_cases hws : i ∈ ws.map Prod.fst
      · rw [putAll_of_forall hput _ hws htail, ← hi, Function.update_self, hput]
      · rw [putAll_of_notMem put _ hws, ← hi, Function.update_self, hb]
    · have hws : i ∈ ws.map Prod.fst := by
        rw [List.map_cons, List.mem_cons] at hmem
        exact hmem.resolve_left fun hc => hi hc.symm
      rw [putAll_of_forall hput _ hws htail, Function.update_of_ne fun hc => hi hc.symm]

/-- Writes that would change nothing change nothing. -/
theorem putAll_of_fixed {i : ι} : ∀ {ws : List (ι × β)} (m : ι → α),
    (∀ w ∈ ws, w.1 = i → put (m i) w.2 = m i) → putAll put m ws i = m i
  | [], _, _ => rfl
  | w :: ws, m, h => by
    have hkeep : Function.update m w.1 (put (m w.1) w.2) i = m i := by
      by_cases hi : w.1 = i
      · rw [← hi, Function.update_self, hi]
        exact h w List.mem_cons_self hi
      · exact Function.update_of_ne (fun hc => hi hc.symm) _ _
    refine (putAll_of_fixed (Function.update m w.1 (put (m w.1) w.2)) fun w' hw' hi => ?_).trans
      hkeep
    rw [hkeep]
    exact h w' (List.mem_cons_of_mem _ hw') hi

/-- A store puts the whole value. -/
theorem storeAll_eq_putAll (m : ι → α) (ws : List (ι × α)) :
    storeAll m ws = putAll (fun _ b => b) m ws := rfl

end Puts

/-- An address that some write names, and every write that names it gives the same value. -/
theorem storeAll_of_forall {ws : List (ι × α)} {i : ι} {a : α} (m : ι → α)
    (hmem : i ∈ ws.map Prod.fst) (h : ∀ w ∈ ws, w.1 = i → w.2 = a) : storeAll m ws i = a := by
  rw [storeAll_eq_putAll]
  exact putAll_of_forall (fun _ b => b) (fun _ _ _ => rfl) m hmem h

/-- Program `p` stores one value, at its own address. -/
theorem storeAll_range (m : ℕ → α) (f : ℕ → α) {n p : ℕ} (hp : p < n) :
    storeAll m ((List.range n).map fun p => (p, f p)) p = f p := by
  refine storeAll_of_forall m
    (List.mem_map.2 ⟨_, List.mem_map.2 ⟨p, List.mem_range.2 hp, rfl⟩, rfl⟩) ?_
  intro w hw hi
  obtain ⟨p', -, rfl⟩ := List.mem_map.1 hw
  exact congrArg f hi

/-- Program `p` stores `w` values, in a row of its own. -/
theorem storeAll_rows (m : ℕ → α) (f : ℕ → ℕ → α) {n w p j : ℕ} (hp : p < n) (hj : j < w) :
    storeAll m ((List.range n).flatMap fun p => (List.range w).map fun j => (p * w + j, f p j))
      (p * w + j) = f p j := by
  refine storeAll_of_forall m (List.mem_map.2 ⟨_, List.mem_flatMap.2 ⟨p, List.mem_range.2 hp,
    List.mem_map.2 ⟨j, List.mem_range.2 hj, rfl⟩⟩, rfl⟩) ?_
  intro w' hw hi
  obtain ⟨p', -, hw⟩ := List.mem_flatMap.1 hw
  obtain ⟨j', hj', rfl⟩ := List.mem_map.1 hw
  obtain ⟨rfl, rfl⟩ := Chunks.mul_add_inj (List.mem_range.1 hj') hj hi
  rfl

/-- Program `(i, h)` of a grid stores `w` values, in a row of its own. -/
theorem storeAll_grid (m : ℕ → α) (f : ℕ → ℕ → ℕ → α) {n k w i h j : ℕ} (hi : i < n) (hh : h < k)
    (hj : j < w) :
    storeAll m ((List.range n).flatMap fun i => (List.range k).flatMap fun h =>
      (List.range w).map fun j => ((i * k + h) * w + j, f i h j)) ((i * k + h) * w + j)
      = f i h j := by
  refine storeAll_of_forall m (List.mem_map.2 ⟨_, List.mem_flatMap.2 ⟨i, List.mem_range.2 hi,
    List.mem_flatMap.2 ⟨h, List.mem_range.2 hh, List.mem_map.2 ⟨j, List.mem_range.2 hj, rfl⟩⟩⟩,
    rfl⟩) ?_
  intro w' hw heq
  obtain ⟨i', -, hw⟩ := List.mem_flatMap.1 hw
  obtain ⟨h', hh', hw⟩ := List.mem_flatMap.1 hw
  obtain ⟨j', hj', rfl⟩ := List.mem_map.1 hw
  obtain ⟨hrow, rfl⟩ := Chunks.mul_add_inj (List.mem_range.1 hj') hj heq
  obtain ⟨rfl, rfl⟩ := Chunks.mul_add_inj (List.mem_range.1 hh') hh hrow
  rfl

section Blocks

variable {β : Type*}

/-- Lane `i < len` stores `val i` at `base + i`, unless it is masked out. -/
def storeBlock (m : ℕ → β) (base len : ℕ) (mask : ℕ → Bool) (val : ℕ → β) : ℕ → β := fun a =>
  if base ≤ a ∧ a < base + len ∧ mask (a - base) = true then val (a - base) else m a

theorem storeBlock_lane (m : ℕ → β) {base len i : ℕ} {mask : ℕ → Bool} (val : ℕ → β) (hi : i < len)
    (hmask : mask i = true) : storeBlock m base len mask val (base + i) = val i := by
  unfold storeBlock
  rw [Nat.add_sub_cancel_left, if_pos ⟨by omega, by omega, hmask⟩]

theorem storeBlock_of_lt (m : ℕ → β) {base len a : ℕ} (mask : ℕ → Bool) (val : ℕ → β)
    (h : a < base) : storeBlock m base len mask val a = m a := by
  unfold storeBlock
  rw [if_neg fun hc => Nat.not_le.2 h hc.1]

theorem storeBlock_of_ge (m : ℕ → β) {base len a : ℕ} (mask : ℕ → Bool) (val : ℕ → β)
    (h : base + len ≤ a) : storeBlock m base len mask val a = m a := by
  unfold storeBlock
  rw [if_neg fun hc => Nat.not_lt.2 h hc.2.1]

/-- The blocks of programs `0, …, n - 1` lie one behind the other from `base` on. -/
theorem foldl_storeBlock (m : ℕ → β) {base len : ℕ} (val : ℕ → ℕ → β) :
    ∀ (n a : ℕ), ((List.range n).foldl
        (fun m p => storeBlock m (base + p * len) len (fun _ => true) (val p)) m) a
      = if base ≤ a ∧ a < base + n * len then val ((a - base) / len) ((a - base) % len) else m a
  | 0, a => by rw [if_neg (by omega)]; rfl
  | n + 1, a => by
    rw [List.range_succ, List.foldl_append, List.foldl_cons, List.foldl_nil]
    by_cases h : base + n * len ≤ a ∧ a < base + n * len + len
    · obtain ⟨i, rfl⟩ : ∃ i, a = base + n * len + i := ⟨_, (Nat.add_sub_cancel' h.1).symm⟩
      have hi : i < len := by omega
      rw [storeBlock_lane _ _ hi rfl, if_pos ⟨by omega, by rw [Nat.succ_mul]; omega⟩,
        show base + n * len + i - base = i + n * len by omega,
        Nat.add_mul_div_right _ _ (by omega), Nat.div_eq_of_lt hi, Nat.zero_add,
        Nat.add_mul_mod_self_right, Nat.mod_eq_of_lt hi]
    · have hkeep : ∀ m' : ℕ → β,
          storeBlock m' (base + n * len) len (fun _ => true) (val n) a = m' a := fun m' => by
        rcases Nat.lt_or_ge a (base + n * len) with hlt | hge
        · exact storeBlock_of_lt _ _ _ hlt
        · exact storeBlock_of_ge _ _ _ (by omega)
      rw [hkeep, foldl_storeBlock m val n a, Nat.succ_mul]
      by_cases hin : base ≤ a ∧ a < base + n * len
      · rw [if_pos hin, if_pos ⟨hin.1, by omega⟩]
      · rw [if_neg hin, if_neg (by omega)]

/-- Rows `first, …, stop - 1` of width `w`, written over `m`. -/
def fillRows (w : ℕ) (row : ℕ → ℕ → β) (first stop : ℕ) (m : ℕ → β) : ℕ → β := fun a =>
  if first * w ≤ a ∧ a < stop * w then row (a / w) (a % w) else m a

theorem fillRows_self (w : ℕ) (row : ℕ → ℕ → β) (first : ℕ) (m : ℕ → β) :
    fillRows w row first first m = m :=
  funext fun _ => if_neg fun h => absurd h.2 (Nat.not_lt.2 h.1)

theorem fillRows_fillRows {w : ℕ} {row : ℕ → ℕ → β} {a b c : ℕ} (hab : a ≤ b) (hbc : b ≤ c)
    (m : ℕ → β) : fillRows w row b c (fillRows w row a b m) = fillRows w row a c m := by
  have hab' : a * w ≤ b * w := Nat.mul_le_mul_right w hab
  have hbc' : b * w ≤ c * w := Nat.mul_le_mul_right w hbc
  funext i
  unfold fillRows
  split_ifs <;> first | rfl | omega

theorem fillRows_row {row : ℕ → ℕ → β} {m : ℕ → β} {w n i k : ℕ} (hi : i < n) (hk : k < w) :
    fillRows w row 0 n m (i * w + k) = row i k := by
  rw [fillRows, if_pos ⟨by rw [Nat.zero_mul]; exact Nat.zero_le _, Chunks.mul_add_lt hi hk⟩,
    Chunks.mul_add_div hk, Chunks.mul_add_mod hk]

theorem fillRows_past {row : ℕ → ℕ → β} {m : ℕ → β} {w n a : ℕ} (h : n * w ≤ a) :
    fillRows w row 0 n m a = m a :=
  if_neg fun hc => Nat.not_le.2 hc.2 h

/-- A block of whole rows fills them. -/
theorem storeBlock_eq_fillRows {w first n : ℕ} {row : ℕ → ℕ → β} {val : ℕ → β} (m : ℕ → β)
    (hval : ∀ j < n, ∀ k < w, val (j * w + k) = row (first + j) k) :
    storeBlock m (first * w) (n * w) (fun _ => true) val = fillRows w row first (first + n) m := by
  funext i
  unfold storeBlock fillRows
  by_cases hi : first * w ≤ i ∧ i < (first + n) * w
  · obtain ⟨i, rfl⟩ := Nat.exists_eq_add_of_le hi.1
    have hlt : i < n * w := by
      have := hi.2
      rw [Nat.add_mul] at this
      omega
    have hw : 0 < w := Nat.pos_of_mul_pos_left (by omega : 0 < n * w)
    have hrow := hval (i / w) (Nat.div_lt_of_lt_mul (by rwa [Nat.mul_comm])) (i % w)
      (Nat.mod_lt i hw)
    rw [Nat.div_add_mod'] at hrow
    rw [if_pos ⟨hi.1, by omega, rfl⟩, if_pos hi, Nat.add_sub_cancel_left, hrow,
      Nat.add_comm (first * w) i, Nat.add_mul_div_right _ _ hw, Nat.add_mul_mod_self_right,
      Nat.add_comm first]
  · rw [if_neg hi, if_neg fun h => hi ⟨h.1, by rw [Nat.add_mul]; omega⟩]

end Blocks

end Stores
