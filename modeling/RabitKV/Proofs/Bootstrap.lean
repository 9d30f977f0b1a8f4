import RabitKV.Bootstrap
import RabitKV.Lib.Checked

/-!
# A paired bootstrap interval and its mirror image

The two percentile positions are mirror images of each other. Exchanging the arms negates every
replicate, which reverses the sorted list, so the endpoints change places and signs.
-/

namespace RabitKV

open Checked

section Positions

variable {c : ℚ} {B : ℕ}

theorem highPosition_eq (c : ℚ) (B : ℕ) : highPosition c B = B - 1 - lowPosition c B := by
  have hsplit : (1 - (1 - c) / 2) * (B : ℚ) = -((1 - c) / 2 * B - B) := by ring
  rw [highPosition, hsplit, Int.ceil_neg, Int.floor_sub_natCast, lowPosition]
  ring

/-- The lower position is in the first half of the list. -/
theorem lowPosition_spec (hc0 : 0 < c) (hc1 : c < 1) (hB : 0 < B) :
    0 ≤ lowPosition c B ∧ 2 * lowPosition c B ≤ B - 1 := by
  have hBq : (0 : ℚ) < B := by exact_mod_cast hB
  refine ⟨Int.floor_nonneg.2 (by nlinarith), ?_⟩
  have hfloor : (lowPosition c B : ℚ) ≤ (1 - c) / 2 * B := Int.floor_le _
  have hlt : (2 * lowPosition c B : ℚ) < B := by nlinarith
  have hint : 2 * lowPosition c B < B := by exact_mod_cast hlt
  omega

end Positions

section Sorting

/-- Negation reverses a sorted list. -/
theorem insertionSort_map_neg (l : List ℚ) : (l.map Neg.neg).insertionSort (· ≤ ·)
    = ((l.insertionSort (· ≤ ·)).map Neg.neg).reverse := by
  refine List.Perm.eq_of_pairwise' (List.pairwise_insertionSort _ _) ?_ ?_
  · rw [List.pairwise_reverse, List.pairwise_map]
    exact (List.pairwise_insertionSort (· ≤ ·) l).imp fun h => neg_le_neg h
  · exact (List.perm_insertionSort _ _).trans
      (((List.perm_insertionSort _ l).symm.map _).trans (List.reverse_perm _).symm)

theorem listItem_natCast {α : Type} {l : List α} {i : ℕ} {a : α} (h : l[i]? = some a) :
    listItem l i = .ok a := by
  have hi : ¬ ((i : ℤ) < 0) := by omega
  simp only [listItem, if_neg hi, Int.toNat_natCast, h]

end Sorting

section Replicates

variable (exp : ℚ → ℚ) {benchmark : String} {bf16 rabit2 : List ℚ} {idx : List ℤ} {n : ℕ}

/-- One replicate, as 100 times the mean of the resampled differences. -/
def replicate (bf16 rabit2 : List ℚ) (idx : List ℤ) : ℚ :=
  100 * ((idx.map fun i => rabit2.getD i.toNat 0 - bf16.getD i.toNat 0).sum / idx.length)

theorem sum_map_sub (f g : ℤ → ℚ) (l : List ℤ) :
    (l.map fun i => f i - g i).sum = (l.map f).sum - (l.map g).sum := by
  induction l with
  | nil => simp
  | cons i l ih =>
    simp only [List.map_cons, List.sum_cons, ih]
    ring

theorem mapM_listItem {l : List ℚ} (hidx : ∀ i ∈ idx, 0 ≤ i ∧ i < l.length) :
    idx.mapM (listItem l) = .ok (idx.map fun i => l.getD i.toNat 0) := by
  refine mapM_ok fun i hi => ?_
  obtain ⟨h0, hlt⟩ := hidx i hi
  obtain ⟨k, rfl⟩ := Int.eq_ofNat_of_zero_le h0
  have hk : k < l.length := by omega
  refine listItem_natCast ?_
  rw [Int.toNat_natCast, List.getD_eq_getElem?_getD, List.getElem?_eq_getElem hk]
  rfl

theorem delta_resampled (hb : benchmark ≠ "continuation_ppl") (hne : idx ≠ []) :
    delta exp benchmark (idx.map fun i => bf16.getD i.toNat 0)
      (idx.map fun i => rabit2.getD i.toNat 0) = .ok (replicate bf16 rabit2 idx) := by
  have hlen : ¬ (idx.map fun i => bf16.getD i.toNat 0).length = 0 := by
    rw [List.length_map, List.length_eq_zero_iff]
    exact hne
  rw [delta, if_neg hb, if_neg hlen, replicate, List.length_map]
  rw [sum_map_sub, mul_div_assoc]

/-- A table of resampling rows over `n` units. -/
def IndexTable (n : ℕ) (indices : List (List ℤ)) : Prop :=
  ∀ idx ∈ indices, idx ≠ [] ∧ ∀ i ∈ idx, 0 ≤ i ∧ i < n

theorem replicates_eq (hb : benchmark ≠ "continuation_ppl") {indices : List (List ℤ)}
    (hidx : IndexTable n indices) (hbf : bf16.length = n) (hra : rabit2.length = n) :
    replicates exp benchmark indices bf16 rabit2 = .ok (indices.map (replicate bf16 rabit2)) := by
  refine mapM_ok fun idx hmem => ?_
  obtain ⟨hne, hrange⟩ := hidx idx hmem
  rw [mapM_listItem (by rwa [hbf]), mapM_listItem (by rwa [hra])]
  exact delta_resampled exp hb hne

theorem replicate_swap (bf16 rabit2 : List ℚ) (idx : List ℤ) :
    replicate rabit2 bf16 idx = -replicate bf16 rabit2 idx := by
  rw [replicate, replicate, sum_map_sub, sum_map_sub]
  ring

/-- A replicate lies between any bounds on the differences of its units. -/
theorem replicate_mem (hne : idx ≠ []) {m M : ℚ}
    (hdiff : ∀ i ∈ idx, m ≤ rabit2.getD i.toNat 0 - bf16.getD i.toNat 0 ∧
      rabit2.getD i.toNat 0 - bf16.getD i.toNat 0 ≤ M) :
    100 * m ≤ replicate bf16 rabit2 idx ∧ replicate bf16 rabit2 idx ≤ 100 * M := by
  have hpos : (0 : ℚ) < idx.length := by exact_mod_cast List.length_pos_iff.2 hne
  have hlow := List.card_nsmul_le_sum
    (idx.map fun i => rabit2.getD i.toNat 0 - bf16.getD i.toNat 0) m fun v hv => by
      obtain ⟨i, hi, rfl⟩ := List.mem_map.1 hv
      exact (hdiff i hi).1
  have hhigh := List.sum_le_card_nsmul
    (idx.map fun i => rabit2.getD i.toNat 0 - bf16.getD i.toNat 0) M fun v hv => by
      obtain ⟨i, hi, rfl⟩ := List.mem_map.1 hv
      exact (hdiff i hi).2
  rw [List.length_map, nsmul_eq_mul, mul_comm] at hlow hhigh
  rw [replicate]
  refine ⟨mul_le_mul_of_nonneg_left ?_ (by norm_num), mul_le_mul_of_nonneg_left ?_ (by norm_num)⟩
  · rwa [le_div_iff₀ hpos]
  · rwa [div_le_iff₀ hpos]

theorem getD_sub_mem {k : ℕ} (hk : k < bf16.length) (hlen : rabit2.length = bf16.length) :
    rabit2.getD k 0 - bf16.getD k 0 ∈ List.zipWith (· - ·) rabit2 bf16 := by
  refine List.mem_iff_getElem?.2 ⟨k, ?_⟩
  rw [List.getElem?_zipWith, List.getElem?_eq_getElem hk, List.getElem?_eq_getElem (by omega),
    List.getD_eq_getElem _ _ hk, List.getD_eq_getElem _ _ (by omega)]

/-- The replicates in order. -/
def sortedReplicates (bf16 rabit2 : List ℚ) (indices : List (List ℤ)) : List ℚ :=
  (indices.map (replicate bf16 rabit2)).insertionSort (· ≤ ·)

@[simp] theorem length_sortedReplicates (bf16 rabit2 : List ℚ) (indices : List (List ℤ)) :
    (sortedReplicates bf16 rabit2 indices).length = indices.length := by
  rw [sortedReplicates, List.length_insertionSort, List.length_map]

theorem sortedReplicates_swap (bf16 rabit2 : List ℚ) (indices : List (List ℤ)) :
    sortedReplicates rabit2 bf16 indices
      = ((sortedReplicates bf16 rabit2 indices).map Neg.neg).reverse := by
  have hneg : indices.map (replicate rabit2 bf16)
      = (indices.map (replicate bf16 rabit2)).map Neg.neg := by
    rw [List.map_map]
    exact List.map_congr_left fun idx _ => replicate_swap bf16 rabit2 idx
  rw [sortedReplicates, hneg, insertionSort_map_neg, sortedReplicates]

theorem sortedReplicates_mono {indices : List (List ℤ)} {i j : ℕ} (hij : i ≤ j) {lo hi : ℚ}
    (hlo : (sortedReplicates bf16 rabit2 indices)[i]? = some lo)
    (hhi : (sortedReplicates bf16 rabit2 indices)[j]? = some hi) : lo ≤ hi := by
  obtain ⟨hi', rfl⟩ := List.getElem?_eq_some_iff.1 hlo
  obtain ⟨hj', rfl⟩ := List.getElem?_eq_some_iff.1 hhi
  exact List.sortedLE_insertionSort.getElem_le_getElem_of_le hij

/-- Position `i` of the exchanged arms is the mirrored position with the other sign. -/
theorem sortedReplicates_mirror {indices : List (List ℤ)} {i j : ℕ} {v : ℚ}
    (hij : i + j + 1 = indices.length) (hv : (sortedReplicates bf16 rabit2 indices)[j]? = some v) :
    (sortedReplicates rabit2 bf16 indices)[i]? = some (-v) := by
  have hlt : i < ((sortedReplicates bf16 rabit2 indices).map Neg.neg).length := by
    rw [List.length_map, length_sortedReplicates]
    omega
  rw [sortedReplicates_swap, List.getElem?_reverse hlt, List.length_map, length_sortedReplicates,
    List.getElem?_map, show indices.length - 1 - i = j by omega, hv, Option.map_some]

theorem sum_sortedReplicates_swap (bf16 rabit2 : List ℚ) (indices : List (List ℤ)) :
    (sortedReplicates rabit2 bf16 indices).sum = -(sortedReplicates bf16 rabit2 indices).sum := by
  rw [sortedReplicates_swap, List.sum_reverse]
  induction sortedReplicates bf16 rabit2 indices with
  | nil => simp
  | cons v l ih =>
    simp only [List.map_cons, List.sum_cons, ih]
    ring

end Replicates

section Interval

variable (exp : ℚ → ℚ) {benchmark : String} {bf16 rabit2 : List ℚ} {n : ℕ} {indices : List (List ℤ)}
  {c : ℚ}

/-- The interval read off the sorted replicates at a position `p` and its mirror image. -/
theorem pairedBootstrapOn_eq (hb : benchmark ≠ "continuation_ppl") (hidx : IndexTable n indices)
    (hbf : bf16.length = n) (hra : rabit2.length = n) {p q : ℕ}
    (hp : lowPosition c indices.length = p) (hq : highPosition c indices.length = q) {lo hi : ℚ}
    (hlo : (sortedReplicates bf16 rabit2 indices)[p]? = some lo)
    (hhi : (sortedReplicates bf16 rabit2 indices)[q]? = some hi) (seed : ℤ) :
    pairedBootstrapOn exp indices benchmark bf16 rabit2 indices.length seed c = .ok
      { ciLow := lo, ciHigh := hi, confidence := c, resamples := indices.length, seed := seed
        replicateMean := (sortedReplicates bf16 rabit2 indices).sum / indices.length } := by
  have hne : ¬ indices.length = 0 := by
    have hlt := (List.getElem?_eq_some_iff.1 hlo).1
    rw [length_sortedReplicates] at hlt
    omega
  unfold pairedBootstrapOn
  rw [replicates_eq exp hb hidx hbf hra, hp, hq]
  change (listItem (sortedReplicates bf16 rabit2 indices) p >>= fun lo => _) = _
  rw [listItem_natCast hlo]
  change (listItem (sortedReplicates bf16 rabit2 indices) q >>= fun hi => _) = _
  rw [listItem_natCast hhi]
  change (if indices.length = 0 then _ else _) = _
  rw [if_neg hne]
  rfl

/-- The rows `bootstrap_indices` draws are a table over the units. -/
theorem bootstrapIndices_table {random : ℕ → ℚ} (hrandom : ∀ k, 0 ≤ random k ∧ random k < 1)
    (hn : 0 < n) (resamples : ℕ) : IndexTable n (bootstrapIndices random n resamples) := by
  intro idx hidx
  simp only [bootstrapIndices, List.mem_map, List.mem_range] at hidx
  obtain ⟨r, -, rfl⟩ := hidx
  have hnq : (0 : ℚ) < n := by exact_mod_cast hn
  refine ⟨fun hnil => ?_, fun i hi => ?_⟩
  · rw [List.map_eq_nil_iff, List.range_eq_nil] at hnil
    omega
  · obtain ⟨j, -, rfl⟩ := List.mem_map.1 hi
    obtain ⟨h0, h1⟩ := hrandom (r * n + j)
    refine ⟨Int.floor_nonneg.2 (by positivity), Int.floor_lt.2 ?_⟩
    push_cast
    nlinarith

/-- The intervals of a comparison and of the one with the arms exchanged: each is in order, inside
the range of the unit differences, and the mirror image of the other. -/
structure MirrorIntervals (bf16 rabit2 reps : List ℚ) (ci ci' : BootstrapInterval) : Prop where
  ordered : ci.ciLow ≤ ci.ciHigh
  range : ∃ m M, (List.zipWith (· - ·) rabit2 bf16).min? = some m ∧
    (List.zipWith (· - ·) rabit2 bf16).max? = some M ∧
    ∀ r ∈ reps ++ [ci.ciLow, ci.ciHigh], 100 * m ≤ r ∧ r ≤ 100 * M
  low : ci'.ciLow = -ci.ciHigh
  high : ci'.ciHigh = -ci.ciLow
  mean : ci'.replicateMean = -ci.replicateMean

/-- The positions of the endpoints are in the list and mirror each other. -/
theorem exists_positions {resamples : ℕ} (hB : 0 < resamples) (hc0 : 0 < c) (hc1 : c < 1) :
    ∃ p q : ℕ, lowPosition c resamples = p ∧ highPosition c resamples = q ∧ p ≤ q ∧
      p + q + 1 = resamples := by
  obtain ⟨hlow0, hlow⟩ := lowPosition_spec hc0 hc1 hB
  have hhigh := highPosition_eq c resamples
  obtain ⟨p, hp⟩ := Int.eq_ofNat_of_zero_le hlow0
  obtain ⟨q, hq⟩ : ∃ q : ℕ, highPosition c resamples = q := Int.eq_ofNat_of_zero_le (by omega)
  exact ⟨p, q, hp, hq, by omega, by omega⟩

theorem pairedBootstrapOn_mirrorIntervals (hb : benchmark ≠ "continuation_ppl") (hn : 0 < n)
    (hbf : bf16.length = n) (hra : rabit2.length = n) (hidx : IndexTable n indices)
    (hB : 0 < indices.length) (hc0 : 0 < c) (hc1 : c < 1) (seed : ℤ) :
    ∃ ci ci' reps,
      pairedBootstrapOn exp indices benchmark bf16 rabit2 indices.length seed c = .ok ci ∧
      pairedBootstrapOn exp indices benchmark rabit2 bf16 indices.length seed c = .ok ci' ∧
      replicates exp benchmark indices bf16 rabit2 = .ok reps ∧
      MirrorIntervals bf16 rabit2 reps ci ci' := by
  obtain ⟨p, q, hp, hq, hpq, hmirror⟩ := exists_positions hB hc0 hc1
  obtain ⟨lo, hlo⟩ : ∃ lo, (sortedReplicates bf16 rabit2 indices)[p]? = some lo :=
    ⟨_, List.getElem?_eq_getElem (by rw [length_sortedReplicates]; omega)⟩
  obtain ⟨hi, hhi⟩ : ∃ hi, (sortedReplicates bf16 rabit2 indices)[q]? = some hi :=
    ⟨_, List.getElem?_eq_getElem (by rw [length_sortedReplicates]; omega)⟩
  have hdiffs : List.zipWith (· - ·) rabit2 bf16 ≠ [] := by
    rw [← List.length_pos_iff, List.length_zipWith]
    omega
  obtain ⟨m, hm⟩ := Option.ne_none_iff_exists'.1 (mt List.min?_eq_none_iff.1 hdiffs)
  obtain ⟨M, hM⟩ := Option.ne_none_iff_exists'.1 (mt List.max?_eq_none_iff.1 hdiffs)
  have hreps : ∀ r ∈ indices.map (replicate bf16 rabit2), 100 * m ≤ r ∧ r ≤ 100 * M := by
    intro r hr
    obtain ⟨idx, hmem, rfl⟩ := List.mem_map.1 hr
    obtain ⟨hne, hrange⟩ := hidx idx hmem
    refine replicate_mem hne fun i hi => ?_
    have hlt : i.toNat < bf16.length := by
      have := hrange i hi
      omega
    have hdiff := getD_sub_mem hlt (hra.trans hbf.symm)
    exact ⟨(List.min?_eq_some_iff.1 hm).2 _ hdiff, (List.max?_eq_some_iff.1 hM).2 _ hdiff⟩
  have hsorted : ∀ {i : ℕ} {v : ℚ}, (sortedReplicates bf16 rabit2 indices)[i]? = some v →
      100 * m ≤ v ∧ v ≤ 100 * M := fun hv =>
    hreps _ ((List.mem_insertionSort _).1 (List.mem_of_getElem? hv))
  refine ⟨_, _, _, pairedBootstrapOn_eq exp hb hidx hbf hra hp hq hlo hhi seed,
    pairedBootstrapOn_eq exp hb hidx hra hbf hp hq (sortedReplicates_mirror hmirror hhi)
      (sortedReplicates_mirror (by omega) hlo) seed,
    replicates_eq exp hb hidx hbf hra, sortedReplicates_mono hpq hlo hhi, ⟨m, M, hm, hM, ?_⟩, rfl,
    rfl, ?_⟩
  · intro r hr
    simp only [List.mem_append, List.mem_cons, List.not_mem_nil, or_false] at hr
    rcases hr with hr | rfl | rfl
    · exact hreps r hr
    · exact hsorted hlo
    · exact hsorted hhi
  · dsimp only
    rw [sum_sortedReplicates_swap, neg_div]

/-- With whatever the generator draws, `paired_bootstrap` returns, and both arms' intervals mirror
each other. -/
theorem pairedBootstrap_mirrorIntervals {random : ℤ → ℕ → ℚ}
    (hrandom : ∀ seed k, 0 ≤ random seed k ∧ random seed k < 1)
    (hb : benchmark ≠ "continuation_ppl") (hn : 0 < n) (hbf : bf16.length = n)
    (hra : rabit2.length = n) {resamples : ℕ} (hB : 0 < resamples) (hc0 : 0 < c) (hc1 : c < 1)
    (seed : ℤ) :
    ∃ ci ci' reps,
      pairedBootstrap exp random benchmark bf16 rabit2 resamples seed c = .ok ci ∧
      pairedBootstrap exp random benchmark rabit2 bf16 resamples seed c = .ok ci' ∧
      replicates exp benchmark (bootstrapIndices (random seed) n resamples) bf16 rabit2 = .ok reps ∧
      MirrorIntervals bf16 rabit2 reps ci ci' := by
  have hlen : (bootstrapIndices (random seed) n resamples).length = resamples := by
    rw [bootstrapIndices, List.length_map, List.length_range]
  obtain ⟨ci, ci', reps, hci, hci', hreps, hmirror⟩ := pairedBootstrapOn_mirrorIntervals exp hb hn
    hbf hra (bootstrapIndices_table (hrandom seed) hn resamples) (hlen.symm ▸ hB) hc0 hc1 seed
  rw [hlen] at hci hci'
  refine ⟨ci, ci', reps, ?_, ?_, hreps, hmirror⟩
  · rw [pairedBootstrap, hbf, hci]
  · rw [pairedBootstrap, hra, hci']

/-- A bootstrap interval is in order, inside the range of the unit differences, and the interval of
the exchanged arms is its mirror image. -/
theorem pairedBootstrap_mirror (hb : benchmark ≠ "continuation_ppl") (hn : 0 < n)
    (hbf : bf16.length = n) (hra : rabit2.length = n) (hidx : IndexTable n indices)
    (hB : indices ≠ []) (hc0 : 0 < c) (hc1 : c < 1) (seed : ℤ) :
    ∃ ci ci' reps m M, (List.zipWith (· - ·) rabit2 bf16).min? = some m ∧
      (List.zipWith (· - ·) rabit2 bf16).max? = some M ∧
      pairedBootstrapOn exp indices benchmark bf16 rabit2 indices.length seed c = .ok ci ∧
      pairedBootstrapOn exp indices benchmark rabit2 bf16 indices.length seed c = .ok ci' ∧
      replicates exp benchmark indices bf16 rabit2 = .ok reps ∧
      0 ≤ lowPosition c indices.length ∧ lowPosition c indices.length ≤ indices.length - 1 ∧
      0 ≤ highPosition c indices.length ∧ highPosition c indices.length ≤ indices.length - 1 ∧
      lowPosition c indices.length + highPosition c indices.length = indices.length - 1 ∧
      ci.ciLow ≤ ci.ciHigh ∧
      (∀ r ∈ reps ++ [ci.ciLow, ci.ciHigh], 100 * m ≤ r ∧ r ≤ 100 * M) ∧
      ci'.ciLow = -ci.ciHigh ∧ ci'.ciHigh = -ci.ciLow ∧
      ci'.replicateMean = -ci.replicateMean := by
  have hlen : 0 < indices.length := List.length_pos_iff.2 hB
  obtain ⟨ci, ci', reps, hci, hci', hreps, hmirror⟩ :=
    pairedBootstrapOn_mirrorIntervals exp hb hn hbf hra hidx hlen hc0 hc1 seed
  obtain ⟨m, M, hm, hM, hrange⟩ := hmirror.range
  obtain ⟨p, q, hp, hq, hpq, hsum⟩ := exists_positions hlen hc0 hc1
  exact ⟨ci, ci', reps, m, M, hm, hM, hci, hci', hreps, by omega, by omega, by omega, by omega,
    by omega, hmirror.ordered, hrange, hmirror.low, hmirror.high, hmirror.mean⟩

end Interval

/-- Two units, two replicates. -/
theorem pairedBootstrap_mirror_two_units :
    ∃ ci ci', pairedBootstrapOn id [[0, 1], [1, 1]] "hotpotqa" [1, 2] [2, 5] 2 7 (1 / 2) = .ok ci ∧
      pairedBootstrapOn id [[0, 1], [1, 1]] "hotpotqa" [2, 5] [1, 2] 2 7 (1 / 2) = .ok ci' ∧
      ci.ciLow ≤ ci.ciHigh ∧ ci'.ciLow = -ci.ciHigh := by
  have hidx : IndexTable 2 [[0, 1], [1, 1]] := by
    unfold IndexTable
    decide
  obtain ⟨ci, ci', reps, m, M, -, -, hci, hci', -, -, -, -, -, -, hle, -, hmirror, -⟩ :=
    pairedBootstrap_mirror id (show "hotpotqa" ≠ "continuation_ppl" by decide) (by decide)
      (show ([1, 2] : List ℚ).length = 2 from rfl) (show ([2, 5] : List ℚ).length = 2 from rfl) hidx
      (by decide) (show (0 : ℚ) < 1 / 2 by norm_num) (by norm_num) 7
  exact ⟨ci, ci', hci, hci', hle, hmirror⟩

end RabitKV
