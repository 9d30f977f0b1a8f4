import RabitKV.Proofs.Attention
import RabitKV.Stage3c

/-!
# Tiles

`rabit2_tile32_tiles` cuts the steps of a chunk into runs of one page count (`tile32Tiles_cover`).
The shared-decode kernel stores what the tile32 kernel stores (`sharedDecode_eq_tile32`), which is,
in another order, what one launch per query would store (`tile32Kernel_perm`). A reduction depends
on the partials of its query only (`reduceOut_eq_merged`), wherever they lie.
-/

namespace RabitKV

open Stores Chunks

/-- The tiles cover the steps from `first` to `last` in order, each with at most 32 queries and one
page count. -/
def TilesCover (closedAfter : ℕ → ℕ) : ℕ → ℕ → List Tile → Prop
  | first, last, [] => first = last
  | first, last, t :: ts => t.start = first ∧ t.start < t.stop ∧ t.stop ≤ t.start + tileMaxQueries ∧
      (∀ i, t.start ≤ i → i < t.stop → closedAfter i = t.closed) ∧
      TilesCover closedAfter t.stop last ts

section Schedule

variable {closedAfter : ℕ → ℕ} {ts : List Tile} {t : Tile} {first last : ℕ}

theorem TilesCover.le : ∀ {ts : List Tile} {first : ℕ}, TilesCover closedAfter first last ts →
    first ≤ last
  | [], _, h => Nat.le_of_eq h
  | _ :: _, _, ⟨rfl, hlt, _, _, h⟩ => hlt.le.trans h.le

/-- The queries of a tile lie in the chunk and see its pages. -/
theorem TilesCover.of_mem : ∀ {ts : List Tile} {first : ℕ}, TilesCover closedAfter first last ts →
    t ∈ ts → t.stop ≤ last ∧ ∀ i, t.start ≤ i → i < t.stop → closedAfter i = t.closed
  | _ :: _, _, ⟨_, _, _, hsame, h⟩, ht => by
    rcases List.mem_cons.1 ht with rfl | ht
    · exact ⟨h.le, hsame⟩
    · exact h.of_mem ht

theorem TilesCover.congr {g : ℕ → ℕ} (hg : ∀ i < last, closedAfter i = g i) :
    ∀ {ts : List Tile} {first : ℕ}, TilesCover closedAfter first last ts →
      TilesCover g first last ts
  | [], _, h => h
  | _ :: _, _, ⟨hs, hlt, hle, hsame, h⟩ => ⟨hs, hlt, hle, fun i hi hi' =>
      (hg i (hi'.trans_le h.le)).symm.trans (hsame i hi hi'), h.congr hg⟩

theorem TilesCover.concat (hlt : t.start < t.stop) (hle : t.stop ≤ t.start + tileMaxQueries)
    (hc : ∀ i, t.start ≤ i → i < t.stop → closedAfter i = t.closed) :
    ∀ {ts : List Tile} {first : ℕ}, TilesCover closedAfter first t.start ts →
      TilesCover closedAfter first t.stop (ts ++ [t])
  | [], _, h => ⟨h.symm, hlt, hle, hc, rfl⟩
  | _ :: _, _, ⟨hs, h1, h2, h3, h⟩ => ⟨hs, h1, h2, h3, h.concat hlt hle hc⟩

variable {l : List ℕ} {k : ℕ} {st : List Tile × ℕ}

/-- The loop after `k` iterations: the steps from `start` to `k` all see the same pages. -/
structure TileInv (l : List ℕ) (k : ℕ) (st : List Tile × ℕ) : Prop where
  cover : TilesCover (l.getD · 0) 0 st.2 st.1
  start_le : st.2 ≤ k
  run : k < l.length → k - st.2 < tileMaxQueries ∧
    ∀ i, st.2 ≤ i → i ≤ k → l.getD i 0 = l.getD st.2 0
  done : k = l.length → st.2 = l.length

theorem TileInv.step (h : TileInv l k st) (hk : k < l.length) :
    TileInv l (k + 1) (tileStep l st (k + 1)) := by
  obtain ⟨hshort, hsame⟩ := h.run hk
  have hstart := h.start_le
  unfold tileStep
  split_ifs with hcut
  · refine ⟨?_, le_refl _, fun _ => ⟨?_, fun i hi hi' => ?_⟩, id⟩
    · have hlt : st.2 < k + 1 := by omega
      have hle : k + 1 ≤ st.2 + tileMaxQueries := by omega
      exact h.cover.concat (t := ⟨st.2, k + 1, l.getD st.2 0⟩) hlt hle
        fun i hi hi' => hsame i hi (Nat.le_of_lt_succ hi')
    · rw [Nat.sub_self]
      decide
    · rw [le_antisymm hi' hi]
  · obtain ⟨hend, hcut⟩ := not_or.1 hcut
    obtain ⟨hsame', hfull⟩ := not_or.1 hcut
    refine ⟨h.cover, hstart.trans (Nat.le_succ k), fun _ => ⟨by omega, fun i hi hi' => ?_⟩,
      fun hlast => absurd hlast hend⟩
    rcases Nat.lt_or_ge k i with hlt | hge
    · rw [le_antisymm hi' hlt]
      exact not_not.1 hsame'
    · exact hsame i hi hge

theorem tileInv_zero (l : List ℕ) : TileInv l 0 ([], 0) := by
  refine ⟨rfl, le_refl 0, fun _ => ⟨by decide, fun i _ hi => ?_⟩, id⟩
  rw [Nat.le_zero.1 hi]

theorem tileInv_fold (l : List ℕ) : ∀ {k : ℕ}, k ≤ l.length →
    TileInv l k ((List.range' 1 k).foldl (tileStep l) ([], 0))
  | 0, _ => tileInv_zero l
  | k + 1, hk => by
    rw [List.range'_1_concat, List.foldl_append, Nat.add_comm 1 k]
    exact (tileInv_fold l (Nat.le_of_succ_le hk)).step hk

/-- The tiles cover the whole chunk. -/
theorem tile32Tiles_cover (closedAfter : ℕ → ℕ) (n : ℕ) :
    TilesCover closedAfter 0 n (tile32Tiles ((List.range n).map closedAfter)) := by
  have hlen : ((List.range n).map closedAfter).length = n := by simp
  have h := tileInv_fold ((List.range n).map closedAfter) (le_refl _)
  have hcover : TilesCover _ 0 _ (tile32Tiles _) := h.cover
  rw [h.done rfl, hlen] at hcover
  refine hcover.congr fun i hi => ?_
  simp [hi]

end Schedule

section Kernels

variable {F Q : Type} (fp : AttnFp F) (dt : QDtype F Q) (a : TileLaunch F Q) (closed qgroups n : ℕ)

/-- A query past the tile is masked out of every store. -/
theorem tileBody_invalid (logicalPage qgroup tileQ : ℕ) :
    tileBody fp dt a logicalPage qgroup tileQ false = [] := by
  simp [tileBody, gqa4Body, pageHead, storePartial]

/-- One decode per block of queries stores what one decode per query stores. -/
theorem sharedDecode_eq_tile32 {queryBlock : ℕ} (hb : 0 < queryBlock) :
    sharedDecodeClosedPagePartialKernel fp dt queryBlock a closed qgroups n
      = tile32ClosedPagePartialKernel fp dt a closed qgroups n := by
  refine List.flatMap_congr fun s _ => List.flatMap_congr fun g _ => ?_
  have hgrid := flatMap_range_mul (cdiv n queryBlock) queryBlock fun tileQ =>
    tileBody fp dt a s g tileQ (decide (tileQ < n))
  have hle : n ≤ cdiv n queryBlock * queryBlock := by
    have hmod := Nat.div_add_mod' (n + queryBlock - 1) queryBlock
    have hlt := Nat.mod_lt (n + queryBlock - 1) hb
    unfold cdiv
    omega
  rw [hgrid, flatMap_range_of_le hle fun tileQ ht => by
    rw [decide_eq_false (Nat.not_lt.2 ht), tileBody_invalid]]
  exact List.flatMap_congr fun tileQ ht => by rw [decide_eq_true (List.mem_range.1 ht)]

theorem tilePtrs_eq (headSize stride tileQ : ℕ) :
    PartialPtrs.tile ⟨0, 0, 0⟩ headSize stride tileQ
      = ⟨tileQ * stride, tileQ * stride, tileQ * stride * headSize⟩ := by
  simp [PartialPtrs.tile]

variable {a closed qgroups}

/-- The batched kernel stores, in another order, what one launch per query stores. -/
theorem tile32Kernel_perm (hD : a.consts.headSize ≤ a.consts.blockD)
    (h4 : 4 ∣ a.consts.numQHeads / a.consts.numKvHeads)
    (hgroups : qgroups * 4 = a.consts.numQHeads) :
    (tile32ClosedPagePartialKernel fp dt a closed qgroups n).Perm
      ((List.range n).flatMap fun tileQ => (gridPartials (tileQ * a.partialTileStride) closed
        a.consts.numQHeads (pagePartial fp dt a.consts a.cache a.blockTable a.softmaxScale
          (a.q.advance (tileQ * a.qTileStride)))).flatMap (partialStores a.consts.headSize)) := by
  have hinner : (tile32ClosedPagePartialKernel fp dt a closed qgroups n).Perm
      ((List.range closed).flatMap fun s => (List.range n).flatMap fun tileQ =>
        (List.range qgroups).flatMap fun g => tileBody fp dt a s g tileQ true) :=
    List.Perm.flatMap_left _ fun s _ => flatMap_swap_perm _ _ _
  refine (hinner.trans (flatMap_swap_perm _ _ _)).trans (List.Perm.of_eq ?_)
  refine List.flatMap_congr fun tileQ _ => ?_
  rw [← closedPagePartialKernel_eq fp dt a.cache a.blockTable a.softmaxScale
    (a.q.advance (tileQ * a.qTileStride)) hD (tileQ * a.partialTileStride) closed,
    ← gqa4ClosedPagePartialKernel_eq fp dt a.cache a.blockTable a.softmaxScale _ _ h4 closed
      hgroups,
    ← tilePtrs_eq]
  rfl

end Kernels

section Reduce

variable {F Q : Type} (fp : AttnFp F) (dt : QDtype F Q)

/-- The merged output of `n` partials. -/
def mergedOut (n blockS : ℕ) (f : ℕ → Partial F) (d : ℕ) : F :=
  let ms := fun s => if s < n then (f s).m else fp.negInf
  let globalM := fp.amax ((List.range blockS).map ms)
  let w := fun s => if s < n then fp.exp (fp.sub (ms s) globalM) else fp.lit 0
  let ls := fun s => if s < n then (f s).l else fp.lit 0
  let acc := fun s => if s < n then (f s).acc d else fp.lit 0
  fp.div (fp.sum ((List.range blockS).map fun s => fp.mul (acc s) (w s)))
    (fp.sum ((List.range blockS).map fun s => fp.mul (w s) (ls s)))

variable {a : ReduceArgs} {qh : ℕ} {mem : Slot → F} {f : ℕ → Partial F}

/-- A reduction depends on the partials it finds only. -/
theorem reduceOut_eq_merged (h : ∀ s < a.numSegments, SlotsHold a qh mem s (f s)) {d : ℕ}
    (hd : d < a.headSize) :
    reduceOut fp a qh mem d = mergedOut fp a.numSegments a.blockS f d := by
  have hms : ∀ s, (msLoad fp a qh s).eval mem
      = if s < a.numSegments then (f s).m else fp.negInf := fun s => by
    by_cases hs : s < a.numSegments
    · simp [msLoad, hs, (h s hs).m]
    · simp [msLoad, hs]
  have hls : ∀ s, (lsLoad fp a qh s).eval mem
      = if s < a.numSegments then (f s).l else fp.lit 0 := fun s => by
    by_cases hs : s < a.numSegments
    · simp [lsLoad, hs, (h s hs).l]
    · simp [lsLoad, hs]
  have hacc : ∀ s, (accLoad fp a qh s d).eval mem
      = if s < a.numSegments then (f s).acc d else fp.lit 0 := fun s => by
    by_cases hs : s < a.numSegments
    · simp [accLoad, hs, hd, (h s hs).acc d hd]
    · simp [accLoad, hs]
  simp only [reduceOut, reduceDenom, reduceWeight, hms, hls, hacc, mergedOut]

end Reduce

section Buffers

variable {F Q : Type} (fp : AttnFp F) (dt : QDtype F Q) {D n segments qHeads : ℕ}
  {f : ℕ → ℕ → ℕ → Partial F} {stores : List (Slot × F)}

/-- The partials of the queries of a tile, one block per query. -/
def tilePartials (n segments qHeads : ℕ) (f : ℕ → ℕ → ℕ → Partial F) : List (ℕ × Partial F) :=
  (List.range n).flatMap fun j => gridPartials (j * (segments * qHeads)) segments qHeads (f j)

theorem map_fst_tilePartials (n segments qHeads : ℕ) (f : ℕ → ℕ → ℕ → Partial F) :
    (tilePartials n segments qHeads f).map Prod.fst = List.range (n * (segments * qHeads)) := by
  have hgrid := flatMap_range_mul n (segments * qHeads) fun i => [i]
  rw [tilePartials, List.map_flatMap]
  simp only [map_fst_gridPartials]
  simpa [← List.map_eq_flatMap] using hgrid

/-- A slot of a tile of `size` partials. -/
def Slot.Below (D size : ℕ) : Slot → Prop
  | .m i => i < size
  | .l i => i < size
  | .acc i => i < size * D

instance (D size : ℕ) : DecidablePred (Slot.Below D size)
  | .m i => inferInstanceAs (Decidable (i < size))
  | .l i => inferInstanceAs (Decidable (i < size))
  | .acc i => inferInstanceAs (Decidable (i < size * D))

theorem mem_partialStores {x : ℕ × Partial F} {s : Slot} :
    s ∈ (partialStores D x).map Prod.fst ↔
      s = .m x.1 ∨ s = .l x.1 ∨ ∃ d < D, s = .acc (x.1 * D + d) := by
  simp only [partialStores, List.map_cons, List.map_map, List.mem_cons, List.mem_map,
    List.mem_range, Function.comp_apply, eq_comm]

/-- The slots of partials with the numbers below `size`. -/
theorem mem_slots_iff {ps : List (ℕ × Partial F)} {size : ℕ}
    (hps : ps.map Prod.fst = List.range size)
    (s : Slot) : s ∈ (ps.flatMap (partialStores D)).map Prod.fst ↔ s.Below D size := by
  have hnum : ∀ i, (∃ p, (i, p) ∈ ps) ↔ i < size := fun i => by
    rw [← List.mem_range, ← hps]
    simp
  rw [map_fst_flatMap, List.mem_flatMap]
  simp only [mem_partialStores]
  constructor
  · rintro ⟨⟨i, p⟩, hmem, rfl | rfl | ⟨d, hd, rfl⟩⟩
    · exact (hnum i).1 ⟨p, hmem⟩
    · exact (hnum i).1 ⟨p, hmem⟩
    · exact mul_add_lt ((hnum i).1 ⟨p, hmem⟩) hd
  · intro hs
    rcases s with i | i | i
    · obtain ⟨p, hp⟩ := (hnum i).2 hs
      exact ⟨(i, p), hp, Or.inl rfl⟩
    · obtain ⟨p, hp⟩ := (hnum i).2 hs
      exact ⟨(i, p), hp, Or.inr (Or.inl rfl)⟩
    · have hs' : i < size * D := hs
      have hD : 0 < D := Nat.pos_of_mul_pos_left (by omega : 0 < size * D)
      obtain ⟨p, hp⟩ := (hnum (i / D)).2 (Nat.div_lt_of_lt_mul (by rwa [Nat.mul_comm]))
      refine ⟨(i / D, p), hp, Or.inr (Or.inr ⟨i % D, Nat.mod_lt i hD, ?_⟩)⟩
      rw [Nat.div_add_mod']

variable (hstores : stores.Perm ((tilePartials n segments qHeads f).flatMap (partialStores D)))
include hstores

/-- Every slot of the tile is written exactly once, and no other slot. -/
theorem count_tileStores (s : Slot) : (stores.map Prod.fst).count s
    = if s.Below D (n * (segments * qHeads)) then 1 else 0 := by
  have hps := map_fst_tilePartials n segments qHeads f
  have hmem := mem_slots_iff (D := D) hps s
  have hnodup :
      (((tilePartials n segments qHeads f).flatMap (partialStores D)).map Prod.fst).Nodup :=
    nodup_partialStores (by rw [hps]; exact List.nodup_range)
  rw [(hstores.map Prod.fst).count_eq]
  split_ifs with hs
  · exact List.count_eq_one_of_mem hnodup (hmem.2 hs)
  · exact List.count_eq_zero_of_not_mem fun h => hs (hmem.1 h)

variable (mem : Slot → F) {j s qh : ℕ}

/-- The buffers of the tile hold the partials of its queries. -/
theorem tile_holds (hj : j < n) (hs : s < segments) (hqh : qh < qHeads) :
    SlotsHold { reduceArgs segments qHeads D with
      ptrs := PartialPtrs.tile ⟨0, 0, 0⟩ D (segments * qHeads) j } qh (storeAll mem stores) s
      (f j s qh) := by
  have hps : ((tilePartials n segments qHeads f).map Prod.fst).Nodup := by
    rw [map_fst_tilePartials]
    exact List.nodup_range
  have hin : (j * (segments * qHeads) + (s * qHeads + qh), f j s qh)
      ∈ tilePartials n segments qHeads f :=
    List.mem_flatMap.2 ⟨j, List.mem_range.2 hj, mem_gridPartials hs hqh⟩
  obtain ⟨hm, hl, hacc⟩ := storeAll_partialStores (D := D) hps hin mem
  rw [storeAll_perm hstores (nodup_partialStores hps), tilePtrs_eq]
  refine ⟨hm, hl, fun d hd => ?_⟩
  have hslot := hacc d hd
  rw [Nat.add_mul, Nat.add_assoc] at hslot
  exact hslot

/-- The output of the tile, row by row. -/
theorem out_tile (out : ℕ → Q) (hj : j < n) {k : ℕ} (hk : k < qHeads * D) :
    storeAll out (tile32ReducePartialsKernel fp dt (reduceArgs segments qHeads D)
        (storeAll mem stores) (segments * qHeads) (qHeads * D) qHeads n) (j * (qHeads * D) + k)
      = dt.ofF
        (mergedOut fp segments (nextPowerOf2 segments) (fun s => f j s (k / D)) (k % D)) := by
  have hD : 0 < D := Nat.pos_of_mul_pos_left (by omega : 0 < qHeads * D)
  have hqh : k / D < qHeads := Nat.div_lt_of_lt_mul (by rwa [Nat.mul_comm])
  have hmod : k % D < D := Nat.mod_lt k hD
  have hsplit := Nat.div_add_mod' k D
  have hfilter : ((List.range (reduceArgs segments qHeads D).blockD).filter fun d =>
      decide (d < (reduceArgs segments qHeads D).headSize)) = List.range D :=
    filter_range_lt (le_nextPowerOf2 D)
  have hvalue : ∀ j < n, ∀ qh < qHeads, ∀ d < D, reduceOut fp
      { reduceArgs segments qHeads D with
        ptrs := PartialPtrs.tile ⟨0, 0, 0⟩ D (segments * qHeads) j } qh (storeAll mem stores) d
      = mergedOut fp segments (nextPowerOf2 segments) (fun s => f j s qh) d :=
    fun j hj qh hqh d hd =>
      reduceOut_eq_merged fp (fun s hs => tile_holds hstores mem hj hs hqh) hd
  simp only [tile32ReducePartialsKernel, reduceProgram, hfilter]
  refine storeAll_of_forall out ?_ ?_
  · refine List.mem_map.2 ⟨_, List.mem_flatMap.2 ⟨k / D, List.mem_range.2 hqh, List.mem_flatMap.2
      ⟨j, List.mem_range.2 hj, List.mem_map.2 ⟨k % D, List.mem_range.2 hmod, rfl⟩⟩⟩, ?_⟩
    change j * (qHeads * D) + k / D * D + k % D = j * (qHeads * D) + k
    omega
  · rintro w hw haddr
    obtain ⟨qh', hqh', hw⟩ := List.mem_flatMap.1 hw
    obtain ⟨j', hj', hw⟩ := List.mem_flatMap.1 hw
    obtain ⟨d', hd', rfl⟩ := List.mem_map.1 hw
    have hqh' := List.mem_range.1 hqh'
    have hd' := List.mem_range.1 hd'
    have haddr' : j' * (qHeads * D) + (qh' * D + d') = j * (qHeads * D) + k := by
      rw [← haddr, ← Nat.add_assoc]
      rfl
    obtain ⟨rfl, hk'⟩ := mul_add_inj (mul_add_lt hqh' hd') hk haddr'
    rw [← hk', mul_add_div hd', mul_add_mod hd']
    exact congrArg dt.ofF (hvalue _ hj _ hqh' _ hd')

end Buffers

end RabitKV
