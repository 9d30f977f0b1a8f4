import RabitKV.Lib.Stores
import RabitKV.PageKernel

/-!
# Slots of the partial buffers

A partial is stored under the number of its segment and query head. Partials of different numbers
go to different slots (`nodup_partialStores`), so each slot holds what was stored to it
(`storeAll_partialStores`), and a pointer advanced by whole partials only moves the number
(`storePartial_eq`).
-/

namespace RabitKV

open Stores Chunks

section Slots

variable {F : Type} {D blockD : ℕ}

/-- The stores of one numbered partial. -/
def partialStores (D : ℕ) (x : ℕ × Partial F) : List (Slot × F) :=
  (.m x.1, x.2.m) :: (.l x.1, x.2.l) :: (List.range D).map fun d => (.acc (x.1 * D + d), x.2.acc d)

theorem storePartial_eq (h : D ≤ blockD) (base seg : ℕ) (p : Partial F) :
    storePartial ⟨base, base, base * D⟩ D blockD seg true p = partialStores D (base + seg, p) := by
  rw [storePartial, if_pos rfl, filter_range_lt h, partialStores, Nat.add_mul]

/-- The number of the partial a slot belongs to. -/
def Slot.number (D : ℕ) : Slot → ℕ
  | .m i => i
  | .l i => i
  | .acc i => i / D

theorem number_of_mem {x : ℕ × Partial F} {s : Slot} (h : s ∈ (partialStores D x).map Prod.fst) :
    s.number D = x.1 := by
  simp only [partialStores, List.map_cons, List.map_map, List.mem_cons, List.mem_map,
    List.mem_range, Function.comp_apply] at h
  rcases h with rfl | rfl | ⟨d, hd, rfl⟩
  · rfl
  · rfl
  · exact mul_add_div hd

theorem nodup_partialStores_one (x : ℕ × Partial F) :
    ((partialStores D x).map Prod.fst).Nodup := by
  have hinj : Function.Injective fun d => Slot.acc (x.1 * D + d) := fun d d' h => by
    simpa using h
  simp only [partialStores, List.map_cons, List.map_map]
  refine List.nodup_cons.2 ⟨by simp, List.nodup_cons.2 ⟨by simp, ?_⟩⟩
  exact List.nodup_range.map hinj

variable {ps : List (ℕ × Partial F)}

theorem map_fst_flatMap (ps : List (ℕ × Partial F)) : (ps.flatMap (partialStores D)).map Prod.fst
    = ps.flatMap fun x => (partialStores D x).map Prod.fst :=
  List.map_flatMap

/-- Different numbers, different slots. -/
theorem nodup_partialStores (h : (ps.map Prod.fst).Nodup) :
    ((ps.flatMap (partialStores D)).map Prod.fst).Nodup := by
  rw [map_fst_flatMap, List.nodup_flatMap]
  refine ⟨fun x _ => nodup_partialStores_one x, ?_⟩
  have hne : ps.Pairwise fun x y => x.1 ≠ y.1 := List.pairwise_map.1 h
  refine hne.imp fun {x y} hxy => ?_
  intro s hx hy
  exact hxy ((number_of_mem hx).symm.trans (number_of_mem hy))

variable {i : ℕ} {p : Partial F}

/-- Each slot holds what was stored to it. -/
theorem storeAll_partialStores (h : (ps.map Prod.fst).Nodup) (hp : (i, p) ∈ ps) (mem : Slot → F) :
    storeAll mem (ps.flatMap (partialStores D)) (.m i) = p.m ∧
      storeAll mem (ps.flatMap (partialStores D)) (.l i) = p.l ∧
      ∀ d < D, storeAll mem (ps.flatMap (partialStores D)) (.acc (i * D + d)) = p.acc d := by
  have hstored : ∀ {w : Slot × F}, w ∈ partialStores D (i, p) →
      storeAll mem (ps.flatMap (partialStores D)) w.1 = w.2 := fun {w} hw =>
    storeAll_of_mem mem (nodup_partialStores h) (List.mem_flatMap.2 ⟨_, hp, hw⟩)
  refine ⟨hstored (w := (.m i, p.m)) (by simp [partialStores]),
    hstored (w := (.l i, p.l)) (by simp [partialStores]), fun d hd => ?_⟩
  exact hstored (w := (.acc (i * D + d), p.acc d)) (by simpa [partialStores] using hd)

/-- Every slot of a stored partial was written exactly once. -/
theorem count_partialStores (h : (ps.map Prod.fst).Nodup) (hp : (i, p) ∈ ps) {s : Slot}
    (hs : s ∈ (partialStores D (i, p)).map Prod.fst) :
    ((ps.flatMap (partialStores D)).map Prod.fst).count s = 1 := by
  refine List.count_eq_one_of_mem (nodup_partialStores h) ?_
  rw [map_fst_flatMap]
  exact List.mem_flatMap.2 ⟨_, hp, hs⟩

end Slots

section Grid

variable {F : Type} {n w base : ℕ} {f : ℕ → ℕ → Partial F}

/-- Partials in `n` rows of `w`, numbered row by row from `base`. -/
def gridPartials (base n w : ℕ) (f : ℕ → ℕ → Partial F) : List (ℕ × Partial F) :=
  (List.range n).flatMap fun s => (List.range w).map fun j => (base + (s * w + j), f s j)

theorem map_fst_gridPartials (base n w : ℕ) (f : ℕ → ℕ → Partial F) :
    (gridPartials base n w f).map Prod.fst = (List.range (n * w)).map (base + ·) := by
  have hgrid := flatMap_range_mul n w fun i => [base + i]
  simpa [gridPartials, List.map_flatMap, ← List.map_eq_flatMap, Function.comp_def] using hgrid

theorem mem_gridPartials {s j : ℕ} (hs : s < n) (hj : j < w) :
    (base + (s * w + j), f s j) ∈ gridPartials base n w f :=
  List.mem_flatMap.2 ⟨s, List.mem_range.2 hs, List.mem_map.2 ⟨j, List.mem_range.2 hj, rfl⟩⟩

theorem nodup_gridPartials : ((gridPartials base n w f).map Prod.fst).Nodup := by
  rw [map_fst_gridPartials]
  exact List.nodup_range.map fun i j h => Nat.add_left_cancel h

theorem gridPartials_succ (base n w : ℕ) (f : ℕ → ℕ → Partial F) :
    gridPartials base (n + 1) w f
      = gridPartials base n w f ++ (List.range w).map fun j => (base + (n * w + j), f n j) := by
  rw [gridPartials, List.range_succ, List.flatMap_append, List.flatMap_singleton]
  rfl

end Grid

section Pages

variable {F Q : Type} (fp : AttnFp F) (dt : QDtype F Q) (c : PageConsts) (cache : ℕ → UInt8)
  (blockTable : ℕ → ℕ) (softmaxScale : F) (q : QueryPtr Q)

/-- The partial of query head `qh` over one closed page. -/
def pagePartial (logicalPage qh : ℕ) : Partial F :=
  let page := blockTable logicalPage * c.pageBytes
  let kvh := qh / (c.numQHeads / c.numKvHeads)
  partialOf fp 32 c.blockD (fun _ => true) softmaxScale (loadQ fp dt q c.headSize qh true)
    (pageK fp c cache page kvh) (pageV fp c cache page kvh)

variable {c} (hD : c.headSize ≤ c.blockD) (base : ℕ)
include hD

theorem pageHead_eq (logicalPage qh : ℕ) :
    pageHead fp dt c cache blockTable softmaxScale q ⟨base, base, base * c.headSize⟩ logicalPage
        (qh / (c.numQHeads / c.numKvHeads)) qh true
      = partialStores c.headSize (base + (logicalPage * c.numQHeads + qh),
        pagePartial fp dt c cache blockTable softmaxScale q logicalPage qh) :=
  storePartial_eq hD base _ _

/-- The per-head kernel stores one partial per closed page and query head. -/
theorem closedPagePartialKernel_eq (closed : ℕ) :
    closedPagePartialKernel fp dt c cache blockTable softmaxScale q ⟨base, base, base * c.headSize⟩
        closed c.numQHeads
      = (gridPartials base closed c.numQHeads
          (pagePartial fp dt c cache blockTable softmaxScale q)).flatMap
        (partialStores c.headSize) := by
  rw [gridPartials, List.flatMap_assoc]
  refine List.flatMap_congr fun s _ => ?_
  rw [List.flatMap_map]
  exact List.flatMap_congr fun qh _ =>
    pageHead_eq fp dt cache blockTable softmaxScale q hD base s qh

end Pages

section Groups

variable {F Q : Type} (fp : AttnFp F) (dt : QDtype F Q) {c : PageConsts} (cache : ℕ → UInt8)
  (blockTable : ℕ → ℕ) (softmaxScale : F) (q : QueryPtr Q) (ptrs : PartialPtrs)

/-- A program of the four-head kernels handles four consecutive query heads of one KV head. -/
theorem gqa4Body_eq (h4 : 4 ∣ c.numQHeads / c.numKvHeads)
    (logicalPage qgroup : ℕ) (valid : Bool) :
    gqa4Body fp dt c cache blockTable softmaxScale q ptrs logicalPage qgroup valid
      = (List.range 4).flatMap fun qi => pageHead fp dt c cache blockTable softmaxScale q ptrs
        logicalPage ((qgroup * 4 + qi) / (c.numQHeads / c.numKvHeads)) (qgroup * 4 + qi) valid := by
  obtain ⟨k, hk⟩ := h4
  refine List.flatMap_congr fun qi hqi => ?_
  have hqi4 : qi < 4 := List.mem_range.1 hqi
  have hkvh : (qgroup * 4 + qi) / (4 * k) = qgroup / k := by
    rw [← Nat.div_div_eq_div_mul, mul_add_div hqi4]
  have hdiv := Nat.div_add_mod' qgroup k
  have hbase : qgroup / k * (4 * k) + (qgroup - qgroup / k * k) * 4 = qgroup * 4 := by
    have hassoc : qgroup / k * (4 * k) = qgroup / k * k * 4 := by ring
    omega
  rw [hk, Nat.mul_div_cancel_left k (by decide : 0 < 4), hkvh, hbase]

/-- The four-head kernel stores what the per-head kernel stores. -/
theorem gqa4ClosedPagePartialKernel_eq (h4 : 4 ∣ c.numQHeads / c.numKvHeads)
    (closed : ℕ) {qgroups : ℕ}
    (hgroups : qgroups * 4 = c.numQHeads) :
    gqa4ClosedPagePartialKernel fp dt c cache blockTable softmaxScale q ptrs closed qgroups
      = closedPagePartialKernel fp dt c cache blockTable softmaxScale q ptrs closed
        c.numQHeads := by
  refine List.flatMap_congr fun s _ => ?_
  rw [← hgroups, ← flatMap_range_mul]
  exact List.flatMap_congr fun g _ =>
    gqa4Body_eq fp dt cache blockTable softmaxScale q ptrs h4 s g true

end Groups

end RabitKV
