import RabitKV.FastAppend
import RabitKV.Proofs.ChunkPlan

/-!
# The fast append is the window's step on the buffers

The two kernels age the oldest recent token into the next open slot and rotate the residual
(`fastKernels_rows`). So a fast append steps the window that the buffers hold, and the public fields
follow the buffers; what the public fields held before does not matter once the buffers are ready
(`fastToken_run`).
-/

namespace RabitKV

open Chunks Stores Window

section Rows

variable {α : Type} {H D : ℕ}

theorem rowsTo_succ (mem : ℕ → α) (n : ℕ) :
    rowsTo H D mem (n + 1) = rowsTo H D mem n ++ [rowAt H D mem n] := by
  rw [rowsTo, rowsTo, List.range_succ, List.map_append]
  rfl

theorem length_rowsTo (mem : ℕ → α) (n : ℕ) : (rowsTo H D mem n).length = n := by
  rw [rowsTo, List.length_map, List.length_range]

theorem getElem_rowsTo (mem : ℕ → α) {n slot : ℕ} (h : slot < (rowsTo H D mem n).length) :
    (rowsTo H D mem n)[slot] = rowAt H D mem slot := by
  simp [rowsTo]

theorem rowsTo_congr {mem mem' : ℕ → α} {n : ℕ}
    (h : ∀ slot < n, rowAt H D mem slot = rowAt H D mem' slot) :
    rowsTo H D mem n = rowsTo H D mem' n :=
  List.map_congr_left fun slot hslot => h slot (List.mem_range.1 hslot)

/-- Rows copied in are read back. -/
theorem rowsTo_copyRows (mem : ℕ → α) {ts : List (Tok H D α)} {n : ℕ} (hn : ts.length = n) :
    rowsTo H D (copyRows mem ts) n = ts := by
  subst hn
  refine List.ext_getElem (length_rowsTo _ _) fun slot h1 h2 => ?_
  funext h d
  rw [getElem_rowsTo, rowAt, copyRows, getElem?_flatTokens, List.getElem?_eq_getElem h2]
  rfl

section Blocks

variable {G n : ℕ} (mem : ℕ → α) (val : ℕ → ℕ → α)

/-- Programs `0, …, H * G - 1` store one block of `n` each into the row at `slot`. -/
theorem rowAt_blocks (slot : ℕ) (hn : 0 < n) :
    rowAt H (G * n) ((List.range (H * G)).foldl (fun m p =>
        storeBlock m (slot * (H * G * n) + p * n) n (fun _ => true) (val p)) mem) slot
      = fun h j => val (h.1 * G + j.1 / n) (j.1 % n) := by
  funext h j
  have haddr : (slot * H + h.1) * (G * n) + j.1 = slot * (H * G * n) + (j + h * G * n) := by
    ring
  have hlt : j.1 + h * G * n < H * G * n := by
    have := mul_add_lt h.2 j.2
    rw [← Nat.mul_assoc, ← Nat.mul_assoc] at this
    omega
  rw [rowAt, foldl_storeBlock, haddr, if_pos ⟨by omega, by omega⟩, Nat.add_sub_cancel_left,
    Nat.add_mul_div_right _ _ hn, Nat.add_mul_mod_self_right, Nat.add_comm (j.1 / n)]

theorem rowAt_blocks_of_ne {slot s : ℕ} (hs : s ≠ slot) :
    rowAt H (G * n) ((List.range (H * G)).foldl (fun m p =>
        storeBlock m (slot * (H * G * n) + p * n) n (fun _ => true) (val p)) mem) s
      = rowAt H (G * n) mem s := by
  funext h j
  have haddr : (s * H + h.1) * (G * n) + j.1 = s * (H * G * n) + (h * (G * n) + j) := by
    ring
  have hlt : h * (G * n) + j.1 < H * G * n := by
    rw [Nat.mul_assoc H]
    exact mul_add_lt h.2 j.2
  rw [rowAt, foldl_storeBlock, haddr, if_neg, rowAt, haddr]
  rintro ⟨hge, hlt'⟩
  rcases Nat.lt_or_gt_of_ne hs with h1 | h1
  · have := Nat.mul_le_mul_right (H * G * n) h1
    rw [Nat.succ_mul] at this
    omega
  · have := Nat.mul_le_mul_right (H * G * n) h1
    rw [Nat.succ_mul] at this
    omega

end Blocks

end Rows

/-- The primitives with the rounding the kernels use. -/
def kernelFp {F : Type} (fp : Fp F Bf16) : Fp F Bf16 := { fp with round := roundEvenNonneg fp }

/-- `_rabit2_stage4d3_4_round_even_nonneg` rounds as `torch.round` does. -/
def RoundsHalfEven {F : Type} (fp : Fp F Bf16) : Prop := ∀ x, roundEvenNonneg fp x = fp.round x

theorem RoundsHalfEven.kernelFp_eq {F : Type} {fp : Fp F Bf16} (h : RoundsHalfEven fp) :
    kernelFp fp = fp := by
  rw [kernelFp, funext h]

/-- A token aged with the kernels' rounding. -/
abbrev kernelAge {F : Type} {H D : ℕ} (fp : Fp F Bf16) : KV H D → Aged H D F := ageKV (kernelFp fp)

section Age

variable {F : Type} {fp : Fp F Bf16}

theorem ageCode_eq (qMin scale x : F) :
    ageCode fp qMin scale x = (kernelFp fp).affineCode 3 qMin scale x := rfl

theorem ageLanes_eq (recentV : ℕ → Bf16) (h : Fin 8) {g : ℕ} (hg : g < 4) :
    ageLanes fp 32 recentV (h * 128 + g * 32)
      = vGroup fp (Tok.map fp.ofB (rowAt 8 128 recentV 0) h) g := by
  refine List.map_congr_left fun j hj => ?_
  have hj' := List.mem_range.1 hj
  have hd : g * groupSize + j < 128 := by
    unfold groupSize
    omega
  rw [vPad, dif_pos hd, Tok.map, rowAt]
  congr 2
  show h.1 * 128 + g * 32 + j = (0 * 8 + h.1) * 128 + (g * 32 + j)
  omega

/-- A byte of a head's group is the byte of the head's row. -/
theorem ageByte_eq (recentV : ℕ → Bf16) (h : Fin 8) {j : ℕ} (hj : j < 32) :
    ageByte fp 32 recentV (h * 128 + j / 8 * 32) (j % 8)
      = packV2Direct (vCode (kernelFp fp) (Tok.map fp.ofB (rowAt 8 128 recentV 0) h)) j := by
  have hg : j / 8 < 4 := by omega
  have hcode : ∀ c < 4, ageCode fp (fp.amin (ageLanes fp 32 recentV (h * 128 + j / 8 * 32)))
      (ageScale fp 32 recentV (h * 128 + j / 8 * 32))
      (fp.ofB (recentV (h * 128 + j / 8 * 32 + (4 * (j % 8) + c))))
        = vCode (kernelFp fp) (Tok.map fp.ofB (rowAt 8 128 recentV 0) h) (4 * j + c) := by
    intro c hc
    have hgroup : (4 * j + c) / groupSize = j / 8 := by
      unfold groupSize
      omega
    have hd : 4 * j + c < 128 := by omega
    have haddr : h.1 * 128 + j / 8 * 32 + (4 * (j % 8) + c)
        = (0 * 8 + h.1) * 128 + (4 * j + c) := by
      omega
    rw [ageCode_eq, ageScale, ageLanes_eq recentV h hg, vCode, hgroup, vPad, dif_pos hd,
      haddr]
    rfl
  have h0 := hcode 0 (by omega)
  rw [Nat.add_zero, Nat.add_zero] at h0
  rw [ageByte, packV2Direct, packV2Direct, h0, hcode 1 (by omega), hcode 2 (by omega),
    hcode 3 (by omega)]

/-- The programs write their own buffers and read only the residual. -/
theorem foldl_v2AgeProgram (slot nh hd gs vg pd : ℕ) : ∀ (l : List ℕ) (bufs : FastBuffers F),
    l.foldl (v2AgeProgram fp slot nh hd gs vg pd) bufs = { bufs with
      openVPacked := l.foldl (fun m p => storeBlock m ((slot * nh + p / vg) * pd + p % vg * 8) 8
        (fun _ => true) (ageByte fp gs bufs.recentV (p / vg * hd + p % vg * gs))) bufs.openVPacked
      openVMin := l.foldl (fun m p => storeBlock m ((slot * nh + p / vg) * vg + p % vg) 1
        (fun _ => true) fun _ => fp.amin (ageLanes fp gs bufs.recentV (p / vg * hd + p % vg * gs)))
        bufs.openVMin
      openVScale := l.foldl (fun m p => storeBlock m ((slot * nh + p / vg) * vg + p % vg) 1
        (fun _ => true) fun _ => ageScale fp gs bufs.recentV (p / vg * hd + p % vg * gs))
        bufs.openVScale }
  | [], _ => rfl
  | p :: l, bufs => by
    rw [List.foldl_cons, foldl_v2AgeProgram slot nh hd gs vg pd l]
    rfl

section Launch

variable (bufs : FastBuffers F) (slot : ℕ)

theorem v2AgeKernel_openVPacked :
    (v2AgeKernel fp slot 8 128 32 4 (packedDim 128 2) bufs).openVPacked
      = (List.range (8 * 4)).foldl (fun m p => storeBlock m (slot * (8 * 4 * 8) + p * 8) 8
          (fun _ => true) (ageByte fp 32 bufs.recentV (p / 4 * 128 + p % 4 * 32)))
          bufs.openVPacked := by
  have haddr : ∀ p, (slot * 8 + p / 4) * packedDim 128 2 + p % 4 * 8
      = slot * (8 * 4 * 8) + p * 8 := fun p => by
    rw [show packedDim 128 2 = 32 from rfl]
    omega
  rw [v2AgeKernel, foldl_v2AgeProgram]
  simp only [haddr]

theorem v2AgeKernel_meta :
    (v2AgeKernel fp slot 8 128 32 4 (packedDim 128 2) bufs).openVMin
        = (List.range (8 * 4)).foldl (fun m p => storeBlock m (slot * (8 * 4 * 1) + p * 1) 1
          (fun _ => true) fun _ => fp.amin (ageLanes fp 32 bufs.recentV (p / 4 * 128 + p % 4 * 32)))
          bufs.openVMin ∧
      (v2AgeKernel fp slot 8 128 32 4 (packedDim 128 2) bufs).openVScale
        = (List.range (8 * 4)).foldl (fun m p => storeBlock m (slot * (8 * 4 * 1) + p * 1) 1
          (fun _ => true) fun _ => ageScale fp 32 bufs.recentV (p / 4 * 128 + p % 4 * 32))
          bufs.openVScale := by
  have haddr : ∀ p, (slot * 8 + p / 4) * 4 + p % 4 = slot * (8 * 4 * 1) + p * 1 := fun p => by
    omega
  rw [v2AgeKernel, foldl_v2AgeProgram]
  simp only [haddr, and_self]

variable (fp) in
/-- The kernel ages the token in slot 0 of the residual into its slot. -/
theorem v2AgeKernel_slot :
    let aged := v2AgeKernel fp slot 8 128 32 4 (packedDim 128 2) bufs
    let v := Tok.map fp.ofB (rowAt 8 128 bufs.recentV 0)
    rowAt 8 (vPackedDim 128) aged.openVPacked slot = v2Packed (kernelFp fp) v ∧
      rowAt 8 (vGroups 128) aged.openVMin slot = v2Min fp v ∧
      rowAt 8 (vGroups 128) aged.openVScale slot = v2Scale fp v := by
  have hbase : ∀ (h : Fin 8) (g : ℕ), g < 4 →
      (h.1 * 4 + g) / 4 * 128 + (h.1 * 4 + g) % 4 * 32 = h * 128 + g * 32 := fun h g hg => by
    omega
  refine ⟨?_, ?_, ?_⟩
  · rw [v2AgeKernel_openVPacked]
    refine (rowAt_blocks (H := 8) (G := 4) (n := 8) _ _ slot (by decide)).trans ?_
    rw [← v2PackedDirect_eq]
    funext h j
    have hj : j.1 < 32 := j.2
    rw [hbase h _ (by omega), ageByte_eq _ h hj]
    rfl
  · rw [(v2AgeKernel_meta bufs slot).1]
    refine (rowAt_blocks (H := 8) (G := 4) (n := 1) _ _ slot (by decide)).trans ?_
    funext h g
    have hg : g.1 < 4 := g.2
    rw [Nat.div_one, hbase h _ hg, ageLanes_eq _ h hg]
    rfl
  · rw [(v2AgeKernel_meta bufs slot).2]
    refine (rowAt_blocks (H := 8) (G := 4) (n := 1) _ _ slot (by decide)).trans ?_
    funext h g
    have hg : g.1 < 4 := g.2
    rw [Nat.div_one, hbase h _ hg, ageScale, ageLanes_eq _ h hg]
    rfl

theorem v2AgeKernel_frame {s : ℕ} (hs : s ≠ slot) :
    let aged := v2AgeKernel fp slot 8 128 32 4 (packedDim 128 2) bufs
    rowAt 8 (vPackedDim 128) aged.openVPacked s = rowAt 8 (vPackedDim 128) bufs.openVPacked s ∧
      rowAt 8 (vGroups 128) aged.openVMin s = rowAt 8 (vGroups 128) bufs.openVMin s ∧
      rowAt 8 (vGroups 128) aged.openVScale s = rowAt 8 (vGroups 128) bufs.openVScale s := by
  refine ⟨?_, ?_, ?_⟩
  · rw [v2AgeKernel_openVPacked]
    exact rowAt_blocks_of_ne (H := 8) (G := 4) (n := 8) _ _ hs
  · rw [(v2AgeKernel_meta bufs slot).1]
    exact rowAt_blocks_of_ne (H := 8) (G := 4) (n := 1) _ _ hs
  · rw [(v2AgeKernel_meta bufs slot).2]
    exact rowAt_blocks_of_ne (H := 8) (G := 4) (n := 1) _ _ hs

variable (fp) in
/-- The kernel leaves the residual and the open K rows alone. -/
theorem v2AgeKernel_keeps :
    let aged := v2AgeKernel fp slot 8 128 32 4 (packedDim 128 2) bufs
    aged.recentK = bufs.recentK ∧ aged.recentV = bufs.recentV ∧ aged.openK = bufs.openK := by
  simp only [v2AgeKernel, foldl_v2AgeProgram, and_self]

end Launch

end Age

section Shift

variable {F α : Type} {n b : ℕ}

/-- A masked block of a row of slots of size `n`, seen from feature `f` of slot `s`. -/
theorem storeBlock_slot (m : ℕ → α) (t s lo : ℕ) {f : ℕ} (hf : f < n) (val : ℕ → α) :
    storeBlock m (t * n + lo) b (fun i => decide (lo + i < n)) val (s * n + f)
      = if s = t ∧ lo ≤ f ∧ f < lo + b then val (f - lo) else m (s * n + f) := by
  unfold storeBlock
  by_cases hst : s = t
  · subst hst
    rw [show s * n + f - (s * n + lo) = f - lo by omega]
    by_cases h : lo ≤ f ∧ f < lo + b
    · rw [if_pos ⟨by omega, by omega, decide_eq_true (by omega)⟩, if_pos ⟨rfl, h⟩]
    · rw [if_neg (fun hc => h ⟨by omega, by omega⟩), if_neg (fun hc => h hc.2)]
  · rw [if_neg, if_neg fun hc => hst hc.1]
    rintro ⟨hge, -, hmask⟩
    have hlt := of_decide_eq_true hmask
    rcases Nat.lt_or_gt_of_ne hst with h | h
    · have := Nat.mul_le_mul_right n h
      rw [Nat.succ_mul] at this
      omega
    · have := Nat.mul_le_mul_right n h
      rw [Nat.succ_mul] at this
      omega

/-- Feature `f` of slot `s` of the rotated residual. -/
def rotated (n : ℕ) (mem new : ℕ → Bf16) (s f : ℕ) : Bf16 :=
  if s = 3 then new f else mem ((s + 1) * n + f)

theorem shiftBlock_apply (lo : ℕ) (mem new : ℕ → Bf16) {s f : ℕ} (hs : s < 4) (hf : f < n) :
    shiftBlock n b lo mem new (s * n + f)
      = if lo ≤ f ∧ f < lo + b then rotated n mem new s f else mem (s * n + f) := by
  unfold shiftBlock rotated
  simp only [storeBlock_slot _ _ _ lo hf]
  by_cases h : lo ≤ f ∧ f < lo + b
  · have hadd : ∀ t, t * n + lo + (f - lo) = t * n + f := fun t => by omega
    rw [Nat.add_sub_cancel' h.1]
    simp only [h, and_true, hadd, if_true]
    interval_cases s <;> rfl
  · simp only [h, and_false, if_false]

/-- Every program owns its features: what the first `p` programs have done. -/
theorem foldl_shiftRecent (newK newV : ℕ → Bf16) (slot : ℕ) (bufs : FastBuffers F) : ∀ p,
    let out := (List.range p).foldl (shiftRecentProgram newK newV slot n b) bufs
    (∀ s f, s < 4 → f < n → out.recentK (s * n + f)
        = if f < p * b then rotated n bufs.recentK newK s f else bufs.recentK (s * n + f)) ∧
      (∀ s f, s < 4 → f < n → out.recentV (s * n + f)
        = if f < p * b then rotated n bufs.recentV newV s f else bufs.recentV (s * n + f)) ∧
      (∀ s f, f < n → out.openK (s * n + f)
        = if s = slot ∧ f < p * b then bufs.recentK (0 * n + f) else bufs.openK (s * n + f)) ∧
      out.openVPacked = bufs.openVPacked ∧ out.openVMin = bufs.openVMin ∧
      out.openVScale = bufs.openVScale
  | 0 => by simp
  | p + 1 => by
    obtain ⟨hK, hV, hO, hP, hM, hS⟩ := foldl_shiftRecent newK newV slot bufs p
    simp only [List.range_succ, List.foldl_append, List.foldl_cons, List.foldl_nil]
    generalize (List.range p).foldl (shiftRecentProgram newK newV slot n b) bufs = out
      at hK hV hO hP hM hS
    have hsucc : (p + 1) * b = p * b + b := Nat.succ_mul p b
    -- a feature of block `p` still holds its old values
    have hrot : ∀ (m m' new : ℕ → Bf16), (∀ s f, s < 4 → f < n → m' (s * n + f)
          = if f < p * b then rotated n m new s f else m (s * n + f)) →
        ∀ s f, s < 4 → f < n → shiftBlock n b (p * b) m' new (s * n + f)
          = if f < (p + 1) * b then rotated n m new s f else m (s * n + f) := by
      intro m m' new hm s f hs hf
      rw [shiftBlock_apply _ _ _ hs hf, hsucc]
      by_cases h : p * b ≤ f ∧ f < p * b + b
      · rw [if_pos h, if_pos h.2, rotated, rotated]
        by_cases h3 : s = 3
        · rw [if_pos h3, if_pos h3]
        · rw [if_neg h3, if_neg h3, hm (s + 1) f (by omega) hf, if_neg (by omega)]
      · rw [if_neg h, hm s f hs hf]
        by_cases hlt : f < p * b
        · rw [if_pos hlt, if_pos (by omega)]
        · rw [if_neg hlt, if_neg (by omega)]
    refine ⟨hrot _ _ _ hK, hrot _ _ _ hV, ?_, hP, hM, hS⟩
    intro s f hf
    simp only [shiftRecentProgram]
    rw [storeBlock_slot _ _ _ _ hf, hsucc]
    by_cases h : s = slot ∧ p * b ≤ f ∧ f < p * b + b
    · rw [if_pos h, if_pos ⟨h.1, h.2.2⟩,
        show 0 * n + p * b + (f - p * b) = 0 * n + f by omega, hK 0 f (by omega) hf,
        if_neg (by omega)]
    · rw [if_neg h, hO s f hf]
      by_cases hlt : s = slot ∧ f < p * b
      · rw [if_pos hlt, if_pos ⟨hlt.1, by omega⟩]
      · rw [if_neg hlt, if_neg (by omega)]

section Launch

variable (k v : Tok 8 128 Bf16) (slot : ℕ) (bufs : FastBuffers F)

theorem rowAt_feature {α : Type} (mem : ℕ → α) (s : ℕ) (h : Fin 8) (d : Fin 128) :
    rowAt 8 128 mem s h d = mem (s * (8 * 128) + (h * 128 + d)) := by
  rw [rowAt]
  congr 1
  omega

theorem flat_feature (x : Tok 8 128 Bf16) (h : Fin 8) (d : Fin 128) :
    (flatTokens [x]).getD (h * 128 + d) 0 = x h d := by
  have hget := getElem?_flatTokens [x] (t := 0) h d
  rw [Nat.zero_mul, Nat.zero_add] at hget
  rw [List.getD_eq_getElem?_getD, hget]
  rfl

theorem rotated_rows (x : Tok 8 128 Bf16) {mem out : ℕ → Bf16}
    (hout : ∀ s f, s < 4 → f < 8 * 128 → out (s * (8 * 128) + f)
      = rotated (8 * 128) mem (fun i => (flatTokens [x]).getD i 0) s f) :
    rowsTo 8 128 out 4 = (rowsTo 8 128 mem 4).drop 1 ++ [x] := by
  have hrow : ∀ s < 4, rowAt 8 128 out s = if s = 3 then x else rowAt 8 128 mem (s + 1) := by
    intro s hs
    funext h d
    rw [rowAt_feature, hout s _ hs (by omega), rotated]
    split_ifs
    · exact flat_feature x h d
    · rw [rowAt_feature]
  have h0 := hrow 0 (by omega)
  have h1 := hrow 1 (by omega)
  have h2 := hrow 2 (by omega)
  have h3 := hrow 3 (by omega)
  simp only [Nat.reduceEqDiff, if_false, if_true, Nat.reduceAdd, Nat.zero_add] at h0 h1 h2 h3
  simp only [rowsTo, List.range_succ, List.range_zero, List.nil_append,
    List.map_cons, List.map_nil, h0, h1, h2, h3, List.cons_append, List.drop_succ_cons,
    List.drop_zero]

/-- The kernel moves slot 0 of the residual K into the open group and takes the new token in. -/
theorem shiftRecentKernel_rows :
    let out := shiftRecentKernel (fun i => (flatTokens [k]).getD i 0)
      (fun i => (flatTokens [v]).getD i 0) slot (8 * 128) 256 bufs
    rowsTo 8 128 out.recentK 4 = (rowsTo 8 128 bufs.recentK 4).drop 1 ++ [k] ∧
      rowsTo 8 128 out.recentV 4 = (rowsTo 8 128 bufs.recentV 4).drop 1 ++ [v] ∧
      rowAt 8 128 out.openK slot = rowAt 8 128 bufs.recentK 0 ∧
      (∀ s ≠ slot, rowAt 8 128 out.openK s = rowAt 8 128 bufs.openK s) ∧
      out.openVPacked = bufs.openVPacked ∧ out.openVMin = bufs.openVMin ∧
      out.openVScale = bufs.openVScale := by
  intro out
  obtain ⟨hK, hV, hO, hrest⟩ := foldl_shiftRecent (n := 8 * 128) (b := 256)
    (fun i => (flatTokens [k]).getD i 0) (fun i => (flatTokens [v]).getD i 0) slot bufs 4
  have hout : out = (List.range 4).foldl (shiftRecentProgram (fun i => (flatTokens [k]).getD i 0)
    (fun i => (flatTokens [v]).getD i 0) slot (8 * 128) 256) bufs := rfl
  rw [← hout] at hK hV hO hrest
  refine ⟨?_, ?_, ?_, ?_, hrest⟩
  · refine rotated_rows k fun s f hs hf => ?_
    rw [hK s f hs hf, if_pos (by omega)]
  · refine rotated_rows v fun s f hs hf => ?_
    rw [hV s f hs hf, if_pos (by omega)]
  · funext h d
    rw [rowAt_feature, rowAt_feature, hO slot _ (by omega), if_pos ⟨rfl, by omega⟩]
  · intro s hs
    funext h d
    rw [rowAt_feature, rowAt_feature, hO s _ (by omega), if_neg fun hc => hs hc.1]

end Launch

end Shift

section Rep

variable {F ι : Type} [DecidableEq ι] {fp : Fp F Bf16}

/-- The buffers hold the window `w`. -/
structure FastRep {H D : ℕ} (fast : Fast F) (w : SeqWin H D F) : Prop where
  openLen : fast.openLen = w.opened.length
  openK : rowsTo H D fast.bufs.openK fast.openLen = w.opened.map Aged.k
  openVPacked : rowsTo H (vPackedDim D) fast.bufs.openVPacked fast.openLen
    = w.opened.map Aged.vPacked
  openVMin : rowsTo H (vGroups D) fast.bufs.openVMin fast.openLen = w.opened.map Aged.vMin
  openVScale : rowsTo H (vGroups D) fast.bufs.openVScale fast.openLen = w.opened.map Aged.vScale
  recentK : rowsTo H D fast.bufs.recentK residualTokens = w.recent.map Prod.fst
  recentV : rowsTo H D fast.bufs.recentV residualTokens = w.recent.map Prod.snd

theorem FastRep.length_recent {H D : ℕ} {fast : Fast F} {w : SeqWin H D F} (h : FastRep fast w) :
    w.recent.length = residualTokens := by
  have hlen := congrArg List.length h.recentK
  rw [length_rowsTo, List.length_map] at hlen
  exact hlen.symm

/-- Lists of rows as the public fields show them. -/
theorem optRows {α β : Type} {n H D : ℕ} {mem : ℕ → α} {es : List β} {f : β → Tok H D α}
    (hn : n = es.length) (h : rowsTo H D mem n = es.map f) :
    (if n = 0 then none else some (rowsTo H D mem n)) = optList (es.map f) := by
  split_ifs with h0
  · rw [List.eq_nil_of_length_eq_zero (hn.symm.trans h0)]
    rfl
  · rw [h, optList_of_ne_nil]
    intro hnil
    exact h0 (by rw [hn, ← List.length_map (f := f), hnil]; rfl)

theorem viewSidecar_eq {bufs : FastBuffers F} {n : ℕ} {es : List (Aged 8 128 F)}
    {rs : List (KV 8 128)} (hn : n = es.length) (hk : rowsTo 8 128 bufs.openK n = es.map Aged.k)
    (hp : rowsTo 8 (vPackedDim 128) bufs.openVPacked n = es.map Aged.vPacked)
    (hm : rowsTo 8 (vGroups 128) bufs.openVMin n = es.map Aged.vMin)
    (hs : rowsTo 8 (vGroups 128) bufs.openVScale n = es.map Aged.vScale)
    (hrk : rowsTo 8 128 bufs.recentK residualTokens = rs.map Prod.fst)
    (hrv : rowsTo 8 128 bufs.recentV residualTokens = rs.map Prod.snd) :
    viewSidecar 8 128 bufs n = toSidecar es rs := by
  have hne : rs ≠ [] := by
    rintro rfl
    have hlen := congrArg List.length hrk
    rw [length_rowsTo] at hlen
    cases hlen
  refine Sidecar.ext (optRows hn hk) (optRows hn hp) (optRows hn hm) (optRows hn hs) ?_ ?_
  · rw [toSidecar_recentK, optList_of_ne_nil (by simpa using hne), ← hrk]
    rfl
  · rw [toSidecar_recentV, optList_of_ne_nil (by simpa using hne), ← hrv]
    rfl

variable (fp) in
/-- Buffers after the two kernels: the oldest recent token aged into the open group, the new token
behind the others. -/
theorem fastKernels_rows (k v : Tok 8 128 Bf16) {fast : Fast F}
    {w : SeqWin 8 128 F} (hrep : FastRep fast w) {r : KV 8 128} {rest : List (KV 8 128)}
    (hw : w.recent = r :: rest) :
    let bufs := fastKernels fp k v fast
    let es := w.opened ++ [kernelAge fp r]
    rowsTo 8 128 bufs.openK (fast.openLen + 1) = es.map Aged.k ∧
      rowsTo 8 (vPackedDim 128) bufs.openVPacked (fast.openLen + 1) = es.map Aged.vPacked ∧
      rowsTo 8 (vGroups 128) bufs.openVMin (fast.openLen + 1) = es.map Aged.vMin ∧
      rowsTo 8 (vGroups 128) bufs.openVScale (fast.openLen + 1) = es.map Aged.vScale ∧
      rowsTo 8 128 bufs.recentK residualTokens = (rest ++ [(k, v)]).map Prod.fst ∧
      rowsTo 8 128 bufs.recentV residualTokens = (rest ++ [(k, v)]).map Prod.snd := by
  intro bufs es
  obtain ⟨hrk, hrv, hok, hframe, hp, hm, hs⟩ := shiftRecentKernel_rows k v fast.openLen
    (v2AgeKernel fp fast.openLen 8 128 32 4 (packedDim 128 2) fast.bufs)
  obtain ⟨kk, kv, ko⟩ := v2AgeKernel_keeps fp fast.bufs fast.openLen
  obtain ⟨sp, sm, ss⟩ := v2AgeKernel_slot fp fast.bufs fast.openLen
  have hslot0 : ∀ {mem : ℕ → Bf16} {f : KV 8 128 → Tok 8 128 Bf16},
      rowsTo 8 128 mem residualTokens = w.recent.map f → rowAt 8 128 mem 0 = f r := by
    intro mem f h
    rw [hw] at h
    exact (List.cons.inj h).1
  have hgrow : ∀ {α : Type} {D : ℕ} {mem mem' : ℕ → α} {f : Aged 8 128 F → Tok 8 D α},
      rowsTo 8 D mem fast.openLen = w.opened.map f →
      (∀ s ≠ fast.openLen, rowAt 8 D mem' s = rowAt 8 D mem s) →
      rowAt 8 D mem' fast.openLen = f (kernelAge fp r) →
      rowsTo 8 D mem' (fast.openLen + 1) = es.map f := by
    intro α D mem mem' f hopen hkeep hnew
    rw [rowsTo_succ, rowsTo_congr fun s hlt => hkeep s (Nat.ne_of_lt hlt), hopen, hnew,
      List.map_append]
    rfl
  refine ⟨?_, ?_, ?_, ?_, ?_, ?_⟩
  · refine hgrow hrep.openK (fun s hne => ?_) ?_
    · exact (hframe s hne).trans (by rw [ko])
    · exact hok.trans (by rw [kk]; exact hslot0 hrep.recentK)
  · refine hgrow hrep.openVPacked (fun s hne => ?_) ?_
    · exact (congrArg (rowAt 8 _ · s) hp).trans (v2AgeKernel_frame _ _ hne).1
    · exact (congrArg (rowAt 8 _ · _) hp).trans (by rw [sp, hslot0 hrep.recentV]; rfl)
  · refine hgrow hrep.openVMin (fun s hne => ?_) ?_
    · exact (congrArg (rowAt 8 _ · s) hm).trans (v2AgeKernel_frame _ _ hne).2.1
    · exact (congrArg (rowAt 8 _ · _) hm).trans (by rw [sm, hslot0 hrep.recentV]; rfl)
  · refine hgrow hrep.openVScale (fun s hne => ?_) ?_
    · exact (congrArg (rowAt 8 _ · s) hs).trans (v2AgeKernel_frame _ _ hne).2.2
    · exact (congrArg (rowAt 8 _ · _) hs).trans (by rw [ss, hslot0 hrep.recentV]; rfl)
  · refine hrk.trans ?_
    rw [kk, hrep.recentK, hw]
    simp
  · refine hrv.trans ?_
    rw [kv, hrep.recentV, hw]
    simp

theorem aligned_production : Aligned 8 128 := ⟨by decide, by decide⟩

section OnHeld

variable {H D : ℕ} {α : Type} {m : SideM H D F (Physical ι) α}
  {held held' : Held H D F (Physical ι)}

omit [DecidableEq ι] in
theorem onHeld_run {a : α} (h : m.run held = .ok a held') (fast : Option (Fast F)) :
    (onHeld m).run ⟨held, fast⟩ = .ok a ⟨held', fast⟩ := by
  simp only [onHeld, EStateM.run] at h ⊢
  rw [h]

omit [DecidableEq ι] in
theorem onHeld_raises {e : String} (h : m.run held = .error e held') (fast : Option (Fast F)) :
    (onHeld m).run ⟨held, fast⟩ = .error e ⟨held', fast⟩ := by
  simp only [onHeld, EStateM.run] at h ⊢
  rw [h]

end OnHeld

/-- One page is written when the table has a block for it. -/
theorem runtimeEmit_eq (row : List ι) (es : List (Aged 8 128 F)) {p : Physical ι}
    (hwidth : p.cache.width = (pageLayout groupSize 8 128 128).pageBytes) :
    runtimeEmit fp row es p
      = if p.closedPages + 1 ≤ row.length then .ok (written fp row p [es])
        else .error tooShort := by
  have hall := emitAll_runtimeEmit fp row [es] p hwidth
  simp only [List.cons_ne_nil, false_or, List.length_singleton] at hall
  rw [← hall, emitAll]
  rcases runtimeEmit fp row es p with e | p'
  · rfl
  · rfl

section Token

variable (row : List ι) (kv : KV 8 128) {fast : Fast F} {w : SeqWin 8 128 F}
  (hrep : FastRep fast w) {p : Physical ι} (side : Sidecar 8 128 F) (before : Option (Fast F))

omit [DecidableEq ι] in
theorem FastRep.recent_cons {fast : Fast F} {w : SeqWin 8 128 F} (hrep : FastRep fast w) :
    ∃ r rest, w.recent = r :: rest := by
  have hfull := hrep.length_recent
  rcases hr : w.recent with _ | ⟨r, rest⟩
  · rw [hr] at hfull
    cases hfull
  · exact ⟨r, rest, rfl⟩

include hrep

variable (fp) in
/-- A token that does not fill the open group is one step of the window in the buffers, whatever the
public fields held. -/
theorem fastToken_open (hopen : w.opened.length + 1 ≠ groupSize) :
    (w.batch (kernelAge fp) [kv]).2 = [] ∧
      ∃ fast', FastRep fast' (w.batch (kernelAge fp) [kv]).1 ∧
        (fastToken fp row kv.1 kv.2 fast).run ⟨⟨side, p⟩, before⟩
          = .ok () ⟨hold (w.batch (kernelAge fp) [kv]).1 p, some fast'⟩ := by
  have hfull := hrep.length_recent
  obtain ⟨r, rest, hw⟩ := hrep.recent_cons
  obtain ⟨hk, hp, hm, hs, hrk, hrv⟩ := fastKernels_rows fp kv.1 kv.2 hrep hw
  have hent := Win.entries_full (kernelAge fp) hw hfull kv
  have hrec := Win.batch_recent_full (kernelAge fp) hw hfull kv
  have hlen : fast.openLen + 1 = (w.opened ++ [kernelAge fp r]).length := by
    rw [List.length_append, List.length_singleton, hrep.openLen]
  have hlt := w.opened_lt
  have hes : (w.opened ++ [kernelAge fp r]).length < groupSize := by
    rw [List.length_append, List.length_singleton]
    omega
  have hrange : ¬ ¬ fast.openLen < 32 := by
    rw [hrep.openLen]
    exact not_not.2 hlt
  have hclose : ¬ fast.openLen + 1 = 32 := by
    rw [hrep.openLen]
    exact hopen
  have hgrown : (w.batch (kernelAge fp) [kv]).1.opened = w.opened ++ [kernelAge fp r] := by
    rw [Win.batch_opened, hent, Nat.div_eq_of_lt hes, Nat.zero_mul, List.drop_zero]
  refine ⟨?_, ⟨fast.openLen + 1, fastKernels fp kv.1 kv.2 fast⟩, ?_, ?_⟩
  · rw [Win.batch_pages, hent, chunks_of_lt hes]
  · refine ⟨by rw [hgrown]; exact hlen, ?_, ?_, ?_, ?_, by rw [hrec]; exact hrk,
      by rw [hrec]; exact hrv⟩
    all_goals rw [hgrown]
    · exact hk
    · exact hp
    · exact hm
    · exact hs
  · unfold fastToken
    rw [if_neg hrange]
    simp only [if_neg hclose, hold, hgrown, hrec]
    simp only [EStateM.run_bind, EStateM.run_modify, viewSidecar_eq hlen hk hp hm hs hrk hrv]

variable (fp) in
/-- A token that fills the open group closes a page. -/
theorem fastToken_close (hopen : w.opened.length + 1 = groupSize) :
    ∃ es, (w.batch (kernelAge fp) [kv]).2 = [es] ∧ es.length = groupSize ∧
      ∃ fast', FastRep fast' (w.batch (kernelAge fp) [kv]).1 ∧
        match runtimeEmit fp row es p with
        | .ok p' => (fastToken fp row kv.1 kv.2 fast).run ⟨⟨side, p⟩, before⟩
            = .ok () ⟨hold (w.batch (kernelAge fp) [kv]).1 p', some fast'⟩
        | .error e => ∃ left, (fastToken fp row kv.1 kv.2 fast).run ⟨⟨side, p⟩, before⟩
            = .error e ⟨⟨toSidecar es (w.batch (kernelAge fp) [kv]).1.recent, p⟩, left⟩ := by
  have hfull := hrep.length_recent
  obtain ⟨r, rest, hw⟩ := hrep.recent_cons
  obtain ⟨hk, hp, hm, hs, hrk, hrv⟩ := fastKernels_rows fp kv.1 kv.2 hrep hw
  have hent := Win.entries_full (kernelAge fp) hw hfull kv
  have hrec := Win.batch_recent_full (kernelAge fp) hw hfull kv
  have hlen : fast.openLen + 1 = (w.opened ++ [kernelAge fp r]).length := by
    rw [List.length_append, List.length_singleton, hrep.openLen]
  have hes : (w.opened ++ [kernelAge fp r]).length = groupSize := by
    rw [List.length_append, List.length_singleton, hopen]
  have hrange : ¬ ¬ fast.openLen < 32 := by
    rw [hrep.openLen]
    exact not_not.2 w.opened_lt
  have hclose : fast.openLen + 1 = 32 := by
    rw [hrep.openLen]
    exact hopen
  have hempty : (w.batch (kernelAge fp) [kv]).1.opened = [] := by
    rw [Win.batch_opened, hent, hes]
    exact List.drop_of_length_le hes.le
  have hflush := flushOpenPage_closes fp row aligned_production (w.opened ++ [kernelAge fp r])
    (rest ++ [kv]) p hes
  have hview := viewSidecar_eq hlen hk hp hm hs hrk hrv
  refine ⟨w.opened ++ [kernelAge fp r], ?_, hes, ⟨0, fastKernels fp kv.1 kv.2 fast⟩, ?_, ?_⟩
  · rw [Win.batch_pages, hent, chunks_of_length (by decide) hes]
  · refine ⟨by rw [hempty]; rfl, ?_, ?_, ?_, ?_, by rw [hrec]; exact hrk, by rw [hrec]; exact hrv⟩
    all_goals rw [hempty]; rfl
  · unfold fastToken
    rw [if_neg hrange]
    simp only [if_pos hclose, hold, hempty, hrec]
    rcases hemit : runtimeEmit fp row (w.opened ++ [kernelAge fp r]) p with e | p'
    · rw [hemit] at hflush
      simp only [EStateM.run_bind, EStateM.run_modify, hview]
      rw [onHeld_raises hflush]
      exact ⟨_, rfl⟩
    · rw [hemit] at hflush
      simp only [EStateM.run_bind, EStateM.run_modify, hview]
      rw [onHeld_run hflush]

/-- One token through the kernels is one step of the window in the buffers. -/
theorem fastToken_run (hwidth : p.cache.width = (pageLayout groupSize 8 128 128).pageBytes)
    (hrow : (w.batch (kernelAge fp) [kv]).2 = [] ∨
      p.closedPages + (w.batch (kernelAge fp) [kv]).2.length ≤ row.length) :
    ∃ fast', FastRep fast' (w.batch (kernelAge fp) [kv]).1 ∧
      (fastToken fp row kv.1 kv.2 fast).run ⟨⟨side, p⟩, before⟩
        = .ok () ⟨hold (w.batch (kernelAge fp) [kv]).1
            (written fp row p (w.batch (kernelAge fp) [kv]).2), some fast'⟩ := by
  by_cases hopen : w.opened.length + 1 = groupSize
  · obtain ⟨es, hes, -, fast', hrep', hrun⟩ := fastToken_close fp row kv hrep side before hopen
    rw [hes] at hrow ⊢
    have hfit : p.closedPages + 1 ≤ row.length := hrow.resolve_left (by simp)
    rw [runtimeEmit_eq row es hwidth, if_pos hfit] at hrun
    exact ⟨fast', hrep', hrun⟩
  · obtain ⟨hes, fast', hrep', hrun⟩ := fastToken_open fp row kv hrep side before hopen
    rw [hes, written_nil]
    exact ⟨fast', hrep', hrun⟩

/-- Without a block for the page it raises and leaves the full group open. -/
theorem fastToken_raises (hwidth : p.cache.width = (pageLayout groupSize 8 128 128).pageBytes)
    (hrow : ¬ ((w.batch (kernelAge fp) [kv]).2 = [] ∨
      p.closedPages + (w.batch (kernelAge fp) [kv]).2.length ≤ row.length)) :
    ∃ st left, Jammed st ∧
      (fastToken fp row kv.1 kv.2 fast).run ⟨⟨side, p⟩, before⟩ = .error tooShort ⟨st, left⟩ := by
  by_cases hopen : w.opened.length + 1 = groupSize
  · obtain ⟨es, hes, hlen, fast', hrep', hrun⟩ := fastToken_close fp row kv hrep side before hopen
    rw [hes] at hrow
    have hshort : ¬ p.closedPages + 1 ≤ row.length := fun h => hrow (Or.inr h)
    rw [runtimeEmit_eq row es hwidth, if_neg hshort] at hrun
    obtain ⟨left, hrun⟩ := hrun
    exact ⟨_, left, ⟨es, _, hlen.ge, rfl⟩, hrun⟩
  · obtain ⟨hes, -⟩ := fastToken_open fp row kv hrep (p := p) side before hopen
    exact absurd (Or.inl hes) hrow

end Token

omit [DecidableEq ι] in
/-- Fresh buffers hold the window of the public fields. -/
theorem prepareFastBuffers_fresh (junk : FastBuffers F) (w : SeqWin 8 128 F) (p : Physical ι)
    (hfull : w.recent.length = residualTokens) :
    ∃ fast, FastRep fast w ∧
      prepareFastBuffers junk true ⟨hold w p, none⟩ = some (fast, ⟨hold w p, some fast⟩) := by
  have hne : w.recent ≠ [] := by
    intro h
    rw [h] at hfull
    cases hfull
  have hcopy : ∀ {α : Type} {D n : ℕ} (mem : ℕ → α) (f : Aged 8 128 F → Tok 8 D α),
      n = w.opened.length →
      rowsTo 8 D (copyRows mem ((optList (w.opened.map f)).getD [])) n = w.opened.map f := by
    intro α D n mem f hn
    have hget : (optList (w.opened.map f)).getD [] = w.opened.map f := by
      rcases w.opened.map f with _ | ⟨x, xs⟩ <;> rfl
    rw [hget]
    exact rowsTo_copyRows mem (by rw [List.length_map, hn])
  have hrecent : ∀ (mem : ℕ → Bf16) (f : KV 8 128 → Tok 8 128 Bf16),
      rowsTo 8 128 (copyRows mem (w.recent.map f)) residualTokens = w.recent.map f := by
    intro mem f
    exact rowsTo_copyRows mem (by rw [List.length_map, hfull])
  have hside : ∀ f : KV 8 128 → Tok 8 128 Bf16,
      optList (w.recent.map f) = some (w.recent.map f) :=
    fun f => optList_of_ne_nil (by simpa using hne)
  have hopen : ∀ {α : Type} (f : Aged 8 128 F → α), w.opened ≠ [] →
      optList (w.opened.map f) ≠ none := by
    intro α f h
    rw [optList_of_ne_nil (by simpa using h)]
    exact Option.some_ne_none _
  have hok : ¬ (lenOpt (optList (w.opened.map Aged.k)) ≠ 0 ∧
      (optList (w.opened.map Aged.vPacked) = none ∨ optList (w.opened.map Aged.vMin) = none ∨
        optList (w.opened.map Aged.vScale) = none)) := by
    rintro ⟨hlen, hnone⟩
    have hne' : w.opened ≠ [] := fun h => hlen (by rw [h]; rfl)
    rcases hnone with h | h | h
    · exact hopen _ hne' h
    · exact hopen _ hne' h
    · exact hopen _ hne' h
  have hlen : lenOpt (optList (w.opened.map Aged.k)) = w.opened.length := by
    rw [lenOpt_optList, List.length_map]
  have hrep : FastRep ⟨lenOpt (optList (w.opened.map Aged.k)), fillBuffers junk
      (toSidecar w.opened w.recent) (w.recent.map Prod.fst) (w.recent.map Prod.snd)⟩ w :=
    ⟨hlen, hcopy _ _ hlen, hcopy _ _ hlen, hcopy _ _ hlen, hcopy _ _ hlen, hrecent _ _,
      hrecent _ _⟩
  have hview := viewSidecar_eq hrep.openLen hrep.openK hrep.openVPacked hrep.openVMin
    hrep.openVScale hrep.recentK hrep.recentV
  refine ⟨_, hrep, ?_⟩
  unfold prepareFastBuffers
  simp only [hold, toSidecar_recentK, toSidecar_recentV, hside, toSidecar_openK,
    List.length_map, hfull, and_self, not_true_eq_false, if_false]
  refine (if_neg hok).trans ?_
  simp only at hview
  rw [hview]

/-- At a full residual the token goes through the buffers. -/
theorem fastDecodeAppend_full (junk : FastBuffers F) (row : List ι) (k v : Tok 8 128 Bf16)
    {s s' : Live 8 128 F ι} {fast : Fast F}
    (hfull : residualTokens ≤ lenOpt s.held.side.recentK)
    (hprep : prepareFastBuffers junk true s = some (fast, s')) :
    (fastDecodeAppend fp junk true row [k] [v]).run s = (fastToken fp row k v fast).run s' := by
  unfold fastDecodeAppend
  simp only [EStateM.run_bind, EStateM.run_get]
  rw [if_pos ⟨trivial, trivial, trivial, hfull⟩, hprep]
  rfl

/-- Otherwise it goes to the append the fast path stands in for. -/
theorem fastDecodeAppend_slow {H D : ℕ} {cuda : Bool} (junk : FastBuffers F) (row : List ι)
    (k v : Tok H D Bf16) {s : Live H D F ι}
    (hslow : ¬ (cuda = true ∧ H = 8 ∧ D = 128 ∧ residualTokens ≤ lenOpt s.held.side.recentK)) :
    (fastDecodeAppend fp junk cuda row [k] [v]).run s
      = (slowAppend fp cuda row [k] [v]).run s := by
  unfold fastDecodeAppend
  simp only [EStateM.run_bind, EStateM.run_get]
  rw [if_neg hslow]

end Rep

end RabitKV
