import RabitKV.Ageing
import RabitKV.Proofs.ErrorBound
import RabitKV.Proofs.Online

/-!
# The ageing oracle drifts

While a sequence has at most four tokens its state is the tokens themselves, and an update is the
quantization of the longer sequence. After that an update quantizes what the last one decoded to,
and values move. For lengths beyond that there are always tokens which show it, with the bfloat16
conversions of `ratFp`: V tokens with one value, a spike, in every group of 32 channels, whose scale
metadata fall into other codes after the first update (`respike`).
-/

namespace RabitKV

open Chunks

section Exact

variable {F B : Type} (fp : Fp F B) {H D : ℕ}

/-- Two sequences that quantize and update alike, as far as decoding can tell. -/
def NoDrift (A C : List (Pair H D B)) : Prop :=
  ∃ st st' whole, quantizeSeq fp A = .ok st ∧
    updateRabit2Kv fp (some st) (C.map Prod.fst) (C.map Prod.snd) = .ok st' ∧
    quantizeSeq fp (A ++ C) = .ok whole ∧ dequantizeRabit2Kv fp st' = dequantizeRabit2Kv fp whole

theorem quantizeSeq_ok (A : List (Pair H D B)) :
    ∃ st, quantizeSeq fp A = .ok st ∧ ∀ {E : Type} (dt : Dtype F B E),
      dequantizeRabit2KvAs fp dt st
        = ((kRegion fp ((A.take (A.length - residualTokens)).map fun kv =>
              Tok.map fp.ofB kv.1)).map (Tok.map dt.ofF)
              ++ (A.drop (A.length - residualTokens)).map fun kv => Tok.map dt.ofB kv.1,
            (vRegion fp ((A.take (A.length - residualTokens)).map fun kv =>
              Tok.map fp.ofB kv.2)).map (Tok.map dt.ofF)
              ++ (A.drop (A.length - residualTokens)).map fun kv => Tok.map dt.ofB kv.2) := by
  obtain ⟨st, hst, hdq⟩ := quantizeRabit2Kv_decodesAs fp
    (show (A.map Prod.fst).length = (A.map Prod.snd).length by simp)
  refine ⟨st, hst, fun dt => ?_⟩
  rw [hdq dt]
  simp only [List.length_map, ← List.map_take, ← List.map_drop, List.map_map]
  rfl

/-- An update quantizes what the state decodes to, followed by the new tokens. -/
theorem updateRabit2Kv_some (st : Rabit2Kv H D B) (C : List (Pair H D B)) :
    updateRabit2Kv fp (some st) (C.map Prod.fst) (C.map Prod.snd)
      = quantizeRabit2Kv fp ((dequantizeRabit2KvAs fp fp.bfloat16 st).1 ++ C.map Prod.fst)
          ((dequantizeRabit2KvAs fp fp.bfloat16 st).2 ++ C.map Prod.snd) := by
  unfold updateRabit2Kv
  rw [if_neg (by simp)]

theorem updateRabit2Kv_none (C : List (Pair H D B)) :
    updateRabit2Kv fp none (C.map Prod.fst) (C.map Prod.snd) = quantizeSeq fp C := by
  unfold updateRabit2Kv
  rw [if_neg (by simp)]

/-- Up to four tokens nothing has been quantized yet. -/
theorem updateRabit2Kv_short {A : List (Pair H D B)} (hA : A.length ≤ residualTokens)
    {st : Rabit2Kv H D B} (hst : quantizeSeq fp A = .ok st) (C : List (Pair H D B)) :
    updateRabit2Kv fp (some st) (C.map Prod.fst) (C.map Prod.snd) = quantizeSeq fp (A ++ C) := by
  obtain ⟨st', hst', hdq⟩ := quantizeSeq_ok fp A
  obtain rfl : st' = st := Except.ok.inj (hst'.symm.trans hst)
  have hid : ∀ f : Pair H D B → Tok H D B, (A.map fun kv => Tok.map id (f kv)) = A.map f :=
    fun _ => rfl
  rw [updateRabit2Kv_some, hdq fp.bfloat16, Nat.sub_eq_zero_of_le hA]
  simp only [List.take_zero, List.map_nil, kRegion_nil, vRegion_nil, List.nil_append,
    List.drop_zero, Fp.bfloat16, hid]
  rw [quantizeSeq, List.map_append, List.map_append]

theorem updateAll_short : ∀ (init : List (List (Pair H D B))) {A : List (Pair H D B)}
    {st : Rabit2Kv H D B}, quantizeSeq fp A = .ok st →
    (A ++ init.flatten).length ≤ residualTokens → ∀ last : List (Pair H D B),
    updateAll fp (some st) (init ++ [last]) = some <$> quantizeSeq fp (A ++ init.flatten ++ last)
  | [], A, st, hst, hlen, last => by
    rw [List.flatten_nil, List.append_nil] at hlen ⊢
    rw [List.nil_append, updateAll, updateRabit2Kv_short fp hlen hst]
    rfl
  | chunk :: init, A, st, hst, hlen, last => by
    rw [List.flatten_cons, ← List.append_assoc] at hlen ⊢
    have hA : A.length ≤ residualTokens := by
      rw [List.length_append, List.length_append] at hlen
      omega
    obtain ⟨st', hst', -⟩ := quantizeSeq_ok fp (A ++ chunk)
    rw [List.cons_append, updateAll, updateRabit2Kv_short fp hA hst, hst']
    exact updateAll_short init hst' hlen last

end Exact

section Spike

variable {B : Type} {toB : ℚ → B} {ofB : B → ℚ}

theorem affineCode_exact {levels n : ℕ} {mn scale x : ℚ} (hq : (x - mn) / scale = n)
    (hn : n ≤ levels) : (exactFp toB ofB).affineCode levels mn scale x = n := by
  have hround : (exactFp toB ofB).round ((exactFp toB ofB).div ((exactFp toB ofB).sub x mn) scale)
      = n := (congrArg roundHalfEven hq).trans (roundHalfEven_nearest.intCast n)
  rw [Fp.affineCode, hround]
  omega

variable (toB ofB) in
/-- The least value of a metadata group has code zero. -/
theorem metaValue_least {g : List ℚ} {m : ℚ} (hm : m ∈ g) (hle : ∀ x ∈ g, m ≤ x) :
    metaValue (exactFp toB ofB) g m = ofB (toB m) := by
  have hcode : (exactFp toB ofB).affineCode 255 m (metaScale (exactFp toB ofB) g) m = 0 :=
    affineCode_exact (by simp) (Nat.zero_le _)
  rw [metaValue, amin_exact hm hle, hcode, affineValue_exact, Nat.cast_zero, zero_mul, zero_add]
  rfl

variable (toB ofB) in
/-- A value of a metadata group whose bounds are known. -/
theorem metaValue_between {g : List ℚ} {mn mx : ℚ} (hmn : mn ∈ g) (hmx : mx ∈ g)
    (hle : ∀ x ∈ g, mn ≤ x ∧ x ≤ mx) (hbig : 255 / 10 ^ 12 ≤ mx - mn) (x : ℚ) :
    metaValue (exactFp toB ofB) g x
      = (exactFp toB ofB).affineCode 255 mn ((mx - mn) / 255) x * ofB (toB ((mx - mn) / 255))
        + ofB (toB mn) := by
  have hmin : (exactFp toB ofB).amin g = mn := amin_exact hmn fun x hx => (hle x hx).1
  have hmax : (exactFp toB ofB).amax g = mx := amax_exact hmx fun x hx => (hle x hx).2
  have hscale : metaScale (exactFp toB ofB) g = (mx - mn) / 255 := by
    rw [metaScale_exact toB ofB (by rw [hmin, hmax]; exact (hle mx hmx).1), hmin, hmax, if_pos hbig]
  rw [metaValue, hmin, hscale]
  rfl

theorem mem_of_mem_metaGroup {F B : Type} (fp : Fp F B) {flat : List F} {i : ℕ} {x : F}
    (h : x ∈ metaGroup fp flat i) : x ∈ flat := by
  have hpad := List.mem_of_mem_drop (List.mem_of_mem_take h)
  rw [padLast, List.mem_append] at hpad
  rcases hpad with hpad | hpad
  · exact hpad
  · have hne : flat ≠ [] := by
      rintro rfl
      simp [padTo] at hpad
    rw [List.eq_of_mem_replicate hpad, List.getLast?_eq_some_getLast hne]
    exact List.getLast_mem hne

/-- What the scale of spike `i` comes back as, three steps of it: `w` are the heights of all `n`
spikes in the order of the metadata. -/
def respike (toB : ℚ → B) (ofB : B → ℚ) (w : ℕ → ℚ) (n i : ℕ) : ℚ :=
  3 * metaValue (exactFp toB ofB)
    (metaGroup (exactFp toB ofB) ((List.range n).map fun j => w j / 3) i) (w i / 3)

section Respike

variable {w : ℕ → ℚ} {n i : ℕ}

theorem div_mem_metaGroup {j : ℕ} (hj : j < n)
    (hij : j / metadataGroupSize = i / metadataGroupSize) :
    w j / 3 ∈ metaGroup (exactFp toB ofB) ((List.range n).map fun j => w j / 3) i := by
  have hget : ((List.range n).map fun j => w j / 3)[j]? = some (w j / 3) := by
    rw [List.getElem?_map, List.getElem?_range hj]
    rfl
  have hmem := mem_metaGroup (exactFp toB ofB) hget
  rw [metaGroup, hij] at hmem
  exact hmem

theorem respike_least (hi : i < n) (hle : ∀ j < n, w i ≤ w j) :
    respike toB ofB w n i = 3 * ofB (toB (w i / 3)) := by
  rw [respike, metaValue_least toB ofB (div_mem_metaGroup hi rfl) fun x hx => ?_]
  obtain ⟨j, hj, rfl⟩ := List.mem_map.1 (mem_of_mem_metaGroup _ hx)
  have := hle j (List.mem_range.1 hj)
  linarith

theorem respike_between (lo hi : ℕ) (hlo : lo < n) (hhi : hi < n)
    (hlow : lo / metadataGroupSize = i / metadataGroupSize)
    (hhigh : hi / metadataGroupSize = i / metadataGroupSize)
    (hle : ∀ j < n, w lo ≤ w j ∧ w j ≤ w hi) (hbig : 765 / 10 ^ 12 ≤ w hi - w lo) :
    respike toB ofB w n i
      = 3 * ((exactFp toB ofB).affineCode 255 (w lo / 3) ((w hi / 3 - w lo / 3) / 255) (w i / 3)
          * ofB (toB ((w hi / 3 - w lo / 3) / 255)) + ofB (toB (w lo / 3))) := by
  rw [respike, metaValue_between toB ofB (div_mem_metaGroup hlo hlow) (div_mem_metaGroup hhi hhigh)
    (fun x hx => ?_) (by linarith)]
  obtain ⟨j, hj, rfl⟩ := List.mem_map.1 (mem_of_mem_metaGroup _ hx)
  obtain ⟨h1, h2⟩ := hle j (List.mem_range.1 hj)
  constructor <;> linarith

end Respike

variable {H D : ℕ}

/-- A V token with a spike first in every group of 32 channels and `z` behind it. -/
def spikeTok {α : Type} (z : α) (w : ℕ → α) (t : ℕ) : Tok H D α :=
  fun h d => if d.1 % groupSize = 0 then w (vIndex H D t h d) else z

/-- The first `n` V tokens with spikes. -/
def spikes (H D : ℕ) (w : ℕ → ℚ) (n : ℕ) : List (Tok H D ℚ) := (List.range n).map (spikeTok 0 w)

theorem map_spikeTok {α β : Type} (f : α → β) (z : α) (w : ℕ → α) (t : ℕ) :
    Tok.map f (spikeTok z w t : Tok H D α) = spikeTok (f z) (fun i => f (w i)) t := by
  funext h d
  unfold Tok.map spikeTok
  exact apply_ite f _ _ _

theorem vIndex_lt_iff {n t : ℕ} (h : Fin H) (d : Fin D) :
    vIndex H D t h d < n * H * vGroups D ↔ t < n := by
  refine ⟨fun hlt => ?_, fun ht => mul_add_lt (mul_add_lt ht h.2) (vGroup_lt d)⟩
  by_contra ht
  have hle : n * H * vGroups D ≤ (t * H + h) * vGroups D :=
    Nat.mul_le_mul_right _
      ((Nat.mul_le_mul_right H (Nat.le_of_not_lt ht)).trans (Nat.le_add_right _ _))
  exact absurd hlt (not_lt.2 (hle.trans (Nat.le_add_right _ _)))

section Group

variable (toB ofB) {w : ℕ → ℚ} {t : ℕ} (h : Fin H) {g : ℕ} (hg : g < vGroups D)

theorem vPad_spike (j : ℕ) (hj : j < groupSize) :
    vPad (exactFp toB ofB) ((spikeTok 0 w t : Tok H D ℚ) h) (g * groupSize + j)
      = if g * groupSize + j < D ∧ j = 0 then w ((t * H + h) * vGroups D + g) else 0 := by
  have hmod : (g * groupSize + j) % groupSize = j := by
    rw [Nat.mul_comm, Nat.mul_add_mod, Nat.mod_eq_of_lt hj]
  have hdiv : (g * groupSize + j) / groupSize = g := by
    rw [Nat.mul_comm, Nat.mul_add_div groupSize_pos, Nat.div_eq_of_lt hj, Nat.add_zero]
  unfold vPad spikeTok
  by_cases hd : g * groupSize + j < D
  · rw [dif_pos hd]
    simp only [hmod, hd, true_and, vIndex, hdiv]
  · rw [dif_neg hd, if_neg fun hc => hd hc.1]
    rfl

include hg

theorem spike_mem_vGroup (hw : 0 ≤ w ((t * H + h) * vGroups D + g)) :
    w ((t * H + h) * vGroups D + g) ∈ vGroup (exactFp toB ofB) ((spikeTok 0 w t : Tok H D ℚ) h) g ∧
      (0 : ℚ) ∈ vGroup (exactFp toB ofB) ((spikeTok 0 w t : Tok H D ℚ) h) g ∧
      ∀ v ∈ vGroup (exactFp toB ofB) ((spikeTok 0 w t : Tok H D ℚ) h) g,
        0 ≤ v ∧ v ≤ w ((t * H + h) * vGroups D + g) := by
  have hlt : g * groupSize < D := by
    unfold vGroups groupSize at hg
    unfold groupSize
    omega
  refine ⟨List.mem_map.2 ⟨0, by decide, ?_⟩, List.mem_map.2 ⟨1, by decide, ?_⟩, fun v hv => ?_⟩
  · rw [vPad_spike toB ofB h 0 (by decide), if_pos ⟨hlt, rfl⟩]
  · rw [vPad_spike toB ofB h 1 (by decide), if_neg (by simp)]
  · obtain ⟨j, hj, rfl⟩ := List.mem_map.1 hv
    rw [vPad_spike toB ofB h j (List.mem_range.1 hj)]
    split_ifs
    · exact ⟨hw, le_rfl⟩
    · exact ⟨le_rfl, hw⟩

theorem vMin_spike (hw : 0 ≤ w ((t * H + h) * vGroups D + g)) :
    vMin (exactFp toB ofB) ((spikeTok 0 w t : Tok H D ℚ) h) g = 0 := by
  obtain ⟨-, h0, hle⟩ := spike_mem_vGroup toB ofB h hg hw
  exact amin_exact h0 fun v hv => (hle v hv).1

theorem vScale_spike (hw : 3 / 10 ^ 8 ≤ w ((t * H + h) * vGroups D + g)) :
    vScale (exactFp toB ofB) ((spikeTok 0 w t : Tok H D ℚ) h) g
      = w ((t * H + h) * vGroups D + g) / 3 := by
  have hpos : 0 ≤ w ((t * H + h) * vGroups D + g) := by linarith
  obtain ⟨hmem, -, hle⟩ := spike_mem_vGroup toB ofB h hg hpos
  rw [vScale, vMin_spike toB ofB h hg hpos, amax_exact hmem fun v hv => (hle v hv).2,
    affineScale_exact, sub_zero, Nat.cast_ofNat, abs_of_nonneg (by linarith), if_neg (by linarith)]

end Group

/-- Metadata of tokens with spikes, one value for each spike. -/
theorem flatTokens_spikes {w g : ℕ → ℚ} {f : Tok H D ℚ → Tok H (vGroups D) ℚ}
    (hf : ∀ t h (j : Fin (vGroups D)), f (spikeTok 0 w t) h j = g ((t * H + h) * vGroups D + j))
    (n : ℕ) :
    flatTokens ((spikes H D w n).map f) = (List.range (n * H * vGroups D)).map g := by
  rw [← flatTokens_range, spikes, List.map_map]
  refine congrArg flatTokens (List.map_congr_left fun t _ => ?_)
  funext h j
  exact hf t h j

section Region

variable {w : ℕ → ℚ} (hw : ∀ i, 3 / 10 ^ 8 ≤ w i)

include hw

theorem vCode_spike (t : ℕ) (h : Fin H) (d : Fin D) :
    vCode (exactFp toB ofB) ((spikeTok 0 w t : Tok H D ℚ) h) d
      = if d.1 % groupSize = 0 then 3 else 0 := by
  have hpos := hw ((t * H + h) * vGroups D + d / groupSize)
  have hpad : vPad (exactFp toB ofB) ((spikeTok 0 w t : Tok H D ℚ) h) d
      = (spikeTok 0 w t : Tok H D ℚ) h d := dif_pos d.2
  rw [vCode, hpad, vScale_spike toB ofB h (vGroup_lt d) hpos,
    vMin_spike toB ofB h (vGroup_lt d) (by linarith), spikeTok, vIndex]
  split_ifs
  · refine affineCode_exact ?_ le_rfl
    rw [sub_zero, Nat.cast_ofNat]
    field_simp
  · exact affineCode_exact (by simp) (Nat.zero_le _)

/-- Tokens with spikes decode to tokens with spikes. -/
theorem vRegion_spikes (h0 : ofB (toB 0) = 0) (n : ℕ) :
    vRegion (exactFp toB ofB) (spikes H D w n)
      = spikes H D (respike toB ofB w (n * H * vGroups D)) n := by
  refine List.ext_getElem? fun t => ?_
  by_cases ht : t < n
  · have hrow : ∀ w : ℕ → ℚ, (spikes H D w n)[t]? = some (spikeTok 0 w t) := fun w => by
      rw [spikes, List.getElem?_map, List.getElem?_range ht, Option.map_some]
    rw [getElem?_vRegion (exactFp toB ofB) (hrow w), hrow]
    congr 1
    funext h d
    have hindex := (vIndex_lt_iff h d).2 ht
    have hzero : (0 : ℚ) ∈ metaGroup (exactFp toB ofB)
        ((List.range (n * H * vGroups D)).map fun _ => (0 : ℚ)) (vIndex H D t h d) :=
      mem_metaGroup _ (by rw [List.getElem?_map, List.getElem?_range hindex, Option.map_some])
    have hmin : metaValue (exactFp toB ofB) (metaGroup (exactFp toB ofB)
        ((List.range (n * H * vGroups D)).map fun _ => (0 : ℚ)) (vIndex H D t h d)) 0 = 0 := by
      rw [metaValue_least toB ofB hzero fun x hx => ?_, h0]
      obtain ⟨-, -, rfl⟩ := List.mem_map.1 (mem_of_mem_metaGroup _ hx)
      exact le_rfl
    have hpos := hw ((t * H + h) * vGroups D + d / groupSize)
    have hnonneg : ∀ i, 0 ≤ w i := fun i => le_trans (by norm_num) (hw i)
    have hscales := flatTokens_spikes (f := v2Scale (exactFp toB ofB)) (g := fun i => w i / 3)
      (fun (t : ℕ) (h : Fin H) (j : Fin (vGroups D)) => vScale_spike toB ofB h j.2 (hw _)) n
    have hmins := flatTokens_spikes (f := v2Min (exactFp toB ofB)) (g := fun _ => 0)
      (fun (t : ℕ) (h : Fin H) (j : Fin (vGroups D)) => vMin_spike toB ofB h j.2 (hnonneg _)) n
    rw [vCode_spike hw, hscales, hmins,
      vScale_spike toB ofB h (vGroup_lt d) hpos,
      vMin_spike toB ofB h (vGroup_lt d) (by linarith), hmin, affineValue_exact, add_zero, spikeTok]
    split_ifs
    · rw [respike, Nat.cast_ofNat]
      rfl
    · rw [Nat.cast_zero, zero_mul]
  · rw [List.getElem?_eq_none, List.getElem?_eq_none]
    · simpa [spikes] using ht
    · simpa [spikes] using ht

end Region

theorem spikeTok_congr {α : Type} {z : α} {w w' : ℕ → α} {t : ℕ}
    (hw : ∀ (h : Fin H) (d : Fin D), w (vIndex H D t h d) = w' (vIndex H D t h d)) :
    (spikeTok z w t : Tok H D α) = spikeTok z w' t := by
  funext h d
  unfold spikeTok
  rw [hw]

end Spike

section Drift

variable {B : Type} {toB : ℚ → B} {ofB : B → ℚ} {H D : ℕ} {z : B} (hz : ofB z = 0)
  (h0 : toB 0 = z) {c : ℕ → B} (hc : ∀ i, 3 / 10 ^ 8 ≤ ofB (c i))

/-- `n` tokens of the short format: K zero, V with spikes. -/
def spikeSeq (H D : ℕ) (z : B) (c : ℕ → B) (n : ℕ) : List (Pair H D B) :=
  (List.range n).map fun t => (fun _ _ => z, spikeTok z c t)

/-- The spikes an update finds in a state whose first `n` spikes are quantized. -/
def aged (toB : ℚ → B) (ofB : B → ℚ) (c : ℕ → B) (n i : ℕ) : B :=
  if i < n then toB (respike toB ofB (fun j => ofB (c j)) n i) else c i

section Decoded

include hz h0 hc

/-- What a sequence of spikes decodes to. -/
theorem decoded_spikes {key : List (Tok H D B)} {a : ℕ} (hkey : key.length = a)
    {st : Rabit2Kv H D B}
    (hst : quantizeRabit2Kv (exactFp toB ofB) key ((List.range a).map (spikeTok z c)) = .ok st)
    {E : Type} (dt : Dtype ℚ B E) :
    (dequantizeRabit2KvAs (exactFp toB ofB) dt st).1.length = a ∧
    (dequantizeRabit2KvAs (exactFp toB ofB) dt st).2
      = ((List.range (a - residualTokens)).map fun t => Tok.map dt.ofF (spikeTok 0 (respike toB ofB
            (fun j => ofB (c j)) ((a - residualTokens) * H * vGroups D)) t))
        ++ ((List.range a).drop (a - residualTokens)).map fun t =>
            Tok.map dt.ofB (spikeTok z c t) := by
  obtain ⟨st', hst', hdq⟩ := quantizeRabit2Kv_decodesAs (exactFp toB ofB)
    (show key.length = ((List.range a).map (spikeTok z c)).length by simpa using hkey)
  obtain rfl : st' = st := Except.ok.inj (hst'.symm.trans hst)
  have hold : ((((List.range a).map (spikeTok z c)).take (a - residualTokens)).map
      (Tok.map (exactFp toB ofB).ofB) : List (Tok H D ℚ))
      = spikes H D (fun j => ofB (c j)) (a - residualTokens) := by
    rw [← List.map_take, List.take_range, Nat.min_eq_left (Nat.sub_le a residualTokens),
      List.map_map, spikes]
    refine List.map_congr_left fun t _ => (map_spikeTok _ z c t).trans ?_
    rw [show (exactFp toB ofB).ofB z = 0 from hz]
    rfl
  rw [hdq dt, hkey, hold, vRegion_spikes hc (by rw [h0, hz])]
  constructor
  · rw [List.length_append, List.length_map, List.length_map, length_kRegion, List.length_map,
      List.length_take, List.length_drop, hkey]
    omega
  · rw [spikes, List.map_map, ← List.map_drop, List.map_map]
    rfl

/-- An update finds spikes again. -/
theorem decoded_aged {key : List (Tok H D B)} {a : ℕ} (hkey : key.length = a)
    {st : Rabit2Kv H D B}
    (hst : quantizeRabit2Kv (exactFp toB ofB) key ((List.range a).map (spikeTok z c)) = .ok st) :
    (dequantizeRabit2KvAs (exactFp toB ofB) (exactFp toB ofB).bfloat16 st).2
      = (List.range a).map
          (spikeTok z (aged toB ofB c ((a - residualTokens) * H * vGroups D))) := by
  have hrange : List.range (a - residualTokens) = (List.range a).take (a - residualTokens) := by
    rw [List.take_range, Nat.min_eq_left (Nat.sub_le a residualTokens)]
  rw [(decoded_spikes hz h0 hc hkey hst _).2, hrange]
  conv_rhs => rw [← List.take_append_drop (a - residualTokens) (List.range a), List.map_append]
  congr 1
  · refine List.map_congr_left fun t ht => (map_spikeTok _ 0 _ t).trans ?_
    rw [← hrange] at ht
    rw [show (exactFp toB ofB).bfloat16.ofF 0 = z from h0]
    exact spikeTok_congr fun h d => (if_pos ((vIndex_lt_iff h d).2 (List.mem_range.1 ht))).symm
  · refine List.map_congr_left fun t ht => spikeTok_congr fun h d => (if_neg fun hlt => ?_).symm
    rw [List.range_eq_range', List.drop_range', List.mem_range'_1] at ht
    have := (vIndex_lt_iff h d).1 hlt
    omega

/-- The first V token of a sequence of spikes that is older than four tokens. -/
theorem decoded_first {key : List (Tok H D B)} {a : ℕ} (hkey : key.length = a)
    (ha : residualTokens < a) {st : Rabit2Kv H D B}
    (hst : quantizeRabit2Kv (exactFp toB ofB) key ((List.range a).map (spikeTok z c)) = .ok st) :
    (dequantizeRabit2Kv (exactFp toB ofB) st).2[0]?
      = some (spikeTok 0 (respike toB ofB (fun j => ofB (c j))
          ((a - residualTokens) * H * vGroups D)) 0) := by
  rw [dequantizeRabit2Kv, (decoded_spikes hz h0 hc hkey hst _).2, List.getElem?_append_left
    (by rw [List.length_map, List.length_range]; omega), List.getElem?_map,
    List.getElem?_range (by omega)]
  rfl

end Decoded

section Update

variable {a : ℕ} (ha : residualTokens < a) (b : ℕ)
  (hc' : ∀ i, 3 / 10 ^ 8 ≤ ofB (aged toB ofB c ((a - residualTokens) * H * vGroups D) i))

include hz h0 hc ha hc'

/-- The first V token after an update, and without it. -/
theorem spikes_update :
    ∃ st st' whole, quantizeSeq (exactFp toB ofB) (spikeSeq H D z c a) = .ok st ∧
      updateRabit2Kv (exactFp toB ofB) (some st) (((spikeSeq H D z c (a + b)).drop a).map Prod.fst)
        (((spikeSeq H D z c (a + b)).drop a).map Prod.snd) = .ok st' ∧
      quantizeSeq (exactFp toB ofB) (spikeSeq H D z c a ++ (spikeSeq H D z c (a + b)).drop a)
        = .ok whole ∧
      (dequantizeRabit2Kv (exactFp toB ofB) st').2[0]? = some (spikeTok 0 (respike toB ofB
        (fun j => ofB (aged toB ofB c ((a - residualTokens) * H * vGroups D) j))
        ((a + b - residualTokens) * H * vGroups D)) 0) ∧
      (dequantizeRabit2Kv (exactFp toB ofB) whole).2[0]? = some (spikeTok 0 (respike toB ofB
        (fun j => ofB (c j)) ((a + b - residualTokens) * H * vGroups D)) 0) := by
  have hlong : residualTokens < a + b := by omega
  have hsnd : ∀ n, (spikeSeq H D z c n).map Prod.snd = (List.range n).map (spikeTok z c) :=
    fun n => by rw [spikeSeq, List.map_map]; rfl
  have hfst : ∀ n, ((spikeSeq H D z c n).map Prod.fst).length = n := fun n => by simp [spikeSeq]
  have hwhole : spikeSeq H D z c a ++ (spikeSeq H D z c (a + b)).drop a
      = spikeSeq H D z c (a + b) := by
    rw [← List.take_append_drop a (spikeSeq H D z c (a + b)), List.drop_left' (by simp [spikeSeq]),
      spikeSeq, spikeSeq, ← List.map_take, List.take_range, Nat.min_eq_left (Nat.le_add_right a b)]
  obtain ⟨st, hst, -⟩ := quantizeSeq_ok (exactFp toB ofB) (spikeSeq H D z c a)
  obtain ⟨whole, hdirect, -⟩ := quantizeSeq_ok (exactFp toB ofB) (spikeSeq H D z c (a + b))
  have hvalues := hst
  rw [quantizeSeq, hsnd] at hvalues
  have hkeys := (decoded_spikes hz h0 hc (hfst a) hvalues (exactFp toB ofB).bfloat16).1
  -- the new tokens are spikes past those the update has moved
  have hnew : (dequantizeRabit2KvAs (exactFp toB ofB) (exactFp toB ofB).bfloat16 st).2
        ++ ((spikeSeq H D z c (a + b)).drop a).map Prod.snd
      = (List.range (a + b)).map
          (spikeTok z (aged toB ofB c ((a - residualTokens) * H * vGroups D))) := by
    rw [decoded_aged hz h0 hc (hfst a) hvalues, List.map_drop, hsnd, List.range_add,
      List.map_append, List.map_append, List.drop_left' (by simp), List.map_map, List.map_map]
    congr 1
    refine List.map_congr_left fun t _ => spikeTok_congr fun h d => (if_neg fun hlt => ?_).symm
    have hold : a + t < a - residualTokens := (vIndex_lt_iff h d).1 hlt
    omega
  have hlen : ((dequantizeRabit2KvAs (exactFp toB ofB) (exactFp toB ofB).bfloat16 st).1
      ++ ((spikeSeq H D z c (a + b)).drop a).map Prod.fst).length = a + b := by
    rw [List.length_append, hkeys]
    simp [spikeSeq]
  obtain ⟨st', hst', -⟩ := quantizeRabit2Kv_decodes (exactFp toB ofB)
    (hlen.trans (by rw [List.length_map, List.length_range]) :
      _ = ((List.range (a + b)).map
        (spikeTok z (aged toB ofB c ((a - residualTokens) * H * vGroups D)))).length)
  refine ⟨st, st', whole, hst, ?_, by rw [hwhole, hdirect], ?_, ?_⟩
  · rw [updateRabit2Kv_some, hnew, hst']
  · exact decoded_first hz h0 hc' hlen hlong hst'
  · rw [quantizeSeq, hsnd] at hdirect
    exact decoded_first hz h0 hc (hfst _) hlong hdirect

theorem not_noDrift (hH : 0 < H) (hD : 0 < D)
    (hne : respike toB ofB (fun j => ofB (aged toB ofB c ((a - residualTokens) * H * vGroups D) j))
        ((a + b - residualTokens) * H * vGroups D) 0
      ≠ respike toB ofB (fun j => ofB (c j)) ((a + b - residualTokens) * H * vGroups D) 0) :
    ¬ NoDrift (exactFp toB ofB) (spikeSeq H D z c a) ((spikeSeq H D z c (a + b)).drop a) := by
  rintro ⟨st, st', whole, hst, hst', hwhole, heq⟩
  obtain ⟨st₁, st₁', whole₁, h, h', hw, hupdated, hdirect⟩ := spikes_update hz h0 hc ha b hc'
  obtain rfl : st₁ = st := Except.ok.inj (h.symm.trans hst)
  obtain rfl : st₁' = st' := Except.ok.inj (h'.symm.trans hst')
  obtain rfl : whole₁ = whole := Except.ok.inj (hw.symm.trans hwhole)
  rw [heq, hdirect] at hupdated
  have hentry := congrFun (congrFun (Option.some.inj hupdated) ⟨0, hH⟩) ⟨0, hD⟩
  simp only [spikeTok, vIndex, Nat.zero_mod, if_true, Nat.zero_mul, Nat.add_zero, Nat.zero_div]
    at hentry
  exact hne hentry.symm

end Update

end Drift

section Bfloat

/-- Spikes of 3 behind one of 27/4, with `x` before them. -/
def leadSpikes (x : Bf16) (i : ℕ) : Bf16 := if i = 0 then x else if i = 1 then 16600 else 16448

theorem leadSpikes_low (x : Bf16) {i : ℕ} (hi : 2 ≤ i) : leadSpikes x i = 16448 := by
  rw [leadSpikes, if_neg (by omega), if_neg (by omega)]

theorem leadSpikes_values : bf16ToRat 16448 = 3 ∧ bf16ToRat 16600 = 27 / 4 ∧
    bf16ToRat (ratToBf16 (1 / 204)) = 161 / 32768 ∧ bf16ToRat (ratToBf16 1) = 1 := by
  decide +kernel

section Lead

variable {x : Bf16} (hx : 3 ≤ bf16ToRat x ∧ bf16ToRat x ≤ 27 / 4)

include hx

theorem leadSpikes_mem (i : ℕ) :
    3 ≤ bf16ToRat (leadSpikes x i) ∧ bf16ToRat (leadSpikes x i) ≤ 27 / 4 := by
  obtain ⟨hlo, hhi, -, -⟩ := leadSpikes_values
  unfold leadSpikes
  split_ifs
  · exact hx
  · rw [hhi]
    norm_num
  · rw [hlo]
    norm_num

theorem respike_lead {n : ℕ} (hn : 3 ≤ n) {i : ℕ} (hi : i < metadataGroupSize) :
    respike ratToBf16 bf16ToRat (fun j => bf16ToRat (leadSpikes x j)) n i
      = 3 * (ratFp.affineCode 255 1 (1 / 204) (bf16ToRat (leadSpikes x i) / 3) * (161 / 32768)
          + 1) := by
  obtain ⟨hlo, hhi, hstep, hone⟩ := leadSpikes_values
  have hlow : bf16ToRat (leadSpikes x 2) = 3 := hlo
  have hhigh : bf16ToRat (leadSpikes x 1) = 27 / 4 := hhi
  have hgroup : ∀ j < metadataGroupSize, j / metadataGroupSize = i / metadataGroupSize :=
    fun j hj => by rw [Nat.div_eq_of_lt hi, Nat.div_eq_of_lt hj]
  rw [respike_between 2 1 (by omega) (by omega) (hgroup 2 (by decide))
    (hgroup 1 (by decide)) (fun j _ => by rw [hlow, hhigh]; exact leadSpikes_mem hx j)
    (by rw [hlow, hhigh]; norm_num), hlow, hhigh,
    show ((27 / 4 / 3 - 3 / 3) / 255 : ℚ) = 1 / 204 by norm_num, div_self (by norm_num), hstep,
    hone]
  rfl

theorem respike_lead_low {n i : ℕ} (hi : 2 ≤ i) (hin : i < n) :
    respike ratToBf16 bf16ToRat (fun j => bf16ToRat (leadSpikes x j)) n i = 3 := by
  obtain ⟨hlo, -, -, hone⟩ := leadSpikes_values
  have hlow : bf16ToRat (leadSpikes x i) = 3 := by rw [leadSpikes_low x hi, hlo]
  rw [respike_least hin fun j _ => by rw [hlow]; exact (leadSpikes_mem hx j).1, hlow,
    div_self (by norm_num), hone, mul_one]

end Lead

/-- An update moves the first of these spikes from 27/8 to 217/64. -/
theorem aged_lead {n : ℕ} (hn : 3 ≤ n) :
    aged ratToBf16 bf16ToRat (leadSpikes 16472) n = leadSpikes 16473 := by
  have hx : 3 ≤ bf16ToRat 16472 ∧ bf16ToRat 16472 ≤ 27 / 4 := by decide +kernel
  funext i
  rw [aged]
  rcases Nat.lt_or_ge i n with hin | hin
  · rw [if_pos hin]
    rcases Nat.lt_or_ge i 2 with hi | hi
    · rw [respike_lead hx hn (hi.trans (by decide))]
      clear hin
      revert i
      decide +kernel
    · rw [respike_lead_low hx hi hin, leadSpikes_low _ hi]
      decide +kernel
  · rw [if_neg (not_lt.2 hin), leadSpikes_low _ (by omega), leadSpikes_low _ (by omega)]

theorem respike_lead_ne {n : ℕ} (hn : 3 ≤ n) :
    respike ratToBf16 bf16ToRat (fun j => bf16ToRat (leadSpikes 16473 j)) n 0
      ≠ respike ratToBf16 bf16ToRat (fun j => bf16ToRat (leadSpikes 16472 j)) n 0 := by
  rw [respike_lead (by decide +kernel) hn (by decide),
    respike_lead (by decide +kernel) hn (by decide)]
  decide +kernel

/-- One or two spikes of 199/128: an update moves them to 25/16, beside spikes of 199/128. -/
theorem respike_level {n m : ℕ} (hn : 0 < n) (hn3 : n < 3) (hnm : n < m) :
    (∀ i, aged ratToBf16 bf16ToRat (fun _ => 16327) n i = if i < n then 16328 else 16327) ∧
    respike ratToBf16 bf16ToRat (fun j => bf16ToRat (if j < n then 16328 else 16327)) m 0
      = 26279679 / 16777216 ∧
    respike ratToBf16 bf16ToRat (fun _ => bf16ToRat 16327) m 0 = 399 / 256 := by
  have hlevel : ∀ k, ∀ i < k, respike ratToBf16 bf16ToRat (fun _ => bf16ToRat 16327) k i
      = 399 / 256 := by
    intro k i hi
    rw [respike_least hi fun _ _ => le_rfl]
    decide +kernel
  refine ⟨fun i => ?_, ?_, hlevel m 0 (by omega)⟩
  · rw [aged]
    split_ifs with hi
    · rw [hlevel n i hi]
      decide +kernel
    · rfl
  · rw [respike_between n 0 hnm (by omega)
      (by rw [Nat.div_eq_of_lt (hn3.trans (by decide))]; rfl) rfl]
    · simp only [hn, if_true, lt_irrefl, if_false]
      decide +kernel
    · intro j _
      simp only [hn, if_true, lt_irrefl, if_false]
      split_ifs <;> decide +kernel
    · simp only [hn, if_true, lt_irrefl, if_false]
      decide +kernel

/-- Beyond four tokens there are tokens that an update moves. -/
theorem exists_drift {H D : ℕ} (hH : 0 < H) (hD : 0 < D) {a : ℕ} (ha : residualTokens < a) {b : ℕ}
    (hb : 0 < b) : ∃ A C : List (Pair H D Bf16), A.length = a ∧ C.length = b ∧
      ¬ NoDrift ratFp A C := by
  have hlen : ∀ c : ℕ → Bf16, (spikeSeq H D 0 c a).length = a ∧
      ((spikeSeq H D 0 c (a + b)).drop a).length = b := fun c => by simp [spikeSeq]
  have hz : bf16ToRat 0 = 0 := by decide +kernel
  have h0 : ratToBf16 0 = 0 := by decide +kernel
  have hgroups : 0 < vGroups D := Nat.zero_lt_of_lt (vGroup_lt ⟨0, hD⟩)
  have hspikes : 0 < H * vGroups D := Nat.mul_pos hH hgroups
  have hmore : (a - residualTokens) * H * vGroups D < (a + b - residualTokens) * H * vGroups D := by
    rw [Nat.mul_assoc, Nat.mul_assoc]
    exact Nat.mul_lt_mul_of_pos_right (by omega) hspikes
  rcases Nat.lt_or_ge ((a - residualTokens) * H * vGroups D) 3 with hfew | hmany
  · have hsome : 0 < (a - residualTokens) * H * vGroups D := by
      rw [Nat.mul_assoc]
      exact Nat.mul_pos (by omega) hspikes
    obtain ⟨haged, hupdated, hdirect⟩ := respike_level hsome hfew hmore
    refine ⟨_, _, (hlen fun _ => 16327).1, (hlen fun _ => 16327).2,
      not_noDrift hz h0 (fun _ => by decide +kernel) ha b (fun i => ?_) hH hD ?_⟩
    · rw [haged]
      split_ifs <;> decide +kernel
    · simp only [haged]
      rw [hupdated, hdirect]
      norm_num
  · have hbig : ∀ {x : Bf16}, 3 ≤ bf16ToRat x ∧ bf16ToRat x ≤ 27 / 4 →
        ∀ i, 3 / 10 ^ 8 ≤ bf16ToRat (leadSpikes x i) :=
      fun hx i => le_trans (by norm_num) (leadSpikes_mem hx i).1
    refine ⟨_, _, (hlen (leadSpikes 16472)).1, (hlen (leadSpikes 16472)).2,
      not_noDrift hz h0 (hbig (by decide +kernel)) ha b ?_ hH hD ?_⟩
    · rw [aged_lead hmany]
      exact hbig (by decide +kernel)
    · rw [aged_lead hmany]
      exact respike_lead_ne (by omega)

end Bfloat

section Main

/-- Between bfloat16 tokens, an update is the quantization of the longer sequence, whatever the
tokens are, exactly when the sequence so far has at most four tokens. Up to there it is so in any
arithmetic, and chunks fold to the whole as long as all but the last have at most four tokens
together. -/
theorem updateRabit2Kv_exact_iff {H D : ℕ} (hH : 0 < H) (hD : 0 < D) (a : ℕ) {b : ℕ} (hb : 0 < b) :
    ((∀ A C : List (Pair H D Bf16), A.length = a → C.length = b → NoDrift ratFp A C)
      ↔ a ≤ residualTokens) ∧
    (∀ {F B : Type} (fp : Fp F B) (A C : List (Pair H D B)), A.length ≤ residualTokens →
      NoDrift fp A C) ∧
    ∀ {F B : Type} (fp : Fp F B) (init : List (List (Pair H D B))) (last : List (Pair H D B)),
      init.flatten.length ≤ residualTokens →
      updateAll fp none (init ++ [last]) = some <$> quantizeSeq fp (init.flatten ++ last) := by
  have hshort : ∀ {F B : Type} (fp : Fp F B) (A C : List (Pair H D B)),
      A.length ≤ residualTokens → NoDrift fp A C := by
    intro F B fp A C hA
    obtain ⟨st, hst, -⟩ := quantizeSeq_ok fp A
    obtain ⟨whole, hwhole, -⟩ := quantizeSeq_ok fp (A ++ C)
    refine ⟨st, whole, whole, hst, ?_, hwhole, rfl⟩
    rw [updateRabit2Kv_short _ hA hst, hwhole]
  refine ⟨⟨fun h => ?_, fun ha A C hA _ => hshort ratFp A C (by omega)⟩, hshort,
    fun fp init last hinit => ?_⟩
  · by_contra hlong
    obtain ⟨A, C, hA, hC, hdrift⟩ := exists_drift hH hD (Nat.lt_of_not_le hlong) hb
    exact hdrift (h A C hA hC)
  · rcases init with _ | ⟨chunk, init⟩
    · rw [List.nil_append, updateAll, updateRabit2Kv_none]
      rfl
    · rw [List.flatten_cons] at hinit ⊢
      obtain ⟨st, hst, -⟩ := quantizeSeq_ok fp chunk
      rw [List.cons_append, updateAll, updateRabit2Kv_none, hst]
      exact updateAll_short _ init hst hinit last

theorem updateRabit2Kv_exact_four_tokens : (0 < 2 ∧ 0 < 64 ∧ 0 < 3) ∧
    NoDrift ratFp (rampTokens 2 64 4) (rampTokens 2 64 3) ∧
    updateAll ratFp none ([rampTokens 2 64 3, rampTokens 2 64 1] ++ [rampTokens 2 64 40])
      = some <$> quantizeSeq ratFp ([rampTokens 2 64 3, rampTokens 2 64 1].flatten
        ++ rampTokens 2 64 40) :=
  have hexact := updateRabit2Kv_exact_iff (H := 2) (D := 64) (by decide) (by decide) 4
    (show 0 < 3 by decide)
  ⟨by decide, hexact.1.2 le_rfl _ _ rfl rfl, hexact.2.2 ratFp _ _ (by decide)⟩

/-- A token of one head and 32 channels: K zero, V with 199/128 in front. -/
def spikeToken : Pair 1 32 Bf16 := (fun _ _ => 0, fun _ d => if d.1 = 0 then 16327 else 0)

/-- Five tokens and one more: the front of the first V token is 26279679/16777216 after the update
and 399/256 without it. -/
theorem updateRabit2Kv_drifts :
    (∃ st st' whole, quantizeSeq ratFp (List.replicate 5 spikeToken) = .ok st ∧
      updateRabit2Kv ratFp (some st) [spikeToken.1] [spikeToken.2] = .ok st' ∧
      quantizeSeq ratFp (List.replicate 5 spikeToken ++ [spikeToken]) = .ok whole ∧
      (dequantizeRabit2Kv ratFp st').2[0]?.map (fun v => v 0 0) = some (26279679 / 16777216) ∧
      (dequantizeRabit2Kv ratFp whole).2[0]?.map (fun v => v 0 0) = some (399 / 256)) ∧
    ¬ NoDrift ratFp (List.replicate 5 spikeToken) [spikeToken] := by
  have hz : bf16ToRat 0 = 0 := by decide +kernel
  have h0 : ratToBf16 0 = 0 := by decide +kernel
  obtain ⟨haged, hupdated, hdirect⟩ := respike_level (n := 1) (m := 2) (by decide) (by decide)
    (by decide)
  have hbig : ∀ i, 3 / 10 ^ 8 ≤ bf16ToRat (aged ratToBf16 bf16ToRat (fun _ => 16327) 1 i) := by
    intro i
    rw [haged]
    split_ifs <;> decide +kernel
  have htoken : ∀ t : ℕ, (spikeTok 0 (fun _ => 16327) t : Tok 1 32 Bf16) = spikeToken.2 := by
    intro t
    funext h d
    rw [spikeTok, Nat.mod_eq_of_lt d.2]
    rfl
  have htokens : ∀ n, spikeSeq 1 32 0 (fun _ => 16327) n = List.replicate n spikeToken := by
    intro n
    rw [spikeSeq, List.map_congr_left fun t _ => by rw [htoken], List.map_const', List.length_range]
    rfl
  have hnew : (spikeSeq 1 32 0 (fun _ => 16327) (5 + 1)).drop 5 = [spikeToken] := by
    rw [htokens]
    rfl
  have hupdate := spikes_update (H := 1) (D := 32) (a := 5) hz h0 (c := fun _ => 16327)
    (fun _ => by decide +kernel) (by decide) 1 hbig
  have hdrift := not_noDrift (H := 1) (D := 32) (a := 5) hz h0 (c := fun _ => 16327)
    (fun _ => by decide +kernel) (by decide) 1 hbig (by decide) (by decide)
  have hone : (5 - residualTokens) * 1 * vGroups 32 = 1 := rfl
  have htwo : (5 + 1 - residualTokens) * 1 * vGroups 32 = 2 := rfl
  rw [hnew, htokens, hone, htwo] at hupdate hdrift
  simp only [haged] at hupdate hdrift
  obtain ⟨st, st', whole, hst, hst', hwhole, hfirst, hfirst'⟩ := hupdate
  refine ⟨⟨st, st', whole, hst, hst', hwhole, ?_, ?_⟩, hdrift ?_⟩
  · rw [← hupdated]
    exact congrArg (Option.map fun v => v 0 0) hfirst
  · rw [← hdirect]
    exact congrArg (Option.map fun v => v 0 0) hfirst'
  · rw [hupdated, hdirect]
    norm_num

end Main

end RabitKV
