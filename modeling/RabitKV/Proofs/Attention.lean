import RabitKV.Proofs.Runtime
import RabitKV.Proofs.TailValues

/-!
# Decode attention is softmax attention

Both versions of the call store one partial per segment and query head, the closed pages first and
the tail last (`onlineDecodeAttention_ok`), under numbers that are all different. In exact
arithmetic each is a partial over the tokens of its segment (`attention_segments`), so the reduction
gives softmax attention over the materialised sequence.
-/

namespace RabitKV

open Stores Chunks Softmax

theorem Sidecar.WF.recent_pos {F : Type} {H D : ℕ} {side : Sidecar H D F} (hw : side.WF)
    (hrecent : side.recentK ≠ none) : 0 < lenOpt side.recentK := by
  rcases hr : side.recentK with _ | recentK
  · exact absurd hr hrecent
  · exact List.length_pos_of_ne_nil fun h0 => hw.recentK_ne (h0 ▸ hr)

section Launch

theorem le_nextPowerOf2 (n : ℕ) : n ≤ nextPowerOf2 n := Nat.le_pow_clog (by decide) n

variable {F Q : Type} (fp : AttnFp F) (dt : QDtype F Q) {H D : ℕ} (u : Uninit F Q)
  (q : QueryPtr Q) (qHeads : ℕ) (cache : Cache ℕ) (row : List ℕ) (side : Sidecar H D F)
  (closed : ℕ) (softmaxScale : F) (ws : Option (Workspace F))

/-- The partial of one segment: a closed page, or the tail. -/
def segmentPartial (s qh : ℕ) : Partial F :=
  if s < closed then pagePartial fp dt (pageParams qHeads H D) cache.flat
    (fun logicalPage => row.getD logicalPage 0) softmaxScale q s qh
  else tailPartial (kernelAttnFp fp) dt q qHeads softmaxScale side qh

theorem gridPartials_pages (base : ℕ) :
    gridPartials base closed qHeads
        (segmentPartial fp dt q qHeads cache row side closed softmaxScale)
      = gridPartials base closed qHeads (pagePartial fp dt (pageParams qHeads H D) cache.flat
        (fun logicalPage => row.getD logicalPage 0) softmaxScale q) := by
  refine List.flatMap_congr fun s hs => List.map_congr_left fun qh _ => ?_
  rw [segmentPartial, if_pos (List.mem_range.1 hs)]

variable {fp qHeads side}

/-- The emitter stores the partials of the last segment. -/
theorem emitTailPartial_segment (hH : 0 < H) (hD : 0 < D) (hdim : D % groupSize = 0) (hw : side.WF)
    (hrecent : side.recentK ≠ none) (hq : H ∣ qHeads) (junk : Workspace F) (base : ℕ) :
    ∃ ws', emitTailPartial fp dt junk q qHeads side ⟨base, base, base * D⟩ closed softmaxScale ws
      = .ok (((List.range qHeads).map fun qh => (base + (closed * qHeads + qh),
        segmentPartial fp dt q qHeads cache row side closed softmaxScale closed qh)).flatMap
          (partialStores D), ws') := by
  obtain ⟨ws', htail⟩ := emitTailPartial_ok dt q softmaxScale hH hD hdim hw hrecent hq junk
    ⟨base, base, base * D⟩ closed ws
  refine ⟨ws', ?_⟩
  rw [htail, List.flatMap_map]
  refine congrArg (fun stores => Except.ok (stores, ws')) (List.flatMap_congr fun qh _ => ?_)
  rw [storePartial_eq (le_nextPowerOf2 D), segmentPartial, if_neg (lt_irrefl closed)]

/-- Both versions of the call after their page kernel. -/
theorem finishAttention_ok (hH : 0 < H) (hD : 0 < D) (hdim : D % groupSize = 0) (hw : side.WF)
    (hrecent : side.recentK ≠ none) (hq : H ∣ qHeads)
    {pageStores : List (Slot × F)}
    (hpages : pageStores = (gridPartials 0 closed qHeads (pagePartial fp dt (pageParams qHeads H D)
      cache.flat (fun logicalPage => row.getD logicalPage 0) softmaxScale q)).flatMap
        (partialStores D)) :
    ∃ run, finishAttention fp dt u q qHeads side closed softmaxScale ws pageStores = .ok run ∧
      run.stores = (gridPartials 0 (closed + 1) qHeads
        (segmentPartial fp dt q qHeads cache row side closed softmaxScale)).flatMap
          (partialStores D) ∧
      run.partials = storeAll u.partials run.stores ∧
      run.out = storeAll u.out (reducePartialsKernel fp dt (reduceArgs (closed + 1) qHeads D)
        run.partials 0 qHeads) := by
  obtain ⟨ws', htail⟩ := emitTailPartial_segment dt q cache row closed softmaxScale ws hH hD hdim hw
    hrecent hq u.workspace 0
  rw [Nat.zero_mul] at htail
  refine ⟨_, by
    unfold finishAttention
    rw [htail]
    rfl, ?_, rfl, rfl⟩
  rw [gridPartials_succ, List.flatMap_append, gridPartials_pages, hpages]

/-- Either version stores one partial per segment and query head, and reduces them. -/
theorem onlineDecodeAttention_ok {layout : Rabit2PageLayout}
    (hl : runtimeInit H D D = .ok layout) (hw : side.WF) (hrecent : side.recentK ≠ none)
    (hq : H ∣ qHeads) :
    ∃ run, onlineDecodeAttention fp dt u layout q qHeads cache row side closed softmaxScale ws
        = .ok run ∧
      run.stores = (gridPartials 0 (closed + 1) qHeads
        (segmentPartial fp dt q qHeads cache row side closed softmaxScale)).flatMap
          (partialStores D) ∧
      run.partials = storeAll u.partials run.stores ∧
      run.out = storeAll u.out (reducePartialsKernel fp dt (reduceArgs (closed + 1) qHeads D)
        run.partials 0 qHeads) := by
  obtain ⟨rfl, -, hH, hD, hdim⟩ := runtimeInit_ok hl
  have hblock : (pageParams qHeads H D).headSize ≤ (pageParams qHeads H D).blockD :=
    le_nextPowerOf2 D
  have hheads : closedPagePartialKernel fp dt (pageParams qHeads H D) cache.flat
      (fun logicalPage => row.getD logicalPage 0) softmaxScale q ⟨0, 0, 0⟩ closed qHeads
      = (gridPartials 0 closed qHeads (pagePartial fp dt (pageParams qHeads H D) cache.flat
        (fun logicalPage => row.getD logicalPage 0) softmaxScale q)).flatMap (partialStores D) := by
    have hkernel := closedPagePartialKernel_eq fp dt cache.flat
      (fun logicalPage => row.getD logicalPage 0) softmaxScale q hblock 0 closed
    rw [Nat.zero_mul] at hkernel
    exact hkernel
  -- without closed pages neither version launches its page kernel
  have hnone : closed = 0 → [] = (gridPartials 0 closed qHeads (pagePartial fp dt
      (pageParams qHeads H D) cache.flat (fun logicalPage => row.getD logicalPage 0) softmaxScale
      q)).flatMap (partialStores D) := by
    rintro rfl
    rfl
  unfold onlineDecodeAttention
  split_ifs with hratio hclosed
  · unfold onlineDecodeAttentionStage4b1
    refine finishAttention_ok dt u q cache row closed softmaxScale ws hH hD hdim hw hrecent hq ?_
    split_ifs with hclosed
    · exact hheads
    · exact hnone (not_not.1 hclosed)
  · refine finishAttention_ok dt u q cache row closed softmaxScale ws hH hD hdim hw hrecent hq ?_
    obtain ⟨-, h4⟩ := not_or.1 hratio
    have h4' : 4 ∣ qHeads / H := Nat.dvd_of_mod_eq_zero (not_not.1 h4)
    have hgroups : H * (qHeads / H / 4) * 4 = qHeads := by
      rw [Nat.mul_assoc, Nat.div_mul_cancel h4', Nat.mul_div_cancel' hq]
    rw [← hheads]
    exact gqa4ClosedPagePartialKernel_eq fp dt cache.flat _ softmaxScale q ⟨0, 0, 0⟩ h4' closed
      hgroups
  · refine finishAttention_ok dt u q cache row closed softmaxScale ws hH hD hdim hw hrecent hq ?_
    exact hnone (not_not.1 hclosed)

end Launch

section Slots

variable {F Q : Type} (fp : AttnFp F) (dt : QDtype F Q) {D segments qHeads qh : ℕ}

/-- What a program of the reduction loads belongs to the partials of its query head. -/
theorem mem_reduceReads {x : Slot} (hx : x ∈ reduceReads fp (reduceArgs segments qHeads D) qh) :
    ∃ s < segments, ∀ p : Partial F,
      x ∈ (partialStores D (0 + (s * qHeads + qh), p)).map Prod.fst := by
  simp only [reduceReads, reduceArgs, msLoad, lsLoad, accLoad, List.mem_flatMap, List.mem_append,
    Loads.Load.mem_addrs_masked, Bool.and_eq_true, List.mem_range] at hx
  obtain ⟨s, -, (⟨hs, rfl⟩ | ⟨hs, rfl⟩) | ⟨d, -, ⟨hs, hd⟩, rfl⟩⟩ := hx
  · exact ⟨s, of_decide_eq_true hs, fun p => by simp [partialStores]⟩
  · exact ⟨s, of_decide_eq_true hs, fun p => by simp [partialStores]⟩
  · exact ⟨s, of_decide_eq_true hs, fun p => by
      simpa [partialStores] using (of_decide_eq_true hd : d < D)⟩

variable {f : ℕ → ℕ → Partial F}

/-- The reduction finds the partials of its query head. -/
theorem slotsHold_grid (mem : Slot → F) {s : ℕ} (hs : s < segments) (hqh : qh < qHeads) :
    SlotsHold (reduceArgs segments qHeads D) qh
      (storeAll mem ((gridPartials 0 segments qHeads f).flatMap (partialStores D))) s (f s qh) := by
  obtain ⟨hm, hl, hacc⟩ := storeAll_partialStores nodup_gridPartials (mem_gridPartials hs hqh) mem
  refine ⟨hm, hl, fun d hd => ?_⟩
  have hslot := hacc d hd
  rw [Nat.zero_add] at hslot
  simpa [reduceArgs] using hslot

/-- Each head writes its own row of the output. -/
theorem out_reduce (m : ℕ → Q) (mem : Slot → F) (hqh : qh < qHeads) {d : ℕ} (hd : d < D) :
    storeAll m (reducePartialsKernel fp dt (reduceArgs segments qHeads D) mem 0 qHeads) (qh * D + d)
      = dt.ofF (reduceOut fp (reduceArgs segments qHeads D) qh mem d) := by
  have hrows := storeAll_rows m
    (fun qh d => dt.ofF (reduceOut fp (reduceArgs segments qHeads D) qh mem d)) hqh hd
  have hfilter : ((List.range (reduceArgs segments qHeads D).blockD).filter fun d =>
      decide (d < (reduceArgs segments qHeads D).headSize)) = List.range D :=
    filter_range_lt (le_nextPowerOf2 D)
  simp only [reducePartialsKernel, reduceProgram, hfilter, Nat.zero_add]
  exact hrows

end Slots

section Exact

variable (toB : EReal → Bf16) (ofB : Bf16 → ℝ)

theorem realFp_affineValue (code : ℕ) (scale min : ℝ) :
    (realFp toB ofB).affineValue code scale min = ((code * scale + min : ℝ) : EReal) := by
  simp [Fp.affineValue, realFp]

/-- Entries of pages are real numbers. -/
theorem realFp_value (e : RawEntry) : ∃ r : ℝ, e.value (realFp toB ofB).toFp = r := by
  have hmeta : ∀ m : MetaEntry, ∃ r : ℝ, m.value (realFp toB ofB).toFp = r := fun m =>
    ⟨_, realFp_affineValue toB ofB m.code.toNat (ofB m.secScale) (ofB m.secMin)⟩
  obtain ⟨scale, hscale⟩ := hmeta e.scale
  obtain ⟨min, hmin⟩ := hmeta e.min
  rw [RawEntry.value, hscale, hmin]
  exact ⟨_, realFp_affineValue toB ofB _ _ _⟩

variable {H D : ℕ}

/-- A token and its value in exact arithmetic. -/
abbrev RealTok (H D : ℕ) := Tok H D ℝ × Tok H D ℝ

/-- The keys of real tokens. -/
def keysOf (tokens : List (RealTok H D)) : List (Tok H D EReal) :=
  tokens.map fun t => Tok.map (fun x : ℝ => (x : EReal)) t.1

/-- The values of real tokens. -/
def valuesOf (tokens : List (RealTok H D)) : List (Tok H D EReal) :=
  tokens.map fun t => Tok.map (fun x : ℝ => (x : EReal)) t.2

theorem exists_real_tokens {keys values : List (Tok H D EReal)} (hlen : values.length = keys.length)
    (hk : ∀ x ∈ keys, ∀ h d, ∃ r : ℝ, x h d = r) (hv : ∀ x ∈ values, ∀ h d, ∃ r : ℝ, x h d = r) :
    ∃ tokens : List (RealTok H D), keysOf tokens = keys ∧ valuesOf tokens = values := by
  have hreal : ∀ {x : Tok H D EReal}, (∀ h d, ∃ r : ℝ, x h d = r) →
      Tok.map (fun x : ℝ => (x : EReal)) (Tok.map EReal.toReal x) = x := by
    intro x hx
    funext h d
    obtain ⟨r, hr⟩ := hx h d
    simp [Tok.map, hr]
  refine ⟨List.zipWith (fun k v => (Tok.map EReal.toReal k, Tok.map EReal.toReal v)) keys values,
    List.ext_getElem (by simp [keysOf, hlen]) fun t _ ht => ?_,
    List.ext_getElem (by simp [valuesOf, hlen]) fun t _ ht => ?_⟩
  · simp only [keysOf, List.getElem_map, List.getElem_zipWith]
    exact hreal (hk _ (List.getElem_mem ht))
  · simp only [valuesOf, List.getElem_map, List.getElem_zipWith]
    exact hreal (hv _ (List.getElem_mem ht))

variable {Q : Type} (toF : Q → ℝ) (ofF : EReal → Q)

/-- Queries in exact arithmetic. -/
def realQ : QDtype EReal Q := ⟨fun x => (toF x : EReal), ofF⟩

/-- Lanes that hold real tokens make a partial over them. -/
theorem Lanes.isPartial {tokens : List (RealTok H D)} (hne : tokens ≠ []) {g : Fin H} {rows : ℕ}
    {valid : ℕ → Bool} {kval vval : ℕ → ℕ → EReal}
    (hl : Lanes (keysOf tokens) (valuesOf tokens) g rows valid kval vval) (q : QueryPtr Q)
    (scale : ℝ) (qh : ℕ) :
    ∃ m, IsPartial (fun (t : RealTok H D) d => t.1 g d) (fun t d => t.2 g d)
      (fun d => toF (q.mem (q.ptr + qh * D + d))) scale tokens
      (partialOf (realFp toB ofB) rows (nextPowerOf2 D) valid scale
        (loadQ (realFp toB ofB) (realQ toF ofF) q D qh true) kval vval) m := by
  have hlen : (keysOf tokens).length = tokens.length := List.length_map ..
  have hget : ∀ (t : ℕ) (ht : t < tokens.length),
      (keysOf tokens)[t]? = some (Tok.map (fun x : ℝ => (x : EReal)) tokens[t].1) ∧
      (valuesOf tokens)[t]? = some (Tok.map (fun x : ℝ => (x : EReal)) tokens[t].2) :=
    fun t ht => by simp [keysOf, valuesOf, ht]
  refine realFp_partialOf toB ofB hne (hlen ▸ hl.length_le) (le_nextPowerOf2 D)
    (fun t ht => by rw [hl.valid_eq t ht, hlen]) (fun d => ?_) (fun d hd => ?_)
    (fun t ht d => hl.key (hget t ht).1 d) fun t ht d => hl.value (hget t ht).2 d
  · simp [loadQ, realQ]
  · simp [loadQ, Nat.not_lt.2 hd]

/-- The tokens of a closed page, in the lanes of the page kernels. -/
theorem page_tokens {kn vn : ℕ} (hg : PageGroups H D kn vn) {page : List UInt8} {cache : ℕ → UInt8}
    {base : ℕ} (hp : PageAt H D page cache base) (qHeads : ℕ) :
    ∃ tokens : List (RealTok H D),
      decodePage (realFp toB ofB).toFp page = .ok (keysOf tokens, valuesOf tokens) ∧
      tokens.length = groupSize ∧
      ∀ g : Fin H, Lanes (keysOf tokens) (valuesOf tokens) g 32 (fun _ => true)
        (pageK (realFp toB ofB) (pageParams qHeads H D) cache base g)
        (pageV (realFp toB ofB) (pageParams qHeads H D) cache base g) := by
  obtain ⟨keys, values, hdec, hkl, hvl, hentry⟩ := hp.decode hg qHeads (realFp toB ofB).toFp
  have hlt : ∀ {l : List (Tok H D EReal)}, l.length = groupSize → ∀ {t : ℕ} {x : Tok H D EReal},
      l[t]? = some x → t < groupSize := fun hl _ _ hx => hl ▸ (List.getElem?_eq_some_iff.1 hx).1
  have hkey : ∀ {t : ℕ} {x : Tok H D EReal}, keys[t]? = some x → ∀ (g : Fin H) (d : Fin D),
      pageK (realFp toB ofB) (pageParams qHeads H D) cache base g t d = x g d := by
    intro t x hx g d
    rw [(hentry t (hlt hkl hx)).1] at hx
    exact congrFun (congrFun (Option.some.inj hx) g) d
  have hvalue : ∀ {t : ℕ} {x : Tok H D EReal}, values[t]? = some x → ∀ (g : Fin H) (d : Fin D),
      pageV (realFp toB ofB) (pageParams qHeads H D) cache base g t d = x g d := by
    intro t x hx g d
    rw [(hentry t (hlt hvl hx)).2] at hx
    exact congrFun (congrFun (Option.some.inj hx) g) d
  obtain ⟨tokens, rfl, rfl⟩ := exists_real_tokens (hvl.trans hkl.symm)
    (fun x hx h d => by
      obtain ⟨t, ht⟩ := List.mem_iff_getElem?.1 hx
      rw [← hkey ht]
      exact realFp_value toB ofB _)
    (fun x hx h d => by
      obtain ⟨t, ht⟩ := List.mem_iff_getElem?.1 hx
      rw [← hvalue ht]
      exact realFp_value toB ofB _)
  refine ⟨tokens, hdec, by rwa [keysOf, List.length_map] at hkl, fun g => ⟨hkl.le, fun t ht => ?_,
    fun hx d => hkey hx g d, fun hx d => hvalue hx g d⟩⟩
  rw [hkl]
  exact (decide_eq_true ht).symm

/-- The tokens of the tail, in the lanes of the tail kernels. -/
theorem tail_real_tokens (hdim : D % groupSize = 0) {side : Sidecar H D EReal} (hw : side.WF)
    (hrecent : side.recentK ≠ none) (qHeads : ℕ) :
    ∃ tokens : List (RealTok H D),
      tailMaterialize (realFp toB ofB).toFp
        ⟨fun x => (realFp toB ofB).ofB ((realFp toB ofB).toB x), (realFp toB ofB).ofB⟩ side
        = .ok (keysOf tokens, valuesOf tokens) ∧
      tokens.length = lenOpt side.openK + lenOpt side.recentK ∧
      ∀ (q : QueryPtr Q) (scale : EReal) (qh : ℕ) (g : Fin H), qh / (qHeads / H) = g →
        ∃ rows valid kval vval, tailPartial (realFp toB ofB) (realQ toF ofF) q qHeads scale side qh
            = partialOf (realFp toB ofB) rows (nextPowerOf2 D) valid scale
              (loadQ (realFp toB ofB) (realQ toF ofF) q D qh true) kval vval ∧
          Lanes (keysOf tokens) (valuesOf tokens) g rows valid kval vval := by
  obtain ⟨keys, values, htail, hkl, hvl, hlanes⟩ := tail_tokens (realFp toB ofB) qHeads
    hdim hw hrecent
  have hreal : ∀ (l : List (Tok H D Bf16)), ∀ x ∈ l.map (Tok.map (realFp toB ofB).ofB), ∀ h d,
      ∃ r : ℝ, x h d = r := by
    intro l x hx h d
    obtain ⟨b, -, rfl⟩ := List.mem_map.1 hx
    exact ⟨ofB (b h d), rfl⟩
  obtain ⟨tokens, hk, hv⟩ := exists_real_tokens (by rw [List.length_map, List.length_map, hvl])
    (hreal keys) (hreal values)
  have hlen : tokens.length = keys.length := by
    have hkl' := congrArg List.length hk
    rwa [keysOf, List.length_map, List.length_map] at hkl'
  rw [← hk, ← hv] at htail
  refine ⟨tokens, htail, hlen.trans hkl, fun q scale qh g hg => ?_⟩
  obtain ⟨rows, valid, kval, vval, hpart, hl⟩ := hlanes (realQ toF ofF) q scale qh g hg
  rw [← hk, ← hv] at hl
  exact ⟨rows, valid, kval, vval, hpart, hl⟩

/-- A row of the cache, as the kernels address it. -/
theorem pageAt_flat {cache : Cache ℕ} {b : ℕ}
    (hwidth : cache.width = (pageLayout groupSize H D D).pageBytes)
    (hrow : (cache.rows b).length = (pageLayout groupSize H D D).pageBytes) :
    PageAt H D (cache.rows b) cache.flat (b * (pageLayout groupSize H D D).pageBytes) := by
  refine ⟨hrow, fun i hi => ?_⟩
  rw [Cache.flat, hwidth, mul_add_div hi, mul_add_mod hi]

theorem keysOf_append {σ : Type} (pages : σ → List (RealTok H D)) (l : List σ)
    (tail : List (RealTok H D)) : keysOf (l.flatMap pages ++ tail)
      = (l.flatMap fun s => keysOf (pages s)) ++ keysOf tail := by
  simp [keysOf, List.map_flatMap]

theorem valuesOf_append {σ : Type} (pages : σ → List (RealTok H D)) (l : List σ)
    (tail : List (RealTok H D)) : valuesOf (l.flatMap pages ++ tail)
      = (l.flatMap fun s => valuesOf (pages s)) ++ valuesOf tail := by
  simp [valuesOf, List.map_flatMap]

variable {cache : Cache ℕ} {row : List ℕ} {closed : ℕ} {side : Sidecar H D EReal}

/-- The sequence, segment by segment: what it decodes to, and the partials over it. -/
theorem attention_segments {kn vn : ℕ} (hg : PageGroups H D kn vn)
    (hwidth : cache.width = (pageLayout groupSize H D D).pageBytes) (hclosed : closed ≤ row.length)
    (hrows : ∀ b ∈ row.take closed, (cache.rows b).length = (pageLayout groupSize H D D).pageBytes)
    (hw : side.WF) (hrecent : side.recentK ≠ none) (qHeads : ℕ) (q : QueryPtr Q) (scale : ℝ) :
    ∃ tokens : ℕ → List (RealTok H D),
      materialize (realFp toB ofB).toFp cache row closed side
        = .ok (keysOf ((List.range (closed + 1)).flatMap tokens),
          valuesOf ((List.range (closed + 1)).flatMap tokens)) ∧
      ((List.range (closed + 1)).flatMap tokens).length
        = closed * 32 + (lenOpt side.openK + lenOpt side.recentK) ∧
      ∀ s < closed + 1, ∀ (qh : ℕ) (g : Fin H), qh / (qHeads / H) = g → ∃ m,
        IsPartial (fun (t : RealTok H D) d => t.1 g d) (fun t d => t.2 g d)
          (fun d => toF (q.mem (q.ptr + qh * D + d))) scale (tokens s)
          (segmentPartial (realFp toB ofB) (realQ toF ofF) q qHeads cache row side closed scale
            s qh)
          m := by
  have hblock : ∀ s < closed, row[s]? = some (row.getD s 0) := fun s hs => by
    rw [List.getD_eq_getElem?_getD, List.getElem?_eq_getElem (by omega), Option.getD_some]
  have hpage := fun s (hs : s < closed) => page_tokens toB ofB hg
    (pageAt_flat hwidth (hrows (row.getD s 0) (List.mem_of_getElem? (i := s)
      (by rw [List.getElem?_take_of_lt hs, hblock s hs])))) qHeads
  choose! pages hdec hlen hlanes using hpage
  obtain ⟨tail, htail, htlen, htlanes⟩ := tail_real_tokens toB ofB toF ofF hg.dim hw hrecent qHeads
  have htake : (row.take closed).map cache.rows
      = (List.range closed).map fun s => cache.rows (row.getD s 0) := by
    refine List.ext_getElem (by simp [hclosed]) fun s hs _ => ?_
    have hs' : s < closed := by
      rw [List.length_map, List.length_take] at hs
      omega
    have hget := hblock s hs'
    rw [List.getElem?_eq_getElem (by omega)] at hget
    simp only [List.getElem_map, List.getElem_take, List.getElem_range, ← Option.some.inj hget]
  have hpages := decodePages_ok (realFp toB ofB).toFp (realFp toB ofB).float32
    (l := List.range closed) fun s hs => hdec s (List.mem_range.1 hs)
  have hall : ((List.range (closed + 1)).flatMap fun s => if s < closed then pages s else tail)
      = (List.range closed).flatMap pages ++ tail := by
    rw [List.range_succ, List.flatMap_append, List.flatMap_singleton, if_neg (lt_irrefl closed)]
    exact congrArg (· ++ tail) (List.flatMap_congr fun s hs => if_pos (List.mem_range.1 hs))
  have hpos := hw.recent_pos hrecent
  refine ⟨fun s => if s < closed then pages s else tail, ?_, ?_, fun s hs qh g hqh => ?_⟩
  · unfold materialize
    rw [htake, hpages, htail, hall, keysOf_append, valuesOf_append]
    exact congrArg₂ (fun ks vs => Except.ok (ks ++ keysOf tail, vs ++ valuesOf tail))
      (Tok.map_id' _) (Tok.map_id' _)
  · rw [hall, List.length_append, htlen, length_flatMap_of_length fun s hs =>
      hlen s (List.mem_range.1 hs), List.length_range]
  · by_cases hlt : s < closed
    · have hne : pages s ≠ [] := List.ne_nil_of_length_pos (by rw [hlen s hlt]; decide)
      obtain ⟨m, hm⟩ := (hlanes s hlt g).isPartial toB ofB toF ofF hne q scale qh
      refine ⟨m, ?_⟩
      simp only [if_pos hlt, segmentPartial]
      have hkvh : qh / ((pageParams qHeads H D).numQHeads / (pageParams qHeads H D).numKvHeads)
        = g := hqh
      simp only [pagePartial, hkvh]
      exact hm
    · have hne : tail ≠ [] := List.ne_nil_of_length_pos (by omega)
      obtain ⟨rows, valid, kval, vval, hpart, hl⟩ := htlanes q scale qh g hqh
      obtain ⟨m, hm⟩ := hl.isPartial toB ofB toF ofF hne q scale qh
      refine ⟨m, ?_⟩
      simp only [if_neg hlt, segmentPartial, kernelAttnFp_eq (realFp_roundsHalfEven toB ofB), hpart]
      exact hm

/-- `scale * <q_h, K[t, g]>` -/
theorem tokenScore_eq (q : Fin D → ℝ) (g : Fin H) (scale : ℝ) :
    tokenScore (fun (t : RealTok H D) d => t.1 g d) q scale
      = fun t => scale * ∑ e, q e * t.1 g e := by
  funext t
  rw [tokenScore, mul_comm]
  exact congrArg (scale * ·) (Finset.sum_congr rfl fun e _ => mul_comm _ _)

/-- The output row of every query head is softmax attention over the materialised sequence; the
reduction loads slots that the call has written exactly once, and divides by a positive number. -/
theorem onlineDecodeAttention_eq_softmax {layout : Rabit2PageLayout}
    (hl : runtimeInit H D D = .ok layout) {qHeads : ℕ} (hq : H ∣ qHeads)
    (hwidth : cache.width = layout.pageBytes) (hclosed : closed ≤ row.length)
    (hrows : ∀ b ∈ row.take closed, (cache.rows b).length = layout.pageBytes) (hw : side.WF)
    (hrecent : side.recentK ≠ none) (u : Uninit EReal Q) (q : QueryPtr Q) (scale : ℝ)
    (ws : Option (Workspace EReal)) :
    ∃ tokens : List (RealTok H D),
      materialize (realFp toB ofB).toFp cache row closed side
        = .ok (keysOf tokens, valuesOf tokens) ∧
      tokens.length = closed * 32 + (lenOpt side.openK + lenOpt side.recentK) ∧
      ∃ run, onlineDecodeAttention (realFp toB ofB) (realQ toF ofF) u layout q qHeads cache row side
          closed scale ws = .ok run ∧
        ∀ (h : ℕ) (hh : h < qHeads),
          (∀ s ∈ reduceReads (realFp toB ofB) (reduceArgs (closed + 1) qHeads D) h,
            (run.stores.map Prod.fst).count s = 1) ∧
          (∃ r : ℝ, 0 < r ∧ reduceDenom (realFp toB ofB) (reduceArgs (closed + 1) qHeads D) h
            run.partials = r) ∧
          ∀ d : Fin D, run.out (h * D + d) = ofF (attend
            (fun t => scale * ∑ e : Fin D, toF (q.mem (q.ptr + h * D + e))
              * t.1 ⟨h / (qHeads / H), kvHead_lt hq hh⟩ e)
            (fun t => t.2 ⟨h / (qHeads / H), kvHead_lt hq hh⟩ d) tokens : ℝ) := by
  obtain ⟨hlayout, r, hvalid⟩ := runtimeInit_checks hl
  obtain ⟨rfl, -, kn, vn, hg⟩ := pageGroups_of_validate hlayout hvalid
  obtain ⟨tokens, hdec, hlen, hpart⟩ :=
    attention_segments toB ofB toF ofF hg hwidth hclosed hrows hw
    hrecent qHeads q scale
  obtain ⟨run, hrun, hstores, hpartials, hout⟩ := onlineDecodeAttention_ok (realQ toF ofF) u q cache
    row closed (scale : EReal) ws hl hw hrecent hq
  have hpos := hw.recent_pos hrecent
  have hne : (List.range (closed + 1)).flatMap tokens ≠ [] :=
    List.ne_nil_of_length_pos (by omega)
  refine ⟨_, hdec, hlen, run, hrun, fun h hh => ?_⟩
  choose! m hm using fun s hs => hpart s hs h ⟨h / (qHeads / H), kvHead_lt hq hh⟩ rfl
  have hhold : ∀ s < closed + 1, SlotsHold (reduceArgs (closed + 1) qHeads D) h run.partials s
      (segmentPartial (realFp toB ofB) (realQ toF ofF) q qHeads cache row side closed scale
        s h) := by
    intro s hs
    rw [hpartials, hstores]
    exact slotsHold_grid u.partials hs hh
  have hD : (reduceArgs (closed + 1) qHeads D).headSize = D := rfl
  obtain ⟨hdenom, hrow⟩ := realFp_reduce toB ofB hD (Nat.succ_pos closed)
    (le_nextPowerOf2 (closed + 1)) hhold hm hne
  refine ⟨fun x hx => ?_, hdenom, fun d => ?_⟩
  · obtain ⟨s, hs, hslot⟩ := mem_reduceReads (realFp toB ofB) hx
    rw [hstores]
    exact count_partialStores nodup_gridPartials (mem_gridPartials hs hh) (hslot _)
  · rw [hout, out_reduce _ _ _ _ hh d.2, hrow d]
    rw [tokenScore_eq]
    rfl

end Exact

/-- A cache whose pages all differ. -/
def stripedCache : Cache ℕ where
  width := (pageLayout groupSize 1 64 64).pageBytes
  rows := fun i => stripedPage i (pageLayout groupSize 1 64 64).pageBytes

theorem length_stripedCache (i : ℕ) :
    (stripedCache.rows i).length = (pageLayout groupSize 1 64 64).pageBytes := by
  simp only [stripedCache, length_stripedPage]

/-- Four query heads over two closed pages, two open tokens and four recent ones. -/
theorem onlineDecodeAttention_eq_softmax_two_pages :
    ∃ tokens : List (RealTok 1 64),
      materialize bfloatFp.toFp stripedCache [5, 0] 2 twoOpenTokens
        = .ok (keysOf tokens, valuesOf tokens) ∧
      tokens.length = 70 ∧
      ∃ run, onlineDecodeAttention bfloatFp (realQ id EReal.toReal)
          ⟨fun _ => 0, fun _ => 0, usedWorkspace⟩ (pageLayout groupSize 1 64 64) ⟨fun a => a, 9⟩ 4
          stripedCache [5, 0] twoOpenTokens 2 (1 : ℝ) none = .ok run ∧
        run.out (3 * 64 + 7)
          = attend (fun t => 1 * ∑ e : Fin 64, ((9 + 3 * 64 + e : ℕ) : ℝ) * t.1 0 e)
            (fun t => t.2 0 7) tokens := by
  have hinit : runtimeInit 1 64 64 = .ok (pageLayout groupSize 1 64 64) := rfl
  obtain ⟨tokens, hmat, hlen, run, hrun, hout⟩ := onlineDecodeAttention_eq_softmax realToBf16
    bf16ToReal id EReal.toReal hinit (Nat.one_dvd 4) (show stripedCache.width = _ from rfl)
    (show 2 ≤ ([5, 0] : List ℕ).length from le_rfl) (fun i _ => length_stripedCache i)
    twoOpenTokens_wf (by simp [twoOpenTokens, openSidecar])
    ⟨fun _ => 0, fun _ => 0, usedWorkspace⟩ ⟨fun a => a, 9⟩ 1 none
  exact ⟨tokens, hmat, hlen, run, hrun,
    ((hout 3 (by decide)).2.2 7).trans (EReal.toReal_coe _)⟩

end RabitKV
