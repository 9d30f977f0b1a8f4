import RabitKV.Proofs.Stage3b1

/-!
# The Stage 3B1 readers

The views of a page read what the closed-page kernels read (`viewK_eq`, `viewV_eq`), so the decoder
is `decode_rabit2_page_ref` on every byte string, and in exact arithmetic the fused attention is
softmax attention over the decoded page.
-/

namespace RabitKV

open Chunks Softmax Stores

section Views

variable {F : Type} (fp : Fp F Bf16) {H D kn vn : ℕ} {page : List UInt8}

/-- A metadata view reads the entry that the closed-page kernels load. -/
theorem primary_metaParts (page : List UInt8) {off n idx : ℕ}
    (hlen : off + (n * metadataGroupSize + n * 4) ≤ page.length)
    (hidx : idx < n * metadataGroupSize) :
    (metaParts page off (n * metadataGroupSize)).primary fp true idx
      = ((metaEntry off (n * metadataGroupSize) n idx true).eval fun a => page.getD a 0).value fp
      := by
  have hgroups : (n * metadataGroupSize + metadataGroupSize - 1) / metadataGroupSize = n := by
    unfold metadataGroupSize
    omega
  have hg : idx / 64 < n := Nat.div_lt_of_lt_mul (by rw [Nat.mul_comm]; exact hidx)
  have hpair : ∀ start, start + n * 2 ≤ page.length →
      (viewBf16 (slice page start (n * 2))).getD (idx / 64) 0
        = bf16OfBytes (page.getD (start + idx / 64 * 2) 0)
          (page.getD (start + idx / 64 * 2 + 1) 0) := fun start hstart => by
    have hsize := length_slice hstart
    rw [List.getD_eq_getElem?_getD, getElem?_viewBf16 (by omega), Option.getD_some,
      getD_slice (by omega), getD_slice (by omega), Nat.mul_comm 2, ← Nat.add_assoc]
  simp only [MetaParts.primary, metaParts, hgroups, if_true, metaEntry, Loads.Load.eval_map₂,
    Loads.Load.eval_masked, eval_u8Pair, MetaEntry.value]
  rw [getD_slice hidx, hpair _ (by omega), hpair _ (by omega)]

/-- The views of a page of a validated layout. -/
def viewsOf (H D kn vn : ℕ) (page : List UInt8) : PageViews where
  kPayload := slice page 0 (groupSize * H * packedDim D 3)
  vPayload := slice page (pageLayout groupSize H D D).vPayloadOffset (groupSize * H * vPackedDim D)
  kMin := metaParts page (pageLayout groupSize H D D).kMinOffset (kn * metadataGroupSize)
  kScale := metaParts page (pageLayout groupSize H D D).kScaleOffset (kn * metadataGroupSize)
  vMin := metaParts page (pageLayout groupSize H D D).vMinOffset (vn * metadataGroupSize)
  vScale := metaParts page (pageLayout groupSize H D D).vScaleOffset (vn * metadataGroupSize)
  kPackedDim := packedDim D 3
  vPackedDim := vPackedDim D

theorem pageViews_ok (hg : PageGroups H D kn vn) :
    pageViews page (pageLayout groupSize H D D) = .ok (viewsOf H D kn vn page) := by
  rw [pageViews, hg.validate]
  rfl

/-- The page as a cache of one page. -/
theorem pageAt_zero (hlen : page.length = (pageLayout groupSize H D D).pageBytes) :
    PageAt H D page (fun a => page.getD a 0) 0 :=
  ⟨hlen, fun i _ => by rw [Nat.zero_add]⟩

/-- The window of a K view is the window of the closed-page kernels. -/
theorem pageKCode_view (page : List UInt8) (kn vn qHeads : ℕ) {t : ℕ} (ht : t < groupSize)
    (h : Fin H) (d : Fin D) :
    pageKCode (fun a => (viewsOf H D kn vn page).kPayload.getD a 0)
        ((t * H + h) * packedDim D 3) D (packedDim D 3) d
      = (kCodeLoad (pageParams qHeads H D) 0 h t d).eval fun a => page.getD a 0 := by
  have hread : ∀ j < packedDim D 3,
      (slice page 0 (groupSize * H * packedDim D 3)).getD ((t * H + h) * packedDim D 3 + j) 0
        = page.getD (0 + 0 + (t * H + h) * packedDim D 3 + j) 0 := fun j hj => by
    rw [getD_slice (mul_add_lt (mul_add_lt ht h.2) hj), Nat.add_assoc (0 + 0)]
  have hlo : d.1 * 3 / 8 < packedDim D 3 := by
    have := d.2
    unfold packedDim
    omega
  have hmask : decide (d.1 < (pageParams qHeads H D).headSize) = true := decide_eq_true d.2
  simp only [pageKCode, kCodeLoad, Loads.Load.eval_map₂, Loads.Load.eval_masked, hmask,
    decide_eq_true d.2, Bool.true_and, if_true, viewsOf]
  rw [hread _ hlo]
  by_cases hhi : d.1 * 3 / 8 + 1 < packedDim D 3
  · have hbyte := hread _ hhi
    rw [← Nat.add_assoc, ← Nat.add_assoc] at hbyte
    rw [hbyte]
    rfl
  · have hdim : decide (d.1 * 3 / 8 + 1 < (pageParams qHeads H D).kPackedDim) = false :=
      decide_eq_false hhi
    rw [decide_eq_false hhi, hdim]
    rfl

theorem viewK_eq (hg : PageGroups H D kn vn)
    (hlen : page.length = (pageLayout groupSize H D D).pageBytes) (qHeads : ℕ) {t : ℕ}
    (ht : t < groupSize) (h : Fin H) (d : Fin D) :
    viewK fp (viewsOf H D kn vn page) H D t h d
      = ((kEntryLoad (pageParams qHeads H D) 0 h t d).eval fun a => page.getD a 0).value fp := by
  obtain ⟨hkb, -⟩ := hg.bytes
  obtain ⟨hkc, hkg, -, -⟩ := hg.counts qHeads
  have hsec := sections_le H D
  simp only [layoutSections, List.forall_mem_cons, List.not_mem_nil, false_imp_iff, implies_true,
    and_true] at hsec
  obtain ⟨hs1, -, hs3, hs4, -⟩ := hsec
  have hmin := primary_metaParts fp page (n := kn) (by rw [hlen, ← hkb]; exact hs3)
    (hg.k_lt h.2 d.2)
  have hscale := primary_metaParts fp page (n := kn) (by rw [hlen, ← hkb]; exact hs4)
    (hg.k_lt h.2 d.2)
  have hmask : decide (d.1 < (pageParams qHeads H D).headSize) = true := decide_eq_true d.2
  have hcode := pageKCode_view page kn vn qHeads ht h d
  simp only [viewK, kEntryLoad, Loads.Load.eval_map₂, RawEntry.value, hkc, hkg, hmask,
    decide_eq_true d.2, Nat.zero_add]
  exact congr (congrArg₂ fp.affineValue hcode hscale) hmin

theorem viewV_eq (hg : PageGroups H D kn vn)
    (hlen : page.length = (pageLayout groupSize H D D).pageBytes) (qHeads : ℕ) {t : ℕ}
    (ht : t < groupSize) (h : Fin H) (d : Fin D) :
    viewV fp (viewsOf H D kn vn page) H D (D / groupSize) t h d
      = ((vEntryLoad (pageParams qHeads H D) 0 h t d).eval fun a => page.getD a 0).value fp := by
  obtain ⟨-, hvb⟩ := hg.bytes
  obtain ⟨-, -, hvc, hvg⟩ := hg.counts qHeads
  have hsec := sections_le H D
  simp only [layoutSections, List.forall_mem_cons, List.not_mem_nil, false_imp_iff, implies_true,
    and_true] at hsec
  obtain ⟨-, hs2, -, -, hs5, hs6⟩ := hsec
  have hmin := primary_metaParts fp page (n := vn) (by rw [hlen, ← hvb]; exact hs5)
    (hg.v_lt ht h.2 d.2)
  have hscale := primary_metaParts fp page (n := vn) (by rw [hlen, ← hvb]; exact hs6)
    (hg.v_lt ht h.2 d.2)
  have hdim : d.1 / 4 < vPackedDim D := by
    have := d.2
    rw [← hg.vPackedDim_eq]
    unfold packedDim
    omega
  have hmask : decide (d.1 < (pageParams qHeads H D).headSize) = true := decide_eq_true d.2
  have hcode : (((viewsOf H D kn vn page).vPayload.getD ((t * H + h) * vPackedDim D + d.1 / 4)
      0).toNat >>> (d.1 % 4 * 2)) &&& 3
      = (vCodeLoad (pageParams qHeads H D) 0 h t d).eval fun a => page.getD a 0 := by
    simp only [vCodeLoad, Loads.Load.eval_map, Loads.Load.eval_masked, hmask, if_true, viewsOf]
    rw [getD_slice (mul_add_lt (mul_add_lt ht h.2) hdim), ← hg.vPackedDim_eq, ← Nat.add_assoc]
    rw [Nat.zero_add]
    rfl
  simp only [viewV, vEntryLoad, Loads.Load.eval_map₂, RawEntry.value, hvc, hvg, hmask,
    decide_eq_true d.2, Nat.zero_add]
  exact congr (congrArg₂ fp.affineValue hcode hscale) hmin

theorem pageGroups_of_valid {bs : ℕ} {r : ℕ × ℕ × ℕ × ℕ}
    (h : validateLayout (pageLayout bs H D D) = .ok r) :
    bs = groupSize ∧ ∃ kn vn, PageGroups H D kn vn := by
  obtain ⟨hbs, -, hmod, hk, hv⟩ := validateLayout_ok h
  have hbs' : bs = groupSize := hbs
  subst hbs'
  obtain ⟨kn, hkn⟩ := Nat.dvd_of_mod_eq_zero hk
  obtain ⟨vn, hvn⟩ := Nat.dvd_of_mod_eq_zero hv
  exact ⟨rfl, kn, vn, hmod, hkn.trans (Nat.mul_comm _ _), hvn.trans (Nat.mul_comm _ _)⟩

/-- What the views hold is what the reference decodes. -/
theorem decode_views (hg : PageGroups H D kn vn)
    (hlen : page.length = (pageLayout groupSize H D D).pageBytes) :
    decodeRabit2Page fp (pageLayout groupSize H D D) page
      = .ok ((List.range groupSize).map fun t (h : Fin H) (d : Fin D) =>
          viewK fp (viewsOf H D kn vn page) H D t h d,
        (List.range groupSize).map fun t (h : Fin H) (d : Fin D) =>
          viewV fp (viewsOf H D kn vn page) H D (D / groupSize) t h d) := by
  obtain ⟨key, value, hdec, hkl, hvl, hentry⟩ := (pageAt_zero hlen).decode hg 0 fp
  have hlist : ∀ {l : List (Tok H D F)} {f : ℕ → Tok H D F}, l.length = groupSize →
      (∀ t < groupSize, l[t]? = some (f t)) → l = (List.range groupSize).map f := by
    intro l f hl hf
    refine List.ext_getElem (by simp [hl]) fun t ht ht' => ?_
    rw [List.getElem_map, List.getElem_range]
    exact Option.some.inj ((List.getElem?_eq_getElem ht).symm.trans (hf t (hl ▸ ht)))
  have hkey : key = (List.range groupSize).map fun t (h : Fin H) (d : Fin D) =>
      viewK fp (viewsOf H D kn vn page) H D t h d := hlist hkl fun t ht => by
    rw [(hentry t ht).1]
    refine congrArg some ?_
    funext h d
    exact (viewK_eq fp hg hlen 0 ht h d).symm
  have hvalue : value = (List.range groupSize).map fun t (h : Fin H) (d : Fin D) =>
      viewV fp (viewsOf H D kn vn page) H D (D / groupSize) t h d := hlist hvl fun t ht => by
    rw [(hentry t ht).2]
    refine congrArg some ?_
    funext h d
    exact (viewV_eq fp hg hlen 0 ht h d).symm
  rw [hdec, hkey, hvalue]
  rfl

theorem decodeTriton_of_size {F E : Type} (fp : Fp F Bf16) (ofF : F → E) (junk : ℕ → F × F)
    {layout : Rabit2PageLayout} {page : List UInt8} (hlen : page.length ≠ layout.pageBytes) :
    decodeRabit2PageTriton fp ofF junk true layout page
      = .error "page size does not match layout" := by
  rw [decodeRabit2PageTriton, if_neg (by simp), if_pos hlen]
  rfl

theorem decodeTriton_of_refused {F E : Type} (fp : Fp F Bf16) (ofF : F → E) (junk : ℕ → F × F)
    {layout : Rabit2PageLayout} {page : List UInt8} (hlen : page.length = layout.pageBytes)
    {e : String} (he : validateLayout layout = .error e) :
    decodeRabit2PageTriton fp ofF junk true layout page = .error e := by
  rw [decodeRabit2PageTriton, if_neg (by simp), if_neg (not_not.2 hlen), pageViews, he]
  rfl

theorem validateLayout_unequal (bs H : ℕ) {Dk Dv : ℕ} (hne : Dk ≠ Dv) :
    ∃ e, validateLayout (pageLayout bs H Dk Dv) = .error e := by
  rcases hv : validateLayout (pageLayout bs H Dk Dv) with e | r
  · exact ⟨e, rfl⟩
  · exact absurd (validateLayout_ok hv).2.1 hne

/-- The Triton decoder is the reference decoder on every byte string, behind the layout check, which
turns down unequal head sizes. -/
theorem decodeTriton_eq_ref {F E : Type} (fp : Fp F Bf16) (ofF : F → E) (junk : ℕ → F × F)
    (bs H D : ℕ) (page : List UInt8) :
    (decodeRabit2PageTriton fp ofF junk true (pageLayout bs H D D) page
      = if page.length ≠ (pageLayout bs H D D).pageBytes then
          .error "page size does not match layout"
        else (validateLayout (pageLayout bs H D D)).bind fun _ =>
          (decodeRabit2Page fp (pageLayout bs H D D) page).map fun kv =>
            (kv.1.map (Tok.map ofF), kv.2.map (Tok.map ofF))) ∧
    ∀ Dv, Dv = D ∨ ∃ e, validateLayout (pageLayout bs H D Dv) = .error e ∧
      decodeRabit2PageTriton fp ofF junk true (pageLayout bs H D Dv) page
        = .error (if page.length ≠ (pageLayout bs H D Dv).pageBytes
          then "page size does not match layout" else e) := by
  refine ⟨?_, fun Dv => (eq_or_ne Dv D).imp_right fun hne => ?_⟩
  · by_cases hlen : page.length = (pageLayout bs H D D).pageBytes
    · rw [if_neg (not_not.2 hlen)]
      rcases hv : validateLayout (pageLayout bs H D D) with e | r
      · exact decodeTriton_of_refused fp ofF junk hlen hv
      · obtain ⟨rfl, kn, vn, hg⟩ := pageGroups_of_valid hv
        have hout : rowsTo H D (storeAll junk (pageDecodeKernel fp (viewsOf H D kn vn page) H D
            groupSize (D / groupSize) (nextPowerOf2 D))) groupSize
            = (List.range groupSize).map fun t (h : Fin H) (d : Fin D) =>
              (viewK fp (viewsOf H D kn vn page) H D t h d,
                viewV fp (viewsOf H D kn vn page) H D (D / groupSize) t h d) :=
          rowsTo_storeAll_grid junk _ groupSize (le_nextPowerOf2 D)
        have hrows : ∀ f : F × F → F,
            rowsTo H D (fun a => ofF (f (storeAll junk (pageDecodeKernel fp
              (viewsOf H D kn vn page) H D groupSize (D / groupSize) (nextPowerOf2 D)) a)))
              groupSize
            = ((List.range groupSize).map fun t (h : Fin H) (d : Fin D) =>
              f (viewK fp (viewsOf H D kn vn page) H D t h d,
                viewV fp (viewsOf H D kn vn page) H D (D / groupSize) t h d)).map (Tok.map ofF) :=
          fun f => by
            rw [rowsTo_map (fun x => ofF (f x)), hout, List.map_map, List.map_map]
            rfl
        rw [Except.bind, decode_views fp hg hlen, decodeRabit2PageTriton, if_neg (by simp),
          if_neg (not_not.2 hlen), pageViews_ok hg]
        exact congrArg Except.ok (congrArg₂ Prod.mk (hrows Prod.fst) (hrows Prod.snd))
    · rw [if_pos hlen]
      exact decodeTriton_of_size fp ofF junk hlen
  · obtain ⟨e, he⟩ := validateLayout_unequal bs H hne.symm
    refine ⟨e, he, ?_⟩
    split_ifs with hlen
    · exact decodeTriton_of_size fp ofF junk hlen
    · exact decodeTriton_of_refused fp ofF junk (not_not.1 hlen) he

end Views

section Fused

/-- A factor taken out of a sum of extended reals. -/
theorem ereal_sum_mul {c : EReal} (h0 : 0 ≤ c) (htop : c ≠ ⊤) (l : List EReal) :
    (l.map (· * c)).sum = l.sum * c := by
  induction l with
  | nil => simp
  | cons x l ih =>
    rw [List.map_cons, List.sum_cons, ih, List.sum_cons,
      EReal.right_distrib_of_nonneg_of_ne_top h0 htop]

variable (toB : EReal → Bf16) (ofB : Bf16 → ℝ) {H D : ℕ} {Q : Type} (toF : Q → ℝ) (ofF : EReal → Q)

/-- Weights divided by their sum before they meet the values. -/
theorem IsPartial.normalized {τ : Type} {k v : τ → Fin D → ℝ} {q : Fin D → ℝ} {scale : ℝ}
    {tokens : List τ} (hne : tokens ≠ []) {p : Partial EReal} {m : ℝ}
    (hp : IsPartial k v q scale tokens p m) {rows : ℕ} (weight : ℕ → EReal) (vval : ℕ → ℕ → EReal)
    (hl : p.l = ((List.range rows).map weight).sum)
    (hacc : ∀ d, p.acc d = ((List.range rows).map fun t => weight t * vval t d).sum) (d : Fin D) :
    ((List.range rows).map fun t =>
      weight t / ((List.range rows).map weight).sum * vval t d).sum
      = (attend (tokenScore k q scale) (fun t => v t d) tokens : ℝ) := by
  have hpos := mass_one_pos (tokenScore k q scale) m hne
  rw [← hl, hp.l]
  set total := mass (tokenScore k q scale) (fun _ => 1) m tokens
  have h0 : (0 : EReal) ≤ ((total : ℝ) : EReal)⁻¹ := by
    rw [← EReal.coe_inv]
    exact EReal.coe_nonneg.2 (inv_nonneg.2 hpos.le)
  have htop : ((total : ℝ) : EReal)⁻¹ ≠ ⊤ := by
    rw [← EReal.coe_inv]
    exact EReal.coe_ne_top _
  have hterm : ∀ t, weight t / (total : EReal) * vval t d
      = weight t * vval t d * (total : EReal)⁻¹ := fun t => by
    rw [div_eq_mul_inv, mul_right_comm]
  calc ((List.range rows).map fun t => weight t / (total : EReal) * vval t d).sum
      = (((List.range rows).map fun t => weight t * vval t d).map (· * (total : EReal)⁻¹)).sum := by
        rw [List.map_map]
        exact congrArg List.sum (List.map_congr_left fun t _ => hterm t)
    _ = p.acc d * (total : EReal)⁻¹ := by rw [ereal_sum_mul h0 htop, hacc]
    _ = (attend (tokenScore k q scale) (fun t => v t d) tokens : ℝ) := by
        rw [hp.acc, attend_eq_mass_div _ _ m, ← EReal.coe_inv, ← EReal.coe_mul, div_eq_mul_inv]

/-- The normalised sum over lanes that hold real tokens. -/
theorem Lanes.closedPageAcc {tokens : List (RealTok H D)} (hne : tokens ≠ []) {g : Fin H}
    {kval vval : ℕ → ℕ → EReal}
    (hl : Lanes (keysOf tokens) (valuesOf tokens) g 32 (fun _ => true) kval vval) (query : ℕ → Q)
    (scale : ℝ) (h : ℕ) (d : Fin D) :
    RabitKV.closedPageAcc (realFp toB ofB) scale (nextPowerOf2 D)
        (fun d => if decide (d < D) then (realQ toF ofF).toF (query (h * D + d))
          else (realFp toB ofB).lit 0) kval vval d
      = (attend (fun t => scale * ∑ e : Fin D, toF (query (h * D + e)) * t.1 g e)
        (fun t => t.2 g d) tokens : ℝ) := by
  obtain ⟨m, hp⟩ := hl.isPartial toB ofB toF ofF hne ⟨query, 0⟩ scale h
  have hq : loadQ (realFp toB ofB) (realQ toF ofF) ⟨query, 0⟩ D h true
      = fun d => if decide (d < D) then (realQ toF ofF).toF (query (h * D + d))
        else (realFp toB ofB).lit 0 := by
    funext d
    simp only [loadQ, Bool.and_true, Nat.zero_add]
  rw [hq] at hp
  have hacc := hp.normalized hne
    (fun t => (realFp toB ofB).exp ((realFp toB ofB).sub ((realFp toB ofB).mul ((realFp toB ofB).sum
      ((List.range (nextPowerOf2 D)).map fun d => (realFp toB ofB).mul (kval t d)
        (if decide (d < D) then (realQ toF ofF).toF (query (h * D + d))
          else (realFp toB ofB).lit 0))) scale)
      (partialOf (realFp toB ofB) 32 (nextPowerOf2 D) (fun _ => true) scale
        (fun d => if decide (d < D) then (realQ toF ofF).toF (query (h * D + d))
          else (realFp toB ofB).lit 0) kval vval).m)) vval rfl (fun d => rfl) d
  rw [tokenScore_eq] at hacc
  simp only [Nat.zero_add] at hacc
  exact hacc

theorem viewLanes {kn vn : ℕ} (hg : PageGroups H D kn vn) {page : List UInt8}
    (hlen : page.length = (pageLayout groupSize H D D).pageBytes) :
    ∃ tokens : List (RealTok H D),
      decodePage (realFp toB ofB).toFp page = .ok (keysOf tokens, valuesOf tokens) ∧
      tokens.length = groupSize ∧
      ∀ g : Fin H, Lanes (keysOf tokens) (valuesOf tokens) g 32 (fun _ => true)
        (fun t => viewK (realFp toB ofB).toFp (viewsOf H D kn vn page) H D t g)
        (fun t => viewV (realFp toB ofB).toFp (viewsOf H D kn vn page) H D (D / groupSize) t
          g) := by
  obtain ⟨tokens, hdec, htok, hlanes⟩ := page_tokens toB ofB hg (pageAt_zero hlen) 0
  have hkl : (keysOf tokens).length = groupSize := by rw [keysOf, List.length_map, htok]
  have hvl : (valuesOf tokens).length = groupSize := by rw [valuesOf, List.length_map, htok]
  refine ⟨tokens, hdec, htok, fun g => ⟨(hlanes g).length_le, (hlanes g).valid_eq, ?_, ?_⟩⟩
  · intro t x hx d
    have ht : t < groupSize := hkl ▸ (List.getElem?_eq_some_iff.1 hx).1
    exact (viewK_eq _ hg hlen 0 ht g d).trans ((hlanes g).key hx d)
  · intro t x hx d
    have ht : t < groupSize := hvl ▸ (List.getElem?_eq_some_iff.1 hx).1
    exact (viewV_eq _ hg hlen 0 ht g d).trans ((hlanes g).value hx d)

/-- In exact arithmetic the fused attention is softmax attention over the decoded page, for every
page of the layout's size. -/
theorem closedPageAttention_eq_softmax (junk : ℕ → Q) {bs : ℕ} {layout : Rabit2PageLayout}
    (hl : rabit2PageLayout bs H D D = .ok layout) {r : ℕ × ℕ × ℕ × ℕ}
    (hv : validateLayout layout = .ok r) {page : List UInt8}
    (hlen : page.length = layout.pageBytes) {qHeads : ℕ} (hq : H ∣ qHeads) {shape : List ℕ}
    (hshape : shape = [qHeads, D] ∨ shape = [1, qHeads, D]) (query : ℕ → Q) (scale : ℝ) :
    ∃ tokens : List (RealTok H D),
      decodePage (realFp toB ofB).toFp page = .ok (keysOf tokens, valuesOf tokens) ∧
      tokens.length = 32 ∧
      ∃ out, closedPageAttentionTriton (realFp toB ofB) (realQ toF ofF) junk true shape query layout
          page scale = .ok out ∧
        ∀ (h : ℕ) (hh : h < qHeads) (d : Fin D), out (h * D + d) = ofF (attend
          (fun t => scale * ∑ e : Fin D, toF (query (h * D + e))
            * t.1 ⟨h / (qHeads / H), kvHead_lt hq hh⟩ e)
          (fun t => t.2 ⟨h / (qHeads / H), kvHead_lt hq hh⟩ d) tokens : ℝ) := by
  obtain ⟨rfl, -, kn, vn, hg⟩ := pageGroups_of_validate hl hv
  obtain ⟨tokens, hdec, htok, hlanes⟩ := viewLanes toB ofB hg hlen
  have hne : tokens ≠ [] := List.ne_nil_of_length_pos (by rw [htok]; decide)
  have hmod : qHeads % (pageLayout groupSize H D D).numKvHeads = 0 := Nat.mod_eq_zero_of_dvd hq
  have hdim : (pageLayout groupSize H D D).headSizeK = D := rfl
  have hrun : closedPageAttentionTriton (realFp toB ofB) (realQ toF ofF) junk true shape query
      (pageLayout groupSize H D D) page scale
      = .ok (storeAll junk ((List.range qHeads).flatMap fun qh =>
        closedPageAttentionProgram (realFp toB ofB) (realQ toF ofF) query (viewsOf H D kn vn page)
          scale qHeads H D (D / groupSize) (nextPowerOf2 D) qh)) := by
    rcases hshape with rfl | rfl
    · simp [closedPageAttentionTriton, pageViews_ok hg, hmod, hdim]
      rfl
    · simp [closedPageAttentionTriton, pageViews_ok hg, hmod, hdim]
      rfl
  refine ⟨tokens, hdec, htok, _, hrun, fun h hh d => ?_⟩
  have hrow := storeAll_rows junk (fun h d => (realQ toF ofF).ofF (closedPageAcc (realFp toB ofB)
    scale (nextPowerOf2 D) (fun d => if decide (d < D) then (realQ toF ofF).toF (query (h * D + d))
      else (realFp toB ofB).lit 0)
    (fun t => viewK (realFp toB ofB).toFp (viewsOf H D kn vn page) H D t (h / (qHeads / H)))
    (fun t => viewV (realFp toB ofB).toFp (viewsOf H D kn vn page) H D (D / groupSize) t
      (h / (qHeads / H))) d)) hh d.2
  simp only [closedPageAttentionProgram, filter_range_lt (le_nextPowerOf2 D)]
  refine hrow.trans (congrArg ofF ?_)
  exact (hlanes ⟨h / (qHeads / H), kvHead_lt hq hh⟩).closedPageAcc toB ofB toF ofF hne query scale
    h d

end Fused

/-- Two query heads over one page. -/
theorem closedPageAttention_eq_softmax_two_heads :
    ∃ tokens : List (RealTok 1 64),
      decodePage bfloatFp.toFp (stripedPage 0 (pageLayout 32 1 64 64).pageBytes)
        = .ok (keysOf tokens, valuesOf tokens) ∧
      tokens.length = 32 ∧
      ∃ out, closedPageAttentionTriton bfloatFp (realQ id EReal.toReal) (fun _ => 7) true
          [1, 2, 64] (fun a => a) (pageLayout 32 1 64 64)
          (stripedPage 0 (pageLayout 32 1 64 64).pageBytes) (1 : ℝ) = .ok out ∧
        out (1 * 64 + 5) = attend (fun t => 1 * ∑ e : Fin 64, ((1 * 64 + e : ℕ) : ℝ) * t.1 0 e)
          (fun t => t.2 0 5) tokens := by
  have hl : rabit2PageLayout 32 1 64 64 = .ok (pageLayout 32 1 64 64) := rfl
  have hv : validateLayout (pageLayout 32 1 64 64) = .ok (64, 64, 24, 16) := rfl
  obtain ⟨tokens, hdec, hlen, out, hout, hrow⟩ := closedPageAttention_eq_softmax realToBf16
    bf16ToReal id EReal.toReal (fun _ => 7) hl hv (length_stripedPage 0 _) (one_dvd 2) (.inr rfl)
    (fun a => a) 1
  exact ⟨tokens, hdec, hlen, out, hout, hrow 1 (by decide) 5⟩

end RabitKV
