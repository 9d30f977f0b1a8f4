import RabitKV.Sidecar
import RabitKV.Lib.Window
import RabitKV.Proofs.Page

/-!
# The sidecar is a residual window

`toSidecar` lays out a window of the library as the six fields, `None` where a list is empty. If the
owner's page writer turns a full group into one change of its rest (`Closes`), then `append` is the
window's run: it ends in the laid out window with every emitted page written in order, or raises
what the first page that could not be written raised (`appendTokens_run`).
-/

namespace RabitKV

open BitStream Window

section Direct

variable {F : Type} (fp : Fp F Bf16) {H D : ℕ}

theorem packV2Direct_eq {n : ℕ} {codes : ℕ → ℕ} (hc : ∀ i, codes i < 4) {j : ℕ}
    (hj : 4 * j + 3 < n) : packV2Direct codes j = packByte 2 n codes j := by
  have h0 := hc (4 * j)
  have h1 := hc (4 * j + 1)
  have h2 := hc (4 * j + 2)
  have h3 := hc (4 * j + 3)
  have hbit : ∀ k < 8, codeBit 2 n codes (8 * j + k) = codes (4 * j + k / 2) / 2 ^ (k % 2) % 2 := by
    intro k hk
    rw [codeBit, if_pos (by omega), show (8 * j + k) / 2 = 4 * j + k / 2 by omega,
      show (8 * j + k) % 2 = k % 2 by omega]
  apply UInt8.toNat_inj.1
  rw [packByte_toNat (by decide), word_congr hbit, packV2Direct, UInt8.toNat_ofNat',
    or_shiftLeft (n := 2) (by omega), or_shiftLeft (n := 4) (by omega),
    or_shiftLeft (n := 6) (by omega)]
  simp only [word, Finset.sum_range_succ, Finset.sum_range_zero]
  norm_num
  omega

theorem vCode_lt (x : Fin D → F) (d : ℕ) : vCode fp x d < 4 :=
  Nat.lt_succ_of_le (fp.affineCode_le 3 _ _ _)

/-- The bytes of a row of V codes are the four-code bytes, whatever the head dimension. -/
theorem v2PackedDirect_eq (x : Tok H D F) : v2PackedDirect fp x = v2Packed fp x := by
  funext h j
  have hj : 4 * j.1 + 3 < vPaddedDim D := by
    have := j.2
    unfold vPackedDim packedDim vPaddedDim groupSize at this
    unfold vPaddedDim groupSize
    omega
  have hext : ∀ d, d < vPaddedDim D →
      ext (fun d : Fin (vPaddedDim D) => vCode fp (x h) d) d = vCode fp (x h) d :=
    fun d hd => ext_of_lt _ hd
  refine (?_ : packV2Direct (vCode fp (x h)) j
    = packV2Direct (ext fun d : Fin (vPaddedDim D) => vCode fp (x h) d) j).trans ?_
  · unfold packV2Direct
    rw [hext _ (by omega), hext _ (by omega), hext _ (by omega), hext _ (by omega)]
  · refine packV2Direct_eq (fun i => ?_) hj
    unfold ext
    split_ifs
    · exact vCode_lt fp _ _
    · decide

/-- The direct path and the reference quantize alike. -/
theorem quantizeV2Primary_eq (cuda : Bool) (value : List (Tok H D F)) :
    quantizeV2Primary fp cuda value = quantizeV2PrimaryRef fp value := by
  unfold quantizeV2Primary
  split_ifs
  · rw [quantizeV2PrimaryRef, funext (v2PackedDirect_eq fp)]
  · rfl

end Direct

/-- A token of the open group: raw K, packed V and its uncompressed metadata. -/
@[ext]
structure Aged (H D : ℕ) (F : Type) where
  k : Tok H D Bf16
  vPacked : Tok H (vPackedDim D) UInt8
  vMin : Tok H (vGroups D) F
  vScale : Tok H (vGroups D) F

/-- The window of one sequence. -/
abbrev SeqWin (H D : ℕ) (F : Type) := Win residualTokens groupSize (KV H D) (Aged H D F)

/-- `None` for no rows. -/
def optList {α : Type} : List α → Option (List α)
  | [] => none
  | x :: xs => some (x :: xs)

@[simp] theorem catOpt_optList {α : Type} (a b : List α) : catOpt (optList a) b = a ++ b := by
  cases a <;> rfl

@[simp] theorem lenOpt_optList {α : Type} (a : List α) : lenOpt (optList a) = a.length := by
  cases a <;> rfl

theorem optList_of_ne_nil {α : Type} {a : List α} (h : a ≠ []) : optList a = some a := by
  cases a with
  | nil => exact absurd rfl h
  | cons => rfl

theorem some_append_singleton {α : Type} (a : List α) (x : α) :
    some (a ++ [x]) = optList (a ++ [x]) :=
  (optList_of_ne_nil (by simp)).symm

/-- The six fields. -/
def toSidecar {H D : ℕ} {F : Type} (opened : List (Aged H D F)) (recent : List (KV H D)) :
    Sidecar H D F :=
  { openK := optList (opened.map Aged.k)
    openVPacked := optList (opened.map Aged.vPacked)
    openVMin := optList (opened.map Aged.vMin)
    openVScale := optList (opened.map Aged.vScale)
    recentK := optList (recent.map Prod.fst)
    recentV := optList (recent.map Prod.snd) }

section Fields

variable {H D : ℕ} {F : Type} (opened : List (Aged H D F)) (recent : List (KV H D))

@[simp] theorem toSidecar_openK :
    (toSidecar opened recent).openK = optList (opened.map Aged.k) := rfl

@[simp] theorem toSidecar_openVPacked :
    (toSidecar opened recent).openVPacked = optList (opened.map Aged.vPacked) := rfl

@[simp] theorem toSidecar_openVMin :
    (toSidecar opened recent).openVMin = optList (opened.map Aged.vMin) := rfl

@[simp] theorem toSidecar_openVScale :
    (toSidecar opened recent).openVScale = optList (opened.map Aged.vScale) := rfl

@[simp] theorem toSidecar_recentK :
    (toSidecar opened recent).recentK = optList (recent.map Prod.fst) := rfl

@[simp] theorem toSidecar_recentV :
    (toSidecar opened recent).recentV = optList (recent.map Prod.snd) := rfl

theorem optList_getD {α : Type} {o : Option (List α)} (h : o ≠ some []) :
    o = optList (o.getD []) := by
  rcases o with _ | l
  · rfl
  · exact (optList_of_ne_nil fun hl => h (by rw [← hl])).symm

theorem ne_some_nil {α β : Type} {o : Option (List α)} {o' : Option (List β)}
    (hlen : o'.map List.length = o.map List.length) (h : o ≠ some []) : o' ≠ some [] := by
  rintro rfl
  rcases o with _ | l
  · cases hlen
  · simp only [Option.map_some, List.length_nil, Option.some.injEq] at hlen
    exact h (by rw [List.eq_nil_of_length_eq_zero hlen.symm])

theorem length_getD {α β : Type} {o : Option (List α)} {o' : Option (List β)}
    (hlen : o'.map List.length = o.map List.length) :
    (o'.getD []).length = (o.getD []).length := by
  rcases o with _ | l <;> rcases o' with _ | l' <;> simp_all

theorem exists_aged : ∀ (a : List (Tok H D Bf16)) (b : List (Tok H (vPackedDim D) UInt8))
    (c d : List (Tok H (vGroups D) F)), b.length = a.length → c.length = a.length →
    d.length = a.length → ∃ es : List (Aged H D F), es.map Aged.k = a ∧ es.map Aged.vPacked = b ∧
      es.map Aged.vMin = c ∧ es.map Aged.vScale = d
  | [], b, c, d, hb, hc, hd => by
    rw [List.length_nil, List.length_eq_zero_iff] at hb hc hd
    exact ⟨[], rfl, hb.symm, hc.symm, hd.symm⟩
  | x :: a, y :: b, z :: c, u :: d, hb, hc, hd => by
    obtain ⟨es, h1, h2, h3, h4⟩ := exists_aged a b c d (Nat.succ.inj hb) (Nat.succ.inj hc)
      (Nat.succ.inj hd)
    exact ⟨⟨x, y, z, u⟩ :: es, by simp [h1], by simp [h2], by simp [h3], by simp [h4]⟩

theorem lenOpt_eq {α : Type} (o : Option (List α)) : lenOpt o = (o.getD []).length := by
  cases o <;> rfl

theorem optList_ne_some_nil {α : Type} (l : List α) : optList l ≠ some [] := by
  cases l <;> simp [optList]

theorem map_length_optList {α β γ : Type} (f : α → β) (g : α → γ) (l : List α) :
    (optList (l.map f)).map List.length = (optList (l.map g)).map List.length := by
  cases l <;> simp [optList]

theorem toSidecar_wf (w : SeqWin H D F) : (toSidecar w.opened w.recent).WF where
  openVPacked := map_length_optList _ _ _
  openVMin := map_length_optList _ _ _
  openVScale := map_length_optList _ _ _
  openK_ne := optList_ne_some_nil _
  openK_lt := by
    rw [toSidecar_openK, lenOpt_optList, List.length_map]
    exact w.opened_lt
  recentV := map_length_optList _ _ _
  recentK_ne := optList_ne_some_nil _
  recentK_le := by
    rw [toSidecar_recentK, lenOpt_optList, List.length_map]
    exact w.recent_le

/-- A well-formed sidecar lays out a window. -/
theorem Sidecar.WF.exists_win {s : Sidecar H D F} (h : s.WF) :
    ∃ w : SeqWin H D F, s = toSidecar w.opened w.recent := by
  obtain ⟨es, h1, h2, h3, h4⟩ := exists_aged (s.openK.getD []) (s.openVPacked.getD [])
    (s.openVMin.getD []) (s.openVScale.getD []) (length_getD h.openVPacked)
    (length_getD h.openVMin) (length_getD h.openVScale)
  have hzip := length_getD h.recentV
  have hopen : es.length < groupSize := by
    have hlt := h.openK_lt
    rwa [lenOpt_eq, ← h1, List.length_map] at hlt
  have hrecent : ((s.recentK.getD []).zip (s.recentV.getD [])).length ≤ residualTokens := by
    have hle := h.recentK_le
    rw [lenOpt_eq] at hle
    rw [List.length_zip, hzip, Nat.min_self]
    exact hle
  refine ⟨⟨es, (s.recentK.getD []).zip (s.recentV.getD []), hopen, hrecent⟩, ?_⟩
  refine Sidecar.ext ?_ ?_ ?_ ?_ ?_ ?_
  · rw [toSidecar_openK, h1]
    exact optList_getD h.openK_ne
  · rw [toSidecar_openVPacked, h2]
    exact optList_getD (ne_some_nil h.openVPacked h.openK_ne)
  · rw [toSidecar_openVMin, h3]
    exact optList_getD (ne_some_nil h.openVMin h.openK_ne)
  · rw [toSidecar_openVScale, h4]
    exact optList_getD (ne_some_nil h.openVScale h.openK_ne)
  · rw [toSidecar_recentK, List.map_fst_zip (by rw [hzip])]
    exact optList_getD h.recentK_ne
  · rw [toSidecar_recentV, List.map_snd_zip (by rw [hzip])]
    exact optList_getD (ne_some_nil h.recentV h.recentK_ne)

end Fields

section Append

variable {F σ : Type} (fp : Fp F Bf16) (cuda : Bool) {H D : ℕ}

/-- What ageing makes of a token. -/
def ageKV (kv : KV H D) : Aged H D F :=
  { k := kv.1
    vPacked := v2Packed fp (Tok.map fp.ofB kv.2)
    vMin := v2Min fp (Tok.map fp.ofB kv.2)
    vScale := v2Scale fp (Tok.map fp.ofB kv.2) }

/-- A page writer that turns a full group into one change of the rest, or raises and changes
nothing. -/
def Closes (close : SideM H D F σ Unit) (emit : List (Aged H D F) → σ → Except String σ) : Prop :=
  ∀ (es : List (Aged H D F)) (recent : List (KV H D)) (s : σ), es.length = groupSize →
    close.run ⟨toSidecar es recent, s⟩ = match emit es s with
      | .ok s' => .ok () ⟨toSidecar [] recent, s'⟩
      | .error e => .error e ⟨toSidecar es recent, s⟩

/-- The pages in order. -/
def emitAll (emit : List (Aged H D F) → σ → Except String σ) :
    List (List (Aged H D F)) → σ → Except String σ
  | [], s => .ok s
  | es :: pages, s => emit es s >>= emitAll emit pages

theorem emitAll_append (emit : List (Aged H D F) → σ → Except String σ) :
    ∀ (ps qs : List (List (Aged H D F))) (s : σ),
      emitAll emit (ps ++ qs) s = emitAll emit ps s >>= emitAll emit qs
  | [], _, _ => rfl
  | p :: ps, qs, s => by
    rw [List.cons_append, emitAll, emitAll]
    rcases emit p s with e | s'
    · rfl
    · exact emitAll_append emit ps qs s'

variable {close : SideM H D F σ Unit} {emit : List (Aged H D F) → σ → Except String σ}

theorem toSidecar_append (opened : List (Aged H D F)) (a : Aged H D F) (recent : List (KV H D)) :
    toSidecar (opened ++ [a]) recent =
      { openK := some (opened.map Aged.k ++ [a.k])
        openVPacked := some (opened.map Aged.vPacked ++ [a.vPacked])
        openVMin := some (opened.map Aged.vMin ++ [a.vMin])
        openVScale := some (opened.map Aged.vScale ++ [a.vScale])
        recentK := optList (recent.map Prod.fst)
        recentV := optList (recent.map Prod.snd) } := by
  simp only [toSidecar, some_append_singleton, List.map_append, List.map_singleton]

/-- Ageing one token extends the open group and closes it when it is full. -/
theorem appendAged_run (hclose : Closes close emit) (opened : List (Aged H D F))
    (recent : List (KV H D)) (kv : KV H D) (s : σ) :
    (appendAged fp cuda close [kv.1] [kv.2]).run ⟨toSidecar opened recent, s⟩
      = if (opened ++ [ageKV fp kv]).length = groupSize then
          match emit (opened ++ [ageKV fp kv]) s with
          | .ok s' => .ok () ⟨toSidecar [] recent, s'⟩
          | .error e => .error e ⟨toSidecar (opened ++ [ageKV fp kv]) recent, s⟩
        else .ok () ⟨toSidecar (opened ++ [ageKV fp kv]) recent, s⟩ := by
  have hlen : (opened.map Aged.k ++ [kv.1]).length = (opened ++ [ageKV fp kv]).length := by simp
  have hside := toSidecar_append opened (ageKV fp kv) recent
  unfold appendAged
  rw [quantizeV2Primary_eq]
  simp only [EStateM.run_bind, EStateM.run_get, EStateM.run_set, quantizeV2PrimaryRef,
    List.map_singleton]
  simp only [toSidecar_openK, toSidecar_openVPacked, toSidecar_openVMin, toSidecar_openVScale,
    toSidecar_recentK, toSidecar_recentV, catOpt_optList, hlen]
  split_ifs with h
  · rw [← hclose _ recent s h, hside]
    rfl
  · rw [EStateM.run_pure, hside]
    rfl

/-- A token that finds room waits. -/
theorem appendToken_waits (opened : List (Aged H D F)) {recent : List (KV H D)} {kv : KV H D}
    (hr : (recent ++ [kv]).length ≤ residualTokens) (s : σ) :
    (appendToken fp cuda close kv).run ⟨toSidecar opened recent, s⟩
      = .ok () ⟨toSidecar opened (recent ++ [kv]), s⟩ := by
  have hfst : recent.map Prod.fst ++ [kv.1] = (recent ++ [kv]).map Prod.fst := by simp
  have hsnd : recent.map Prod.snd ++ [kv.2] = (recent ++ [kv]).map Prod.snd := by simp
  unfold appendToken
  simp only [EStateM.run_bind, EStateM.run_get, toSidecar_recentK, toSidecar_recentV,
    catOpt_optList, hfst, hsnd, List.length_map]
  rw [if_neg (by omega), EStateM.run_set]
  simp only [toSidecar]
  rw [optList_of_ne_nil (a := (recent ++ [kv]).map Prod.fst) (by simp),
    optList_of_ne_nil (a := (recent ++ [kv]).map Prod.snd) (by simp)]

/-- Otherwise the oldest one is aged. -/
theorem appendToken_ages (opened : List (Aged H D F)) {recent rest : List (KV H D)}
    {kv old : KV H D} (hcons : recent ++ [kv] = old :: rest)
    (hr : ¬ (recent ++ [kv]).length ≤ residualTokens) (s : σ) :
    (appendToken fp cuda close kv).run ⟨toSidecar opened recent, s⟩
      = (appendAged fp cuda close [old.1] [old.2]).run ⟨toSidecar opened rest, s⟩ := by
  have hfst : recent.map Prod.fst ++ [kv.1] = (recent ++ [kv]).map Prod.fst := by simp
  have hsnd : recent.map Prod.snd ++ [kv.2] = (recent ++ [kv]).map Prod.snd := by simp
  have hrest : rest ≠ [] := by
    rintro rfl
    rw [hcons, List.length_singleton] at hr
    exact hr (by decide)
  have hside : ({ toSidecar opened recent with
      recentK := some (rest.map Prod.fst), recentV := some (rest.map Prod.snd) } :
      Sidecar H D F) = toSidecar opened rest := by
    rw [← optList_of_ne_nil (by simpa using hrest), ← optList_of_ne_nil (by simpa using hrest)]
    rfl
  unfold appendToken
  simp only [EStateM.run_bind, EStateM.run_get, toSidecar_recentK, toSidecar_recentV,
    catOpt_optList, hfst, hsnd, List.length_map]
  rw [if_pos (by omega)]
  simp only [EStateM.run_bind, EStateM.run_set, hcons, List.take_succ_cons, List.take_zero,
    List.map_cons, List.drop_succ_cons, List.drop_zero, hside]

/-- One token is one step of the window. -/
theorem appendToken_run (hclose : Closes close emit) (w : SeqWin H D F) (kv : KV H D) (s : σ) :
    (appendToken fp cuda close kv).run ⟨toSidecar w.opened w.recent, s⟩
      = match emitAll emit (w.step (ageKV fp) kv).2 s with
        | .ok s' => .ok () ⟨toSidecar (w.step (ageKV fp) kv).1.opened
            (w.step (ageKV fp) kv).1.recent, s'⟩
        | .error e => .error e ⟨toSidecar ((w.step (ageKV fp) kv).2.flatten)
            (w.step (ageKV fp) kv).1.recent, s⟩ := by
  by_cases hr : (w.recent ++ [kv]).length ≤ residualTokens
  · have hstep : w.step (ageKV fp) kv
        = ({ w with recent := w.recent ++ [kv], recent_le := hr }, []) := dif_pos hr
    rw [appendToken_waits fp cuda w.opened hr s, hstep]
    rfl
  · obtain ⟨old, rest, hcons⟩ : ∃ old rest, w.recent ++ [kv] = old :: rest :=
      List.exists_cons_of_ne_nil (by simp)
    rw [appendToken_ages fp cuda w.opened hcons hr s,
      appendAged_run fp cuda hclose w.opened rest old s, Win.step, dif_neg hr]
    simp only [hcons, List.take_succ_cons, List.take_zero, List.map_cons, List.map_nil,
      List.drop_succ_cons, List.drop_zero]
    split_ifs with hb
    · simp only [emitAll]
      rcases emit (w.opened ++ [ageKV fp old]) s with e | s'
      · simp
        rfl
      · simp
        rfl
    · simp [emitAll]

/-- The owner of a window. -/
def hold (w : SeqWin H D F) (s : σ) : Held H D F σ := ⟨toSidecar w.opened w.recent, s⟩

/-- The open group is full or overfull, and still open. -/
def Jammed (st : Held H D F σ) : Prop :=
  ∃ es recent, groupSize ≤ es.length ∧ st.side = toSidecar es recent

/-- A chunk of tokens is a run of the window; a page that is not written stays open. -/
theorem appendTokens_run (hclose : Closes close emit) :
    ∀ (kvs : List (KV H D)) (w : SeqWin H D F) (s : σ),
      (∀ s', emitAll emit (w.batch (ageKV fp) kvs).2 s = .ok s' →
        (appendTokens fp cuda close kvs).run (hold w s)
          = .ok () (hold (w.batch (ageKV fp) kvs).1 s')) ∧
      ∀ e, emitAll emit (w.batch (ageKV fp) kvs).2 s = .error e →
        ∃ st, Jammed st ∧ (appendTokens fp cuda close kvs).run (hold w s) = .error e st
  | [], w, s => by
    rw [w.batch_nil]
    refine ⟨fun s' h => ?_, fun e h => ?_⟩
    · cases h
      rfl
    · cases h
  | kv :: kvs, w, s => by
    have hstep := appendToken_run fp cuda hclose w kv s
    have ih := appendTokens_run hclose kvs (w.step (ageKV fp) kv).1
    have hbatch := w.batch_append (ageKV fp) [kv] kvs
    rw [← w.step_eq_batch, List.singleton_append] at hbatch
    rw [hbatch]
    simp only [emitAll_append, appendTokens, EStateM.run_bind]
    rcases hp : emitAll emit (w.step (ageKV fp) kv).2 s with e | s₁
    · rw [hp] at hstep
      refine ⟨fun s' h => ?_, fun e' h => ?_⟩
      · cases h
      · cases h
        rcases w.step_pages (ageKV fp) kv with hnil | ⟨es, hes, hlen⟩
        · rw [hnil] at hp
          cases hp
        · rw [hes, List.flatten_singleton] at hstep
          exact ⟨_, ⟨es, _, hlen.ge, rfl⟩, by rw [hold, hstep]⟩
    · rw [hp] at hstep
      refine ⟨fun s' h => ?_, fun e' h => ?_⟩
      · rw [hold, hstep]
        exact (ih s₁).1 s' h
      · rw [hold, hstep]
        exact (ih s₁).2 e' h

end Append

end RabitKV
