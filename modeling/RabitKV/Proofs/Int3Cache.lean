import RabitKV.Int3Cache
import RabitKV.Lib.Checked
import RabitKV.Proofs.Exact

/-!
# Padding tokens write the last slot

A slot that is not negative is written at its block and offset. The padding id -1 is split into
block -1 and the last offset, and torch reads block -1 as the last block, so padding tokens are
written into the last slot of the cache (`paddingHarmless_of_writes`). A mapping with padding is
therefore not written as it should for all tokens and all caches, unless there is no head to write.
-/

namespace RabitKV

open Checked Stores

section Address

variable {nb bs : ℕ} {s : ℤ} {a : Fin nb × Fin bs}

/-- The slot of a block and an offset. -/
def SlotAt (s : ℤ) (a : Fin nb × Fin bs) : Prop := s / bs = a.1 ∧ s % bs = a.2

/-- The last slot of the cache. -/
def LastSlot (a : Fin nb × Fin bs) : Prop := a.1.1 + 1 = nb ∧ a.2.1 + 1 = bs

theorem LastSlot.unique {a' : Fin nb × Fin bs} (h : LastSlot a) (h' : LastSlot a') : a = a' := by
  obtain ⟨h1, h2⟩ := h
  obtain ⟨h1', h2'⟩ := h'
  exact Prod.ext (Fin.ext (by omega)) (Fin.ext (by omega))

theorem SlotAt.eq {s' : ℤ} (h : SlotAt s a) (h' : SlotAt s' a) : s = s' := by
  rw [← Int.mul_ediv_add_emod s bs, ← Int.mul_ediv_add_emod s' bs, h.1, h.2, h'.1, h'.2]

theorem wrapIndex_of_nonneg {n : ℕ} {i : ℤ} (h : 0 ≤ i) (hlt : i < n) :
    ∃ k : Fin n, wrapIndex n i = .ok k ∧ i = k := by
  refine ⟨⟨i.toNat, by omega⟩, dif_pos ⟨h, hlt⟩, ?_⟩
  exact (Int.toNat_of_nonneg h).symm

theorem slotAddress_of_nonneg (h : 0 ≤ s) (hlt : s < nb * bs) :
    ∃ a, slotAddress nb bs s = .ok a ∧ SlotAt s a := by
  have hbs : (0 : ℤ) < bs := by
    rcases Nat.eq_zero_or_pos bs with rfl | hpos
    · rw [Nat.cast_zero, mul_zero] at hlt
      omega
    · exact_mod_cast hpos
  obtain ⟨b, hb, hbe⟩ := wrapIndex_of_nonneg (Int.ediv_nonneg h hbs.le)
    (Int.ediv_lt_of_lt_mul hbs hlt)
  obtain ⟨o, ho, hoe⟩ := wrapIndex_of_nonneg (Int.emod_nonneg s hbs.ne') (Int.emod_lt_of_pos s hbs)
  refine ⟨(b, o), ?_, hbe, hoe⟩
  unfold slotAddress
  rw [if_neg (by omega), hb, ho]
  rfl

theorem neg_one_ediv (hbs : 0 < bs) : (-1 : ℤ) / bs = -1 :=
  Int.ediv_eq_neg_one_of_neg_of_le (by omega) (by omega)

theorem neg_one_emod (hbs : 0 < bs) : (-1 : ℤ) % bs = bs - 1 := by
  have hsplit := Int.mul_ediv_add_emod (-1) bs
  rw [neg_one_ediv hbs] at hsplit
  omega

/-- The padding id is the last slot, if there is one. -/
theorem slotAddress_padding (hnb : 0 < nb) (hbs : 0 < bs) :
    slotAddress nb bs (-1) = .ok (⟨nb - 1, by omega⟩, ⟨bs - 1, by omega⟩) := by
  have hblock : wrapIndex nb (-1) = .ok ⟨nb - 1, by omega⟩ := by
    unfold wrapIndex
    rw [dif_neg (by omega), dif_pos (by omega)]
    exact congrArg Except.ok (Fin.ext (by dsimp only; omega))
  have hoffset : wrapIndex bs ((bs : ℤ) - 1) = .ok ⟨bs - 1, by omega⟩ := by
    unfold wrapIndex
    rw [dif_pos (by omega)]
    exact congrArg Except.ok (Fin.ext (by dsimp only; omega))
  unfold slotAddress
  rw [if_neg (by omega), neg_one_ediv hbs, neg_one_emod hbs, hblock, hoffset]
  rfl

theorem slotAddress_padding_iff : slotAddress nb bs (-1) = .ok a ↔ LastSlot a := by
  have hnb : 0 < nb := a.1.pos
  have hbs : 0 < bs := a.2.pos
  have hlast : LastSlot ((⟨nb - 1, by omega⟩, ⟨bs - 1, by omega⟩) : Fin nb × Fin bs) :=
    ⟨by dsimp only; omega, by dsimp only; omega⟩
  rw [slotAddress_padding hnb hbs]
  constructor
  · intro h
    rw [← Except.ok.inj h]
    exact hlast
  · intro h
    rw [h.unique hlast]

theorem not_slotAt_padding : ¬ SlotAt (-1) a := by
  rintro ⟨h, -⟩
  rw [neg_one_ediv a.2.pos] at h
  omega

end Address

/-- Slots are padding or distinct slots of the cache. -/
structure SlotMapping (nb bs : ℕ) {n : ℕ} (slots : Fin n → ℤ) : Prop where
  range : ∀ i, slots i = -1 ∨ (0 ≤ slots i ∧ slots i < nb * bs)
  distinct : ∀ i k, slots i = slots k → slots i ≠ -1 → i = k

section Mapping

variable {nb bs n : ℕ} {slots : Fin n → ℤ} (hslots : SlotMapping nb bs slots)
  {a : Fin nb × Fin bs}

include hslots

theorem SlotMapping.slotAddress_iff (i : Fin n) :
    slotAddress nb bs (slots i) = .ok a ↔ SlotAt (slots i) a ∨ (slots i = -1 ∧ LastSlot a) := by
  rcases hslots.range i with hpad | ⟨h0, hlt⟩
  · rw [hpad, slotAddress_padding_iff]
    constructor
    · exact fun h => Or.inr ⟨rfl, h⟩
    · rintro (h | h)
      · exact absurd h not_slotAt_padding
      · exact h.2
  · obtain ⟨a', ha', hat⟩ := slotAddress_of_nonneg h0 hlt
    rw [ha']
    constructor
    · intro h
      rw [← Except.ok.inj h]
      exact Or.inl hat
    · rintro (h | h)
      · have hb := hat.1.symm.trans h.1
        have ho := hat.2.symm.trans h.2
        exact congrArg Except.ok (Prod.ext (Fin.ext (by omega)) (Fin.ext (by omega)))
      · omega

theorem SlotMapping.unique {i k : Fin n} (hi : SlotAt (slots i) a) (hk : SlotAt (slots k) a) :
    i = k := by
  refine hslots.distinct i k (hi.eq hk) fun hpad => ?_
  rw [hpad] at hi
  exact not_slotAt_padding hi

end Mapping

section Side

variable {F B : Type} {fp : Fp F B} {n nb bs H D W : ℕ} {slots : Fin n → ℤ}

/-- Each order stores every token once. -/
def WriteOrder.Complete (order : WriteOrder n) : Prop :=
  order.codes.Perm (List.finRange n) ∧ order.scales.Perm (List.finRange n)

theorem putPacked_putPacked (row : Tok H W UInt8) (p q : Tok H (packedDim D 3) UInt8) :
    putPacked (putPacked row p) q = putPacked row q := by
  funext h j
  unfold putPacked
  split_ifs
  · rfl
  · rfl

theorem writePackedCache_ok (order : WriteOrder n) (tensor : Fin n → Tok H D F)
    (cache : SlotCache nb bs H W F) (hD : 0 < D) (hW : int3PackedWidth n H D ≤ W)
    {addr : Fin n → Fin nb × Fin bs} (haddr : ∀ i, slotAddress nb bs (slots i) = .ok (addr i)) :
    writePackedCache fp slots order tensor cache = .ok
      { codes := putAll putPacked cache.codes
          (order.codes.map fun i => (addr i, (quantizeInt3 fp (tensor i)).packed))
        scales := storeAll cache.scales
          (order.scales.map fun i => (addr i, (quantizeInt3 fp (tensor i)).scales)) } := by
  unfold writePackedCache
  have hpairs : ∀ {γ : Type} (g : Fin n → γ) (l : List (Fin n)),
      (l.mapM fun i => do return (← slotAddress nb bs (slots i), g i))
        = .ok (l.map fun i => (addr i, g i)) := fun g l => mapM_ok fun i _ => by
    rw [haddr i]
    rfl
  rw [if_neg (by omega), if_neg (by omega), hpairs, hpairs]
  rfl

/-- A write that returns has checked the widths and found every slot. -/
theorem of_writePackedCache_ok {order : WriteOrder n} (hcomplete : order.Complete)
    {tensor : Fin n → Tok H D F} {cache after : SlotCache nb bs H W F}
    (h : writePackedCache fp slots order tensor cache = .ok after) :
    0 < D ∧ int3PackedWidth n H D ≤ W ∧ ∀ i, ∃ a, slotAddress nb bs (slots i) = .ok a := by
  unfold writePackedCache at h
  by_cases hD : D = 0
  · rw [if_pos hD] at h
    cases h
  · by_cases hW : W < int3PackedWidth n H D
    · rw [if_neg hD, if_pos hW] at h
      cases h
    · rw [if_neg hD, if_neg hW] at h
      refine ⟨by omega, by omega, fun i => ?_⟩
      rcases hm : order.codes.mapM fun i => do
          return (← slotAddress nb bs (slots i), (quantizeInt3 fp (tensor i)).packed) with e | ws
      · rw [hm] at h
        cases h
      · obtain ⟨b, hb⟩ := exists_of_mapM_ok hm i (hcomplete.1.mem_iff.2 (List.mem_finRange i))
        rcases ha : slotAddress nb bs (slots i) with e | a
        · rw [ha] at hb
          cases hb
        · exact ⟨a, rfl⟩

/-- Every named slot starts with the codes of its token and has its scales, and nothing else has
changed. -/
structure WritesNamed (slots : Fin n → ℤ) (rows : Fin n → Int3Row H D F)
    (before after : SlotCache nb bs H W F) : Prop where
  codes : ∀ i a, SlotAt (slots i) a → ∀ h (j : Fin (packedDim D 3)) (hj : j.1 < W),
    after.codes a h ⟨j, hj⟩ = (rows i).packed h j
  scales : ∀ i a, SlotAt (slots i) a → after.scales a = (rows i).scales
  other : ∀ a, (∀ i, ¬ SlotAt (slots i) a) →
    after.codes a = before.codes a ∧ after.scales a = before.scales a

/-- Every padding token is what the last slot is to hold. -/
def PaddingHarmless (slots : Fin n → ℤ) (rows : Fin n → Int3Row H D F)
    (before : SlotCache nb bs H W F) : Prop :=
  ∀ i, slots i = -1 → ∃ a : Fin nb × Fin bs, LastSlot a ∧
    (∀ k, SlotAt (slots k) a → rows k = rows i) ∧
    ((∀ k, ¬ SlotAt (slots k) a) →
      putPacked (before.codes a) (rows i).packed = before.codes a ∧
        before.scales a = (rows i).scales)

theorem paddingHarmless_of_forall {rows : Fin n → Int3Row H D F}
    (before : SlotCache nb bs H W F) (h : ∀ i, slots i ≠ -1) :
    PaddingHarmless slots rows before :=
  fun i hi => absurd hi (h i)

/-- Without heads nothing is stored. -/
theorem paddingHarmless_of_no_heads {rows : Fin n → Int3Row H D F} (before : SlotCache nb bs H W F)
    (hH : H = 0) (hnb : 0 < nb) (hbs : 0 < bs) : PaddingHarmless slots rows before := by
  subst hH
  refine fun i _ => ⟨(⟨nb - 1, by omega⟩, ⟨bs - 1, by omega⟩), ⟨?_, ?_⟩, fun k _ => ?_, fun _ => ?_⟩
  · exact Nat.sub_add_cancel hnb
  · exact Nat.sub_add_cancel hbs
  · exact Int3Row.ext (funext fun h => h.elim0) (funext fun h => h.elim0)
  · exact ⟨funext fun h => h.elim0, funext fun h => h.elim0⟩

section Harmless

variable (hslots : SlotMapping nb bs slots) {rows : Fin n → Int3Row H D F}
  {before : SlotCache nb bs H W F} (hpad : PaddingHarmless slots rows before)

include hslots hpad

theorem PaddingHarmless.exists_address (i : Fin n) :
    ∃ a, slotAddress nb bs (slots i) = .ok a := by
  rcases hslots.range i with hi | ⟨h0, hlt⟩
  · obtain ⟨a, hlast, -⟩ := hpad i hi
    exact ⟨a, (hslots.slotAddress_iff i).2 (Or.inr ⟨hi, hlast⟩)⟩
  · obtain ⟨a, ha, -⟩ := slotAddress_of_nonneg h0 hlt
    exact ⟨a, ha⟩

/-- All tokens written to a named slot are its own. -/
theorem PaddingHarmless.rows_eq {i k : Fin n} {a : Fin nb × Fin bs} (hi : SlotAt (slots i) a)
    (hk : slotAddress nb bs (slots k) = .ok a) : rows k = rows i := by
  rcases (hslots.slotAddress_iff k).1 hk with hat | ⟨hneg, hlast⟩
  · rw [hslots.unique hat hi]
  · obtain ⟨a', hlast', hsame, -⟩ := hpad k hneg
    rw [hlast'.unique hlast] at hsame
    exact (hsame i hi).symm

/-- A token written to a slot that is not named changes nothing there. -/
theorem PaddingHarmless.fixed {k : Fin n} {a : Fin nb × Fin bs} (ha : ∀ i, ¬ SlotAt (slots i) a)
    (hk : slotAddress nb bs (slots k) = .ok a) :
    putPacked (before.codes a) (rows k).packed = before.codes a ∧
      before.scales a = (rows k).scales := by
  rcases (hslots.slotAddress_iff k).1 hk with hat | ⟨hneg, hlast⟩
  · exact absurd hat (ha k)
  · obtain ⟨a', hlast', -, hfixed⟩ := hpad k hneg
    rw [hlast'.unique hlast] at hfixed
    exact hfixed ha

end Harmless

/-- The tokens in order. -/
def tokenOrder (n : ℕ) : WriteOrder n := ⟨List.finRange n, List.finRange n⟩

theorem tokenOrder_complete (n : ℕ) : (tokenOrder n).Complete :=
  ⟨List.Perm.refl _, List.Perm.refl _⟩

/-- The tokens with `i` last. -/
def lastOrder (i : Fin n) : List (Fin n) := (List.finRange n).erase i ++ [i]

theorem lastOrder_perm (i : Fin n) : (lastOrder i).Perm (List.finRange n) := by
  refine (List.perm_append_singleton i _).trans ?_
  exact (List.perm_cons_erase (List.mem_finRange i)).symm

/-- What is stored last is what stays. -/
theorem putAll_lastOrder {α β : Type} (put : α → β → α) (mem : Fin nb × Fin bs → α)
    (addr : Fin n → Fin nb × Fin bs) (row : Fin n → β) (i : Fin n) :
    ∃ left, putAll put mem ((lastOrder i).map fun i => (addr i, row i)) (addr i)
      = put left (row i) := by
  rw [lastOrder, List.map_append]
  exact ⟨_, putAll_concat _ _ _ _ _⟩

section Iff

variable (fp) (hslots : SlotMapping nb bs slots) (tensor : Fin n → Tok H D F)
  (before : SlotCache nb bs H W F)

include hslots

theorem writePackedCache_named (hD : 0 < D) (hW : int3PackedWidth n H D ≤ W)
    (hpad : PaddingHarmless slots (fun i => quantizeInt3 fp (tensor i)) before)
    {order : WriteOrder n} (horder : order.Complete) :
    ∃ after, writePackedCache fp slots order tensor before = .ok after ∧
      WritesNamed slots (fun i => quantizeInt3 fp (tensor i)) before after := by
  choose addr haddr using hpad.exists_address hslots
  have hat : ∀ {i a}, SlotAt (slots i) a → addr i = a := fun {i a} h =>
    Except.ok.inj ((haddr i).symm.trans ((hslots.slotAddress_iff i).2 (Or.inl h)))
  have hmem : ∀ {γ : Type} (val : Fin n → γ) {l : List (Fin n)}, l.Perm (List.finRange n) →
      ∀ {i a}, SlotAt (slots i) a → a ∈ (l.map fun i => (addr i, val i)).map Prod.fst := by
    intro γ val l hl i a h
    rw [List.map_map]
    exact List.mem_map.2 ⟨i, hl.mem_iff.2 (List.mem_finRange i), hat h⟩
  refine ⟨_, writePackedCache_ok order tensor before hD hW haddr, ?_, ?_, ?_⟩
  · intro i a h hd j hj
    have hput := putAll_of_forall putPacked putPacked_putPacked before.codes
      (b := (quantizeInt3 fp (tensor i)).packed)
      (hmem (fun i => (quantizeInt3 fp (tensor i)).packed) horder.1 h) (by
        intro w hw hwa
        obtain ⟨k, -, rfl⟩ := List.mem_map.1 hw
        exact congrArg Int3Row.packed
          (hpad.rows_eq hslots h (hwa ▸ haddr k) : quantizeInt3 fp (tensor k) = _))
    dsimp only
    rw [hput]
    exact dif_pos j.2
  · intro i a h
    have hput := putAll_of_forall (fun _ b => b) (fun _ _ _ => rfl) before.scales
      (b := (quantizeInt3 fp (tensor i)).scales)
      (hmem (fun i => (quantizeInt3 fp (tensor i)).scales) horder.2 h) (by
        intro w hw hwa
        obtain ⟨k, -, rfl⟩ := List.mem_map.1 hw
        exact congrArg Int3Row.scales
          (hpad.rows_eq hslots h (hwa ▸ haddr k) : quantizeInt3 fp (tensor k) = _))
    exact hput
  · intro a ha
    refine ⟨putAll_of_fixed putPacked before.codes ?_,
      putAll_of_fixed (fun _ b => b) before.scales ?_⟩
    · intro w hw hwa
      obtain ⟨k, -, rfl⟩ := List.mem_map.1 hw
      exact (hpad.fixed hslots ha (hwa ▸ haddr k)).1
    · intro w hw hwa
      obtain ⟨k, -, rfl⟩ := List.mem_map.1 hw
      exact (hpad.fixed hslots ha (hwa ▸ haddr k)).2.symm

/-- The writes of a call that stores a padding token last. -/
theorem paddingHarmless_of_writes (h : ∀ order : WriteOrder n, order.Complete →
      ∃ after, writePackedCache fp slots order tensor before = .ok after ∧
        WritesNamed slots (fun i => quantizeInt3 fp (tensor i)) before after) :
    0 < D ∧ int3PackedWidth n H D ≤ W ∧
      PaddingHarmless slots (fun i => quantizeInt3 fp (tensor i)) before := by
  obtain ⟨first, hfirst, -⟩ := h (tokenOrder n) (tokenOrder_complete n)
  obtain ⟨hD, hW, haddress⟩ := of_writePackedCache_ok (tokenOrder_complete n) hfirst
  choose addr haddr using haddress
  refine ⟨hD, hW, fun i hi => ?_⟩
  have hlast : LastSlot (addr i) := by
    rcases (hslots.slotAddress_iff i).1 (haddr i) with hat | hlast
    · rw [hi] at hat
      exact absurd hat not_slotAt_padding
    · exact hlast.2
  obtain ⟨after, hafter, hwrites⟩ :=
    h ⟨lastOrder i, lastOrder i⟩ ⟨lastOrder_perm i, lastOrder_perm i⟩
  rw [writePackedCache_ok _ tensor before hD hW haddr] at hafter
  obtain rfl := Except.ok.inj hafter
  -- the padding token is stored last, so it is what the last slot ends up with
  obtain ⟨left, hcodes⟩ := putAll_lastOrder putPacked before.codes addr
    (fun i => (quantizeInt3 fp (tensor i)).packed) i
  obtain ⟨-, hscales⟩ := putAll_lastOrder (fun _ v => v) before.scales addr
    (fun i => (quantizeInt3 fp (tensor i)).scales) i
  rw [← storeAll_eq_putAll] at hscales
  refine ⟨addr i, hlast, fun k hk => ?_, fun hnone => ?_⟩
  · have hpacked : (quantizeInt3 fp (tensor k)).packed = (quantizeInt3 fp (tensor i)).packed := by
      funext hd j
      have hwide : packedDim D 3 ≤ W := by
        have hn : ¬ (n = 0 ∨ H = 0) := not_or.2 ⟨i.pos.ne', hd.pos.ne'⟩
        rwa [int3PackedWidth, if_neg hn] at hW
      have hj : j.1 < W := j.2.trans_le hwide
      have hnamed := hwrites.codes k (addr i) hk hd j hj
      dsimp only at hnamed
      rw [hcodes, putPacked, dif_pos j.2] at hnamed
      exact hnamed.symm
    have hscale := hwrites.scales k (addr i) hk
    dsimp only at hscale
    rw [hscales] at hscale
    dsimp only
    exact Int3Row.ext hpacked hscale.symm
  · obtain ⟨hkeep, hkeeps⟩ := hwrites.other (addr i) hnone
    dsimp only at hkeep hkeeps ⊢
    rw [hcodes] at hkeep
    rw [hscales] at hkeeps
    exact ⟨by rw [← hkeep, putPacked_putPacked], hkeeps.symm⟩

end Iff

end Side

section Main

variable {F B : Type} (fp : Fp F B) {n nb bs H D Dv W Wv : ℕ}

theorem reshapeAndCache_run {slots : Fin n → ℤ} {keyOrder valueOrder : WriteOrder n}
    {key : Fin n → Tok H D F} {value : Fin n → Tok H Dv F} {s s' : Int3Cache nb bs H W Wv F} :
    (reshapeAndCacheKvquantK3 fp slots keyOrder valueOrder key value).run s = .ok () s' ↔
      writePackedCache fp slots keyOrder key s.key = .ok s'.key ∧
        writePackedCache fp slots valueOrder value s.value = .ok s'.value := by
  unfold reshapeAndCacheKvquantK3
  rcases hk : writePackedCache fp slots keyOrder key s.key with e | k
  · simp only [EStateM.run_bind, EStateM.run_get, hk]
    constructor
    · rintro ⟨⟩
    · rintro ⟨⟨⟩, -⟩
  · simp only [EStateM.run_bind, EStateM.run_get, EStateM.run_set, hk]
    rcases hv : writePackedCache fp slots valueOrder value s.value with e | v
    · simp only
      constructor
      · rintro ⟨⟩
      · rintro ⟨-, ⟨⟩⟩
    · obtain ⟨k', v'⟩ := s'
      simp only [EStateM.run_set]
      constructor
      · rintro ⟨⟩
        exact ⟨rfl, rfl⟩
      · rintro ⟨⟨⟩, ⟨⟩⟩
        rfl

/-- No slot is padding, or there is a slot but no head to write into it. -/
def PadsNothing (nb bs H : ℕ) (slots : Fin n → ℤ) : Prop :=
  (∀ i, slots i ≠ -1) ∨ (H = 0 ∧ 0 < nb ∧ 0 < bs)

theorem PadsNothing.harmless {slots : Fin n → ℤ} (h : PadsNothing nb bs H slots)
    {rows : Fin n → Int3Row H D F} (before : SlotCache nb bs H W F) :
    PaddingHarmless slots rows before := by
  rcases h with hnone | ⟨hH, hnb, hbs⟩
  · exact paddingHarmless_of_forall before hnone
  · exact paddingHarmless_of_no_heads before hH hnb hbs

/-- Rows of any size can have different scales. -/
def ScalesDiffer : Prop := ∀ D, 0 < D → ∃ x y : Fin D → F, int3Scale fp x ≠ int3Scale fp y

variable {fp} in
/-- A padding token with another scale than every other token and than the whole cache does harm. -/
theorem padsNothing_of_harmless {slots : Fin n → ℤ} (hfp : ScalesDiffer fp) (hD : 0 < D)
    (h : ∀ (tensor : Fin n → Tok H D F) (before : SlotCache nb bs H W F),
      PaddingHarmless slots (fun i => quantizeInt3 fp (tensor i)) before) :
    PadsNothing nb bs H slots := by
  obtain ⟨x, y, hxy⟩ := hfp D hD
  by_cases hpad : ∀ i, slots i ≠ -1
  · exact Or.inl hpad
  push Not at hpad
  obtain ⟨i, hi⟩ := hpad
  obtain ⟨a, -, hsame, hfixed⟩ := h (fun k _ => if k = i then y else x)
    ⟨fun _ _ _ => 0, fun _ _ => int3Scale fp x⟩ i hi
  refine Or.inr ⟨?_, a.1.pos, a.2.pos⟩
  by_contra hH
  let head : Fin H := ⟨0, Nat.pos_of_ne_zero hH⟩
  by_cases hnamed : ∃ k, SlotAt (slots k) a
  · obtain ⟨k, hk⟩ := hnamed
    have hki : k ≠ i := by
      rintro rfl
      rw [hi] at hk
      exact not_slotAt_padding hk
    have hscale := congrFun (congrArg Int3Row.scales (hsame k hk)) head
    simp only [quantizeInt3, if_neg hki, if_true] at hscale
    exact hxy hscale
  · have hscale := congrFun (hfixed fun k hk => hnamed ⟨k, hk⟩).2 head
    simp only [quantizeInt3, if_true] at hscale
    exact hxy hscale

/-- `reshape_and_cache_kvquant_k3` writes the named slots and nothing else, for all tokens, all
caches and all orders in which its indexed assignments store, exactly when the rows are wide enough
and no slot is padding. -/
theorem reshapeAndCache_named_iff (hfp : ScalesDiffer fp) {slots : Fin n → ℤ}
    (hslots : SlotMapping nb bs slots) :
    (∀ (key : Fin n → Tok H D F) (value : Fin n → Tok H Dv F) (s : Int3Cache nb bs H W Wv F)
      (keyOrder valueOrder : WriteOrder n), keyOrder.Complete → valueOrder.Complete →
      ∃ s', (reshapeAndCacheKvquantK3 fp slots keyOrder valueOrder key value).run s = .ok () s' ∧
        WritesNamed slots (fun i => quantizeInt3 fp (key i)) s.key s'.key ∧
        WritesNamed slots (fun i => quantizeInt3 fp (value i)) s.value s'.value) ↔
      0 < D ∧ int3PackedWidth n H D ≤ W ∧ 0 < Dv ∧ int3PackedWidth n H Dv ≤ Wv ∧
        PadsNothing nb bs H slots := by
  constructor
  · intro h
    have hkeys : ∀ (key : Fin n → Tok H D F) (before : SlotCache nb bs H W F), _ :=
      fun key before => paddingHarmless_of_writes fp hslots key before fun order horder => by
        obtain ⟨s', hrun, hkey, -⟩ := h key (fun _ _ _ => fp.lit 0)
          ⟨before, fun _ _ _ => 0, fun _ _ => fp.lit 0⟩ order (tokenOrder n) horder
          (tokenOrder_complete n)
        exact ⟨s'.key, ((reshapeAndCache_run fp).1 hrun).1, hkey⟩
    obtain ⟨hD, hW, -⟩ := hkeys (fun _ _ _ => fp.lit 0) ⟨fun _ _ _ => 0, fun _ _ => fp.lit 0⟩
    obtain ⟨hDv, hWv, -⟩ := paddingHarmless_of_writes fp hslots
      (fun _ (_ : Fin H) (_ : Fin Dv) => fp.lit 0)
      (⟨fun _ _ _ => 0, fun _ _ => fp.lit 0⟩ : SlotCache nb bs H Wv F) fun order horder => by
        obtain ⟨s', hrun, -, hvalue⟩ := h (fun _ _ _ => fp.lit 0) (fun _ _ _ => fp.lit 0)
          ⟨⟨fun _ _ _ => 0, fun _ _ => fp.lit 0⟩, fun _ _ _ => 0, fun _ _ => fp.lit 0⟩
          (tokenOrder n) order (tokenOrder_complete n) horder
        exact ⟨s'.value, ((reshapeAndCache_run fp).1 hrun).2, hvalue⟩
    exact ⟨hD, hW, hDv, hWv,
      padsNothing_of_harmless hfp hD fun tensor before => (hkeys tensor before).2.2⟩
  · rintro ⟨hD, hW, hDv, hWv, hpad⟩ key value s keyOrder valueOrder hkey hvalue
    obtain ⟨k, hk, hkn⟩ :=
      writePackedCache_named fp hslots key s.key hD hW (hpad.harmless s.key) hkey
    obtain ⟨v, hv, hvn⟩ :=
      writePackedCache_named fp hslots value s.value hDv hWv (hpad.harmless s.value) hvalue
    exact ⟨⟨k, v⟩, (reshapeAndCache_run fp).2 ⟨hk, hv⟩, hkn, hvn⟩

/-- The scale of a row of one value throughout. -/
theorem int3Scale_const {B : Type} (toB : ℚ → B) (ofB : B → ℚ) {D : ℕ} (hD : 0 < D) {x : ℚ}
    (hx : 3 / 10 ^ 6 ≤ x) : int3Scale (exactFp toB ofB) (fun _ : Fin D => x) = x / 3 := by
  have hmem : |x| ∈ (List.ofFn fun _ : Fin D => x).map (exactFp toB ofB).abs :=
    List.mem_map.2 ⟨x, List.mem_ofFn.2 ⟨⟨0, hD⟩, rfl⟩, rfl⟩
  have hmax : (exactFp toB ofB).amax ((List.ofFn fun _ : Fin D => x).map (exactFp toB ofB).abs)
      = |x| := by
    refine amax_exact hmem fun v hv => ?_
    obtain ⟨w, hw, rfl⟩ := List.mem_map.1 hv
    obtain ⟨-, rfl⟩ := List.mem_ofFn.1 hw
    exact le_rfl
  rw [int3Scale, hmax, abs_of_nonneg (by linarith)]
  exact max_eq_left (show (1 / 10 ^ 6 : ℚ) ≤ x / 3 by linarith)

theorem exactFp_scalesDiffer {B : Type} (toB : ℚ → B) (ofB : B → ℚ) :
    ScalesDiffer (exactFp toB ofB) := by
  intro D hD
  refine ⟨fun _ => 3, fun _ => 6, ?_⟩
  rw [int3Scale_const toB ofB hD (by norm_num), int3Scale_const toB ofB hD (by norm_num)]
  norm_num

/-- One block of two slots with zero codes and unit scales. -/
def twoSlots : Int3Cache 1 2 1 7 7 ℚ :=
  ⟨⟨fun _ _ _ => 0, fun _ _ => 1⟩, ⟨fun _ _ _ => 0, fun _ _ => 1⟩⟩

/-- Two tokens of eight entries that rise from their number on. -/
def risingTokens (i : Fin 2) : Tok 1 8 ℚ := fun _ d => i + d

/-- Two tokens put into the slots of one block in reverse. -/
theorem reshapeAndCache_named_iff_two_slots : SlotMapping 1 2 (fun i : Fin 2 => 1 - i.1) ∧
    ∃ s', (reshapeAndCacheKvquantK3 ratFp (fun i : Fin 2 => 1 - i.1) (tokenOrder 2) (tokenOrder 2)
        risingTokens fun i => risingTokens (1 - i)).run twoSlots = .ok () s' ∧
      WritesNamed (fun i : Fin 2 => 1 - i.1) (fun i => quantizeInt3 ratFp (risingTokens i))
        twoSlots.key s'.key ∧
      WritesNamed (fun i : Fin 2 => 1 - i.1) (fun i => quantizeInt3 ratFp (risingTokens (1 - i)))
        twoSlots.value s'.value := by
  have hslots : SlotMapping 1 2 (fun i : Fin 2 => 1 - i.1) := ⟨by decide, by decide⟩
  have hwide : 0 < 8 ∧ int3PackedWidth 2 1 8 ≤ 7 ∧ 0 < 8 ∧ int3PackedWidth 2 1 8 ≤ 7 ∧
      PadsNothing 1 2 1 fun i : Fin 2 => (1 - i.1 : ℤ) :=
    ⟨by decide, by decide, by decide, by decide, Or.inl (by decide)⟩
  exact ⟨hslots, (reshapeAndCache_named_iff ratFp (exactFp_scalesDiffer _ _) hslots).2 hwide
    risingTokens (fun i => risingTokens (1 - i)) twoSlots (tokenOrder 2) (tokenOrder 2)
    (tokenOrder_complete 2) (tokenOrder_complete 2)⟩

/-- A lone padding token overwrites the scale of the second slot, which nothing names. -/
theorem reshapeAndCache_padding_writes : SlotMapping 1 2 (fun _ : Fin 1 => -1) ∧
    ∃ s', (reshapeAndCacheKvquantK3 ratFp (fun _ : Fin 1 => -1) (tokenOrder 1) (tokenOrder 1)
        (fun _ (_ : Fin 1) (_ : Fin 8) => 1) fun _ (_ : Fin 1) (_ : Fin 8) => 1).run twoSlots
        = .ok () s' ∧
      twoSlots.key.scales (0, 1) 0 = 1 ∧ s'.key.scales (0, 1) 0 = 1 / 3 ∧
      ¬ WritesNamed (fun _ : Fin 1 => -1)
        (fun _ => quantizeInt3 ratFp fun (_ : Fin 1) (_ : Fin 8) => 1) twoSlots.key s'.key := by
  have hslots : SlotMapping 1 2 (fun _ : Fin 1 => -1) :=
    ⟨fun _ => Or.inl rfl, fun i k _ _ => Subsingleton.elim i k⟩
  have haddr : ∀ _ : Fin 1, slotAddress 1 2 (-1) = .ok (0, 1) := fun _ =>
    slotAddress_padding (by decide) (by decide)
  have hwrite : ∀ cache : SlotCache 1 2 1 7 ℚ, writePackedCache ratFp (fun _ : Fin 1 => -1)
      (tokenOrder 1) (fun _ (_ : Fin 1) (_ : Fin 8) => 1) cache = .ok
        ⟨putAll putPacked cache.codes [((0, 1), (quantizeInt3 ratFp fun _ _ => 1).packed)],
          storeAll cache.scales [((0, 1), (quantizeInt3 ratFp fun _ _ => 1).scales)]⟩ :=
    fun cache => writePackedCache_ok (tokenOrder 1) _ cache (by decide) (by decide) haddr
  have hscale : storeAll twoSlots.key.scales
      [((0, 1), (quantizeInt3 ratFp fun (_ : Fin 1) (_ : Fin 8) => 1).scales)] (0, 1) 0
        = 1 / 3 := by
    rw [storeAll_cons, storeAll_nil, Function.update_self]
    decide +kernel
  refine ⟨hslots, ⟨_, _⟩, (reshapeAndCache_run ratFp).2 ⟨hwrite _, hwrite _⟩, rfl, hscale, ?_⟩
  intro hwrites
  have hkeep := (hwrites.other (0, 1) fun _ => not_slotAt_padding).2
  have hkeep0 := congrFun hkeep 0
  dsimp only at hkeep0
  rw [hscale] at hkeep0
  exact absurd hkeep0 (by decide +kernel)

end Main

end RabitKV
