import RabitKV.Canonical
import RabitKV.Proofs.Exact
import RabitKV.Proofs.Online

/-!
# The incremental evaluator against its definition

Both decode the old tokens through `kRegion` and `vRegion`: the definition as one region, the
incremental state row by row of 32 tokens (`byRows`). For V the two agree at every supported
geometry. For K they agree if the head dimension is a multiple of 64 or there is one row; else a
metadata group of the whole region runs into the next row of tokens where the page alone runs into
the next head.
-/

namespace RabitKV

open Chunks

section Codec

variable {F B : Type} (fp : Fp F B) {H D : ℕ}

theorem meta8Roundtrip_decoded (flat : List F) :
    (meta8Roundtrip fp flat).decoded = metaDecoded fp flat := by
  have hlen := length_flatMap_groupDecoded fp _ (padLast_dvd fp flat)
  rw [length_padLast] at hlen
  have hgroup : (fun g => decodeGroup fp (metaCodes fp g) (fp.toB (metaScale fp g))
      (fp.toB (fp.amin g))) = groupDecoded fp := rfl
  unfold meta8Roundtrip metaDecoded
  simp only [hgroup]
  split_ifs with h0
  · refine (List.take_of_length_le ?_).symm
    rw [hlen, h0, Nat.add_zero]
  · rw [hlen, Nat.add_sub_cancel]

/-- What raw K tokens decode to as one region. -/
def rawKRegion (rawK : List (Tok H D B)) : List (Tok H D F) :=
  kRegion fp (rawK.map (Tok.map fp.ofB))

/-- What raw V tokens decode to as one region. -/
def rawVRegion (rawV : List (Tok H D B)) : List (Tok H D F) :=
  vRegion fp (rawV.map (Tok.map fp.ofB))

theorem canonicalK3_decoded (rawK : List (Tok H D B)) :
    (canonicalK3 fp rawK).decoded = rawKRegion fp rawK := by
  rw [rawKRegion, kRegion_eq, List.length_map]
  simp only [canonicalK3, meta8Roundtrip_decoded, kMetaAt, List.length_map]

theorem canonicalV2_decoded (rawV : List (Tok H D B)) :
    (canonicalV2 fp rawV).decoded = rawVRegion fp rawV := by
  rw [rawVRegion, vRegion_eq, vDecoded, dequantizeV2FromPrimary]
  simp only [canonicalV2, meta8Roundtrip_decoded]
  refine List.ext_getElem (by simp) fun t ht _ => ?_
  simp only [List.getElem_mapIdx, List.getElem_map, unpackCode_v2Packed]

@[simp] theorem rawKRegion_nil : rawKRegion (H := H) (D := D) fp [] = [] := by
  simp [rawKRegion]

@[simp] theorem rawVRegion_nil : rawVRegion (H := H) (D := D) fp [] = [] := by
  simp [rawVRegion]

@[simp] theorem length_rawKRegion (rawK : List (Tok H D B)) :
    (rawKRegion fp rawK).length = rawK.length := by
  simp [rawKRegion]

theorem rawKRegion_append (hD : metadataGroupSize ∣ D) (xs ys : List (Tok H D B))
    (h : xs.length = groupSize) :
    rawKRegion fp (xs ++ ys) = rawKRegion fp xs ++ rawKRegion fp ys := by
  unfold rawKRegion
  rw [List.map_append, kRegion_append fp hD (by rw [List.length_map, h])]

theorem rawVRegion_append (hv : metadataGroupSize ∣ groupSize * (H * vGroups D))
    (xs ys : List (Tok H D B)) (h : xs.length = groupSize) :
    rawVRegion fp (xs ++ ys) = rawVRegion fp xs ++ rawVRegion fp ys := by
  unfold rawVRegion
  rw [List.map_append, vRegion_append fp (by rwa [List.length_map, h])]

/-- All tokens but the residual. -/
def oldTokens {α : Type} (l : List α) : List α := l.take (l.length - residualTokens)

/-- The residual. -/
def newTokens {α : Type} (l : List α) : List α := l.drop (l.length - residualTokens)

theorem canonicalState_decoded (rawK rawV : List (Tok H D B)) (hlen : rawK.length = rawV.length) :
    (canonicalState fp rawK rawV).decodedK
        = rawKRegion fp (oldTokens rawK) ++ (newTokens rawK).map (Tok.map fp.ofB) ∧
      (canonicalState fp rawK rawV).decodedV
        = rawVRegion fp (oldTokens rawV) ++ (newTokens rawV).map (Tok.map fp.ofB) := by
  have hold : rawK.length - min rawK.length residualTokens
      = rawK.length - residualTokens := by omega
  unfold canonicalState oldTokens newTokens
  simp only [hold, ← hlen]
  by_cases h0 : rawK.length - residualTokens = 0
  · simp only [h0, if_true, List.take_zero, rawKRegion_nil, rawVRegion_nil, Option.map_none,
      Option.getD_none, and_self]
  · simp only [h0, if_false, Option.map_some, Option.getD_some, canonicalK3_decoded,
      canonicalV2_decoded, and_self]

end Codec

section Loop

variable {F B : Type} (fp : Fp F B) {H D : ℕ}

theorem catOpt_eq {α : Type} (o : Option (List α)) (l : List α) : catOpt o l = o.getD [] ++ l := by
  rcases o with _ | a <;> rfl

theorem close_full {closedK closedV : Option (List (Tok H D F))} {tailK tailV : List (Tok H D B)}
    (h : residualTokens + groupSize ≤ tailK.length) :
    CanonicalLayer.close fp closedK closedV tailK tailV
      = CanonicalLayer.close fp (some (closedK.getD [] ++ rawKRegion fp (tailK.take groupSize)))
          (some (closedV.getD [] ++ rawVRegion fp (tailV.take groupSize))) (tailK.drop groupSize)
          (tailV.drop groupSize) := by
  rw [CanonicalLayer.close, if_pos h, canonicalK3_decoded, canonicalV2_decoded, catOpt_eq,
    catOpt_eq]

theorem close_short {closedK closedV : Option (List (Tok H D F))} {tailK tailV : List (Tok H D B)}
    (h : ¬ residualTokens + groupSize ≤ tailK.length) :
    CanonicalLayer.close fp closedK closedV tailK tailV
      = ⟨closedK, closedV, some tailK, some tailV⟩ := by
  rw [CanonicalLayer.close, if_neg h]

theorem sub_groupSize_lt {n : ℕ} (h : residualTokens + groupSize ≤ n) : n - groupSize < n := by
  unfold groupSize at *
  omega

/-- Appending to a closed state is closing the longer tail. -/
theorem close_append (rawK rawV : List (Tok H D B)) :
    ∀ (n : ℕ) (closedK closedV : Option (List (Tok H D F))) {tailK tailV : List (Tok H D B)},
      tailK.length = n → tailV.length = n →
      (CanonicalLayer.close fp closedK closedV tailK tailV).append fp rawK rawV
        = CanonicalLayer.close fp closedK closedV (tailK ++ rawK) (tailV ++ rawV) := by
  intro n
  induction n using Nat.strong_induction_on with
  | _ n ih =>
    intro closedK closedV tailK tailV hk hv
    by_cases hfull : residualTokens + groupSize ≤ tailK.length
    · have hgroup : groupSize ≤ tailK.length := by omega
      have hgroup' : groupSize ≤ tailV.length := by omega
      have hlong : residualTokens + groupSize ≤ (tailK ++ rawK).length := by
        rw [List.length_append]
        omega
      rw [close_full fp hfull, close_full fp hlong, List.take_append_of_le_length hgroup,
        List.take_append_of_le_length hgroup', List.drop_append_of_le_length hgroup,
        List.drop_append_of_le_length hgroup']
      refine ih (n - groupSize) (sub_groupSize_lt (hk ▸ hfull)) _ _ ?_ ?_
      · rw [List.length_drop, hk]
      · rw [List.length_drop, hv]
    · rw [close_short fp hfull, CanonicalLayer.append, catOpt_eq, catOpt_eq]
      rfl

/-- The state does not depend on how the tokens were cut. -/
theorem appends_eq : ∀ (chunks : List (List (Tok H D B × Tok H D B))), chunks ≠ [] →
    ({} : CanonicalLayer H D F B).appends fp chunks
      = CanonicalLayer.close fp none none (chunks.flatten.map Prod.fst)
          (chunks.flatten.map Prod.snd) := by
  intro chunks
  induction chunks using List.reverseRecOn with
  | nil => exact fun h => absurd rfl h
  | append_singleton chunks chunk ih =>
    intro _
    rw [CanonicalLayer.appends, List.foldl_append, List.flatten_append, List.flatten_singleton,
      List.map_append, List.map_append]
    rcases chunks with _ | ⟨c, chunks⟩
    · rfl
    · rw [← close_append fp _ _ _ none none (List.length_map _) (List.length_map _),
        ← ih (List.cons_ne_nil _ _)]
      rfl

theorem close_n : ∀ (n : ℕ) (closedK closedV : Option (List (Tok H D F)))
    {tailK tailV : List (Tok H D B)}, tailK.length = n →
    (CanonicalLayer.close fp closedK closedV tailK tailV).n = lenOpt closedK + n := by
  intro n
  induction n using Nat.strong_induction_on with
  | _ n ih =>
    intro closedK closedV tailK tailV hk
    by_cases hfull : residualTokens + groupSize ≤ tailK.length
    · have htake : (tailK.take groupSize).length = groupSize := by
        rw [List.length_take]
        omega
      rw [close_full fp hfull, ih (n - groupSize) (sub_groupSize_lt (hk ▸ hfull)) _ _
        (by rw [List.length_drop, hk]), lenOpt_eq, lenOpt_eq, Option.getD_some, List.length_append,
        length_rawKRegion, htake]
      omega
    · rw [close_short fp hfull, ← hk]
      rfl

/-- The tail decodes row by row. -/
theorem close_decoded : ∀ (n : ℕ) (closedK closedV : Option (List (Tok H D F)))
    {tailK tailV : List (Tok H D B)}, tailK.length = n → tailV.length = n →
    (CanonicalLayer.close fp closedK closedV tailK tailV).decoded fp
      = .ok (closedK.getD [] ++ byRows groupSize (rawKRegion fp) (oldTokens tailK)
            ++ (newTokens tailK).map (Tok.map fp.ofB),
          closedV.getD [] ++ byRows groupSize (rawVRegion fp) (oldTokens tailV)
            ++ (newTokens tailV).map (Tok.map fp.ofB)) := by
  intro n
  induction n using Nat.strong_induction_on with
  | _ n ih =>
    intro closedK closedV tailK tailV hk hv
    by_cases hfull : residualTokens + groupSize ≤ tailK.length
    · have hrow : ∀ {tail : List (Tok H D B)}, tail.length = n →
          oldTokens tail = tail.take groupSize ++ oldTokens (tail.drop groupSize) ∧
            newTokens tail = newTokens (tail.drop groupSize) := by
        intro tail ht
        unfold oldTokens newTokens
        rw [List.length_drop, List.drop_drop, ← List.take_add]
        exact ⟨by congr 1; omega, by congr 1; omega⟩
      have htake : ∀ {tail : List (Tok H D B)}, tail.length = n →
          (tail.take groupSize).length = groupSize := by
        intro tail ht
        rw [List.length_take]
        omega
      rw [close_full fp hfull, ih (n - groupSize) (sub_groupSize_lt (hk ▸ hfull)) _ _
        (by rw [List.length_drop, hk]) (by rw [List.length_drop, hv]), (hrow hk).1, (hrow hk).2,
        (hrow hv).1, (hrow hv).2, byRows_append groupSize_pos (htake hk),
        byRows_append groupSize_pos (htake hv)]
      simp only [Option.getD_some, List.append_assoc]
    · have hold : tailK.length - min tailK.length residualTokens
          = tailK.length - residualTokens := by
        omega
      have hlt : ∀ {tail : List (Tok H D B)}, tail.length = n →
          (oldTokens tail).length < groupSize := by
        intro tail ht
        have hpos := groupSize_pos
        rw [oldTokens, List.length_take]
        omega
      rw [close_short fp hfull, CanonicalLayer.decoded, byRows_of_lt (hlt hk),
        byRows_of_lt (hlt hv)]
      simp only [hold, canonicalK3_decoded, canonicalV2_decoded]
      unfold oldTokens newTokens
      rw [hk, hv]
      by_cases h0 : n - residualTokens = 0
      · simp only [h0, if_true, List.take_zero, rawKRegion_nil, rawVRegion_nil]
      · simp only [h0, if_false]

end Loop

section Stray

variable {B : Type} {toB : ℚ → B} {ofB : B → ℚ} {H D : ℕ}

/-- A group with values from -1000 to 1 moves its zeros. -/
theorem metaValue_stray {g : List ℚ} (hmin : -1000 ∈ g) (hmax : 1 ∈ g)
    (hle : ∀ x ∈ g, -1000 ≤ x ∧ x ≤ 1) :
    metaValue (exactFp toB ofB) g 0 = 255 * ofB (toB (1001 / 255)) + ofB (toB (-1000)) := by
  have hscale : metaScale (exactFp toB ofB) g = 1001 / 255 := by
    rw [metaScale, amin_exact hmin fun x hx => (hle x hx).1,
      amax_exact hmax fun x hx => (hle x hx).2]
    norm_num [Fp.affineScale, exactFp]
  have hcode : (exactFp toB ofB).affineCode 255 (-1000) (1001 / 255) 0 = 255 := by
    have hfloor : ⌊(255000 / 1001 : ℚ)⌋ = 254 := by norm_num
    norm_num [Fp.affineCode, exactFp, roundHalfEven, hfloor]
    rfl
  rw [metaValue, hscale, amin_exact hmin fun x hx => (hle x hx).1, hcode]
  rfl

/-- A group without negative values keeps them. -/
theorem metaValue_plain {g : List ℚ} (hmin : 0 ∈ g) (hle : ∀ x ∈ g, 0 ≤ x) :
    metaValue (exactFp toB ofB) g 0 = ofB (toB 0) := by
  have hcode : ∀ s : ℚ, (exactFp toB ofB).affineCode 255 0 s 0 = 0 := fun s => by
    norm_num [Fp.affineCode, exactFp, roundHalfEven]
  rw [metaValue, amin_exact hmin hle, hcode, Fp.affineValue]
  simp [exactFp]

/-- An entry of the first token that is the least of its group decodes to its own minimum. -/
theorem kRegion_first {x : List (Tok H D ℚ)} {a : Tok H D ℚ} {g : List (Tok H D ℚ)}
    {gs : List (List (Tok H D ℚ))} (hx : x ≠ [])
    (hgroups : seqGroups (exactFp toB ofB) x = (a :: g) :: gs) {h : Fin H} {d : Fin D}
    (hmin : kMin (exactFp toB ofB) (a :: g) h d = a h d) :
    (kRegion (exactFp toB ofB) x)[0]?.map (fun t => t h d)
      = some (kMetaAt (exactFp toB ofB) ((seqGroups (exactFp toB ofB) x).map
          (kMin (exactFp toB ofB))) h 0 d) := by
  have hcode : (exactFp toB ofB).affineCode 7 (kMin (exactFp toB ofB) (a :: g) h d)
      (kScale (exactFp toB ofB) (a :: g) h d) (a h d) = 0 := by
    rw [hmin]
    norm_num [Fp.affineCode, exactFp, roundHalfEven]
  rw [kRegion_eq, List.getElem?_take_of_lt (List.length_pos_of_ne_nil hx), List.getElem?_mapIdx,
    hgroups, List.flatMap_cons, kCodes, List.map_cons (l := g), List.cons_append,
    List.getElem?_cons_zero, Option.map_some, Option.map_some]
  simp only [hcode, Fp.affineValue, Nat.zero_div]
  simp [exactFp]

/-- A token that is zero but for channel `c` of the first head. -/
def spike {α : Type} (zero v : α) (c : ℕ) : Tok H D α := fun h d =>
  if h.1 = 0 ∧ d.1 = c then v else zero

theorem spike_self {α : Type} (zero v : α) {c : ℕ} (h0 : 0 < H) (hc : c < D) :
    spike zero v c ⟨0, h0⟩ ⟨c, hc⟩ = v :=
  if_pos ⟨rfl, rfl⟩

theorem spike_of_ne {α : Type} (zero v : α) {c : ℕ} (h : Fin H) {d : Fin D} (hd : d.1 ≠ c) :
    spike zero v c h d = zero :=
  if_neg fun hc => hd hc.2

theorem spike_cases {α : Type} (zero v : α) (c : ℕ) (h : Fin H) (d : Fin D) :
    spike zero v c h d = v ∨ spike zero v c h d = zero := by
  unfold spike
  split_ifs
  · exact .inl rfl
  · exact .inr rfl

section Rows

variable {k : ℕ} {rows : List (Tok H D ℚ)}

theorem dvd_length_flatHeads (hdvd : metadataGroupSize ∣ H * D) (rows : List (Tok H D ℚ)) :
    metadataGroupSize ∣ (flatHeads rows).length := by
  rw [length_flatHeads, Nat.mul_left_comm]
  exact hdvd.mul_left _

variable (h0 : 0 < H)

theorem flatHeads_first {r : Tok H D ℚ} (hr : rows[0]? = some r) (j : Fin D) :
    (flatHeads rows)[j.1]? = some (r ⟨0, h0⟩ j) := by
  have hat := getElem?_flatHeads rows ⟨0, h0⟩ (List.getElem?_eq_some_iff.1 hr).1 j
  rwa [hr, Option.map_some, Nat.zero_mul, Nat.zero_add, Nat.zero_mul, Nat.zero_add] at hat

/-- With a second row the values after the first `D` are its own. -/
theorem flatHeads_next_row {r : Tok H D ℚ} (hr : rows[1]? = some r) (j : Fin D) :
    (flatHeads rows)[D + j]? = some (r ⟨0, h0⟩ j) := by
  have hat := getElem?_flatHeads rows ⟨0, h0⟩ (List.getElem?_eq_some_iff.1 hr).1 j
  rwa [hr, Option.map_some, Nat.zero_mul, Nat.zero_add, Nat.one_mul] at hat

/-- In one row they belong to the second head. -/
theorem flatHeads_next_head (h1 : 1 < H) (r : Tok H D ℚ) (j : Fin D) :
    (flatHeads [r])[D + j]? = some (r ⟨1, h1⟩ j) := by
  have hat := getElem?_flatHeads [r] ⟨1, h1⟩ (g := 0) Nat.one_pos j
  rwa [List.getElem?_cons_zero, Option.map_some, List.length_singleton, Nat.mul_one, Nat.add_zero,
    Nat.one_mul] at hat

variable (hD : D = metadataGroupSize * k + groupSize)

include hD

/-- The metadata group at the end of the first head reaches 32 values beyond it. -/
theorem edge_cases {j : ℕ} (hj : j / metadataGroupSize = k) :
    (∃ d : Fin D, j = d) ∨ ∃ d : Fin D, j = D + d := by
  unfold metadataGroupSize groupSize at *
  by_cases hlt : j < D
  · exact .inl ⟨⟨j, hlt⟩, rfl⟩
  · exact .inr ⟨⟨j - D, by omega⟩, by rw [Fin.val_mk]; omega⟩

theorem edge_lt {i : ℕ} (hi : i < 2) : metadataGroupSize * k + i < D := by
  unfold metadataGroupSize groupSize at *
  omega

omit hD in
theorem edge_div (k : ℕ) : (metadataGroupSize * k + 1) / metadataGroupSize = k := by
  unfold metadataGroupSize
  omega

theorem kMetaAt_stray (hdvd : metadataGroupSize ∣ H * D)
    (hfirst : rows[0]? = some (spike 0 1 (metadataGroupSize * k)))
    (hnext : rows[1]? = some (spike (0 : ℚ) (-1000) 0)) :
    kMetaAt (exactFp toB ofB) rows ⟨0, h0⟩ 0 ⟨metadataGroupSize * k + 1, edge_lt hD Nat.one_lt_two⟩
      = 255 * ofB (toB (1001 / 255)) + ofB (toB (-1000)) := by
  have hpos : 0 < D := Nat.zero_lt_of_lt (edge_lt hD Nat.two_pos)
  have hmem := fun {x : ℚ} {i : ℕ} => mem_metaGroup_iff (exactFp toB ofB) (x := x) (i := i)
    (dvd_length_flatHeads hdvd rows)
  rw [kMetaAt_eq _ hfirst, spike_of_ne _ _ _ (by simp)]
  simp only [Nat.zero_mul, Nat.zero_add]
  refine metaValue_stray ?_ ?_ fun x hx => ?_
  · refine hmem.2 ⟨D + 0, ?_, ?_⟩
    · unfold metadataGroupSize groupSize at *
      omega
    · rw [flatHeads_next_row h0 hnext ⟨0, hpos⟩, spike_self]
  · refine hmem.2 ⟨metadataGroupSize * k + 0, ?_, ?_⟩
    · unfold metadataGroupSize
      omega
    · rw [flatHeads_first h0 hfirst ⟨_, edge_lt hD Nat.two_pos⟩]
      exact congrArg some (spike_self 0 1 h0 _)
  · obtain ⟨j, hj, hx⟩ := hmem.1 hx
    rcases edge_cases hD (hj.trans (edge_div k)) with ⟨d, rfl⟩ | ⟨d, rfl⟩
    · rw [flatHeads_first h0 hfirst] at hx
      rcases spike_cases (0 : ℚ) 1 (metadataGroupSize * k) ⟨0, h0⟩ d with hs | hs <;>
        · rw [hs] at hx
          cases hx
          norm_num
    · rw [flatHeads_next_row h0 hnext] at hx
      rcases spike_cases (0 : ℚ) (-1000) 0 ⟨0, h0⟩ d with hs | hs <;>
        · rw [hs] at hx
          cases hx
          norm_num

theorem kMetaAt_plain (hdvd : metadataGroupSize ∣ H * D) (h1 : 1 < H) :
    kMetaAt (exactFp toB ofB) [spike 0 1 (metadataGroupSize * k)] ⟨0, h0⟩ 0
      ⟨metadataGroupSize * k + 1, edge_lt hD Nat.one_lt_two⟩ = ofB (toB 0) := by
  have hmem := fun {x : ℚ} {i : ℕ} => mem_metaGroup_iff (exactFp toB ofB) (x := x) (i := i)
    (dvd_length_flatHeads hdvd [spike 0 1 (metadataGroupSize * k)])
  have hedge : (spike 0 1 (metadataGroupSize * k) : Tok H D ℚ) ⟨0, h0⟩
      ⟨metadataGroupSize * k + 1, edge_lt hD Nat.one_lt_two⟩ = 0 := spike_of_ne _ _ _ (by simp)
  rw [kMetaAt_eq _ (List.getElem?_cons_zero), hedge]
  simp only [Nat.zero_mul, Nat.zero_add]
  refine metaValue_plain ?_ fun x hx => ?_
  · refine hmem.2 ⟨metadataGroupSize * k + 1, rfl, ?_⟩
    rw [flatHeads_first h0 (List.getElem?_cons_zero) ⟨_, edge_lt hD Nat.one_lt_two⟩, hedge]
  · obtain ⟨j, hj, hx⟩ := hmem.1 hx
    have hs : ∀ h d, (0 : ℚ) ≤ spike (H := H) (D := D) 0 1 (metadataGroupSize * k) h d :=
      fun h d => by
        rcases spike_cases (0 : ℚ) 1 (metadataGroupSize * k) h d with hs | hs <;> simp [hs]
    rcases edge_cases hD (hj.trans (edge_div k)) with ⟨d, rfl⟩ | ⟨d, rfl⟩
    · rw [flatHeads_first h0 (List.getElem?_cons_zero)] at hx
      exact Option.some.inj hx ▸ hs _ _
    · rw [flatHeads_next_head h1] at hx
      exact Option.some.inj hx ▸ hs _ _

end Rows

section Groups

theorem kMin_least {g : List (Tok H D ℚ)} {a : Tok H D ℚ} (ha : a ∈ g)
    (hle : ∀ x ∈ g, ∀ h d, a h d ≤ x h d) : kMin (exactFp toB ofB) g = a := by
  funext h d
  refine amin_exact (List.mem_map_of_mem ha) fun y hy => ?_
  obtain ⟨x, hx, rfl⟩ := List.mem_map.1 hy
  exact hle x hx h d

theorem kMin_replicate {n : ℕ} (hn : n ≠ 0) (a : Tok H D ℚ) :
    kMin (exactFp toB ofB) (List.replicate n a) = a :=
  kMin_least (List.mem_replicate.2 ⟨hn, rfl⟩) fun _ hx _ _ =>
    le_of_eq (by rw [List.eq_of_mem_replicate hx])

/-- A token that is nowhere positive is the minimum of its group even among zeros. -/
theorem kMin_seqGroups_replicate {m : ℕ} (hm : m ≠ 0) {b : Tok H D ℚ} (hb : ∀ h d, b h d ≤ 0) :
    ((seqGroups (exactFp toB ofB) (List.replicate m b)).map (kMin (exactFp toB ofB)))[0]?
      = some b := by
  have hpad : groupSize ≤ (seqPad (exactFp toB ofB) (List.replicate m b)).length := by
    have hdvd := padTo_dvd groupSize_pos m
    rw [length_seqPad, List.length_replicate]
    exact Nat.le_of_dvd (by omega) hdvd
  have hdiv : 0 < (seqPad (exactFp toB ofB) (List.replicate m b)).length / groupSize :=
    Nat.div_pos hpad groupSize_pos
  obtain ⟨m, rfl⟩ := Nat.exists_eq_succ_of_ne_zero hm
  rw [List.getElem?_map, seqGroups, getElem?_chunks hdiv, Option.map_some, Nat.zero_mul,
    List.drop_zero]
  refine congrArg some (kMin_least ?_ fun x hx h d => ?_)
  · rw [seqPad, List.replicate_succ, List.cons_append]
    exact List.mem_cons_self
  · rcases List.mem_append.1 (List.mem_of_mem_take hx) with hx | hx
    · rw [List.eq_of_mem_replicate hx]
    · rw [List.eq_of_mem_replicate hx]
      exact hb h d

end Groups

section Regions

variable {k m : ℕ} {zero one low : B} (hz : ofB zero = 0) (ho : ofB one = 1) (hl : ofB low = -1000)
  (hD : D = metadataGroupSize * k + groupSize) (hdvd : metadataGroupSize ∣ H * D)

/-- One page with a spike at the end of the first head, then tokens far below zero. -/
def strayTokens (zero one low : B) (k m : ℕ) : List (Tok H D B) :=
  List.replicate groupSize (spike zero one (metadataGroupSize * k)) ++
    List.replicate m (spike zero low 0)

theorem map_spike (v : B) (c : ℕ) :
    Tok.map ofB (spike (H := H) (D := D) zero v c) = spike (ofB zero) (ofB v) c := by
  funext h d
  exact apply_ite ofB _ _ _

include hz ho hD hdvd

/-- What the page alone decodes to next to its spike. -/
theorem rawKRegion_page (toB : ℚ → B) (h1 : 1 < H) (ys : List (Tok H D ℚ)) :
    (rawKRegion (exactFp toB ofB)
        (List.replicate groupSize (spike zero one (metadataGroupSize * k))) ++ ys)[0]?.map
        (fun t => t ⟨0, by omega⟩ ⟨metadataGroupSize * k + 1, edge_lt hD Nat.one_lt_two⟩)
      = some (ofB (toB 0)) := by
  have hgroups : seqGroups (exactFp toB ofB) (List.replicate groupSize
      (spike (H := H) (D := D) (0 : ℚ) 1 (metadataGroupSize * k)))
      = [List.replicate groupSize (spike 0 1 (metadataGroupSize * k))] := by
    rw [seqGroups_of_dvd _ (by rw [List.length_replicate]),
      chunks_of_length groupSize_pos List.length_replicate]
  have hmin : kMin (exactFp toB ofB) (List.replicate groupSize
      (spike (H := H) (D := D) (0 : ℚ) 1 (metadataGroupSize * k)))
      = spike 0 1 (metadataGroupSize * k) := kMin_replicate (by decide) _
  rw [List.getElem?_append_left (by rw [length_rawKRegion, List.length_replicate]; decide),
    rawKRegion, List.map_replicate]
  change Option.map _ (kRegion _ (List.replicate groupSize (Tok.map ofB _)))[0]? = _
  rw [map_spike, hz, ho, kRegion_first (a := spike 0 1 (metadataGroupSize * k))
    (by simp [groupSize])
    hgroups (congrFun (congrFun hmin _) _), hgroups, List.map_singleton, hmin,
    kMetaAt_plain _ hD hdvd h1]

include hl

/-- What it decodes to inside the whole region. -/
theorem rawKRegion_stray (h0 : 0 < H) (hm : m ≠ 0) :
    (rawKRegion (exactFp toB ofB) (strayTokens zero one low k m))[0]?.map
        (fun t => t ⟨0, h0⟩ ⟨metadataGroupSize * k + 1, edge_lt hD Nat.one_lt_two⟩)
      = some (255 * ofB (toB (1001 / 255)) + ofB (toB (-1000))) := by
  have hmap : (strayTokens zero one low k m).map (Tok.map (exactFp toB ofB).ofB)
      = List.replicate groupSize (spike (H := H) (D := D) (0 : ℚ) 1 (metadataGroupSize * k)) ++
          List.replicate m (spike 0 (-1000) 0) := by
    rw [strayTokens, List.map_append, List.map_replicate, List.map_replicate, ← hz, ← ho, ← hl,
      ← map_spike, ← map_spike]
    rfl
  have hlen : (List.replicate groupSize (spike (H := H) (D := D) (0 : ℚ) 1
      (metadataGroupSize * k))).length = groupSize := List.length_replicate
  have hgroups : seqGroups (exactFp toB ofB) ((strayTokens zero one low k m).map
      (Tok.map (exactFp toB ofB).ofB))
      = List.replicate groupSize (spike (H := H) (D := D) (0 : ℚ) 1 (metadataGroupSize * k)) ::
          seqGroups (exactFp toB ofB) (List.replicate m (spike 0 (-1000) 0)) := by
    rw [hmap, seqGroups_append _ (Dvd.intro 1 (by rw [hlen, Nat.mul_one])),
      chunks_of_length groupSize_pos hlen]
    rfl
  have hmin : kMin (exactFp toB ofB) (List.replicate groupSize
      (spike (H := H) (D := D) (0 : ℚ) 1 (metadataGroupSize * k)))
      = spike 0 1 (metadataGroupSize * k) := kMin_replicate (by decide) _
  have hne : (strayTokens (H := H) (D := D) zero one low k m).map
      (Tok.map (exactFp toB ofB).ofB) ≠ [] := by
    rw [hmap]
    simp [groupSize]
  have hneg : ∀ h d, spike (H := H) (D := D) (0 : ℚ) (-1000) 0 h d ≤ 0 := fun h d => by
    rcases spike_cases (0 : ℚ) (-1000) 0 h d with hs | hs <;> norm_num [hs]
  rw [rawKRegion, kRegion_first (a := spike 0 1 (metadataGroupSize * k)) hne hgroups
    (congrFun (congrFun hmin _) _), hgroups, List.map_cons, hmin,
    kMetaAt_stray _ hD hdvd List.getElem?_cons_zero]
  exact kMin_seqGroups_replicate hm hneg

/-- Row by row is not the whole region if bfloat16 keeps the two values apart. -/
theorem byRows_stray (h1 : 1 < H) (hm : m ≠ 0)
    (hne : ofB (toB 0) ≠ 255 * ofB (toB (1001 / 255)) + ofB (toB (-1000))) :
    byRows groupSize (rawKRegion (exactFp toB ofB)) (strayTokens (H := H) (D := D) zero one low k m)
      ≠ rawKRegion (exactFp toB ofB) (strayTokens zero one low k m) := by
  intro heq
  have hpage := rawKRegion_page hz ho hD hdvd toB h1
    (byRows groupSize (rawKRegion (exactFp toB ofB)) (List.replicate m (spike zero low 0)))
  rw [← byRows_append groupSize_pos List.length_replicate, ← strayTokens, heq,
    rawKRegion_stray hz ho hl hD hdvd (by omega) hm] at hpage
  exact hne (Option.some.inj hpage).symm

end Regions

end Stray

section Canonical

variable {F B : Type} (fp : Fp F B) {H D : ℕ}

/-- The decoded incremental state, whatever the split. -/
theorem appends_decoded {chunks : List (List (Tok H D B × Tok H D B))} (h : chunks ≠ []) :
    (({} : CanonicalLayer H D F B).appends fp chunks).decoded fp
      = .ok (byRows groupSize (rawKRegion fp) (oldTokens (chunks.flatten.map Prod.fst)) ++
            (newTokens (chunks.flatten.map Prod.fst)).map (Tok.map fp.ofB),
          byRows groupSize (rawVRegion fp) (oldTokens (chunks.flatten.map Prod.snd)) ++
            (newTokens (chunks.flatten.map Prod.snd)).map (Tok.map fp.ofB)) := by
  rw [appends_eq fp chunks h, close_decoded fp _ none none (List.length_map _) (List.length_map _)]
  rfl

theorem dvd_vGroups (hD : groupSize ∣ D) (hdvd : metadataGroupSize ∣ H * D) :
    metadataGroupSize ∣ groupSize * (H * vGroups D) := by
  obtain ⟨g, rfl⟩ := hD
  have hg : vGroups (groupSize * g) = g := by
    unfold vGroups groupSize
    omega
  rwa [hg, Nat.mul_left_comm]

theorem byRows_rawVRegion (hD : groupSize ∣ D) (hdvd : metadataGroupSize ∣ H * D)
    (rawV : List (Tok H D B)) : byRows groupSize (rawVRegion fp) rawV = rawVRegion fp rawV :=
  byRows_eq groupSize_pos (rawVRegion_append fp (dvd_vGroups hD hdvd)) rawV

theorem byRows_rawKRegion {rawK : List (Tok H D B)}
    (h : metadataGroupSize ∣ D ∨ rawK.length ≤ groupSize) :
    byRows groupSize (rawKRegion fp) rawK = rawKRegion fp rawK := by
  rcases h with hD | hlen
  · exact byRows_eq groupSize_pos (rawKRegion_append fp hD) rawK
  · rcases hlen.lt_or_eq with hlt | heq
    · exact byRows_of_lt hlt
    · have hrow := byRows_append (g := rawKRegion fp) groupSize_pos heq []
      rwa [byRows_of_lt (l := []) groupSize_pos, rawKRegion_nil, List.append_nil,
        List.append_nil] at hrow

theorem oldTokens_strayTokens (zero one low : B) (k m : ℕ) :
    oldTokens (strayTokens (H := H) (D := D) zero one low k (m + residualTokens))
      = strayTokens zero one low k m := by
  unfold oldTokens strayTokens
  rw [List.length_append, List.length_replicate, List.length_replicate, ← Nat.add_assoc,
    Nat.add_sub_cancel, List.take_append, List.length_replicate, List.take_of_length_le (by simp),
    Nat.add_sub_cancel_left, List.take_replicate, Nat.min_eq_left (Nat.le_add_right _ _)]

/-- The tokens that tell the two apart, with bfloat16 0, 1 and -1000. -/
def strayKV (H D k m : ℕ) : List (KV H D) :=
  (strayTokens 0 16256 50298 k (m + residualTokens)).map fun key => (key, fun _ _ => 0)

theorem appends_strayKV {k m : ℕ} (hD : D = metadataGroupSize * k + groupSize)
    (hdvd : metadataGroupSize ∣ H * D) (h1 : 1 < H) (hm : m ≠ 0) :
    (({} : CanonicalLayer H D ℚ Bf16).appends ratFp [strayKV H D k m]).decoded ratFp
      ≠ .ok ((canonicalState ratFp ((strayKV H D k m).map Prod.fst)
            ((strayKV H D k m).map Prod.snd)).decodedK,
          (canonicalState ratFp ((strayKV H D k m).map Prod.fst)
            ((strayKV H D k m).map Prod.snd)).decodedV) := by
  intro heq
  have hkeys : (strayKV H D k m).map Prod.fst
      = strayTokens 0 16256 50298 k (m + residualTokens) := by
    rw [strayKV, List.map_map]
    exact List.map_id _
  rw [appends_decoded ratFp (List.cons_ne_nil _ _), List.flatten_singleton,
    (canonicalState_decoded ratFp _ _ (by simp)).1] at heq
  have hk := List.append_cancel_right (Prod.mk.inj (Except.ok.inj heq)).1
  rw [hkeys, oldTokens_strayTokens] at hk
  exact byRows_stray (by decide +kernel) (by decide +kernel) (by decide +kernel) hD hdvd h1 hm
    (by decide +kernel) hk

/-- The incremental evaluator equals the definition for all tokens and splits exactly if K metadata
groups stay inside a page, or there is one page. -/
theorem canonical_decoded_iff {H D N : ℕ} (hH : 1 ≤ H) (hD : D % 32 = 0) (hHD : H * D % 64 = 0)
    (hN : 1 ≤ N) :
    (∀ (F : Type) (fp : Fp F Bf16) (tokens : List (KV H D)) (split : List (List (KV H D))),
        tokens.length = N → split.flatten = tokens →
        (({} : CanonicalLayer H D F Bf16).appends fp split).decoded fp
          = .ok ((canonicalState fp (tokens.map Prod.fst) (tokens.map Prod.snd)).decodedK,
              (canonicalState fp (tokens.map Prod.fst) (tokens.map Prod.snd)).decodedV))
      ↔ D % 64 = 0 ∨ N ≤ 36 := by
  have hdvd : metadataGroupSize ∣ H * D := Nat.dvd_of_mod_eq_zero hHD
  constructor
  · intro h
    by_contra hnot
    obtain ⟨hD64, hN36⟩ := not_or.1 hnot
    obtain ⟨k, hk⟩ : ∃ k, D = metadataGroupSize * k + groupSize :=
      ⟨D / 64, by unfold metadataGroupSize groupSize; omega⟩
    have h1 : 1 < H := by
      rcases hH.lt_or_eq with hlt | rfl
      · exact hlt
      · exact absurd (by rwa [Nat.one_mul] at hHD) hD64
    refine appends_strayKV (m := N - 36) hk hdvd h1 (by omega) (h ℚ ratFp _ _ ?_ (by simp))
    simp only [strayKV, strayTokens, List.length_map, List.length_append, List.length_replicate,
      groupSize, residualTokens]
    omega
  · rintro hcond F fp tokens split hlen rfl
    have hne : split ≠ [] := by
      rintro rfl
      exact absurd hlen (by rw [List.flatten_nil, List.length_nil]; omega)
    have hold : metadataGroupSize ∣ D ∨
        (oldTokens (split.flatten.map Prod.fst)).length ≤ groupSize := by
      refine hcond.imp Nat.dvd_of_mod_eq_zero fun h36 => ?_
      rw [oldTokens, List.length_take, List.length_map, hlen]
      unfold groupSize residualTokens
      omega
    have hstate := canonicalState_decoded fp (split.flatten.map Prod.fst)
      (split.flatten.map Prod.snd) (by rw [List.length_map, List.length_map])
    rw [appends_decoded fp hne, hstate.1, hstate.2, byRows_rawKRegion fp hold,
      byRows_rawVRegion fp (Nat.dvd_of_mod_eq_zero hD) hdvd]

/-- 37 tokens with two heads of 32 channels. -/
theorem canonical_decoded_two_heads :
    (({} : CanonicalLayer 2 32 ℚ Bf16).appends ratFp [strayKV 2 32 0 1]).decoded ratFp
      ≠ .ok ((canonicalState ratFp ((strayKV 2 32 0 1).map Prod.fst)
            ((strayKV 2 32 0 1).map Prod.snd)).decodedK,
          (canonicalState ratFp ((strayKV 2 32 0 1).map Prod.fst)
            ((strayKV 2 32 0 1).map Prod.snd)).decodedV) :=
  appends_strayKV (by decide) (by decide) (by decide) (by decide)

theorem canonical_decoded_iff_two_heads :
    ¬ ∀ (F : Type) (fp : Fp F Bf16) (tokens : List (KV 2 32)) (split : List (List (KV 2 32))),
        tokens.length = 37 → split.flatten = tokens →
        (({} : CanonicalLayer 2 32 F Bf16).appends fp split).decoded fp
          = .ok ((canonicalState fp (tokens.map Prod.fst) (tokens.map Prod.snd)).decodedK,
              (canonicalState fp (tokens.map Prod.fst) (tokens.map Prod.snd)).decodedV) :=
  fun h => absurd ((canonical_decoded_iff (by decide) (by decide) (by decide) (by decide)).1 h)
    (by decide)

/-- The logical evaluator and the serving reference hold the same values at every length. -/
theorem canonical_decoded_eq_online {F : Type} {H D N : ℕ} {layout : Rabit2PageLayout}
    (fp : Fp F Bf16) (cuda : Bool) (hinit : onlineInit H D D = .ok layout)
    (tokens : List (KV H D)) (hN : tokens.length = N) (hpos : 1 ≤ N)
    {split chunks : List (List (KV H D))} (hsplit : split.flatten = tokens)
    (hchunks : chunks.flatten = tokens) :
    ∃ s, (onlineAppends fp cuda chunks).run onlineNew = .ok () s ∧
      (({} : CanonicalLayer H D F Bf16).appends fp split).decoded fp
        = onlineMaterialize fp fp.float32 s ∧
      (({} : CanonicalLayer H D F Bf16).appends fp split).n = N ∧ onlineTotalTokens s = N := by
  have hD := (onlineInit_ok hinit).1
  have hv := (onlineInit_ok hinit).2
  have hne : split ≠ [] := by
    rintro rfl
    rw [← hsplit, List.flatten_nil, List.length_nil] at hN
    omega
  refine ⟨_, onlineAppends_new fp cuda (aligned_of_onlineInit hinit) chunks, ?_, ?_, ?_⟩
  · rw [hchunks, onlineMaterialize_seqWin fp hinit, appends_decoded fp hne, hsplit,
      byRows_rawKRegion fp (.inl hD), byRows_eq groupSize_pos (rawVRegion_append fp hv)]
    simp only [oldTokens, newTokens, rawKRegion, rawVRegion, List.length_map]
  · rw [appends_eq fp split hne, close_n fp _ none none rfl, hsplit, List.length_map, hN]
    exact Nat.zero_add _
  · rw [hchunks, onlineTotalTokens_seqWin, hN]

theorem canonical_decoded_eq_online_ramp :
    ∃ s, (onlineAppends ratFp false [rampTokens 1 64 39]).run onlineNew = .ok () s ∧
      (({} : CanonicalLayer 1 64 ℚ Bf16).appends ratFp
          [(rampTokens 1 64 39).take 7, (rampTokens 1 64 39).drop 7]).decoded ratFp
        = onlineMaterialize ratFp ratFp.float32 s ∧
      (({} : CanonicalLayer 1 64 ℚ Bf16).appends ratFp
          [(rampTokens 1 64 39).take 7, (rampTokens 1 64 39).drop 7]).n = 39 ∧
      onlineTotalTokens s = 39 :=
  have hinit : onlineInit 1 64 64 = .ok (pageLayout groupSize 1 64 64) := rfl
  canonical_decoded_eq_online ratFp false hinit (rampTokens 1 64 39) rfl (by decide) (by simp)
    (by simp)

end Canonical

end RabitKV
