import RabitKV.Bulk
import RabitKV.Lib.Checked
import RabitKV.Proofs.Runtime

/-!
# Bulk append is the token-by-token append

The vectorised writer makes the same bytes as the page codec (`encodePageVectorized_ok`), so a bulk
append is one batch of the window (`bulkAppend_run`); it raises before it changes anything.
-/

namespace RabitKV

open BitStream Checked Chunks Window Stores

section Int3

variable {n : ℕ} {codes : ℕ → ℕ}

/-- Eight codes below eight fill three bytes as the bit stream does. -/
theorem packInt3Direct_eq (hc : ∀ i, codes i < 8) {j : ℕ} (hj : j < packedDim n 3) :
    packInt3Direct n codes j = packByte 3 n codes j := by
  unfold packInt3Direct
  split_ifs with h8
  · rfl
  have hin : 8 * (j / 3) + 7 < n := by
    unfold packedDim at hj
    omega
  have hbit : ∀ r, j % 3 = r → ∀ k < 8, codeBit 3 n codes (8 * j + k)
      = codes (8 * (j / 3) + (8 * r + k) / 3) / 2 ^ ((8 * r + k) % 3) % 2 := by
    intro r hr k hk
    rw [codeBit, if_pos (by omega),
      show (8 * j + k) / 3 = 8 * (j / 3) + (8 * r + k) / 3 by omega,
      show (8 * j + k) % 3 = (8 * r + k) % 3 by omega]
  have hand : ∀ x, x &&& 3 = x % 4 := fun x => Nat.and_two_pow_sub_one_eq_mod x 2
  have c0 := hc (8 * (j / 3))
  have c1 := hc (8 * (j / 3) + 1)
  have c2 := hc (8 * (j / 3) + 2)
  have c3 := hc (8 * (j / 3) + 3)
  have c4 := hc (8 * (j / 3) + 4)
  have c5 := hc (8 * (j / 3) + 5)
  have c6 := hc (8 * (j / 3) + 6)
  have c7 := hc (8 * (j / 3) + 7)
  apply UInt8.toNat_inj.1
  rw [packByte_toNat (by decide)]
  rcases (show j % 3 = 0 ∨ j % 3 = 1 ∨ j % 3 = 2 by omega) with hr | hr | hr
  · rw [word_congr (hbit 0 hr)]
    simp only [hr, hand, UInt8.toNat_ofNat', Nat.add_zero]
    rw [or_shiftLeft (n := 3) (by omega), or_shiftLeft (n := 6) (by omega)]
    simp only [word, Finset.sum_range_succ, Finset.sum_range_zero]
    norm_num
    omega
  · rw [word_congr (hbit 1 hr)]
    simp only [hr, Nat.and_one_is_mod, Nat.shiftRight_eq_div_pow, UInt8.toNat_ofNat']
    rw [or_shiftLeft (n := 1) (by omega), or_shiftLeft (n := 4) (by omega),
      or_shiftLeft (n := 7) (by omega)]
    simp only [word, Finset.sum_range_succ, Finset.sum_range_zero]
    norm_num
    omega
  · rw [word_congr (hbit 2 hr)]
    simp only [hr, Nat.shiftRight_eq_div_pow, UInt8.toNat_ofNat']
    rw [or_shiftLeft (n := 2) (by omega), or_shiftLeft (n := 5) (by omega)]
    simp only [word, Finset.sum_range_succ, Finset.sum_range_zero]
    norm_num
    omega

end Int3

section Writer

variable {F : Type} (fp : Fp F Bf16) {H D : ℕ}

/-- A row of the vectorised metadata is the page's own blob. -/
theorem metaBlobPage_eq (shape : List ℕ) (flat : List F) :
    metaBlobPage fp flat = encodeMetadataBlob (encodeMetadataUint8Group fp shape flat) := by
  rcases flat with _ | ⟨x, xs⟩
  · simp [metaBlobPage, encodeMetadataBlob, encodeMetadataUint8Group, padLast, padTo, tensorAsBytes]
  · simp only [metaBlobPage, encodeMetadataBlob, encodeMetadataUint8Group, List.isEmpty_cons,
      Bool.false_eq_true, if_false, List.flatMap_def]

theorem length_metaBlobPage_parts {count : ℕ} {flat : List F} (h : flat.length = count) :
    (chunks metadataGroupSize (padLast fp flat)).length
      = (count + padTo metadataGroupSize count) / metadataGroupSize := by
  rw [length_chunks, length_padLast, h]

/-- Each page keeps its own row. -/
theorem metaBlobPages_eq {count : ℕ} (hcount : 0 < count) {pages : List (List F)} (hne : pages ≠ [])
    (hlen : ∀ page ∈ pages, page.length = count) :
    metaBlobPages fp pages.length pages.flatten = pages.map (metaBlobPage fp) := by
  have hpages : 0 < pages.length := List.length_pos_of_ne_nil hne
  have hgroups : ∀ page ∈ pages, (chunks metadataGroupSize (padLast fp page)).length
      = (count + padTo metadataGroupSize count) / metadataGroupSize := fun page hp =>
    length_metaBlobPage_parts fp (hlen page hp)
  have hk : 0 < (count + padTo metadataGroupSize count) / metadataGroupSize := by
    rw [add_padTo_div (by decide)]
    unfold metadataGroupSize
    omega
  generalize (count + padTo metadataGroupSize count) / metadataGroupSize = k at hgroups hk
  have hrows : chunks (pages.flatten.length / pages.length) pages.flatten = pages := by
    have hflat : pages.flatten.length = pages.length * count := by
      rw [← List.flatMap_id]
      exact length_flatMap_of_length (f := id) hlen
    rw [hflat, Nat.mul_div_cancel_left _ hpages, chunks_flatten hcount hlen]
  have hgrouped : chunks metadataGroupSize (pages.map (padLast fp)).flatten
      = pages.flatMap fun page => chunks metadataGroupSize (padLast fp page) := by
    rw [← List.flatMap_def]
    exact chunks_flatMap_of_dvd (by decide) fun page _ => padLast_dvd fp page
  have hcodes : ∀ page ∈ pages, ((chunks metadataGroupSize (padLast fp page)).flatMap
      (metaCodes fp)).length = k * metadataGroupSize := fun page hp => by
    rw [length_flatMap_of_length fun g hg => by rw [length_metaCodes, length_of_mem_chunks hg],
      hgroups page hp]
  have hbytes : ∀ (f : List F → Bf16), ∀ page ∈ pages,
      (tensorAsBytes ((chunks metadataGroupSize (padLast fp page)).map f)).length = k * 2 :=
    fun f page hp => by rw [length_tensorAsBytes, List.length_map, hgroups page hp]
  have hsec : ∀ f : List F → Bf16, chunks (k * 2) (tensorAsBytes ((pages.flatMap fun page =>
      chunks metadataGroupSize (padLast fp page)).map f))
        = pages.map fun page =>
          tensorAsBytes ((chunks metadataGroupSize (padLast fp page)).map f) :=
    fun f => by
      rw [tensorAsBytes, List.map_flatMap, List.flatMap_assoc]
      exact chunks_flatMap (by omega) (hbytes f)
  have hzip : ∀ f g : List F → List UInt8,
      List.zipWith (· ++ ·) (pages.map f) (pages.map g) = pages.map fun page => f page ++ g page :=
    fun f g => by rw [List.zipWith_map, List.zipWith_self]
  simp only [metaBlobPages, hrows, hgrouped, length_flatMap_of_length hgroups,
    Nat.mul_div_cancel_left _ hpages, List.flatMap_assoc, hsec]
  rw [chunks_flatMap (Nat.mul_pos hk (by decide)) hcodes, hzip, hzip]
  rfl

/-- A cut at a multiple of 64 splits compressed metadata and what it decodes to, and the vectorised
writer keeps the blob of each page in that page's row. -/
theorem metadata_cuts :
    (∀ (shape sx sy : List ℕ) (xs ys : List F), metadataGroupSize ∣ xs.length →
      let whole := encodeMetadataUint8Group fp shape (xs ++ ys)
      let left := encodeMetadataUint8Group fp sx xs
      let right := encodeMetadataUint8Group fp sy ys
      whole.codes = left.codes ++ right.codes ∧ whole.min = left.min ++ right.min ∧
        whole.scale = left.scale ++ right.scale ∧
        decodeMetadataUint8Group fp whole
          = decodeMetadataUint8Group fp left ++ decodeMetadataUint8Group fp right) ∧
      ∀ (count : ℕ) (pages : List (List F)), 0 < count → pages ≠ [] →
        (∀ page ∈ pages, page.length = count) → ∀ (p : ℕ) (hp : p < pages.length) (shape : List ℕ),
          (metaBlobPages fp pages.length pages.flatten)[p]?
            = some (encodeMetadataBlob (encodeMetadataUint8Group fp shape pages[p])) := by
  refine ⟨fun shape sx sy xs ys hxs => ?_, fun count pages hcount hne hlen p hp shape => ?_⟩
  · obtain ⟨hcodes, hmin, hscale⟩ := encodeMetadata_append fp shape sx sy hxs ys
    refine ⟨hcodes, hmin, hscale, ?_⟩
    rw [decodeMetadata_encode, decodeMetadata_encode, decodeMetadata_encode,
      metaDecoded_append fp hxs]
  · rw [metaBlobPages_eq fp hcount hne hlen, List.getElem?_map, List.getElem?_eq_getElem hp,
      Option.map_some, metaBlobPage_eq fp shape]

/-- Three pages of one value each. -/
theorem metadata_cuts_three_pages :
    (metaBlobPages ratFp 3 [1, 2, 3])[1]?
      = some (encodeMetadataBlob (encodeMetadataUint8Group ratFp [1] [2])) :=
  (metadata_cuts ratFp).2 1 [[1], [2], [3]] (by decide) (by decide) (by decide) 1 (by decide) [1]

theorem flatHeads_singleton {n : ℕ} {α : Type} (r : Tok H n α) :
    flatHeads [r] = flatTokens [r] := by
  simp [flatHeads, flatTokens]

/-- The vectorised writer makes the page of the codec. -/
theorem encodePageVectorized_ok (ha : Aligned H D) {key : List (Tok H D Bf16)}
    {vPacked : List (Tok H (vPackedDim D) UInt8)} {vMin vScale : List (Tok H (vGroups D) F)}
    (hk : key.length = groupSize) (hp : vPacked.length = groupSize)
    (hm : vMin.length = groupSize) (hs : vScale.length = groupSize) :
    encodePageVectorized fp key vPacked vMin vScale = .ok (pageOf fp key vPacked vMin vScale) := by
  have hk' : (key.map (Tok.map fp.ofB)).length = groupSize := by rw [List.length_map, hk]
  have hgroups := seqGroups_of_length fp hk'
  have hpack : (kCodes fp (key.map (Tok.map fp.ofB))).map
      (fun c h (j : Fin (packedDim D 3)) => packInt3Direct D (ext (c h)) j)
      = (kCodes fp (key.map (Tok.map fp.ofB))).map fun c h => packRow 3 (c h) := by
    refine List.map_congr_left fun c hc => ?_
    funext h j
    refine packInt3Direct_eq (fun i => ?_) j.2
    unfold ext
    split_ifs with hi
    · exact kCodes_lt fp hc h ⟨i, hi⟩
    · decide
  have hblobs : vectorizedBlobs fp key vPacked vMin vScale
      = pageBlobs (k3State fp (key.map (Tok.map fp.ofB))) vPacked (encodeVMetadata fp vMin)
        (encodeVMetadata fp vScale) := by
    simp only [vectorizedBlobs, pageBlobs, k3State, hgroups, List.flatMap_singleton,
      List.map_singleton, encodeVMetadata, ← metaBlobPage_eq, flatHeads_singleton, hpack]
  rw [encodePageVectorized, hblobs]
  exact assemblePage_ok vectorizedMismatch (pageBlobs_fits fp ha hk' hp hm hs)

end Writer

section Entries

variable {F ι : Type} [DecidableEq ι] (fp : Fp F Bf16) {H D : ℕ}

/-- Entries as the four tensors that hold them. -/
def toAll (es : List (Aged H D F)) : AllEntries H D F :=
  ⟨es.map Aged.k, es.map Aged.vPacked, es.map Aged.vMin, es.map Aged.vScale⟩

theorem length_toAll_k (es : List (Aged H D F)) : (toAll es).k.length = es.length :=
  List.length_map _

/-- The aged tokens join the open group. -/
theorem allEntries_eq (opened : List (Aged H D F)) (recent aged : List (KV H D)) :
    allEntries fp (toSidecar opened recent) (aged.map Prod.fst) (aged.map Prod.snd)
      = toAll (opened ++ aged.map (ageKV fp)) := by
  unfold allEntries
  simp only [quantizeV2PrimaryRef, toAll, List.map_append, List.map_map, toSidecar_openVPacked,
    toSidecar_openVMin, toSidecar_openVScale, catOpt_optList]
  rcases opened with _ | ⟨e, es⟩
  · rfl
  · rfl

variable {encode : List (Tok H D Bf16) → List (Tok H (vPackedDim D) UInt8) →
  List (Tok H (vGroups D) F) → List (Tok H (vGroups D) F) → Except String (List UInt8)}

/-- A writer of one page that agrees with the codec on full groups. -/
def Encodes (encode : List (Tok H D Bf16) → List (Tok H (vPackedDim D) UInt8) →
    List (Tok H (vGroups D) F) → List (Tok H (vGroups D) F) → Except String (List UInt8)) : Prop :=
  ∀ es : List (Aged H D F), es.length = groupSize →
    encode (es.map Aged.k) (es.map Aged.vPacked) (es.map Aged.vMin) (es.map Aged.vScale)
      = .ok (pageOfGroup fp es)

theorem encodeFullPages_eq (henc : Encodes fp encode) (es : List (Aged H D F)) :
    encodeFullPages encode (toAll es) (es.length / groupSize)
      = .ok ((chunks groupSize es).map (pageOfGroup fp)) := by
  unfold encodeFullPages chunks
  rw [List.map_map]
  refine mapM_ok fun i hi => ?_
  simp only [toAll, ← List.map_drop, ← List.map_take]
  refine henc _ ?_
  have hle := Nat.mul_le_mul_right groupSize (List.mem_range.1 hi)
  have hdiv := Nat.div_mul_le_self es.length groupSize
  rw [Nat.succ_mul] at hle
  rw [List.length_take, List.length_drop]
  omega

theorem zip_take_length {α β : Type} : ∀ (l : List α) (l' : List β),
    (l.take l'.length).zip l' = l.zip l'
  | [], _ => by simp
  | _ :: _, [] => by simp
  | a :: l, b :: l' => by simp [zip_take_length l l']

theorem length_pageOfGroup (ha : Aligned H D) {es : List (Aged H D F)} (h : es.length = groupSize) :
    (pageOfGroup fp es).length = (pageLayout groupSize H D D).pageBytes :=
  length_pageOf fp ha (length_map_of_length Aged.k h) (length_map_of_length Aged.vPacked h)
    (length_map_of_length Aged.vMin h) (length_map_of_length Aged.vScale h)

/-- All pages of the entries are written at once, or the table is too short. -/
theorem writeFullPages_eq (ha : Aligned H D) (henc : Encodes fp encode) (short : String)
    (row : List ι) (es : List (Aged H D F)) (p : Physical ι)
    (hw : p.cache.width = (pageLayout groupSize H D D).pageBytes) :
    writeFullPages encode short row (toAll es) (es.length / groupSize) p.closedPages p.cache
      = if p.closedPages + (chunks groupSize es).length ≤ row.length then
          .ok (written fp row p (chunks groupSize es)).cache
        else .error short := by
  have hcopy : p.cache.indexCopy ((row.drop p.closedPages).take (es.length / groupSize))
      ((chunks groupSize es).map (pageOfGroup fp))
      = .ok (written fp row p (chunks groupSize es)).cache := by
    have hzip := zip_take_length (row.drop p.closedPages)
      ((chunks groupSize es).map (pageOfGroup fp))
    rw [List.length_map, length_chunks] at hzip
    unfold Cache.indexCopy
    rw [if_pos, hzip]
    · rfl
    · simp only [List.all_map, List.all_eq_true, Function.comp_apply, decide_eq_true_eq]
      intro g hg
      rw [length_pageOfGroup fp ha (length_of_mem_chunks hg), hw]
  unfold writeFullPages
  rw [encodeFullPages_eq fp henc, length_chunks]
  by_cases h : p.closedPages + es.length / groupSize ≤ row.length
  · rw [if_pos h]
    refine (?_ : _ = p.cache.indexCopy ((row.drop p.closedPages).take (es.length / groupSize))
      ((chunks groupSize es).map (pageOfGroup fp))).trans hcopy
    simp only [bind, Except.bind]
    rw [if_neg (by omega)]
  · rw [if_neg h]
    simp only [bind, Except.bind]
    rw [if_pos (by omega)]
    rfl

end Entries

section Optional

variable {α β : Type}

theorem optList_map_drop (f : α → β) (l : List α) :
    (if l.length % groupSize = 0 then none
      else some ((l.drop (l.length / groupSize * groupSize)).map f))
      = optList ((l.drop (l.length / groupSize * groupSize)).map f) := by
  have hdiv := Nat.div_add_mod' l.length groupSize
  split_ifs with h
  · rw [List.drop_of_length_le (by omega)]
    rfl
  · refine (optList_of_ne_nil fun hnil => h ?_).symm
    have hlen := congrArg List.length hnil
    rw [List.length_map, List.length_drop, List.length_nil] at hlen
    omega

end Optional

/-- What bulk append says of a table that has run out. -/
def bulkTooShort : String := "RABIT-2 block table is too short for Stage4D2 closed pages"

section Bulk

variable {F ι : Type} [DecidableEq ι] (fp : Fp F Bf16) {H D : ℕ} (row : List ι)

theorem encodes_vectorized (ha : Aligned H D) :
    Encodes fp (encodePageVectorized (H := H) (D := D) fp) := fun _ h =>
  encodePageVectorized_ok fp ha (length_map_of_length Aged.k h)
    (length_map_of_length Aged.vPacked h) (length_map_of_length Aged.vMin h)
    (length_map_of_length Aged.vScale h)

theorem recent_append_ne_nil (w : SeqWin H D F) {kvs : List (KV H D)} (h : kvs ≠ []) :
    (w.recent ++ kvs).drop (w.leaving kvs) ≠ [] := by
  intro hnil
  have hlen := congrArg List.length hnil
  have hpos := List.length_pos_of_ne_nil h
  rw [List.length_drop, Win.leaving, List.length_append, List.length_nil] at hlen
  unfold residualTokens at hlen
  omega

theorem combinedRecent_eq (opened : List (Aged H D F)) (recent kvs : List (KV H D)) :
    combinedRecent (toSidecar opened recent) (kvs.map Prod.fst) (kvs.map Prod.snd)
      = ((recent ++ kvs).map Prod.fst, (recent ++ kvs).map Prod.snd) := by
  unfold combinedRecent
  rcases recent with _ | ⟨r, recent⟩
  · rfl
  · simp [optList, catOpt]

/-- The state bulk append installs is the window's batch with its pages written. -/
theorem bulkState_eq (ha : Aligned H D) (w : SeqWin H D F) {kvs : List (KV H D)} (hne : kvs ≠ [])
    {p : Physical ι} (hw : p.cache.width = (pageLayout groupSize H D D).pageBytes) :
    bulkState fp row (kvs.map Prod.fst) (kvs.map Prod.snd) (hold w p)
      = if (w.batch (ageKV fp) kvs).2 = [] ∨
            p.closedPages + (w.batch (ageKV fp) kvs).2.length ≤ row.length then
          .ok (hold (w.batch (ageKV fp) kvs).1 (written fp row p (w.batch (ageKV fp) kvs).2))
        else .error bulkTooShort := by
  have hleave : (w.recent ++ kvs).length - residualTokens = w.leaving kvs := rfl
  have hrecent := recent_append_ne_nil w hne
  have hsome : ∀ f : KV H D → Tok H D Bf16,
      some (((w.recent ++ kvs).drop (w.leaving kvs)).map f)
        = optList (((w.recent ++ kvs).drop (w.leaving kvs)).map f) :=
    fun f => (optList_of_ne_nil (by simpa using hrecent)).symm
  have hent : w.opened ++ ((w.recent ++ kvs).take (w.leaving kvs)).map (ageKV fp)
      = w.entries (ageKV fp) kvs := rfl
  have hpages : (w.entries (ageKV fp) kvs).length / groupSize
      = (w.batch (ageKV fp) kvs).2.length := by
    rw [Win.batch_pages, length_chunks]
  have hside : toSidecar (w.batch (ageKV fp) kvs).1.opened (w.batch (ageKV fp) kvs).1.recent
      = { openK := optList (((w.entries (ageKV fp) kvs).drop
            ((w.entries (ageKV fp) kvs).length / groupSize * groupSize)).map Aged.k)
          openVPacked := optList (((w.entries (ageKV fp) kvs).drop
            ((w.entries (ageKV fp) kvs).length / groupSize * groupSize)).map Aged.vPacked)
          openVMin := optList (((w.entries (ageKV fp) kvs).drop
            ((w.entries (ageKV fp) kvs).length / groupSize * groupSize)).map Aged.vMin)
          openVScale := optList (((w.entries (ageKV fp) kvs).drop
            ((w.entries (ageKV fp) kvs).length / groupSize * groupSize)).map Aged.vScale)
          recentK := some (((w.recent ++ kvs).drop (w.leaving kvs)).map Prod.fst)
          recentV := some (((w.recent ++ kvs).drop (w.leaving kvs)).map Prod.snd) } := by
    rw [hsome, hsome]
    rfl
  unfold bulkState
  simp only [hold, combinedRecent_eq, List.length_map, hleave, ← List.map_take, ← List.map_drop,
    allEntries_eq, hent, length_toAll_k]
  by_cases h0 : w.leaving kvs = 0
  · have hopen : w.entries (ageKV fp) kvs = w.opened := by
      rw [Win.entries, h0, List.take_zero, List.map_nil, List.append_nil]
    have hnil : (w.batch (ageKV fp) kvs).2 = [] := by
      rw [Win.batch_pages, hopen, chunks_of_lt w.opened_lt]
    rw [if_pos h0, if_pos (Or.inl hnil), hnil, written_nil, hside, hopen,
      Nat.div_eq_of_lt w.opened_lt, Nat.zero_mul, List.drop_zero, h0, List.drop_zero]
    rfl
  · rw [if_neg h0, writeFullPages_eq fp ha (encodes_vectorized fp ha) _ row _ p hw]
    simp only [toAll, ← List.map_drop, optList_map_drop]
    rw [← hside, hpages]
    by_cases hp : (w.batch (ageKV fp) kvs).2.length = 0
    · have hnil := List.eq_nil_of_length_eq_zero hp
      rw [if_pos hp, if_pos (Or.inl hnil), hnil, written_nil]
    · have hne' : (w.batch (ageKV fp) kvs).2 ≠ [] := fun h => hp (by rw [h]; rfl)
      rw [if_neg hp, ← Win.batch_pages]
      by_cases hlong : p.closedPages + (w.batch (ageKV fp) kvs).2.length ≤ row.length
      · rw [if_pos hlong, if_pos (Or.inr hlong)]
        rfl
      · rw [if_neg hlong, if_neg (not_or.2 ⟨hne', hlong⟩)]
        rfl

/-- Bulk append is one batch of the window, or raises and changes nothing. -/
theorem bulkAppend_run (ha : Aligned H D) (w : SeqWin H D F) (kvs : List (KV H D)) {p : Physical ι}
    (hw : p.cache.width = (pageLayout groupSize H D D).pageBytes) :
    (bulkAppend fp row (kvs.map Prod.fst) (kvs.map Prod.snd)).run (hold w p)
      = if (w.batch (ageKV fp) kvs).2 = [] ∨
            p.closedPages + (w.batch (ageKV fp) kvs).2.length ≤ row.length then
          .ok () (hold (w.batch (ageKV fp) kvs).1 (written fp row p (w.batch (ageKV fp) kvs).2))
        else .error bulkTooShort (hold w p) := by
  have hkeys : (kvs.map Prod.fst).length = (kvs.map Prod.snd).length := by
    rw [List.length_map, List.length_map]
  by_cases hne : kvs = []
  · subst hne
    rw [w.batch_nil, if_pos (Or.inl rfl), written_nil]
    rfl
  have hlen : ¬ (kvs.map Prod.fst).length = 0 := by simpa using hne
  unfold bulkAppend
  rw [if_neg (not_not.2 hkeys)]
  simp only [if_neg hlen, EStateM.run_bind, EStateM.run_get, bulkState_eq fp row ha w hne hw]
  split_ifs
  · rfl
  · rfl

/-- Bulk append and the token-by-token append end in the same state and the same cache, or both find
the table too short; then bulk append has changed nothing. -/
theorem bulkAppend_eq_append {layout : Rabit2PageLayout} (hr : runtimeInit H D D = .ok layout)
    (cuda : Bool) {side : Sidecar H D F} (hside : side.WF) (closedPages : ℕ) (cache : Cache ι)
    (hwidth : cache.width = layout.pageBytes) (kvs : List (KV H D)) :
    (∃ s, (bulkAppend fp row (kvs.map Prod.fst) (kvs.map Prod.snd)).run ⟨side, closedPages, cache⟩
          = .ok () s ∧
        (append fp cuda row (kvs.map Prod.fst) (kvs.map Prod.snd)).run ⟨side, closedPages, cache⟩
          = .ok () s) ∨
      ((bulkAppend fp row (kvs.map Prod.fst) (kvs.map Prod.snd)).run ⟨side, closedPages, cache⟩
          = .error bulkTooShort ⟨side, closedPages, cache⟩ ∧
        ∃ s, (append fp cuda row (kvs.map Prod.fst) (kvs.map Prod.snd)).run
          ⟨side, closedPages, cache⟩ = .error tooShort s) := by
  obtain ⟨rfl, ha, -⟩ := runtimeInit_ok hr
  obtain ⟨w, rfl⟩ := hside.exists_win
  have hbulk := bulkAppend_run fp row ha w kvs (p := ⟨closedPages, cache⟩) hwidth
  by_cases h : (w.batch (ageKV fp) kvs).2 = [] ∨
      closedPages + (w.batch (ageKV fp) kvs).2.length ≤ row.length
  · rw [if_pos h] at hbulk
    exact Or.inl ⟨_, hbulk, append_run fp cuda row ha w kvs hwidth h⟩
  · rw [if_neg h] at hbulk
    obtain ⟨hne, hlong⟩ := not_or.1 h
    obtain ⟨st, -, hrun⟩ := append_raises fp cuda row ha w kvs
      (p := ⟨closedPages, cache⟩) hwidth hne
      (Nat.lt_of_not_le hlong)
    exact Or.inr ⟨hbulk, st, hrun⟩

/-- A runtime with one closed page and three recent tokens. -/
def threeRecent : Held 1 64 ℚ (Physical (Fin 3)) :=
  ⟨toSidecar [] (rampTokens 1 64 3), 1, (pageLayout groupSize 1 64 64).pageBytes, fun _ => []⟩

theorem bulkAppend_eq_append_one_head :
    runtimeInit 1 64 64 = .ok (pageLayout groupSize 1 64 64) ∧ threeRecent.side.WF ∧
      ((∃ s, (bulkAppend ratFp [2, 0, 1] ((rampTokens 1 64 40).map Prod.fst)
            ((rampTokens 1 64 40).map Prod.snd)).run threeRecent = .ok () s) ∨
        (bulkAppend ratFp [2, 0, 1] ((rampTokens 1 64 40).map Prod.fst)
            ((rampTokens 1 64 40).map Prod.snd)).run threeRecent
          = .error bulkTooShort threeRecent) := by
  have hwf : threeRecent.side.WF :=
    toSidecar_wf ⟨[], rampTokens 1 64 3, by decide, by simp [rampTokens, residualTokens]⟩
  refine ⟨rfl, hwf, ?_⟩
  rcases bulkAppend_eq_append ratFp [2, 0, 1] rfl true hwf 1 threeRecent.rest.cache rfl
      (rampTokens 1 64 40) with ⟨s, h, -⟩ | ⟨h, -⟩
  · exact Or.inl ⟨s, h⟩
  · exact Or.inr h

end Bulk

end RabitKV
