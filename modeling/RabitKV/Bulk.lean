import RabitKV.Runtime

/-!
# Bulk append with vectorised pages

`rabit2_bulk_append_exact` (Stage 4D2) installs the final state of a whole chunk. Its page writer
quantizes, packs and encodes all pages at once: INT3 codes eight to three bytes, metadata blobs one
row per page.
-/

namespace RabitKV

open Chunks

section Writer

variable {F : Type} (fp : Fp F Bf16) {H D : ℕ}

/-- One row of `_rabit2_stage4d2_meta_blob_pages_exact`. -/
def metaBlobPage (flat : List F) : List UInt8 :=
  let grouped := chunks metadataGroupSize (padLast fp flat)
  grouped.flatMap (metaCodes fp) ++ tensorAsBytes (grouped.map fun g => fp.toB (fp.amin g))
    ++ tensorAsBytes (grouped.map fun g => fp.toB (metaScale fp g))

/-- `_rabit2_stage4d2_meta_blob_pages_exact` of a tensor with `pages` pages and row-major values
`data`. What is computed for all pages at once is cut back into one row per page. -/
def metaBlobPages (pages : ℕ) (data : List F) : List (List UInt8) :=
  let flat := (chunks (data.length / pages) data).map (padLast fp)
  let grouped := chunks metadataGroupSize flat.flatten
  let rowGroups := grouped.length / pages
  let codes := chunks (rowGroups * metadataGroupSize) (grouped.flatMap (metaCodes fp))
  let minBytes := chunks (rowGroups * 2) (tensorAsBytes (grouped.map fun g => fp.toB (fp.amin g)))
  let scaleBytes := chunks (rowGroups * 2)
    (tensorAsBytes (grouped.map fun g => fp.toB (metaScale fp g)))
  List.zipWith (· ++ ·) (List.zipWith (· ++ ·) codes minBytes) scaleBytes

/-- Byte `j` of `_rabit2_stage4d2_pack_int3_direct_exact`: eight codes to three bytes. -/
def packInt3Direct (n : ℕ) (codes : ℕ → ℕ) (j : ℕ) : UInt8 :=
  if n % 8 ≠ 0 then packByte 3 n codes j
  else
    let c := fun i => codes (8 * (j / 3) + i)
    match j % 3 with
    | 0 => UInt8.ofNat (c 0 ||| c 1 <<< 3 ||| (c 2 &&& 3) <<< 6)
    | 1 => UInt8.ofNat (c 2 >>> 2 ||| c 3 <<< 1 ||| c 4 <<< 4 ||| (c 5 &&& 1) <<< 7)
    | _ => UInt8.ofNat (c 5 >>> 1 ||| c 6 <<< 2 ||| c 7 <<< 5)

/-- The words of the vectorised writer for a blob that does not fill its section. -/
def vectorizedMismatch (name : String) (blob size : ℕ) : String :=
  s!"RABIT-2 Stage4D2 {name} size mismatch: {blob} != {size}"

/-- The blobs of one page in `_rabit2_stage4d2_encode_pages_vectorized_exact`. -/
def vectorizedBlobs (key : List (Tok H D Bf16)) (vPacked : List (Tok H (vPackedDim D) UInt8))
    (vMin vScale : List (Tok H (vGroups D) F)) : PageBlobs :=
  let x := key.map (Tok.map fp.ofB)
  { kPayload := flatTokens ((kCodes fp x).map fun c h (j : Fin (packedDim D 3)) =>
      packInt3Direct D (ext (c h)) j)
    vPayload := flatTokens vPacked
    kMin := metaBlobPage fp (flatTokens [kMin fp x])
    kScale := metaBlobPage fp (flatTokens [kScale fp x])
    vMin := metaBlobPage fp (flatTokens vMin)
    vScale := metaBlobPage fp (flatTokens vScale) }

/-- One page of `_rabit2_stage4d2_encode_pages_vectorized_exact`. -/
def encodePageVectorized (key : List (Tok H D Bf16)) (vPacked : List (Tok H (vPackedDim D) UInt8))
    (vMin vScale : List (Tok H (vGroups D) F)) : Except String (List UInt8) :=
  assemblePage vectorizedMismatch (pageLayout groupSize H D D)
    (vectorizedBlobs fp key vPacked vMin vScale)

end Writer

/-- The open group extended by the aged tokens of a chunk. -/
structure AllEntries (H D : ℕ) (F : Type) where
  k : List (Tok H D Bf16)
  vPacked : List (Tok H (vPackedDim D) UInt8)
  vMin : List (Tok H (vGroups D) F)
  vScale : List (Tok H (vGroups D) F)

section Bulk

variable {F ι : Type} [DecidableEq ι] (fp : Fp F Bf16) {H D : ℕ}

/-- `all_k, all_vp, all_vmn, all_vsc`: the aged tokens quantized by the Stage 4B1 reference and put
behind the open group. -/
def allEntries (side : Sidecar H D F) (agedK agedV : List (Tok H D Bf16)) : AllEntries H D F :=
  let primary := quantizeV2PrimaryRef fp (agedV.map (Tok.map fp.ofB))
  match side.openK with
  | none => ⟨agedK, primary.packed, primary.min, primary.scale⟩
  | some openK =>
    ⟨openK ++ agedK, catOpt side.openVPacked primary.packed, catOpt side.openVMin primary.min,
      catOpt side.openVScale primary.scale⟩

/-- The pages of the first `fullPages * 32` entries, each by `encode`. -/
def encodeFullPages (encode : List (Tok H D Bf16) → List (Tok H (vPackedDim D) UInt8) →
      List (Tok H (vGroups D) F) → List (Tok H (vGroups D) F) → Except String (List UInt8))
    (all : AllEntries H D F) (fullPages : ℕ) : Except String (List (List UInt8)) :=
  (List.range fullPages).mapM fun i =>
    encode ((all.k.drop (i * groupSize)).take groupSize)
      ((all.vPacked.drop (i * groupSize)).take groupSize)
      ((all.vMin.drop (i * groupSize)).take groupSize)
      ((all.vScale.drop (i * groupSize)).take groupSize)

/-- `_rabit2_stage4d2_write_full_pages`, and the same lines of the chunk plan: encode, check the
table, copy. -/
def writeFullPages (encode : List (Tok H D Bf16) → List (Tok H (vPackedDim D) UInt8) →
      List (Tok H (vGroups D) F) → List (Tok H (vGroups D) F) → Except String (List UInt8))
    (short : String) (row : List ι) (all : AllEntries H D F) (fullPages start : ℕ)
    (cache : Cache ι) : Except String (Cache ι) := do
  let pages ← encodeFullPages encode all fullPages
  if start + fullPages > row.length then throw short
  cache.indexCopy ((row.drop start).take fullPages) pages

/-- `combined_recent_k, combined_recent_v`, chosen by whether `recent_k` is `None`. -/
def combinedRecent (side : Sidecar H D F) (key value : List (Tok H D Bf16)) :
    List (Tok H D Bf16) × List (Tok H D Bf16) :=
  match side.recentK with
  | none => (key, value)
  | some recentK => (recentK ++ key, catOpt side.recentV value)

/-- The part of `rabit2_bulk_append_exact` past its checks: the state it installs, or what it raises
before it has changed anything. -/
def bulkState (row : List ι) (key value : List (Tok H D Bf16)) (s : Held H D F (Physical ι)) :
    Except String (Held H D F (Physical ι)) :=
  let combined := combinedRecent s.side key value
  let agedN := combined.1.length - residualTokens
  if agedN = 0 then
    .ok { s with side := { s.side with recentK := some combined.1, recentV := some combined.2 } }
  else
    let all := allEntries fp s.side (combined.1.take agedN) (combined.2.take agedN)
    let fullPages := all.k.length / groupSize
    let leftover := all.k.length % groupSize
    let start := fullPages * groupSize
    let side : Sidecar H D F :=
      { openK := if leftover = 0 then none else some (all.k.drop start)
        openVPacked := if leftover = 0 then none else some (all.vPacked.drop start)
        openVMin := if leftover = 0 then none else some (all.vMin.drop start)
        openVScale := if leftover = 0 then none else some (all.vScale.drop start)
        recentK := some (combined.1.drop agedN)
        recentV := some (combined.2.drop agedN) }
    if fullPages = 0 then .ok { s with side := side }
    else (writeFullPages (encodePageVectorized fp)
        "RABIT-2 block table is too short for Stage4D2 closed pages" row all fullPages
        s.rest.closedPages s.rest.cache).map fun cache =>
      { side := side, rest := { closedPages := s.rest.closedPages + fullPages, cache := cache } }

/-- `rabit2_bulk_append_exact` -/
def bulkAppend (row : List ι) (key value : List (Tok H D Bf16)) :
    SideM H D F (Physical ι) Unit := do
  if key.length ≠ value.length then throw "key/value must share [tokens, kv_heads, head_dim]"
  if key.length = 0 then return
  let s ← get
  match bulkState fp row key value s with
  | .error e => throw e
  | .ok s' => set s'

end Bulk

end RabitKV
