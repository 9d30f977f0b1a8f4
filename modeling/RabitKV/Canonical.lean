import RabitKV.Sidecar

/-!
# The canonical logical evaluator

`canonical_rabit_quality`: the state of a whole sequence by definition (`canonical_state`), and the
same state grown token by token (`CanonicalLayerState`), which decodes every closed page once and
the open group and the residual anew. Nothing is packed; the values go through META8g64 as in the
oracle.
-/

namespace RabitKV

open Chunks

section Codec

variable {F B : Type} (fp : Fp F B)

/-- The dictionary of `meta8_roundtrip`; `decoded` are the row-major values. -/
structure Meta8 (F B : Type) where
  codes : List (List UInt8)
  min : List B
  scale : List B
  pad : ℕ
  decoded : List F

/-- `meta8_roundtrip` -/
def meta8Roundtrip (flat : List F) : Meta8 F B :=
  let pad := padTo metadataGroupSize flat.length
  let g := chunks metadataGroupSize (padLast fp flat)
  let dec := g.flatMap fun g =>
    decodeGroup fp (metaCodes fp g) (fp.toB (metaScale fp g)) (fp.toB (fp.amin g))
  { codes := g.map (metaCodes fp)
    min := g.map fun g => fp.toB (fp.amin g)
    scale := g.map fun g => fp.toB (metaScale fp g)
    pad := pad
    decoded := if pad = 0 then dec else dec.take (dec.length - pad) }

variable {H D : ℕ}

/-- The dictionary of `k3`. -/
structure CanonicalK (H D : ℕ) (F B : Type) where
  codes : List (Tok H D ℕ)
  padSeq : ℕ
  minMeta : Meta8 F B
  scaleMeta : Meta8 F B
  decoded : List (Tok H D F)

/-- `k3` -/
def canonicalK3 (rawK : List (Tok H D B)) : CanonicalK H D F B :=
  let x := rawK.map (Tok.map fp.ofB)
  let g := seqGroups fp x
  let codes := g.flatMap (kCodes fp)
  let minMeta := meta8Roundtrip fp (flatHeads (g.map (kMin fp)))
  let scaleMeta := meta8Roundtrip fp (flatHeads (g.map (kScale fp)))
  let vals := codes.mapIdx fun p c (h : Fin H) (d : Fin D) =>
    let i := (h * g.length + p / groupSize) * D + d
    fp.affineValue (c h d) (scaleMeta.decoded.getD i (fp.lit 0)) (minMeta.decoded.getD i (fp.lit 0))
  { codes := codes
    padSeq := padTo groupSize rawK.length
    minMeta := minMeta
    scaleMeta := scaleMeta
    decoded := vals.take rawK.length }

/-- The dictionary of `v2`. -/
structure CanonicalV (H D : ℕ) (F B : Type) where
  codes : List (Tok H (vPaddedDim D) ℕ)
  minMeta : Meta8 F B
  scaleMeta : Meta8 F B
  decoded : List (Tok H D F)

/-- `v2` -/
def canonicalV2 (rawV : List (Tok H D B)) : CanonicalV H D F B :=
  let x := rawV.map (Tok.map fp.ofB)
  let minMeta := meta8Roundtrip fp (flatTokens (x.map (v2Min fp)))
  let scaleMeta := meta8Roundtrip fp (flatTokens (x.map (v2Scale fp)))
  { codes := x.map fun r h d => vCode fp (r h) d
    minMeta := minMeta
    scaleMeta := scaleMeta
    decoded := x.mapIdx fun t r h d =>
      let i := (t * H + h) * vGroups D + d / groupSize
      fp.affineValue (vCode fp (r h) d) (scaleMeta.decoded.getD i (fp.lit 0))
        (minMeta.decoded.getD i (fp.lit 0)) }

/-- The dictionary of `canonical_state`. -/
structure CanonicalState (H D : ℕ) (F B : Type) where
  n : ℕ
  recentCount : ℕ
  oldCount : ℕ
  closedPages : ℕ
  openCount : ℕ
  k : Option (CanonicalK H D F B)
  v : Option (CanonicalV H D F B)
  decodedK : List (Tok H D F)
  decodedV : List (Tok H D F)

/-- `canonical_state` of bfloat16 tokens. -/
def canonicalState (rawK rawV : List (Tok H D B)) : CanonicalState H D F B :=
  let n := rawK.length
  let recent := min n residualTokens
  let old := n - recent
  let k := if old = 0 then none else some (canonicalK3 fp (rawK.take old))
  let v := if old = 0 then none else some (canonicalV2 fp (rawV.take old))
  { n := n
    recentCount := recent
    oldCount := old
    closedPages := old / groupSize
    openCount := old % groupSize
    k := k
    v := v
    decodedK := (k.map CanonicalK.decoded).getD [] ++ (rawK.drop old).map (Tok.map fp.ofB)
    decodedV := (v.map CanonicalV.decoded).getD [] ++ (rawV.drop old).map (Tok.map fp.ofB) }

end Codec

/-- `CanonicalLayerState`: decoded closed pages and the raw tokens after them. -/
structure CanonicalLayer (H D : ℕ) (F B : Type) where
  closedK : Option (List (Tok H D F)) := none
  closedV : Option (List (Tok H D F)) := none
  tailK : Option (List (Tok H D B)) := none
  tailV : Option (List (Tok H D B)) := none

section Layer

variable {F B : Type} (fp : Fp F B) {H D : ℕ}

/-- `CanonicalLayerState.n` -/
def CanonicalLayer.n (s : CanonicalLayer H D F B) : ℕ := lenOpt s.closedK + lenOpt s.tailK

/-- The loop of `append`: a full old group closes into a page. -/
def CanonicalLayer.close (closedK closedV : Option (List (Tok H D F)))
    (tailK tailV : List (Tok H D B)) :
    CanonicalLayer H D F B :=
  if residualTokens + groupSize ≤ tailK.length then
    CanonicalLayer.close (some (catOpt closedK (canonicalK3 fp (tailK.take groupSize)).decoded))
      (some (catOpt closedV (canonicalV2 fp (tailV.take groupSize)).decoded))
      (tailK.drop groupSize) (tailV.drop groupSize)
  else ⟨closedK, closedV, some tailK, some tailV⟩
termination_by tailK.length
decreasing_by
  rw [List.length_drop]
  unfold groupSize at *
  omega

/-- `CanonicalLayerState.append` of bfloat16 tokens. -/
def CanonicalLayer.append (s : CanonicalLayer H D F B) (rawK rawV : List (Tok H D B)) :
    CanonicalLayer H D F B :=
  CanonicalLayer.close fp s.closedK s.closedV (catOpt s.tailK rawK) (catOpt s.tailV rawV)

/-- Several `append` calls, each with the tokens of one chunk. -/
def CanonicalLayer.appends (s : CanonicalLayer H D F B)
    (chunks : List (List (Tok H D B × Tok H D B))) : CanonicalLayer H D F B :=
  chunks.foldl (fun s chunk => s.append fp (chunk.map Prod.fst) (chunk.map Prod.snd)) s

/-- `CanonicalLayerState.decoded` -/
def CanonicalLayer.decoded (s : CanonicalLayer H D F B) :
    Except String (List (Tok H D F) × List (Tok H D F)) :=
  match s.tailK, s.tailV with
  | some tailK, some tailV =>
    let old := tailK.length - min tailK.length residualTokens
    let openK := if old = 0 then [] else (canonicalK3 fp (tailK.take old)).decoded
    let openV := if old = 0 then [] else (canonicalV2 fp (tailV.take old)).decoded
    .ok (s.closedK.getD [] ++ openK ++ (tailK.drop old).map (Tok.map fp.ofB),
      s.closedV.getD [] ++ openV ++ (tailV.drop old).map (Tok.map fp.ofB))
  | _, _ => .error "AttributeError: 'NoneType' object has no attribute 'shape'"

end Layer

end RabitKV
