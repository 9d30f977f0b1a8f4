import Mathlib

/-!
# Paired bootstrap intervals

`paired_bootstrap` resamples the units of both arms with the same indices, sorts the deltas of the
replicates and reads a percentile interval off them. Floats are rationals here; `math.exp` and the
draws of `random.Random(seed)` are parameters.
-/

namespace RabitKV

/-- `l[i]`; a negative index counts from the end. -/
def listItem {α : Type} (l : List α) (i : ℤ) : Except String α :=
  let j := if i < 0 then i + l.length else i
  match if j < 0 then none else l[j.toNat]? with
  | some a => .ok a
  | none => .error "list index out of range"

section Bootstrap

variable (exp : ℚ → ℚ)

/-- `delta` -/
def delta (benchmark : String) (bf16 rabit2 : List ℚ) : Except String ℚ :=
  if benchmark = "continuation_ppl" then
    if rabit2.length = 0 ∨ bf16.length = 0 then .error "division by zero"
    else .ok (100 * (exp (rabit2.sum / rabit2.length - bf16.sum / bf16.length) - 1))
  else if bf16.length = 0 then .error "division by zero"
  else .ok (100 * (rabit2.sum - bf16.sum) / bf16.length)

/-- `bootstrap_indices`, from the numbers the generator draws one after the other. -/
def bootstrapIndices (random : ℕ → ℚ) (n resamples : ℕ) : List (List ℤ) :=
  (List.range resamples).map fun r => (List.range n).map fun j => ⌊random (r * n + j) * n⌋

/-- `reps` before it is sorted. -/
def replicates (benchmark : String) (indices : List (List ℤ)) (bf16 rabit2 : List ℚ) :
    Except String (List ℚ) :=
  indices.mapM fun idx => do
    let b ← idx.mapM (listItem bf16)
    let r ← idx.mapM (listItem rabit2)
    delta exp benchmark b r

/-- The positions of the two endpoints among the sorted replicates. -/
def lowPosition (confidence : ℚ) (resamples : ℕ) : ℤ := ⌊(1 - confidence) / 2 * resamples⌋

def highPosition (confidence : ℚ) (resamples : ℕ) : ℤ :=
  ⌈(1 - (1 - confidence) / 2) * resamples⌉ - 1

/-- What `paired_bootstrap` returns. -/
structure BootstrapInterval where
  ciLow : ℚ
  ciHigh : ℚ
  confidence : ℚ
  resamples : ℕ
  seed : ℤ
  replicateMean : ℚ
deriving DecidableEq, Repr

/-- `paired_bootstrap` with the rows of `bootstrap_indices`. -/
def pairedBootstrapOn (indices : List (List ℤ)) (benchmark : String) (bf16 rabit2 : List ℚ)
    (resamples : ℕ) (seed : ℤ) (confidence : ℚ) : Except String BootstrapInterval := do
  let reps ← replicates exp benchmark indices bf16 rabit2
  let reps := reps.insertionSort (· ≤ ·)
  let lo ← listItem reps (lowPosition confidence resamples)
  let hi ← listItem reps (highPosition confidence resamples)
  if resamples = 0 then throw "division by zero"
  return { ciLow := lo, ciHigh := hi, confidence := confidence, resamples := resamples
           seed := seed, replicateMean := reps.sum / resamples }

/-- `paired_bootstrap` -/
def pairedBootstrap (random : ℤ → ℕ → ℚ) (benchmark : String) (bf16 rabit2 : List ℚ)
    (resamples : ℕ) (seed : ℤ) (confidence : ℚ) : Except String BootstrapInterval :=
  pairedBootstrapOn exp (bootstrapIndices (random seed) bf16.length resamples) benchmark bf16 rabit2
    resamples seed confidence

end Bootstrap

end RabitKV
