import Mathlib

/-!
# Overlapping in-flight concurrency

`inflight_concurrency` sweeps over the starts and ends of the requests of a run in order of time,
ends before starts at one time, and accumulates the peak, the time at every level, and the time and
the longest stretch at the target level or above. Times are rationals here.
-/

namespace RabitKV

/-- `scheduled_ts` and `last_token_ts` of a row; `none` where there is no number. -/
structure RequestRow where
  scheduledTs : Option ℚ
  lastTokenTs : Option ℚ
deriving DecidableEq, Repr

/-- The order of tuples. -/
def tupleLe {α β : Type} [LT α] [DecidableEq α] [LE β] (x y : α × β) : Prop :=
  x.1 < y.1 ∨ x.1 = y.1 ∧ x.2 ≤ y.2

instance {α β : Type} [LT α] [DecidableEq α] [LE β] [DecidableLT α] [DecidableLE β] :
    DecidableRel (tupleLe (α := α) (β := β)) := fun x y =>
  inferInstanceAs (Decidable (x.1 < y.1 ∨ x.1 = y.1 ∧ x.2 ≤ y.2))

/-- The variables of the loop. -/
structure SweepState where
  inflight : ℤ
  peak : ℤ
  tPrev : ℚ
  atLevel : List (ℤ × ℚ)
  allC : ℚ
  longest : ℚ
  run : ℚ
deriving DecidableEq, Repr

/-- `at_level[k] = at_level.get(k, 0.0) + dt` -/
def addAt (k : ℤ) (dt : ℚ) : List (ℤ × ℚ) → List (ℤ × ℚ)
  | [] => [(k, 0 + dt)]
  | (j, v) :: l => if j = k then (j, v + dt) :: l else (j, v) :: addAt k dt l

/-- One event. -/
def sweepStep (target : ℤ) (s : SweepState) (e : ℚ × ℤ) : SweepState :=
  let dt := e.1 - s.tPrev
  let s := if dt > 0 then
      let s := { s with atLevel := addAt s.inflight dt s.atLevel }
      if s.inflight ≥ target then
        let run := s.run + dt
        { s with allC := s.allC + dt, run := run, longest := max s.longest run }
      else { s with run := 0 }
    else s
  let inflight := s.inflight + e.2
  { s with inflight := inflight, peak := max s.peak inflight, tPrev := e.1 }

/-- `events` -/
def sweepEvents (iv : List (ℚ × ℚ)) : List (ℚ × ℤ) :=
  ((iv.map fun p => (p.1, (1 : ℤ))) ++ iv.map fun p => (p.2, (-1 : ℤ))).insertionSort tupleLe

/-- What `inflight_concurrency` reports of an evaluable run; fractions are keyed by the level. -/
structure InflightReport where
  observedMax : ℤ
  allCTotal : ℚ
  allCLongest : ℚ
  measuredSpan : ℚ
  timeFraction : List (ℤ × ℚ)
deriving DecidableEq, Repr

/-- The intervals of the rows, if each is one with `0 < a <= b`. -/
def requestIntervals (rows : List RequestRow) : Option (List (ℚ × ℚ)) :=
  rows.mapM fun r => do
    let a ← r.scheduledTs
    let b ← r.lastTokenTs
    if 0 < a ∧ a ≤ b then some (a, b) else none

/-- `inflight_concurrency`; `none` when the run is not evaluable. -/
def inflightConcurrency (rows : List RequestRow) (target : ℤ) : Option InflightReport := do
  let iv ← requestIntervals rows
  let events := sweepEvents iv
  let first ← events.head?
  let last ← events.getLast?
  let s := events.foldl (sweepStep target)
    { inflight := 0, peak := 0, tPrev := first.1, atLevel := [], allC := 0, longest := 0, run := 0 }
  let span := last.1 - first.1
  return { observedMax := s.peak, allCTotal := s.allC, allCLongest := s.longest,
           measuredSpan := span
           timeFraction := if span ≠ 0 then
             (s.atLevel.insertionSort tupleLe).map fun p => (p.1, p.2 / span) else [] }

end RabitKV
