import Mathlib

/-!
# The two-model attempt

`run_two_model` runs the two models in order, archives each, and writes one record of the whole
attempt. What it calls (`run`, the artifact and archive checks, the file system) may return or raise
anything. A cancellation request sets the flag of `Cancellation` and nothing else, and may arrive at
any moment; the flag is read at the head of the loop and once after every model.
-/

namespace RabitKV

/-- `MODELS` -/
inductive Model
  | llama3_1_8b
  | qwen2_5_7b
deriving DecidableEq, Repr

def models : List Model := [.llama3_1_8b, .qwen2_5_7b]

/-- What a call may raise; `other` is a `BaseException` that no handler names. -/
inductive Raised
  | keyboardInterrupt
  | exception (text : String)
  | systemExit (text : String)
  | other
deriving DecidableEq, Repr

/-- What the functions that are called do. -/
structure Behaviour where
  writeRegistration : Except Raised Unit
  run : Model → Except Raised ℤ
  requireQualityArtifacts : Model → Except Raised Unit
  isDir : Model → Except Raised Bool
  archive : Model → Except Raised Unit
  requireArchive : Model → Except Raised Unit
  archiveCancelled : Except Raised Unit
  writeRecord : Except Raised Unit

/-- The moments between two reads of the flag at which a request may arrive. -/
inductive Moment
  | top (m : Model)
  | run (m : Model)
  | artifacts (m : Model)
  | afterRun (m : Model)
  | isDir (m : Model)
  | archive (m : Model)
  | requireArchive (m : Model)
  | afterArchive (m : Model)
  | finish
  | record
deriving DecidableEq, Repr

/-- What happens in an attempt, as far as the record is about it. -/
inductive Event
  | request
  | poll
  | interrupted
  | started (m : Model)
  | returned (m : Model) (code : ℤ)
  | verified (m : Model)
  | archived (m : Model)
deriving DecidableEq, Repr

/-- The local variables, the flag of `Cancellation`, and what has happened. -/
structure Attempt where
  codes : Model → Option ℤ := fun _ => none
  errors : Model → Option String := fun _ => none
  archived : Model → Bool := fun _ => false
  cancelled : Bool := false
  flag : Bool := false
  trace : List Event := []

namespace Attempt

def emit (e : Event) (s : Attempt) : Attempt := { s with trace := s.trace ++ [e] }

/-- `cancellation.request()` -/
def request (s : Attempt) : Attempt := { s.emit .request with flag := true }

/-- `codes[model] = code` -/
def setCode (m : Model) (code : ℤ) (s : Attempt) : Attempt :=
  { s with codes := Function.update s.codes m (some code) }

/-- `errors[model] = text` -/
def setError (m : Model) (text : String) (s : Attempt) : Attempt :=
  { s with errors := Function.update s.errors m (some text) }

end Attempt

section Program

variable (cancellation : Bool) (requests : Moment → Bool) (calls : Behaviour)

/-- A moment of the program: a request may arrive if there is a `Cancellation`. -/
def atMoment (p : Moment) (s : Attempt) : Attempt :=
  if cancellation && requests p then s.request else s

/-- `cancelled = cancelled or bool(cancellation and cancellation.cancelled)` -/
def pollFlag (s : Attempt) : Attempt :=
  if s.cancelled then s
  else if cancellation then { s.emit .poll with cancelled := s.flag } else s

/-- The handlers of the first `try`. -/
def runFailed (m : Model) (s : Attempt) : Raised → Except Raised Attempt
  | .keyboardInterrupt =>
    let s := { s.emit .interrupted with cancelled := true }
    let s := if cancellation then s.request else s
    .ok ((s.setCode m 130).setError m "KeyboardInterrupt; attempt cancelled")
  | .exception text => .ok ((s.setCode m 1).setError m text)
  | .systemExit text => .ok ((s.setCode m 1).setError m text)
  | .other => .error .other

/-- The first `try`: run the model and check its artifacts. -/
def tryRun (m : Model) (s : Attempt) : Except Raised Attempt :=
  let s := atMoment cancellation requests (.run m) (s.emit (.started m))
  match calls.run m with
  | .error e => runFailed cancellation m s e
  | .ok code =>
    let s := (s.setCode m code).emit (.returned m code)
    if code = 0 then
      let s := atMoment cancellation requests (.artifacts m) s
      match calls.requireQualityArtifacts m with
      | .error e => runFailed cancellation m s e
      | .ok () => .ok (s.emit (.verified m))
    else .ok s

/-- The handlers of the second `try`. -/
def archiveFailed (m : Model) (s : Attempt) : Raised → Except Raised Attempt
  | .keyboardInterrupt =>
    let s := { s.emit .interrupted with cancelled := true }
    .ok ((s.setCode m 130).setError m "KeyboardInterrupt during archival; attempt cancelled")
  | .exception text => .ok ((s.setCode m 1).setError m s!"local archival failed: {text}")
  | .systemExit text => .error (.systemExit text)
  | .other => .error .other

/-- The second `try`: archive the directory of the attempt, if there is one. -/
def tryArchive (m : Model) (s : Attempt) : Except Raised Attempt :=
  let s := atMoment cancellation requests (.isDir m) s
  match calls.isDir m with
  | .error e => .error e
  | .ok false => .ok s
  | .ok true =>
    let s := atMoment cancellation requests (.archive m) s
    match calls.archive m with
    | .error e => archiveFailed m s e
    | .ok () =>
      let s := atMoment cancellation requests (.requireArchive m) s
      match calls.requireArchive m with
      | .error e => archiveFailed m s e
      | .ok () => .ok { s.emit (.archived m) with archived := Function.update s.archived m true }

/-- The body of the loop after its two `break`s. -/
def runModel (m : Model) (s : Attempt) : Except Raised Attempt := do
  let s ← tryRun cancellation requests calls m s
  let s := pollFlag cancellation (atMoment cancellation requests (.afterRun m) s)
  let s := if s.cancelled then s.setCode m 130 else s
  let s ← tryArchive cancellation requests calls m s
  return atMoment cancellation requests (.afterArchive m) s

/-- `for model in MODELS` -/
def runModels : List Model → Attempt → Except Raised Attempt
  | [], s => .ok s
  | m :: ms, s => do
    let s := pollFlag cancellation (atMoment cancellation requests (.top m) s)
    if s.cancelled then return s
    if m = .qwen2_5_7b ∧ (s.codes .llama3_1_8b ≠ some 0 ∨ s.archived .llama3_1_8b = false) then
      return s
    runModels ms (← runModel cancellation requests calls m s)

end Program

/-- `two_model_record.json` -/
structure TwoModelRecord where
  attempt : ℤ
  order : List Model
  policy : String
  bothModelsRequired : Bool
  runnerExitCodes : Model → Option ℤ
  modelsNotRun : List Model
  errors : Model → Option String
  valid : Bool
  archived : Model → Bool
  cancelled : Bool
  status : String

/-- The record of a finished loop. -/
def twoModelRecord (attempt : ℤ) (s : Attempt) : TwoModelRecord :=
  let valid := !s.cancelled && models.all (fun m => s.codes m == some 0) && models.all s.archived
  { attempt := attempt
    order := models
    policy := "no selective rerun"
    bothModelsRequired := true
    runnerExitCodes := s.codes
    modelsNotRun := models.filter fun m => (s.codes m).isNone
    errors := s.errors
    valid := valid
    archived := s.archived
    cancelled := s.cancelled
    status := if s.cancelled then "INVALID/cancelled whole attempt"
      else if valid then "valid, reproduced/unreviewed"
      else "INVALID whole attempt; never pool or selectively rerun" }

/-- `run_two_model`: the record it writes, what it returns, and the attempt up to the moment the
record is written. -/
def runTwoModel (cancellation : Bool) (requests : Moment → Bool) (calls : Behaviour) (attempt : ℤ) :
    Except Raised (TwoModelRecord × ℤ × Attempt) := do
  calls.writeRegistration
  let s ← runModels cancellation requests calls models {}
  let s := atMoment cancellation requests .finish s
  if s.cancelled then calls.archiveCancelled
  let record := twoModelRecord attempt s
  let s := atMoment cancellation requests .record s
  calls.writeRecord
  return (record, if record.cancelled then 130 else if record.valid then 0 else 1, s)

end RabitKV
