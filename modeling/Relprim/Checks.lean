import Relprim.Library.Fallible
import Relprim.Errors

/-!
_checks.py and the checks that the constructors of attempts and reports make.
-/
namespace Relprim
open Dictionary

def check (ok : Bool) (error : Exc) : Except Exc Unit := if ok then .ok () else .error error

@[simp] theorem check_true (error : Exc) : check true error = .ok () := rfl

theorem check_ok_iff {ok : Bool} {error : Exc} : check ok error = .ok () ↔ ok = true := by
  cases ok with
  | true => exact ⟨fun _ => rfl, fun _ => rfl⟩
  | false => exact ⟨nofun, nofun⟩

/-- `math.isfinite` of an int or float, which first converts an int to float. -/
def mathIsfinite : JsonScalar → Except Exc Bool
  | .int n =>
    if n.natAbs < floatLimit then .ok true
    else .error (overflowError "int too large to convert to float")
  | .float x => .ok x.isfinite
  | _ => .ok false

def checkSeconds (value : PyValue) (name : String) (allowZero : Bool) : Except Exc Unit := do
  let (number, q) ← match value with
    | .scalar (.int n) => pure (JsonScalar.int n, (n : ℚ))
    | .scalar (.float (.finite q)) => pure (.float (.finite q), q)
    | .scalar (.float x) => pure (.float x, 0)
    | _ => throw (typeError s!"{name} must be an int or float.")
  let finite ← mathIsfinite number
  check finite (valueError s!"{name} must be finite.")
  if allowZero then
    check (0 ≤ q) (valueError s!"{name} must be greater than or equal to 0.")
  else
    check (0 < q) (valueError s!"{name} must be greater than 0.")

theorem checkSeconds_ok {q : ℚ} {name : String} (h : 0 ≤ q) :
    checkSeconds (.scalar (.seconds q)) name true = .ok () := by
  simp [checkSeconds, JsonScalar.seconds, mathIsfinite, PyFloat.isfinite, h, bind, Except.bind,
    pure, Except.pure]

def checkAware (timestamp : DateTime) (name : String) : Except Exc Unit :=
  check timestamp.utcoffset.isSome (valueError s!"{name} must be timezone-aware.")

@[simp] theorem checkAware_utc (instant : ℤ) (name : String) :
    checkAware (.utc instant) name = .ok () := rfl

/-- The copied mapping is the same value here; what remains is the finiteness check. -/
def freezeJsonScalars (values : Dict String JsonScalar) (name : String) :
    Except Exc (Dict String JsonScalar) := do
  check (allValues JsonScalar.isfinite values) (valueError s!"{name} values must be finite.")
  return values

def finiteValues (d : Dict String JsonScalar) : Prop := allValues JsonScalar.isfinite d = true

theorem freezeJsonScalars_ok {d : Dict String JsonScalar} {name : String} (h : finiteValues d) :
    freezeJsonScalars d name = .ok d := by
  have all : allValues JsonScalar.isfinite d = true := h
  simp [freezeJsonScalars, all, bind, Except.bind, pure, Except.pure]

theorem finite_update {d e : Dict String JsonScalar} (hd : finiteValues d) (he : finiteValues e) :
    finiteValues (update d e) := allValues_update hd he

theorem finite_ofPairs {ps : List (String × JsonScalar)} (h : ∀ q ∈ ps, q.2.isfinite = true) :
    finiteValues (ofPairs ps) := allValues_ofPairs h

def ExecutionAttempt.new (a : ExecutionAttempt) : Except Exc ExecutionAttempt := do
  check (1 ≤ a.attemptNumber)
    (valueError "attempt_number must be greater than or equal to 1.")
  checkSeconds (.scalar (.seconds a.durationSeconds)) "duration_seconds" true
  check (!(a.status = .succeeded && a.error.isSome))
    (valueError "successful attempts must not contain an error.")
  checkAware a.startedAt "started_at"
  let metadata ← freezeJsonScalars a.metadata "metadata"
  return { a with metadata }

theorem attempt_new_ok {a : ExecutionAttempt} (number : 1 ≤ a.attemptNumber)
    (duration : 0 ≤ a.durationSeconds) (error : a.status = .succeeded → a.error = none)
    (aware : a.startedAt.utcoffset.isSome = true) (finite : finiteValues a.metadata) :
    ExecutionAttempt.new a = .ok a := by
  have consistent : (!(a.status = .succeeded && a.error.isSome)) = true := by
    by_cases h : a.status = .succeeded
    · simp [error h]
    · simp [h]
  simp only [ExecutionAttempt.new, checkSeconds_ok duration, freezeJsonScalars_ok finite,
    checkAware, consistent, aware, number, decide_true, check_true, bind, Except.bind]
  rfl

def ExecutionReport.new (r : ExecutionReport) : Except Exc ExecutionReport := do
  check (!isBlank r.operationName) (valueError "operation_name must not be empty.")
  checkSeconds (.scalar (.seconds r.durationSeconds)) "duration_seconds" true
  match r.lastAttempt with
  | none => throw (valueError "attempts must contain at least one execution attempt.")
  | some last =>
    check (!(r.status = .succeeded && last.status ≠ .succeeded))
      (valueError "successful reports must end with a successful attempt.")
    check (!(r.status ≠ .succeeded && last.status = .succeeded))
      (valueError "failed reports must not end with a successful attempt.")
  checkAware r.startedAt "started_at"
  let metadata ← freezeJsonScalars r.metadata "metadata"
  return { r with metadata }

theorem report_new_ok {r : ExecutionReport} {last : ExecutionAttempt}
    (name : isBlank r.operationName = false) (duration : 0 ≤ r.durationSeconds)
    (ends : r.lastAttempt = some last) (agree : r.status = .succeeded ↔ last.status = .succeeded)
    (aware : r.startedAt.utcoffset.isSome = true) (finite : finiteValues r.metadata) :
    ExecutionReport.new r = .ok r := by
  have first : (!(r.status = .succeeded && last.status ≠ .succeeded)) = true := by
    by_cases h : r.status = .succeeded
    · simp [agree.mp h]
    · simp [h]
  have second : (!(r.status ≠ .succeeded && last.status = .succeeded)) = true := by
    by_cases h : last.status = .succeeded
    · simp [agree.mpr h]
    · simp [h]
  simp only [ExecutionReport.new, name, checkSeconds_ok duration, freezeJsonScalars_ok finite,
    ends, first, second, checkAware, aware, Bool.not_false, check_true, bind, Except.bind]
  rfl

end Relprim
