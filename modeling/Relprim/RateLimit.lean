import Relprim.Retry

/-!
rate_limit.py. The extractor is a callback of the user: its `n`-th call may
return any object or raise any Exception.
-/
namespace Relprim

structure RateLimitDecision where
  rateLimited : Bool
  retryAfterSeconds : Option ℚ := none

namespace RateLimitDecision

def new (d : RateLimitDecision) : Except Exc RateLimitDecision := do
  check (!(!d.rateLimited && d.retryAfterSeconds.isSome))
    (valueError "non-rate-limited decisions must not include retry_after_seconds.")
  return d

def notRateLimited : Except Exc RateLimitDecision := new { rateLimited := false }

def rateLimitedWith (retryAfterSeconds : Option ℚ) : Except Exc RateLimitDecision :=
  new { rateLimited := true, retryAfterSeconds }

end RateLimitDecision

/-- What an extractor answers. An instance of a subclass of int or float counts as what
    `float()` makes of it, which is up to its `__float__`; so does an object that raises in the
    isinstance tests before. An OperationExecutionError comes from a run and not from there. -/
inductive Answer where
  | scalar (s : JsonScalar)
  | subclass (float : Except Exc PyFloat)
      (foreign : ∀ x, float = .error x → x.fields.execution = none)
  | other (typeName : String)

/-- `float(value)`, if the value is an int or float and no bool. -/
def Answer.float : Answer → Option (Except Exc PyFloat)
  | .scalar (.int n) => some ((PyNumber.toFloat (.int n)).map .finite)
  | .scalar (.float x) => some (.ok x)
  | .subclass float _ => some float
  | _ => none

def validateRetryAfter (value : Answer) (rateLimitError : Exc) : Except Exc ℚ := do
  let refuse (message : String) := retryAfterExtractionError message rateLimitError none
  match value.float with
  | none => throw (refuse "The retry-after extractor must return an int, float or None.")
  | some converted =>
    match ← converted with
    | .finite q =>
      check (0 ≤ q) (refuse "The retry-after value must be greater than or equal to 0.")
      return q
    | _ => throw (refuse "The retry-after value must be finite.")

structure RateLimitPolicy where
  rateLimitOn : List ExcClass
  retryAfter : Option (ℕ → Exc → Except Exc Answer) := none
  maxWaitSeconds : PyNumber := .float 60
  limit_ok : rateLimitOn ≠ [] := by decide
  wait_nonneg : 0 ≤ maxWaitSeconds.value := by decide +kernel

/-- `evaluate`; `occasion` numbers the calls of the extractor. -/
def RateLimitPolicy.evaluate (p : RateLimitPolicy) (occasion : ℕ) (e : Exc) :
    Except Exc RateLimitDecision :=
  if !e.isInstance p.rateLimitOn then RateLimitDecision.notRateLimited
  else
    match p.retryAfter with
    | none => RateLimitDecision.rateLimitedWith none
    | some extractor =>
      match extractor occasion e with
      | .error cause =>
        .error (retryAfterExtractionError "The retry-after extractor raised an exception." e cause)
      | .ok (.scalar .none) => RateLimitDecision.rateLimitedWith none
      | .ok value => do
        let validated ← validateRetryAfter value e
        RateLimitDecision.rateLimitedWith (some validated)

end Relprim
