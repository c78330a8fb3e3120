import Relprim.Checks

/-!
retry.py: the backoff and the policy. Arithmetic on int and float is exact, except
that a float power and a conversion from int to float raise OverflowError from
`floatLimit` on.
-/
namespace Relprim

namespace PyNumber

def json : PyNumber → JsonScalar
  | .int n => .int n
  | .float q => .seconds q

/-- `float(n)`, where it happens implicitly too. -/
def toFloat : PyNumber → Except Exc ℚ
  | .int n =>
    if n.natAbs < floatLimit then .ok n
    else .error (overflowError "int too large to convert to float")
  | .float q => .ok q

/-- `b ** n` for a base of at least 1. -/
def pow : PyNumber → ℕ → Except Exc PyNumber
  | .int m, n => .ok (.int (m ^ n))
  | .float q, n => do
    let _ ← toFloat (.int n)
    if q ^ n < floatLimit then .ok (.float (q ^ n))
    else .error (overflowError "(34, 'Numerical result out of range')")

def mul : PyNumber → PyNumber → Except Exc PyNumber
  | .int m, .int n => .ok (.int (m * n))
  | a, b => do
    let x ← a.toFloat
    let y ← b.toFloat
    return .float (x * y)

/-- `min(a, b)`, which returns `a` when the two are equal. -/
def min (a b : PyNumber) : PyNumber := if b.value < a.value then b else a

end PyNumber

@[simp] theorem json_isfinite (d : PyNumber) : d.json.isfinite = true := by
  cases d <;> rfl

structure ExponentialBackoff where
  baseDelaySeconds : PyNumber := .float (1 / 10)
  maxDelaySeconds : PyNumber := .float 10
  multiplier : PyNumber := .float 2
  jitter : Bool := true
  base_nonneg : 0 ≤ baseDelaySeconds.value := by decide +kernel
  base_le : baseDelaySeconds.value ≤ maxDelaySeconds.value := by decide +kernel
  max_finite : maxDelaySeconds.value < floatLimit := by decide +kernel
  one_le : 1 ≤ multiplier.value := by decide +kernel
  multiplier_finite : multiplier.value < floatLimit := by decide +kernel

namespace ExponentialBackoff

def uniform (delay : PyNumber) (random : ℚ) : PyNumber := .float (delay.value * random)

/-- The delay before jitter: the formula, or the cap where it overflows. -/
def cappedDelay (b : ExponentialBackoff) (retryNumber : ℕ) : PyNumber :=
  let scaled := do
    let factor ← b.multiplier.pow (retryNumber - 1)
    b.baseDelaySeconds.mul factor
  let delay := match scaled with
    | .ok d => d
    | .error _ => b.maxDelaySeconds
  delay.min b.maxDelaySeconds

def delayForRetry (b : ExponentialBackoff) (retryNumber : ℕ) (random : ℚ) : Except Exc PyNumber :=
  if retryNumber < 1 then
    .error (valueError "retry_number must be greater than or equal to 1.")
  else
    let delay := b.cappedDelay retryNumber
    if b.jitter && 0 < delay.value then .ok (uniform delay random) else .ok delay

theorem delayForRetry_total (b : ExponentialBackoff) {n : ℕ} (h : 1 ≤ n) (random : ℚ) :
    ∃ d, b.delayForRetry n random = .ok d := by
  unfold delayForRetry
  rw [if_neg (Nat.not_lt.mpr h)]
  by_cases jittered : (b.jitter && decide (0 < (b.cappedDelay n).value)) = true
  · exact ⟨_, if_pos jittered⟩
  · exact ⟨_, if_neg jittered⟩

end ExponentialBackoff

structure RetryPolicy where
  maxAttempts : ℕ := 3
  backoff : ExponentialBackoff := {}
  retryOn : List ExcClass := [exceptionClass]
  attempts_pos : 1 ≤ maxAttempts := by decide
  retry_ok : retryOn ≠ [] := by decide

end Relprim
