import Mathlib.Algebra.Order.Ring.Cast
import Mathlib.Algebra.Order.Monoid.Unbundled.Pow
import Mathlib.Data.Nat.Cast.Order.Ring
import Relprim.Retry

/-!
The backoff against its formula. A power or a conversion that overflows is answered with
the cap whatever the base delay is, so the formula is met there only if it is capped too.
-/
namespace Relprim
open Fallible

namespace PyNumber

theorem min_value (a b : PyNumber) : (a.min b).value = Min.min a.value b.value := by
  unfold PyNumber.min
  split
  · rename_i less
    exact (min_eq_right (le_of_lt less)).symm
  · rename_i le
    exact (min_eq_left (not_lt.mp le)).symm

theorem pow_int (m : ℤ) (n : ℕ) : pow (.int m) n = .ok (.int (m ^ n)) := rfl

theorem toFloat_float (q : ℚ) : toFloat (.float q) = .ok q := rfl

theorem toFloat_small {n : ℤ} (small : n.natAbs < floatLimit) :
    toFloat (.int n) = .ok (PyNumber.int n).value := by
  simp only [toFloat, if_pos small, value]

theorem toFloat_large {n : ℤ} (large : floatLimit ≤ n.natAbs) :
    ∃ x, toFloat (.int n) = .error x := by
  simp only [toFloat, if_neg (Nat.not_lt.mpr large)]
  exact ⟨_, rfl⟩

theorem toFloat_of_lt {a : PyNumber} (nonneg : 0 ≤ a.value) (bound : a.value < floatLimit) :
    a.toFloat = .ok a.value := by
  cases a with
  | float q => rfl
  | int n =>
    have least : (0 : ℚ) ≤ n := nonneg
    have most : (n : ℚ) < floatLimit := bound
    have positive : 0 ≤ n := by exact_mod_cast least
    have small : n < (floatLimit : ℤ) := by exact_mod_cast most
    exact toFloat_small (by omega)

theorem mul_value {a b : PyNumber} (first : a.toFloat = .ok a.value)
    (second : b.toFloat = .ok b.value) : ∃ d, a.mul b = .ok d ∧ d.value = a.value * b.value := by
  have converted : ∃ d, (do
      let x ← a.toFloat
      let y ← b.toFloat
      return PyNumber.float (x * y) : Except Exc PyNumber) = .ok d ∧
        d.value = a.value * b.value := by
    refine ⟨.float (a.value * b.value), ?_, rfl⟩
    exact except_bind_iff.mpr ⟨_, first, except_bind_iff.mpr ⟨_, second, rfl⟩⟩
  cases a with
  | float q => exact converted
  | int m =>
    cases b with
    | float q => exact converted
    | int n => exact ⟨.int (m * n), rfl, by simp [value]⟩

end PyNumber

namespace ExponentialBackoff
variable (b : ExponentialBackoff)

/-- What the formula gives for a retry, before the cap. -/
def growth (n : ℕ) : ℚ := b.baseDelaySeconds.value * b.multiplier.value ^ (n - 1)

def formula (n : ℕ) : ℚ := min (b.growth n) b.maxDelaySeconds.value

/-- A float power or its exponent is out of range, or an integer power has to be converted
    to float and is. -/
def Overflows (n : ℕ) : Prop :=
  match b.multiplier, b.baseDelaySeconds with
  | .float q, _ => floatLimit ≤ n - 1 ∨ (floatLimit : ℚ) ≤ q ^ (n - 1)
  | .int m, .float _ => floatLimit ≤ (m ^ (n - 1)).natAbs
  | .int _, .int _ => False

def scaled (n : ℕ) : Except Exc PyNumber := do
  let factor ← b.multiplier.pow (n - 1)
  b.baseDelaySeconds.mul factor

theorem scaled_float {q : ℚ} (shape : b.multiplier = .float q) (n : ℕ) :
    (¬ b.Overflows n ∧ ∃ d, b.scaled n = .ok d ∧ d.value = b.growth n) ∨
      (b.Overflows n ∧ ∃ x, b.scaled n = .error x) := by
  have base := PyNumber.toFloat_of_lt b.base_nonneg (lt_of_le_of_lt b.base_le b.max_finite)
  simp only [Overflows, scaled, growth, shape]
  by_cases exponent : n - 1 < floatLimit
  · have converted := PyNumber.toFloat_small (n := (n - 1 : ℕ)) exponent
    by_cases small : q ^ (n - 1) < floatLimit
    · have power : PyNumber.pow (.float q) (n - 1) = .ok (.float (q ^ (n - 1))) := by
        simp only [PyNumber.pow, converted, bind, Except.bind, if_pos small]
      obtain ⟨d, product, same⟩ := PyNumber.mul_value base (PyNumber.toFloat_float (q ^ (n - 1)))
      refine .inl ⟨fun overflows => ?_, d, except_bind_iff.mpr ⟨_, power, product⟩, same⟩
      rcases overflows with large | large
      · omega
      · exact absurd small (not_lt.mpr large)
    · refine .inr ⟨.inr (not_lt.mp small),
        overflowError "(34, 'Numerical result out of range')", ?_⟩
      simp only [PyNumber.pow, converted, bind, Except.bind, if_neg small]
  · have large := Nat.le_of_not_lt exponent
    obtain ⟨x, refused⟩ := PyNumber.toFloat_large (n := (n - 1 : ℕ)) large
    refine .inr ⟨.inl large, x, ?_⟩
    simp only [PyNumber.pow, refused, bind, Except.bind]

theorem scaled_int {m : ℤ} (shape : b.multiplier = .int m) (n : ℕ) :
    (¬ b.Overflows n ∧ ∃ d, b.scaled n = .ok d ∧ d.value = b.growth n) ∨
      (b.Overflows n ∧ ∃ x, b.scaled n = .error x) := by
  have power : (PyNumber.int (m ^ (n - 1))).value = (PyNumber.int m).value ^ (n - 1) :=
    Int.cast_pow m (n - 1)
  cases base : b.baseDelaySeconds with
  | int k =>
    simp only [Overflows, scaled, growth, shape, base, ← power]
    exact .inl ⟨id, .int (k * m ^ (n - 1)), rfl, Int.cast_mul k (m ^ (n - 1))⟩
  | float q =>
    simp only [Overflows, scaled, growth, shape, base, ← power]
    by_cases small : (m ^ (n - 1)).natAbs < floatLimit
    · obtain ⟨d, product, same⟩ := PyNumber.mul_value
        (PyNumber.toFloat_float q)
        (PyNumber.toFloat_small small)
      have scaled := except_bind_iff.mpr ⟨_, PyNumber.pow_int m (n - 1), product⟩
      exact .inl ⟨Nat.not_le.mpr small, d, scaled, same⟩
    · have large := Nat.le_of_not_lt small
      obtain ⟨x, refused⟩ := PyNumber.toFloat_large large
      refine .inr ⟨large, x, ?_⟩
      simp only [PyNumber.pow_int, PyNumber.mul, PyNumber.toFloat_float, refused, bind, Except.bind]

theorem scaled_cases (n : ℕ) :
    (¬ b.Overflows n ∧ ∃ d, b.scaled n = .ok d ∧ d.value = b.growth n) ∨
      (b.Overflows n ∧ ∃ x, b.scaled n = .error x) := by
  cases shape : b.multiplier with
  | float q => exact b.scaled_float shape n
  | int m => exact b.scaled_int shape n

theorem cappedDelay_ok {n : ℕ} {d : PyNumber} (h : b.scaled n = .ok d) :
    b.cappedDelay n = d.min b.maxDelaySeconds := by
  unfold scaled at h
  simp only [cappedDelay, h]

theorem cappedDelay_error {n : ℕ} {x : Exc} (h : b.scaled n = .error x) :
    b.cappedDelay n = b.maxDelaySeconds.min b.maxDelaySeconds := by
  unfold scaled at h
  simp only [cappedDelay, h]

/-- The delay is what the formula gives, or where the computation overflows the cap. -/
theorem cappedDelay_value (n : ℕ) :
    (¬ b.Overflows n ∧ (b.cappedDelay n).value = b.formula n) ∨
      (b.Overflows n ∧ (b.cappedDelay n).value = b.maxDelaySeconds.value) := by
  rcases b.scaled_cases n with ⟨fits, d, product, same⟩ | ⟨overflows, x, failed⟩
  · refine .inl ⟨fits, ?_⟩
    rw [b.cappedDelay_ok product, PyNumber.min_value, same, formula]
  · refine .inr ⟨overflows, ?_⟩
    rw [b.cappedDelay_error failed, PyNumber.min_value, min_self]

theorem delayForRetry_unjittered (off : b.jitter = false) {n : ℕ} (pos : 1 ≤ n) (random : ℚ) :
    b.delayForRetry n random = .ok (b.cappedDelay n) := by
  simp [delayForRetry, off, Nat.not_lt.mpr pos]

end ExponentialBackoff

/-- Without jitter the delay is that of the formula if and only if nothing overflows or the
    formula gives the cap. -/
theorem backoff_formula_iff (b : ExponentialBackoff) (off : b.jitter = false) {n : ℕ}
    (pos : 1 ≤ n) (random : ℚ) :
    (∃ d, b.delayForRetry n random = .ok d ∧ d.value = b.formula n) ↔
      ¬ b.Overflows n ∨ b.maxDelaySeconds.value ≤ b.growth n := by
  have found : (∃ d, b.delayForRetry n random = .ok d ∧ d.value = b.formula n) ↔
      (b.cappedDelay n).value = b.formula n := by
    simp [b.delayForRetry_unjittered off pos]
  rw [found]
  rcases b.cappedDelay_value n with ⟨fits, same⟩ | ⟨overflows, same⟩
  · exact ⟨fun _ => .inl fits, fun _ => same⟩
  · rw [same, ExponentialBackoff.formula, eq_comm, min_eq_right_iff]
    simp [overflows]

def sevenfold : ExponentialBackoff where
  baseDelaySeconds := .float 1
  maxDelaySeconds := .float 30
  multiplier := .float 7
  jitter := false

theorem sevenfold_capped : ∃ d, sevenfold.delayForRetry 10000 0 = .ok d ∧
    d.value = sevenfold.formula 10000 := by
  have reached : sevenfold.maxDelaySeconds.value ≤ sevenfold.growth 10000 := by
    have high : (7 : ℚ) ^ 2 ≤ 7 ^ 9999 := pow_le_pow_right₀ (by decide +kernel) (by decide)
    have low : (30 : ℚ) ≤ 1 * 7 ^ 2 := by decide +kernel
    exact low.trans (mul_le_mul_of_nonneg_left high (by decide +kernel))
  exact (backoff_formula_iff sevenfold rfl (by decide) 0).mpr (.inr reached)

def immediate : ExponentialBackoff where
  baseDelaySeconds := .int 0
  maxDelaySeconds := .float 20
  multiplier := .float 4
  jitter := false

theorem immediate_waits :
    immediate.delayForRetry 513 0 = .ok (.float 20) ∧ immediate.formula 513 = 0 ∧
      ¬ ∃ d, immediate.delayForRetry 513 0 = .ok d ∧ d.value = immediate.formula 513 := by
  have capped : immediate.cappedDelay 513 = .float 20 := by decide +kernel
  have delay : immediate.delayForRetry 513 0 = .ok (.float 20) := by
    rw [immediate.delayForRetry_unjittered rfl (by decide), capped]
  have expected : immediate.formula 513 = 0 := by decide +kernel
  refine ⟨delay, expected, ?_⟩
  rw [delay, expected]
  rintro ⟨d, same, zero⟩
  cases same
  revert zero
  decide +kernel

end Relprim
