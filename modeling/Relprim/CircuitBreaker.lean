import Relprim.Checks

/-!
circuit_breaker.py. The critical sections never suspend, so each of them is one
function from the state it finds to the state it leaves. Clock arithmetic is
exact.
-/
namespace Relprim

structure CircuitBreaker where
  name : String := "default"
  failureThreshold : ℕ := 5
  recoveryTimeoutSeconds : ℚ := 30
  recordFailureOn : List ExcClass := [exceptionClass]
  name_ok : isBlank name = false := by decide
  threshold_pos : 1 ≤ failureThreshold := by decide
  timeout_pos : 0 < recoveryTimeoutSeconds := by decide
  record_ok : recordFailureOn ≠ [] := by decide

structure BreakerState where
  state : CircuitBreakerState := .closed
  failureCount : ℕ := 0
  openedAt : Option ℚ := none
  halfOpenProbeInFlight : Bool := false

structure CircuitBreakerSnapshot where
  name : String
  state : CircuitBreakerState
  failureCount : ℕ
  failureThreshold : ℕ
  openedAt : Option ℚ
  recoveryTimeoutSeconds : ℚ
  halfOpenProbeInFlight : Bool

namespace CircuitBreaker
variable (cb : CircuitBreaker)

def records (e : Exc) : Bool := e.isInstance cb.recordFailureOn

def openAt (now : ℚ) (b : BreakerState) : BreakerState :=
  { b with state := .opened, openedAt := some now, halfOpenProbeInFlight := false }

/-- `_close`, which is also all that `reset` does. -/
def close (_ : BreakerState) : BreakerState := {}

def openError (b : BreakerState) (retryAfterSeconds : Option ℚ) : Exc :=
  let state := b.state.value
  let name := cb.name
  circuitBreakerOpenError s!"Circuit breaker '{name}' is {state}." cb.name b.state
    (retryAfterSeconds.map .finite)

/-- Admit or reject a call; `.ok true` for a half-open probe. -/
def beforeCall (now : ℚ) (b : BreakerState) : Except Exc Bool × BreakerState :=
  match b.state with
  | .opened =>
    match b.openedAt with
    | some openedAt =>
      let elapsed := now - openedAt
      if elapsed ≥ cb.recoveryTimeoutSeconds then
        (.ok true, { b with state := .halfOpen, halfOpenProbeInFlight := true })
      else
        (.error (cb.openError b (some (max 0 (cb.recoveryTimeoutSeconds - elapsed)))), b)
    | none => (.error (cb.openError b (some cb.recoveryTimeoutSeconds)), b)
  | .halfOpen =>
    if b.halfOpenProbeInFlight then (.error (cb.openError b none), b)
    else (.ok true, { b with halfOpenProbeInFlight := true })
  | .closed => (.ok false, b)

def afterSuccess (b : BreakerState) : BreakerState :=
  match b.state with
  | .halfOpen => close b
  | .closed => { b with failureCount := 0 }
  | .opened => b

def afterFailure (now : ℚ) (e : Exc) (b : BreakerState) : BreakerState :=
  if !cb.records e then
    if b.state = .halfOpen then { b with halfOpenProbeInFlight := false } else b
  else
    match b.state with
    | .halfOpen => openAt now b
    | .closed =>
      let counted := { b with failureCount := b.failureCount + 1 }
      if counted.failureCount ≥ cb.failureThreshold then openAt now counted else counted
    | .opened => b

/-- The `except BaseException` branch of `run_async`. -/
def release (probe : Bool) (b : BreakerState) : BreakerState :=
  if probe then { b with halfOpenProbeInFlight := false } else b

/-- What `run_async` does to the breaker once the protected call has ended. -/
def afterCall (now : ℚ) (probe : Bool) (outcome : Except Raised Unit) (b : BreakerState) :
    BreakerState :=
  match outcome with
  | .ok _ => afterSuccess b
  | .error (.exception e) => cb.afterFailure now e b
  | .error _ => release probe b

def snapshot (b : BreakerState) : CircuitBreakerSnapshot where
  name := cb.name
  state := b.state
  failureCount := b.failureCount
  failureThreshold := cb.failureThreshold
  openedAt := b.openedAt
  recoveryTimeoutSeconds := cb.recoveryTimeoutSeconds
  halfOpenProbeInFlight := b.halfOpenProbeInFlight

/-- The five things an arriving call can meet. -/
theorem beforeCall_cases (now : ℚ) (b : BreakerState) :
    (b.state = .closed ∧ cb.beforeCall now b = (.ok false, b)) ∨
    (b.state = .opened ∧ (∃ t, b.openedAt = some t ∧ cb.recoveryTimeoutSeconds ≤ now - t) ∧
      cb.beforeCall now b =
        (.ok true, { b with state := .halfOpen, halfOpenProbeInFlight := true })) ∨
    (b.state = .opened ∧ (∀ t, b.openedAt = some t → now - t < cb.recoveryTimeoutSeconds) ∧
      ∃ e, cb.beforeCall now b = (.error e, b)) ∨
    (b.state = .halfOpen ∧ b.halfOpenProbeInFlight = false ∧
      cb.beforeCall now b = (.ok true, { b with halfOpenProbeInFlight := true })) ∨
    (b.state = .halfOpen ∧ b.halfOpenProbeInFlight = true ∧
      ∃ e, cb.beforeCall now b = (.error e, b)) := by
  cases state : b.state with
  | closed => exact .inl ⟨rfl, by simp [beforeCall, state]⟩
  | opened =>
    cases opened : b.openedAt with
    | none =>
      exact .inr (.inr (.inl ⟨rfl, by simp, cb.openError b (some cb.recoveryTimeoutSeconds),
        by simp [beforeCall, state, opened]⟩))
    | some t =>
      by_cases ready : cb.recoveryTimeoutSeconds ≤ now - t
      · exact .inr (.inl ⟨rfl, ⟨t, rfl, ready⟩, by simp [beforeCall, state, opened, ready]⟩)
      · refine .inr (.inr (.inl ⟨rfl, ?_,
          cb.openError b (some (max 0 (cb.recoveryTimeoutSeconds - (now - t)))),
          by simp [beforeCall, state, opened, ready]⟩))
        intro u hu
        cases hu
        exact not_le.mp ready
  | halfOpen =>
    cases flag : b.halfOpenProbeInFlight with
    | false => exact .inr (.inr (.inr (.inl ⟨rfl, rfl, by simp [beforeCall, state, flag]⟩)))
    | true =>
      exact .inr (.inr (.inr (.inr ⟨rfl, rfl, cb.openError b none,
        by simp [beforeCall, state, flag]⟩)))

theorem beforeCall_closed {now : ℚ} {b : BreakerState} (h : b.state = .closed) :
    cb.beforeCall now b = (.ok false, b) := by
  simp [beforeCall, h]

theorem beforeCall_recovered {now t : ℚ} {b : BreakerState} (h : b.state = .opened)
    (opened : b.openedAt = some t) (ready : cb.recoveryTimeoutSeconds ≤ now - t) :
    cb.beforeCall now b =
      (.ok true, { b with state := .halfOpen, halfOpenProbeInFlight := true }) := by
  simp [beforeCall, h, opened, ready]

theorem beforeCall_slot_free {now : ℚ} {b : BreakerState} (h : b.state = .halfOpen)
    (free : b.halfOpenProbeInFlight = false) :
    cb.beforeCall now b = (.ok true, { b with halfOpenProbeInFlight := true }) := by
  simp [beforeCall, h, free]

theorem afterCall_cases (now : ℚ) (probe : Bool) (o : Except Raised Unit) (b : BreakerState) :
    (o = .ok () ∧ cb.afterCall now probe o b = afterSuccess b) ∨
    (∃ e, o = .error (.exception e) ∧ cb.records e = true ∧
      cb.afterCall now probe o b = cb.afterFailure now e b) ∨
    (∃ e, o = .error (.exception e) ∧ cb.records e = false ∧
      cb.afterCall now probe o b =
        if b.state = .halfOpen then { b with halfOpenProbeInFlight := false } else b) ∨
    (∃ x, o = .error x ∧ x.exception? = none ∧ cb.afterCall now probe o b = release probe b) := by
  cases o with
  | ok u => exact .inl ⟨rfl, rfl⟩
  | error x =>
    cases x with
    | exception e =>
      cases recorded : cb.records e with
      | true => exact .inr (.inl ⟨e, rfl, recorded, rfl⟩)
      | false =>
        exact .inr (.inr (.inl ⟨e, rfl, recorded, by simp [afterCall, afterFailure, recorded]⟩))
    | cancelled => exact .inr (.inr (.inr ⟨_, rfl, rfl, rfl⟩))
    | baseException c => exact .inr (.inr (.inr ⟨_, rfl, rfl, rfl⟩))

theorem afterFailure_halfOpen {now : ℚ} {e : Exc} {b : BreakerState}
    (recorded : cb.records e = true)
    (h : b.state = .halfOpen) : cb.afterFailure now e b = openAt now b := by
  simp [afterFailure, recorded, h]

theorem afterFailure_recorded (now : ℚ) {e : Exc} {b : BreakerState}
    (recorded : cb.records e = true) (h : b.state ≠ .halfOpen) :
    (b.state = .opened ∧ cb.afterFailure now e b = b) ∨
    (b.state = .closed ∧ b.failureCount + 1 < cb.failureThreshold ∧
      cb.afterFailure now e b = { b with failureCount := b.failureCount + 1 }) ∨
    (b.state = .closed ∧ cb.failureThreshold ≤ b.failureCount + 1 ∧
      cb.afterFailure now e b = openAt now { b with failureCount := b.failureCount + 1 }) := by
  cases state : b.state with
  | halfOpen => exact absurd state h
  | opened => exact .inl ⟨rfl, by simp [afterFailure, recorded, state]⟩
  | closed =>
    by_cases full : cb.failureThreshold ≤ b.failureCount + 1
    · exact .inr (.inr ⟨rfl, full, by simp [afterFailure, recorded, state, full]⟩)
    · exact .inr (.inl ⟨rfl, by omega, by simp [afterFailure, recorded, state, full]⟩)

end CircuitBreaker
end Relprim
