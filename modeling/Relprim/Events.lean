import Mathlib.Data.Nat.Cast.Order.Ring
import Mathlib.Order.Monotone.Basic
import Relprim.Library.Interruptible
import Relprim.CircuitBreaker
import Relprim.Retry

/-!
events.py, and the programs that the coroutines of the package denote: what they
read from outside, what they keep, and the effects at which they suspend.
-/
namespace Relprim
open Interruptible Interruptible.Program Dictionary

inductive EventType where
  | attemptStarted | attemptSucceeded | attemptFailed
  | circuitBreakerRejected
  | fallbackStarted | fallbackSucceeded | fallbackFailed
  | operationStarted | operationSucceeded | operationFailed
  | rateLimitDetected | rateLimitWaitExceeded
  | retryScheduled
  | validationSucceeded | validationFailed
  deriving DecidableEq

def EventType.value : EventType → String
  | .attemptStarted => "attempt.started"
  | .attemptSucceeded => "attempt.succeeded"
  | .attemptFailed => "attempt.failed"
  | .circuitBreakerRejected => "circuit_breaker.rejected"
  | .fallbackStarted => "fallback.started"
  | .fallbackSucceeded => "fallback.succeeded"
  | .fallbackFailed => "fallback.failed"
  | .operationStarted => "operation.started"
  | .operationSucceeded => "operation.succeeded"
  | .operationFailed => "operation.failed"
  | .rateLimitDetected => "rate_limit.detected"
  | .rateLimitWaitExceeded => "rate_limit.wait_exceeded"
  | .retryScheduled => "retry.scheduled"
  | .validationSucceeded => "validation.succeeded"
  | .validationFailed => "validation.failed"

structure StructuredEvent where
  eventType : EventType
  operationName : String
  timestamp : DateTime
  payload : EventPayload := ∅

def StructuredEvent.new (e : StructuredEvent) : Except Exc StructuredEvent := do
  check (!isBlank e.operationName) (valueError "operation_name must not be empty.")
  checkAware e.timestamp "timestamp"
  let payload ← freezeJsonScalars e.payload "payload"
  return { e with payload }

theorem event_new_ok {e : StructuredEvent} (name : isBlank e.operationName = false)
    (aware : e.timestamp.utcoffset.isSome = true) (finite : finiteValues e.payload) :
    StructuredEvent.new e = .ok e := by
  simp only [StructuredEvent.new, name, checkAware, aware, freezeJsonScalars_ok finite,
    Bool.not_false, check_true, bind, Except.bind]
  rfl

def payloadError : Exc := valueError "payload values must be finite."

theorem event_new_refused {e : StructuredEvent} (name : isBlank e.operationName = false)
    (aware : e.timestamp.utcoffset.isSome = true) (bad : ¬ finiteValues e.payload) :
    StructuredEvent.new e = .error payloadError := by
  have refused : allValues JsonScalar.isfinite e.payload = false := by
    simpa [finiteValues] using bad
  simp only [StructuredEvent.new, name, checkAware, aware, freezeJsonScalars, refused,
    Bool.not_false, check, bind, Except.bind]
  rfl

/-- The suspension points of a run: a delivery to the sink at a position, the call of the
    operation in an attempt, the call of a fallback candidate, and the sleep before a retry. -/
inductive Effect where
  | deliver (sink : ℕ) (event : StructuredEvent)
  | primary (attempt : ℕ)
  | candidate (index : ℕ)
  | sleep (seconds : PyNumber)

/-- A call that a run makes to its breaker, with what it came to and the breaker as it is left. -/
inductive BreakerCall where
  | beforeCall (admitted : Except Exc Bool) (breaker : BreakerState)
  | afterCall (outcome : Except Raised Unit) (breaker : BreakerState)

/-- `reads` counts the clock readings of the run. The breaker is shared with other calls;
    `breakerCalls` are the calls that the run has made to it. -/
structure Session where
  reads : ℕ := 0
  breaker : BreakerState := {}
  breakerCalls : List BreakerCall := []

/-- What happens to the breaker around one attempt: `before` and `during` are what other
    calls do to it, and its clock is read at admission and at completion. -/
structure BreakerTurn where
  before : BreakerState → BreakerState := id
  admittedAt : ℚ := 0
  during : BreakerState → BreakerState := id
  completedAt : ℚ := 0

/-- The clocks by reading, the random stream and the breaker by attempt, and how `str`
    shows a number. The performance counter never goes back. -/
structure Environment where
  utcNow : ℕ → ℤ
  perfCounter : ℕ → ℚ
  random : ℕ → ℚ
  breakerTurn : ℕ → BreakerTurn
  str : PyNumber → String
  perf_mono : Monotone perfCounter
  random_range : ∀ n, 0 ≤ random n ∧ random n < 1

def steady : Environment where
  utcNow n := n
  perfCounter n := n
  random _ := 0
  breakerTurn _ := {}
  str _ := ""
  perf_mono _ _ le := Nat.cast_le.mpr le
  random_range _ := ⟨le_refl _, by decide +kernel⟩

abbrev Run (A : Type) := Program Raised Effect Session A

namespace Run
variable {A : Type}

def lift (r : Except Exc A) : Run A := fromExcept (r.mapError .exception)

def throwing (e : Exc) : Run A := raise (.exception e)

/-- `try` with `except Exception`. -/
def tryExcept (body : Run A) : Run (Except Exc A) := attempt Raised.exception? body

def reading (f : ℕ → B) : Run B := atomic fun s =>
    (.ok (f s.reads), { s with reads := s.reads + 1 })

def utcNow (env : Environment) : Run DateTime := reading fun n => .utc (env.utcNow n)

def perfCounter (env : Environment) : Run ℚ := reading env.perfCounter

def elapsedSeconds (env : Environment) (startedAt : ℚ) : Run ℚ := do
  let now ← perfCounter env
  return now - startedAt

end Run

/-- `sinks` is their number: a sink is known by its position. -/
structure EventEmitter where
  sinks : ℕ := 1
  timestampFactory : ℕ → DateTime
  sinks_pos : 0 < sinks := by decide

namespace EventEmitter

def deliver (event : StructuredEvent) : List ℕ → Run Unit
  | [] => pure ()
  | sink :: rest => do
    effect (.deliver sink event)
    deliver event rest

def emit (emitter : EventEmitter) (eventType : EventType) (operationName : String)
    (payload : EventPayload) : Run StructuredEvent := do
  let timestamp ← Run.reading emitter.timestampFactory
  let event ← Run.lift (StructuredEvent.new { eventType, operationName, timestamp, payload })
  deliver event (List.range emitter.sinks)
  return event

end EventEmitter

end Relprim
