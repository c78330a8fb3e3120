import Relprim.Report

/-!
errors.py. An exception instance carries its class, the classes it derives
from and, for the errors of this package, the attributes their constructors
set. A user class may derive from several of them, so the attribute groups are
independent; that an instance has a group stands for `isinstance` of that class.
An `except` clause goes by the classes derived from alone; `isinstance` asks the
metaclass of the class first, which may answer otherwise (`ABCMeta.register`).
-/
namespace Relprim

/-- `CircuitBreakerState`; `opened` is OPEN. -/
inductive CircuitBreakerState where
  | closed | opened | halfOpen
  deriving DecidableEq

def CircuitBreakerState.value : CircuitBreakerState → String
  | .closed => "closed"
  | .opened => "open"
  | .halfOpen => "half_open"

structure ExcClass where
  name : String
  module : String
  deriving DecidableEq

def exceptionClass : ExcClass := ⟨"Exception", "builtins"⟩
def timeoutErrorClass : ExcClass := ⟨"TimeoutError", "builtins"⟩
def stopIterationClass : ExcClass := ⟨"StopIteration", "builtins"⟩
def relprimErrorClass : ExcClass := ⟨"RelPrimError", "relprim.errors"⟩

theorem exceptions_given : [exceptionClass] ≠ [] := List.cons_ne_nil _ _

structure ValidationFields where
  validatorName : String
  reason : String

structure BreakerFields where
  breakerName : String
  state : CircuitBreakerState
  retryAfterSeconds : Option PyFloat

/-- `timeout` of OperationTimeoutError, `retry` of RetryError, `validation` of
    ValidationFailedError, `breaker` of CircuitBreakerOpenError, `failures` of
    FallbackChainError, `extraction` of RetryAfterExtractionError, `execution` of
    OperationExecutionError, `reentry` of IdempotencyReentryError. -/
structure ExcFields (E : Type) where
  timeout : Option (ℚ × Option E) := none
  retry : Option (ℕ × E) := none
  validation : Option ValidationFields := none
  breaker : Option BreakerFields := none
  failures : Option (List E) := none
  extraction : Option (E × Option E) := none
  execution : Option (ExecutionReport × E) := none
  reentry : Option String := none

/-- An instance of a subclass of Exception. `instancecheck` has the answers of the classes
    whose metaclass defines `__instancecheck__`. -/
inductive Exc where
  | mk (type : ExcClass) (bases : List ExcClass) (instancecheck : List (ExcClass × Bool))
      (message : String) (fields : ExcFields Exc)

namespace Exc

def type : Exc → ExcClass
  | .mk t _ _ _ _ => t

def bases : Exc → List ExcClass
  | .mk _ b _ _ _ => b

def instancecheck : Exc → List (ExcClass × Bool)
  | .mk _ _ c _ _ => c

def message : Exc → String
  | .mk _ _ _ m _ => m

def fields : Exc → ExcFields Exc
  | .mk _ _ _ _ f => f

def derives (e : Exc) (t : ExcClass) : Bool :=
  t = exceptionClass || t = e.type || e.bases.contains t

/-- `except types`. -/
def caughtBy (e : Exc) (types : List ExcClass) : Bool := types.any e.derives

/-- `isinstance(e, types)` for a tuple of exception classes. -/
def isInstance (e : Exc) (types : List ExcClass) : Bool :=
  types.any fun t =>
    t = exceptionClass || t = e.type || (e.instancecheck.lookup t).getD (e.bases.contains t)

def chainCause (failures : List Exc) : Option Exc := failures.getLast?

end Exc

def builtinError (name message : String) : Exc :=
  .mk ⟨name, "builtins"⟩ [exceptionClass] [] message {}

def valueError (message : String) : Exc := builtinError "ValueError" message
def typeError (message : String) : Exc := builtinError "TypeError" message
def runtimeError (message : String) : Exc := builtinError "RuntimeError" message
def overflowError (message : String) : Exc := builtinError "OverflowError" message

/-- What leaves a coroutine in which `e` is raised and not caught. -/
def Exc.leaveCoroutine (e : Exc) : Exc :=
  if e.derives stopIterationClass then runtimeError "coroutine raised StopIteration" else e

def coroutine {A : Type} (r : Except Exc A) : Except Exc A := r.mapError Exc.leaveCoroutine

@[simp] theorem coroutine_ok {A : Type} (a : A) : coroutine (.ok a) = .ok a := rfl

@[simp] theorem coroutine_error {A : Type} (e : Exc) :
    coroutine (.error e : Except Exc A) = .error e.leaveCoroutine := rfl

def relprimError (name message : String) (fields : ExcFields Exc) : Exc :=
  .mk ⟨name, "relprim.errors"⟩ [relprimErrorClass, exceptionClass] [] message fields

@[simp] theorem leaveCoroutine_relprimError (name message : String) (fields : ExcFields Exc) :
    (relprimError name message fields).leaveCoroutine = relprimError name message fields := by
  have foreign : (relprimError name message fields).derives stopIterationClass = false := by
    simp [relprimError, Exc.derives, Exc.type, Exc.bases, stopIterationClass, exceptionClass,
      relprimErrorClass]
  simp [Exc.leaveCoroutine, foreign]

def operationTimeoutError (message : String) (seconds : ℚ) (cause : Exc) : Exc :=
  relprimError "OperationTimeoutError" message { timeout := some (seconds, some cause) }

def operationExecutionError (message : String) (report : ExecutionReport) (cause : Exc) : Exc :=
  relprimError "OperationExecutionError" message { execution := some (report, cause) }

def fallbackChainError (message : String) (failures : List Exc) : Exc :=
  relprimError "FallbackChainError" message { failures := some failures }

def circuitBreakerOpenError (message breakerName : String) (state : CircuitBreakerState)
    (retryAfterSeconds : Option PyFloat) : Exc :=
  relprimError "CircuitBreakerOpenError" message
    { breaker := some ⟨breakerName, state, retryAfterSeconds⟩ }

def validationFailedError (message validatorName reason : String) : Exc :=
  relprimError "ValidationFailedError" message { validation := some ⟨validatorName, reason⟩ }

def idempotencyReentryError (key : String) : Exc :=
  relprimError "IdempotencyReentryError"
    "An idempotency key was reused recursively by its owning task." { reentry := some key }

def retryAfterExtractionError (message : String) (rateLimitError : Exc) (cause : Option Exc) :
    Exc :=
  relprimError "RetryAfterExtractionError" message { extraction := some (rateLimitError, cause) }

/-- What leaves a Python call abnormally: an Exception, cancellation of the
    task, or any other BaseException. -/
inductive Raised where
  | exception (e : Exc)
  | cancelled
  | baseException (type : ExcClass)

/-- What `except Exception` catches. -/
def Raised.exception? : Raised → Option Exc
  | .exception e => some e
  | _ => none

/-- `ExecutionError.from_exception`. `str(exception)` is assumed to return a string. -/
def ExecutionError.fromException (e : Exc) (retryable : Option Bool) : ExecutionError where
  type := e.type.name
  message := if e.message = "" then e.type.name else e.message
  module := some e.type.module
  retryable := retryable

end Relprim
