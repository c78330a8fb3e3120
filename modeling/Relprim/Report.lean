import Relprim.Scalars

/-!
report.py: statuses, the serialised error, attempts and the report, with the
properties that are computed from them. The checks their constructors make are
in Relprim.Checks.
-/
namespace Relprim

inductive ExecutionStatus where
  | succeeded | failed | timedOut
  deriving DecidableEq

inductive AttemptStatus where
  | succeeded | failed | timedOut
  deriving DecidableEq

def ExecutionStatus.value : ExecutionStatus → String
  | .succeeded => "succeeded"
  | .failed => "failed"
  | .timedOut => "timed_out"

def AttemptStatus.value : AttemptStatus → String
  | .succeeded => "succeeded"
  | .failed => "failed"
  | .timedOut => "timed_out"

structure ExecutionError where
  type : String
  message : String
  module : Option String := none
  retryable : Option Bool := none

structure ExecutionAttempt where
  attemptNumber : ℤ
  status : AttemptStatus
  startedAt : DateTime
  durationSeconds : ℚ
  error : Option ExecutionError := none
  metadata : Metadata := ∅
  fallback : Bool := false

namespace ExecutionAttempt

def succeeded (a : ExecutionAttempt) : Bool := a.status = .succeeded
def failed (a : ExecutionAttempt) : Bool := !a.succeeded

end ExecutionAttempt

structure ExecutionReport where
  operationName : String
  status : ExecutionStatus
  startedAt : DateTime
  durationSeconds : ℚ
  attempts : List ExecutionAttempt
  metadata : Metadata := ∅

namespace ExecutionReport

def succeeded (r : ExecutionReport) : Bool := r.status = .succeeded
def failed (r : ExecutionReport) : Bool := !r.succeeded
def attemptCount (r : ExecutionReport) : ℕ := r.attempts.length

/-- Primary attempts after the first one. -/
def retryCount (r : ExecutionReport) : ℕ :=
  (r.attempts.filter fun a => !a.fallback).length - 1

def retried (r : ExecutionReport) : Bool := r.retryCount > 0
def lastAttempt (r : ExecutionReport) : Option ExecutionAttempt := r.attempts.getLast?
def lastError (r : ExecutionReport) : Option ExecutionError := r.attempts.reverse.findSome?
    (·.error)

end ExecutionReport

structure OperationResult (V : Type) where
  value : V
  report : ExecutionReport

end Relprim
