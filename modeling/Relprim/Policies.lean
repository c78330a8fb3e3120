import Relprim.Events

/-!
How the policies around a call run it: `CircuitBreaker.run_async`, timeout.py and
fallback.py.
-/
namespace Relprim
open Interruptible Interruptible.Program

/-- `CircuitBreaker.run_async`. The critical sections around the operation never suspend. -/
def CircuitBreaker.runAsync (cb : CircuitBreaker) (turn : BreakerTurn) (operation : Run A) :
    Run A := do
  let probe ← atomic fun s =>
    let (admitted, breaker) := cb.beforeCall turn.admittedAt (turn.before s.breaker)
    (admitted.mapError .exception,
      { s with breaker, breakerCalls := s.breakerCalls ++ [.beforeCall admitted breaker] })
  onExit (fun outcome s =>
    let outcome := outcome.map fun _ => ()
    let breaker := cb.afterCall turn.completedAt probe outcome (turn.during s.breaker)
    { s with breaker, breakerCalls := s.breakerCalls ++ [.afterCall outcome breaker] })
    operation

structure TimeoutPolicy where
  seconds : PyNumber
  seconds_pos : 0 < seconds.value := by decide +kernel

/-- What the body of `async with deadline` came to, and whether the deadline had expired. -/
structure CallOutcome (V : Type) where
  outcome : Except Exc V
  expired : Bool := false

/-- `run_async` once the body has ended. -/
def TimeoutPolicy.settle (p : TimeoutPolicy) (str : PyNumber → String) (c : CallOutcome V) :
    Except Exc V :=
  match c.outcome with
  | .ok v => .ok v
  | .error e =>
    if e.caughtBy [timeoutErrorClass] && c.expired then
      let seconds := str p.seconds
      .error (operationTimeoutError s!"Operation timed out after {seconds} second(s)."
        p.seconds.value e)
    else .error e

/-- `operation` is a program where the chain runs, and its outcome where it is configured. -/
structure FallbackCandidate (O : Type) where
  name : String
  operation : O
  name_ok : isBlank name = false := by decide

structure FallbackPolicy where
  fallbackOn : List ExcClass := [exceptionClass]
  fallback_ok : fallbackOn ≠ [] := by decide

def FallbackPolicy.shouldFallback (p : FallbackPolicy) (e : Exc) : Bool := e.isInstance p.fallbackOn

structure FallbackResult (R : Type) where
  value : R
  candidateName : String
  candidateIndex : ℕ
  fallbackUsed : Bool
  failures : List Exc

def FallbackResult.failureCount (r : FallbackResult R) : ℕ := r.failures.length

structure FallbackChain (O : Type) where
  candidates : List (FallbackCandidate O)
  policy : FallbackPolicy := {}
  candidates_ok : candidates ≠ []

namespace FallbackChain

def runFrom (p : FallbackPolicy) (count : ℕ) :
    List (FallbackCandidate (Run R)) → ℕ → List Exc → Run (FallbackResult R)
  | [], _, failures =>
    Run.throwing (fallbackChainError s!"All {count} fallback candidate(s) failed." failures)
  | candidate :: rest, index, failures => do
    match ← Run.tryExcept candidate.operation with
    | .error e =>
      if !p.shouldFallback e then Run.throwing e
      else runFrom p count rest (index + 1) (failures ++ [e])
    | .ok value =>
      return {
        value
        candidateName := candidate.name
        candidateIndex := index
        fallbackUsed := 0 < index
        failures }

def run (chain : FallbackChain (Run R)) : Run (FallbackResult R) :=
  runFrom chain.policy chain.candidates.length chain.candidates 0 []

end FallbackChain

end Relprim
