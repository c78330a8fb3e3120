import Relprim.Operation

/-!
One walk through the blocks of a run. A judgement that the smallest parts satisfy and that
sequencing keeps holds of every block, and of the whole run if it holds of the attempts.
-/
namespace Relprim
open Interruptible Interruptible.Program

structure Composes (J : {A : Type} → Run A → Prop) : Prop where
  pure {A : Type} (a : A) : J (pure a : Run A)
  bind {A B : Type} {m : Run A} {f : A → Run B} (first : J m) (second : ∀ a, J (f a)) :
    J (m >>= f)

/-- Judgements of what happens inside the `try` blocks. -/
structure Calls (J : {A : Type} → Run A → Prop) : Prop extends Composes J where
  lift {A : Type} (r : Except Exc A) : J (Run.lift r)
  candidate (index : ℕ) : J (effect (.candidate index) : Run Unit)
  tryExcept {A : Type} {m : Run A} (inside : J m) : J (Run.tryExcept m)

structure Attempts (J : {A : Type} → Run A → Prop) : Prop extends Calls J where
  primary (attempt : ℕ) : J (effect (.primary attempt) : Run Unit)
  guarded {A : Type} {m : Run A} (inside : J m) (breaker : CircuitBreaker) (turn : BreakerTurn) :
    J (breaker.runAsync turn m)

/-- Judgements of the blocks that announce something and of the sleeps between attempts. -/
structure Announces {V : Type} (op : AsyncOperation V) (J : {A : Type} → Run A → Prop) : Prop
    extends Composes J where
  emit (type : EventType) (payload : EventPayload) : J (op.emitEvent type payload)
  sleep (d : PyNumber) : J (effect (.sleep d) : Run Unit)
  internal {A : Type} (message : String) : J (Run.throwing (runtimeError message) : Run A)

structure Settles {V : Type} (op : AsyncOperation V) (J : {A : Type} → Run A → Prop) : Prop
    extends Announces op J where
  reading {A : Type} (f : ℕ → A) : J (Run.reading f)
  lift {A : Type} (r : Except Exc A) : J (Run.lift r)
  candidates (chain : FallbackChain (Except Exc V)) :
    J (Run.tryExcept (op.validatedFallbackChain chain).run)

variable {V : Type} {op : AsyncOperation V} {J : {A : Type} → Run A → Prop}

/-! The calls of the user's code. -/

namespace Calls
variable (w : Calls J)
include w

theorem runCandidate (index : ℕ) (operation : Except Exc V) :
    J (op.runCandidate index operation) := by
  apply w.bind (w.candidate index)
  intro _
  apply w.bind (w.lift _)
  intro value
  apply w.bind (w.lift _)
  intro metadata
  exact w.pure (value, metadata)

theorem chainFrom (p : FallbackPolicy) (count : ℕ)
    (candidates : List (FallbackCandidate (Except Exc V))) (index : ℕ) (failures : List Exc) :
    J (FallbackChain.runFrom p count (op.validatedCandidates candidates index) index failures) := by
  induction candidates generalizing index failures with
  | nil => exact w.lift (.error _)
  | cons candidate rest ih =>
    apply w.bind (w.tryExcept (w.runCandidate index candidate.operation))
    intro outcome
    cases outcome with
    | ok value => exact w.pure _
    | error e =>
      simp only
      split
      · exact w.lift (.error e)
      · exact ih (index + 1) (failures ++ [e])

theorem chain (chain : FallbackChain (Except Exc V)) : J (op.validatedFallbackChain chain).run :=
  w.chainFrom _ _ _ _ _

end Calls

theorem Attempts.runSingleAttempt (w : Attempts J) (env : Environment) (attempt : ℕ) :
    J (op.runSingleAttempt env attempt) := by
  have bare : J (op.runSingleAttemptWithoutCircuitBreaker env attempt) := by
    apply w.bind (w.primary attempt)
    intro _
    apply w.bind (w.lift _)
    intro value
    apply w.bind (w.lift _)
    intro metadata
    exact w.pure (value, metadata)
  unfold AsyncOperation.runSingleAttempt
  split
  · exact w.guarded bare _ _
  · exact bare

/-! The blocks that announce something. -/

namespace Announces
variable (w : Announces op J)
include w

theorem emitRateLimit (attempt : ℕ) (e : Exc) (plan : RetryPlan) :
    J (op.emitRateLimit attempt e plan) := by
  unfold AsyncOperation.emitRateLimit
  split
  · apply w.bind (w.emit _ _)
    intro _
    split
    · exact w.emit _ _
    · exact w.pure ()
  · exact w.pure ()

theorem emitValidationFailed (attempt : ℕ) (e : Exc) : J (op.emitValidationFailed attempt e) := by
  unfold AsyncOperation.emitValidationFailed
  split
  · exact w.pure ()
  · exact w.emit _ _

theorem emitCircuitBreakerRejected (attempt : ℕ) (e : Exc) :
    J (op.emitCircuitBreakerRejected attempt e) := by
  unfold AsyncOperation.emitCircuitBreakerRejected
  split
  · exact w.pure ()
  · exact w.emit _ _

theorem emitFallbackValidationFailures (attempt : ℕ)
    (failed : List (FallbackCandidate (Except Exc V) × Exc)) :
    J (op.emitFallbackValidationFailures attempt failed) := by
  induction failed with
  | nil => exact w.pure ()
  | cons pair rest ih =>
    have first : J (op.emitCandidateValidationFailed attempt pair.1 pair.2) := by
      unfold AsyncOperation.emitCandidateValidationFailed
      split
      · exact w.pure ()
      · exact w.emit _ _
    exact w.bind first fun _ => ih

theorem emitChainValidationFailed (chain : FallbackChain (Except Exc V)) (attempt : ℕ) (e : Exc) :
    J (op.emitChainValidationFailed chain attempt e) := by
  unfold AsyncOperation.emitChainValidationFailed
  split
  · exact w.emitFallbackValidationFailures _ _
  · exact w.emit _ _
  · exact w.pure ()

theorem emitValidationSucceeded (metadata : Metadata) (payload : EventPayload) :
    J (op.emitValidationSucceeded metadata payload) := by
  unfold AsyncOperation.emitValidationSucceeded
  split
  · exact w.emit _ _
  · exact w.pure ()

theorem sleepBeforeRetry (attempt : ℕ) (plan : RetryPlan) :
    J (op.sleepBeforeRetry attempt plan) := by
  unfold AsyncOperation.sleepBeforeRetry
  split
  · exact w.internal _
  · split
    · apply w.bind (w.emit _ _)
      intro _
      apply w.bind (w.sleep _)
      intro _
      exact w.pure _
    · exact w.internal _

end Announces

/-! All that follows an attempt. -/

namespace Settles
variable (w : Settles op J) (env : Environment)
include w

theorem throwing {A : Type} (e : Exc) : J (Run.throwing e : Run A) := w.lift (.error e)

theorem elapsed (startedAt : ℚ) : J (Run.elapsedSeconds env startedAt) := by
  apply w.bind (w.reading _)
  intro now
  exact w.pure _

theorem buildReport (started : Started) (status : ExecutionStatus) (progress : Progress)
    (metadata : Metadata) : J (op.buildReport env started status progress metadata) := by
  apply w.bind (w.elapsed env _)
  intro duration
  exact w.lift _

theorem succeed (started : Started) (progress : Progress) (metadata : Metadata) (value : V) :
    J (op.succeed env started progress metadata value) := by
  apply w.bind (w.buildReport env _ _ _ _)
  intro report
  apply w.bind (w.emit _ _)
  intro _
  exact w.pure _

theorem fail (started : Started) (progress : Progress) (status : AttemptStatus)
    (metadata : Metadata) (message : String) (e : Exc) :
    J (op.fail env started progress status metadata message e) := by
  apply w.bind (w.buildReport env _ _ _ _)
  intro report
  apply w.bind (w.emit _ _)
  intro _
  exact w.throwing _

theorem recordFailure (attempt : ℕ) (started : Started) (progress : Progress) (e : Exc)
    (plan : RetryPlan) : J (op.recordFailure env attempt started progress e plan) := by
  apply w.bind (w.emitRateLimit _ _ _)
  intro _
  apply w.bind (w.elapsed env _)
  intro duration
  apply w.bind (w.emitValidationFailed _ _)
  intro _
  apply w.bind (w.emitCircuitBreakerRejected _ _)
  intro _
  apply w.bind (w.lift _)
  intro record
  apply w.bind (w.emit _ _)
  intro _
  exact w.pure _

theorem failFallback (started : Started) (progress : Progress)
    (chain : FallbackChain (Except Exc V)) (attempt : ℕ) (fallbackStarted : Started) (e : Exc) :
    J (op.failFallback env started progress chain attempt fallbackStarted e) := by
  apply w.bind (w.elapsed env _)
  intro duration
  apply w.bind (w.emitChainValidationFailed _ _ _)
  intro _
  apply w.bind (w.lift _)
  intro record
  apply w.bind (w.emit _ _)
  intro _
  apply w.bind (w.emit _ _)
  intro _
  exact w.fail env _ _ _ _ _ _

theorem succeedFallback (started : Started) (progress : Progress)
    (chain : FallbackChain (Except Exc V)) (attempt : ℕ) (fallbackStarted : Started)
    (result : FallbackResult (V × Metadata)) :
    J (op.succeedFallback env started progress chain attempt fallbackStarted result) := by
  apply w.bind (w.emitFallbackValidationFailures _ _)
  intro _
  apply w.bind (w.emitValidationSucceeded _ _)
  intro _
  apply w.bind (w.elapsed env _)
  intro duration
  apply w.bind (w.lift _)
  intro record
  apply w.bind (w.emit _ _)
  intro _
  apply w.bind (w.emit _ _)
  intro _
  exact w.succeed env _ _ _ _

theorem runFallback (started : Started) (progress : Progress)
    (chain : FallbackChain (Except Exc V)) : J (op.runFallback env started progress chain) := by
  apply w.bind (w.reading _)
  intro startedAt
  apply w.bind (w.reading _)
  intro monotonic
  apply w.bind (w.emit _ _)
  intro _
  apply w.bind (w.candidates chain)
  intro outcome
  cases outcome with
  | ok result => exact w.succeedFallback env _ _ _ _ _ _
  | error e => exact w.failFallback env _ _ _ _ _ _

theorem afterFailure (started : Started) (progress : Progress) (attempt : ℕ)
    (attemptStarted : Started) (e : Exc) :
    J (op.afterFailure env started progress attempt attemptStarted e) := by
  apply w.bind (w.lift _)
  intro planned
  apply w.bind (w.recordFailure env _ _ _ _ _)
  intro progress
  split
  · apply w.bind (w.sleepBeforeRetry _ _)
    intro delay
    exact w.pure _
  · split
    · exact w.runFallback env _ _ _
    · exact w.fail env _ _ _ _ _ _

theorem afterSuccess (started : Started) (progress : Progress) (attempt : ℕ)
    (attemptStarted : Started) (value : V) (metadata : Metadata) :
    J (op.afterSuccess env started progress attempt attemptStarted value metadata) := by
  apply w.bind (w.emitValidationSucceeded _ _)
  intro _
  apply w.bind (w.elapsed env _)
  intro duration
  apply w.bind (w.lift _)
  intro record
  apply w.bind (w.emit _ _)
  intro _
  exact w.succeed env _ _ _ _

end Settles

/-! The run, with its attempts. -/

namespace Settles
variable (w : Settles op J) {env : Environment}
  (attempts : ∀ attempt, J (Run.tryExcept (op.runSingleAttempt env attempt)))
include w attempts

theorem runAttempt (started : Started) (attempt : ℕ) (progress : Progress) :
    J (op.runAttempt env started attempt progress) := by
  apply w.bind (w.reading _)
  intro startedAt
  apply w.bind (w.reading _)
  intro monotonic
  apply w.bind (w.emit _ _)
  intro _
  apply w.bind (attempts attempt)
  intro outcome
  cases outcome with
  | ok pair => exact w.afterSuccess env _ _ _ _ _ _
  | error e => exact w.afterFailure env _ _ _ _ _

theorem runAttempts (started : Started) (remaining attempt : ℕ) (progress : Progress) :
    J (op.runAttempts env started remaining attempt progress) := by
  induction remaining generalizing attempt progress with
  | zero => exact w.throwing _
  | succ remaining ih =>
    apply w.bind (w.runAttempt attempts _ _ _)
    intro pass
    cases pass with
    | again progress => exact ih _ _
    | returned result => exact w.pure _

theorem runWithoutIdempotency : J (op.runWithoutIdempotency env) := by
  apply w.bind (w.reading _)
  intro startedAt
  apply w.bind (w.reading _)
  intro monotonic
  apply w.bind (w.emit _ _)
  intro _
  exact w.runAttempts attempts _ _ _ _

end Settles

end Relprim
