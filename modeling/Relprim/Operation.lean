import Relprim.Policies
import Relprim.RateLimit
import Relprim.Validation
import Relprim.Idempotency

/-!
operation.py. `runWithoutIdempotency` follows the source block by block; the
blocks of its loop are functions here, each named for what the source does there.
-/
namespace Relprim
open Interruptible Interruptible.Program Dictionary

inductive RetryDelaySource where
  | backoff | provider
  deriving DecidableEq

def RetryDelaySource.value : RetryDelaySource → String
  | .backoff => "backoff"
  | .provider => "provider"

structure RetryPlan where
  retryable : Bool
  rateLimited : Bool := false
  retryAfterSeconds : Option ℚ := none
  delaySeconds : Option PyNumber := none
  delaySource : Option RetryDelaySource := none
  maxWaitExceeded : Bool := false

namespace RetryPlan

def new (p : RetryPlan) : Except Exc RetryPlan := do
  check (p.delaySeconds.isNone == p.delaySource.isNone)
    (valueError "delay_seconds and delay_source must be set together.")
  if p.maxWaitExceeded then
    check (!(!p.rateLimited || p.retryable || p.delaySeconds.isNone))
      (valueError "max_wait_exceeded requires a rejected rate-limit delay.")
  else
    check (!(!p.retryable && p.delaySeconds.isSome))
      (valueError "non-retryable plans must not include a retry delay.")
  return p

def willRetry (p : RetryPlan) : Bool := p.retryable && p.delaySeconds.isSome

end RetryPlan

/-- The `n`-th call of the operation has the outcome `operation n`. -/
structure AsyncOperation (V : Type) where
  name : String
  operation : ℕ → CallOutcome V
  retryPolicy : Option RetryPolicy := none
  timeoutPolicy : Option TimeoutPolicy := none
  fallbackChain : Option (FallbackChain (Except Exc V)) := none
  circuitBreaker : Option CircuitBreaker := none
  validationPolicy : Option (ValidationPolicy V) := none
  eventEmitter : Option EventEmitter := none
  idempotencyPolicy : Option IdempotencyPolicy := none
  rateLimitPolicy : Option RateLimitPolicy := none
  name_ok : isBlank name = false := by decide

/-- The locals of `_run_without_idempotency` that its loop updates. -/
structure Progress where
  attempts : List ExecutionAttempt := []
  rateLimitEncountered : Bool := false
  rateLimitWaitSeconds : ℚ := 0
  rateLimitWaitExceeded : Bool := false

def Progress.noteRateLimit (progress : Progress) (plan : RetryPlan) : Progress :=
  if plan.rateLimited then { progress with
    rateLimitEncountered := true
    rateLimitWaitExceeded := progress.rateLimitWaitExceeded || plan.maxWaitExceeded }
  else progress

def Progress.record (progress : Progress) (attempt : ExecutionAttempt) : Progress :=
  { progress with attempts := progress.attempts ++ [attempt] }

def Progress.noteWait (progress : Progress) (plan : RetryPlan) (delay : PyNumber) : Progress :=
  if plan.rateLimited then
    { progress with rateLimitWaitSeconds := progress.rateLimitWaitSeconds + delay.value }
  else progress

structure Started where
  at_ : DateTime
  monotonic : ℚ

/-- What one pass of the loop comes to: `continue`, or the value it returns. -/
inductive Pass (V : Type) where
  | again (progress : Progress)
  | returned (result : OperationResult V)

namespace AsyncOperation

/-! Metadata. -/

def attemptStatusForException (e : Exc) : AttemptStatus :=
  if e.fields.timeout.isSome then .timedOut else .failed

def reportStatusForAttemptStatus : AttemptStatus → ExecutionStatus
  | .timedOut => .timedOut
  | _ => .failed

def validationSuccessMetadata (result : ValidationResult) : Metadata := ofPairs [
  ("validation_performed", .bool true),
  ("validation_valid", .bool true),
  ("validation_validator_name", .str result.validatorName),
  ("validation_reason", .none)]

def validationFailureMetadata (e : ValidationFields) : Metadata := ofPairs [
  ("validation_performed", .bool true),
  ("validation_valid", .bool false),
  ("validation_validator_name", .str e.validatorName),
  ("validation_reason", .str e.reason)]

def noValidationMetadata : Metadata := ofPairs [
  ("validation_performed", .bool false),
  ("validation_valid", .none),
  ("validation_validator_name", .none),
  ("validation_reason", .none)]

def baseMetadata (validationMetadata : Option Metadata) : Metadata :=
  update (ofPairs [("fallback_used", .bool false), ("circuit_breaker_open", .bool false)])
    (validationMetadata.getD noValidationMetadata)

def primarySuccessMetadata (validationMetadata : Metadata) : Metadata :=
  baseMetadata (some validationMetadata)

def primaryFailureMetadata (e : Exc) (plan : RetryPlan) : Metadata :=
  let metadata := baseMetadata none
  let metadata := metadata.insert "circuit_breaker_open" (.bool e.fields.breaker.isSome)
  let metadata := match e.fields.validation with
    | some failed => update metadata (validationFailureMetadata failed)
    | none => metadata
  let delaySource := if plan.rateLimited then plan.delaySource else none
  update metadata (ofPairs [
    ("rate_limited", .bool plan.rateLimited),
    ("rate_limit_retry_after_seconds", .ofOption .seconds plan.retryAfterSeconds),
    ("rate_limit_delay_seconds",
      .ofOption PyNumber.json (if plan.rateLimited then plan.delaySeconds else none)),
    ("rate_limit_delay_source", .ofOption (fun s => .str s.value) delaySource),
    ("rate_limit_wait_exceeded", .bool plan.maxWaitExceeded)])

def fallbackSuccessMetadata (result : FallbackResult R) (validationMetadata : Metadata) :
    Metadata :=
  update (ofPairs [
    ("fallback_used", .bool true),
    ("fallback_failed", .bool false),
    ("fallback_candidate_name", .str result.candidateName),
    ("fallback_candidate_index", .int result.candidateIndex),
    ("fallback_failure_count", .int result.failureCount),
    ("circuit_breaker_open", .bool false)]) validationMetadata

def fallbackFailureMetadata (e : Exc) : Metadata :=
  let (failureCount, finalFailure) := match e.fields.failures with
    | some failures => (failures.length, Exc.chainCause failures)
    | none => (0, some e)
  let metadata : Metadata := ofPairs [
    ("fallback_used", .bool true),
    ("fallback_failed", .bool true),
    ("fallback_failure_count", .int failureCount),
    ("circuit_breaker_open", .bool e.fields.breaker.isSome)]
  match finalFailure.bind fun f => f.fields.validation with
  | some failed => update metadata (validationFailureMetadata failed)
  | none => update metadata noValidationMetadata

def rateLimitSummaryMetadata (p : Progress) : Metadata := ofPairs [
  ("rate_limit_encountered", .bool p.rateLimitEncountered),
  ("rate_limit_wait_seconds", .seconds p.rateLimitWaitSeconds),
  ("rate_limit_wait_exceeded", .bool p.rateLimitWaitExceeded)]

def mergeMetadata (items : List Metadata) : Metadata := items.foldl update ∅

variable {V : Type} (op : AsyncOperation V) (env : Environment)

def sinkCount : ℕ :=
  match op.eventEmitter with
  | some emitter => emitter.sinks
  | none => 0

def maxAttempts : ℕ :=
  match op.retryPolicy with
  | some policy => policy.maxAttempts
  | none => 1

def maxWaitJson : JsonScalar := .ofOption (fun p => p.maxWaitSeconds.json) op.rateLimitPolicy

/-! One attempt. -/

def validateValue (occasion : Occasion) (value : V) : Except Exc Metadata :=
  match op.validationPolicy with
  | none => .ok noValidationMetadata
  | some policy => do
    let result ← policy.validate occasion value
    if !result.valid then throw (validationError result)
    return validationSuccessMetadata result

def timedOutcome (attempt : ℕ) : Except Exc V :=
  match op.timeoutPolicy with
  | none => (op.operation attempt).outcome
  | some policy => policy.settle env.str (op.operation attempt)

def runSingleAttemptWithoutCircuitBreaker (attempt : ℕ) : Run (V × Metadata) := do
  effect (.primary attempt)
  let value ← Run.lift (coroutine (op.timedOutcome env attempt))
  let metadata ← Run.lift (coroutine (op.validateValue (.attempt attempt) value))
  return (value, metadata)

def runSingleAttempt (attempt : ℕ) : Run (V × Metadata) :=
  match op.circuitBreaker with
  | some breaker =>
    breaker.runAsync (env.breakerTurn attempt) (op.runSingleAttemptWithoutCircuitBreaker env attempt)
  | none => op.runSingleAttemptWithoutCircuitBreaker env attempt

/-! The retry plan. -/

def rateLimitDecision (e : Exc) (attempt : ℕ) : Except Exc RateLimitDecision :=
  match op.rateLimitPolicy with
  | none => RateLimitDecision.notRateLimited
  | some policy => policy.evaluate attempt e

def rateLimitRetryPlan (decision : RateLimitDecision) (attempt : ℕ) (attemptsRemaining : Bool) :
    Except Exc RetryPlan :=
  match op.rateLimitPolicy with
  | none => .error (runtimeError "Rate-limit decision created without a rate-limit policy.")
  | some limit =>
    match op.retryPolicy with
    | none => RetryPlan.new {
        retryable := false, rateLimited := true, retryAfterSeconds := decision.retryAfterSeconds }
    | some policy =>
      if !attemptsRemaining then RetryPlan.new {
        retryable := true, rateLimited := true, retryAfterSeconds := decision.retryAfterSeconds }
      else do
        let (delay, source) ← match decision.retryAfterSeconds with
          | some hint => pure (PyNumber.float hint, RetryDelaySource.provider)
          | none => do
            let delay ← policy.backoff.delayForRetry attempt (env.random attempt)
            pure (delay, RetryDelaySource.backoff)
        if delay.value > limit.maxWaitSeconds.value then RetryPlan.new {
          retryable := false, rateLimited := true, retryAfterSeconds := decision.retryAfterSeconds
          delaySeconds := some delay, delaySource := some source, maxWaitExceeded := true }
        else RetryPlan.new {
          retryable := true, rateLimited := true, retryAfterSeconds := decision.retryAfterSeconds
          delaySeconds := some delay, delaySource := some source }

def retryPlanForException (e : Exc) (attempt : ℕ) (attemptsRemaining : Bool) :
    Except Exc RetryPlan := do
  let decision ← op.rateLimitDecision e attempt
  if decision.rateLimited then op.rateLimitRetryPlan env decision attempt attemptsRemaining
  else
    match op.retryPolicy with
    | none => RetryPlan.new { retryable := false }
    | some policy =>
      if !e.isInstance policy.retryOn then RetryPlan.new { retryable := false }
      else if !attemptsRemaining then RetryPlan.new { retryable := true }
      else do
        let delay ← policy.backoff.delayForRetry attempt (env.random attempt)
        RetryPlan.new {
          retryable := true, delaySeconds := some delay, delaySource := some .backoff }

/-- The failure that the attempt is reported with, and its plan: a failed extraction
    replaces the exception and is not retried, any other error of planning escapes. -/
def planFailure (e : Exc) (attempt : ℕ) : Except Exc (Exc × RetryPlan) :=
  match op.retryPlanForException env e attempt (attempt < op.maxAttempts) with
  | .ok plan => .ok (e, plan)
  | .error x =>
    if x.fields.extraction.isSome then do
      let plan ← RetryPlan.new { retryable := false }
      return (x, plan)
    else .error x

/-! Payloads and records. -/

def operationStartedPayload : EventPayload := ofPairs [
  ("retry_enabled", .bool op.retryPolicy.isSome),
  ("timeout_enabled", .bool op.timeoutPolicy.isSome),
  ("fallback_enabled", .bool op.fallbackChain.isSome),
  ("circuit_breaker_enabled", .bool op.circuitBreaker.isSome),
  ("validation_enabled", .bool op.validationPolicy.isSome),
  ("rate_limit_enabled", .bool op.rateLimitPolicy.isSome)]

def attemptStartedPayload (attempt : ℕ) : EventPayload := ofPairs [
  ("attempt_number", .int attempt),
  ("max_attempts", .int op.maxAttempts)]

def rateLimitDetectedPayload (attempt : ℕ) (e : Exc) (plan : RetryPlan) : EventPayload := ofPairs [
  ("attempt_number", .int attempt),
  ("error_type", .str e.type.name),
  ("retry_after_seconds", .ofOption .seconds plan.retryAfterSeconds),
  ("max_wait_seconds", op.maxWaitJson),
  ("max_wait_exceeded", .bool plan.maxWaitExceeded)]

def rateLimitWaitExceededPayload (attempt : ℕ) (plan : RetryPlan) : EventPayload := ofPairs [
  ("attempt_number", .int attempt),
  ("retry_after_seconds", .ofOption .seconds plan.retryAfterSeconds),
  ("delay_seconds", .ofOption PyNumber.json plan.delaySeconds),
  ("max_wait_seconds", op.maxWaitJson)]

def validationFailedPayload (attempt : ℕ) (failed : ValidationFields) : EventPayload := ofPairs [
  ("attempt_number", .int attempt),
  ("validator_name", .str failed.validatorName),
  ("reason", .str failed.reason)]

def circuitBreakerRejectedPayload (attempt : ℕ) (rejected : BreakerFields) : EventPayload :=
  ofPairs [
    ("attempt_number", .int attempt),
    ("breaker_name", .str rejected.breakerName),
    ("state", .str rejected.state.value),
    ("retry_after_seconds", .ofOption .float rejected.retryAfterSeconds)]

/-- The payload of `attempt.failed`; both kinds of attempt spread their metadata into it. -/
def attemptFailedPayload (attempt : ℕ) (duration : ℚ) (e : Exc) (retryable : Bool)
    (metadata : Metadata) : EventPayload :=
  update (ofPairs [
    ("attempt_number", .int attempt),
    ("duration_seconds", .seconds duration),
    ("error_type", .str e.type.name),
    ("retryable", .bool retryable)]) metadata

def retryScheduledPayload (attempt : ℕ) (plan : RetryPlan) (delay : PyNumber) : EventPayload :=
  ofPairs [
    ("attempt_number", .int attempt),
    ("next_attempt_number", .int (attempt + 1 : ℕ)),
    ("delay_seconds", delay.json),
    ("delay_source", .ofOption (fun s => .str s.value) plan.delaySource),
    ("rate_limited", .bool plan.rateLimited),
    ("retry_after_seconds", .ofOption .seconds plan.retryAfterSeconds)]

def fallbackStartedPayload (attempt primaryAttempts : ℕ) : EventPayload := ofPairs [
  ("attempt_number", .int attempt),
  ("after_primary_attempts", .int primaryAttempts)]

def fallbackValidationFailedPayload (attempt : ℕ) (failed : ValidationFields)
    (candidateName : Option String) : EventPayload := ofPairs [
  ("attempt_number", .int attempt),
  ("validator_name", .str failed.validatorName),
  ("reason", .str failed.reason),
  ("fallback_used", .bool true),
  ("fallback_candidate_name", .ofOption .str candidateName)]

def fallbackFailedPayload (attempt : ℕ) (duration : ℚ) (e : Exc) (metadata : Metadata) :
    EventPayload :=
  update (ofPairs [
    ("attempt_number", .int attempt),
    ("duration_seconds", .seconds duration),
    ("error_type", .str e.type.name)]) metadata

/-- `fallback_validation_metadata["validation_validator_name"]`. -/
def validatorNameJson (metadata : Metadata) : JsonScalar :=
  (metadata.lookup "validation_validator_name").getD .none

def validationSucceededPayload (attempt : ℕ) (metadata : Metadata) : EventPayload := ofPairs [
  ("attempt_number", .int attempt),
  ("validator_name", validatorNameJson metadata)]

def fallbackValidationSucceededPayload (attempt : ℕ) (metadata : Metadata)
    (candidateName : String) : EventPayload := ofPairs [
  ("attempt_number", .int attempt),
  ("validator_name", validatorNameJson metadata),
  ("fallback_used", .bool true),
  ("fallback_candidate_name", .str candidateName)]

/-- The payload of `attempt.succeeded` and `fallback.succeeded`. -/
def succeededPayload (attempt : ℕ) (duration : ℚ) (metadata : Metadata) : EventPayload :=
  update (ofPairs [
    ("attempt_number", .int attempt),
    ("duration_seconds", .seconds duration)]) metadata

def operationSucceededPayload (report : ExecutionReport) : EventPayload :=
  update (ofPairs [
    ("duration_seconds", .seconds report.durationSeconds),
    ("attempt_count", .int report.attemptCount),
    ("retry_count", .int report.retryCount)]) report.metadata

def operationFailedPayload (report : ExecutionReport) (e : Exc) : EventPayload :=
  update (ofPairs [
    ("duration_seconds", .seconds report.durationSeconds),
    ("attempt_count", .int report.attemptCount),
    ("retry_count", .int report.retryCount),
    ("error_type", .str e.type.name)]) report.metadata

def failureRecord (attempt : ℕ) (startedAt : DateTime) (duration : ℚ) (e : Exc)
    (retryable : Bool) (metadata : Metadata) : ExecutionAttempt where
  attemptNumber := attempt
  status := attemptStatusForException e
  startedAt := startedAt
  durationSeconds := duration
  error := some (.fromException e (some retryable))
  metadata := metadata

def successRecord (attempt : ℕ) (startedAt : DateTime) (duration : ℚ) (metadata : Metadata) :
    ExecutionAttempt where
  attemptNumber := attempt
  status := .succeeded
  startedAt := startedAt
  durationSeconds := duration
  metadata := metadata

def reportDraft (startedAt : DateTime) (duration : ℚ) (status : ExecutionStatus)
    (progress : Progress) (metadata : Metadata) : ExecutionReport where
  operationName := op.name
  status := status
  startedAt := startedAt
  durationSeconds := duration
  attempts := progress.attempts
  metadata := mergeMetadata [metadata, rateLimitSummaryMetadata progress]

/-! Events and reports. -/

def emitEvent (eventType : EventType) (payload : EventPayload) : Run Unit :=
  match op.eventEmitter with
  | none => pure ()
  | some emitter => do
    let _ ← emitter.emit eventType op.name payload

def sleepBeforeRetry (attempt : ℕ) (plan : RetryPlan) : Run PyNumber :=
  match op.retryPolicy with
  | none => Run.throwing (runtimeError "Retry sleep requested without retry policy.")
  | some _ =>
    match plan.willRetry, plan.delaySeconds with
    | true, some delay => do
      op.emitEvent .retryScheduled (retryScheduledPayload attempt plan delay)
      effect (.sleep delay)
      return delay
    | _, _ => Run.throwing (runtimeError "Retry sleep requested without a retryable plan.")

/-- `_build_report`, with the metadata of the last attempt and the rate-limit summary. -/
def buildReport (started : Started) (status : ExecutionStatus) (progress : Progress)
    (metadata : Metadata) : Run ExecutionReport := do
  let duration ← Run.elapsedSeconds env started.monotonic
  Run.lift (ExecutionReport.new (op.reportDraft started.at_ duration status progress metadata))

def succeed (started : Started) (progress : Progress) (metadata : Metadata) (value : V) :
    Run (Pass V) := do
  let report ← op.buildReport env started .succeeded progress metadata
  op.emitEvent .operationSucceeded (operationSucceededPayload report)
  return .returned { value, report }

def fail (started : Started) (progress : Progress) (status : AttemptStatus) (metadata : Metadata)
    (message : String) (e : Exc) : Run (Pass V) := do
  let report ← op.buildReport env started (reportStatusForAttemptStatus status) progress metadata
  op.emitEvent .operationFailed (operationFailedPayload report e)
  Run.throwing (operationExecutionError message report e)

/-! A failed primary attempt. -/

def emitRateLimit (attempt : ℕ) (e : Exc) (plan : RetryPlan) : Run Unit := do
  if plan.rateLimited then
    op.emitEvent .rateLimitDetected (op.rateLimitDetectedPayload attempt e plan)
    if plan.maxWaitExceeded then
      op.emitEvent .rateLimitWaitExceeded (op.rateLimitWaitExceededPayload attempt plan)

def emitValidationFailed (attempt : ℕ) (e : Exc) : Run Unit :=
  match e.fields.validation with
  | none => pure ()
  | some failed => op.emitEvent .validationFailed (validationFailedPayload attempt failed)

def emitCircuitBreakerRejected (attempt : ℕ) (e : Exc) : Run Unit :=
  match e.fields.breaker with
  | none => pure ()
  | some rejected =>
    op.emitEvent .circuitBreakerRejected (circuitBreakerRejectedPayload attempt rejected)

/-- From the caught exception to `attempt.failed`. -/
def recordFailure (attempt : ℕ) (started : Started) (progress : Progress) (e : Exc)
    (plan : RetryPlan) : Run Progress := do
  op.emitRateLimit attempt e plan
  let duration ← Run.elapsedSeconds env started.monotonic
  let metadata := primaryFailureMetadata e plan
  op.emitValidationFailed attempt e
  op.emitCircuitBreakerRejected attempt e
  let record ← Run.lift <| ExecutionAttempt.new <|
    failureRecord attempt started.at_ duration e plan.retryable metadata
  op.emitEvent .attemptFailed (attemptFailedPayload attempt duration e plan.retryable metadata)
  return Progress.record (Progress.noteRateLimit progress plan) record

/-! The fallback attempt. -/

def runCandidate (index : ℕ) (operation : Except Exc V) : Run (V × Metadata) := do
  effect (.candidate index)
  let value ← Run.lift (coroutine operation)
  let metadata ← Run.lift (coroutine (op.validateValue (.candidate index) value))
  return (value, metadata)

/-- `_validated_fallback_chain`: the candidates from `index` on, validating their results. -/
def validatedCandidates : List (FallbackCandidate (Except Exc V)) → ℕ →
    List (FallbackCandidate (Run (V × Metadata)))
  | [], _ => []
  | candidate :: rest, index =>
    { name := candidate.name
      operation := op.runCandidate index candidate.operation
      name_ok := candidate.name_ok } :: validatedCandidates rest (index + 1)

def validatedFallbackChain (chain : FallbackChain (Except Exc V)) :
    FallbackChain (Run (V × Metadata)) where
  candidates := op.validatedCandidates chain.candidates 0
  policy := chain.policy
  candidates_ok := by
    cases shape : chain.candidates with
    | nil => exact absurd shape chain.candidates_ok
    | cons candidate rest => simp [validatedCandidates]

def emitCandidateValidationFailed (attempt : ℕ) (candidate : FallbackCandidate (Except Exc V))
    (failure : Exc) : Run Unit :=
  match failure.fields.validation with
  | none => pure ()
  | some failed => op.emitEvent .validationFailed
      (fallbackValidationFailedPayload attempt failed (some candidate.name))

/-- `_emit_fallback_validation_failures`, over the zipped candidates and failures. -/
def emitFallbackValidationFailures (attempt : ℕ) :
    List (FallbackCandidate (Except Exc V) × Exc) → Run Unit
  | [] => pure ()
  | (candidate, failure) :: rest => do
    op.emitCandidateValidationFailed attempt candidate failure
    emitFallbackValidationFailures attempt rest

def emitChainValidationFailed (chain : FallbackChain (Except Exc V)) (attempt : ℕ) (e : Exc) :
    Run Unit :=
  match e.fields.failures, e.fields.validation with
  | some failures, _ =>
    op.emitFallbackValidationFailures attempt (chain.candidates.zip failures)
  | none, some failed =>
    op.emitEvent .validationFailed (fallbackValidationFailedPayload attempt failed none)
  | none, none => pure ()

/-- The `except` branch around the chain. -/
def failFallback (started : Started) (progress : Progress) (chain : FallbackChain (Except Exc V))
    (attempt : ℕ) (fallbackStarted : Started) (e : Exc) : Run (Pass V) := do
  let duration ← Run.elapsedSeconds env fallbackStarted.monotonic
  let metadata := fallbackFailureMetadata e
  op.emitChainValidationFailed chain attempt e
  let record ← Run.lift <| ExecutionAttempt.new
    { failureRecord attempt fallbackStarted.at_ duration e false metadata with fallback := true }
  op.emitEvent .fallbackFailed (fallbackFailedPayload attempt duration e metadata)
  op.emitEvent .attemptFailed (attemptFailedPayload attempt duration e false metadata)
  let name := op.name
  op.fail env started (Progress.record progress record) record.status metadata
    s!"Operation '{name}' failed and fallback chain failed." e

def emitValidationSucceeded (metadata : Metadata) (payload : EventPayload) : Run Unit :=
  if metadata.lookup "validation_performed" = some (.bool true) then
    op.emitEvent .validationSucceeded payload
  else pure ()

def succeedFallback (started : Started) (progress : Progress)
    (chain : FallbackChain (Except Exc V)) (attempt : ℕ) (fallbackStarted : Started)
    (result : FallbackResult (V × Metadata)) : Run (Pass V) := do
  let (value, validationMetadata) := result.value
  op.emitFallbackValidationFailures attempt (chain.candidates.zip result.failures)
  op.emitValidationSucceeded validationMetadata
    (fallbackValidationSucceededPayload attempt validationMetadata result.candidateName)
  let metadata := fallbackSuccessMetadata result validationMetadata
  let duration ← Run.elapsedSeconds env fallbackStarted.monotonic
  let record ← Run.lift <| ExecutionAttempt.new
    { successRecord attempt fallbackStarted.at_ duration metadata with fallback := true }
  op.emitEvent .fallbackSucceeded (succeededPayload attempt duration metadata)
  op.emitEvent .attemptSucceeded (succeededPayload attempt duration metadata)
  op.succeed env started (Progress.record progress record) metadata value

def runFallback (started : Started) (progress : Progress) (chain : FallbackChain (Except Exc V)) :
    Run (Pass V) := do
  let attempt := progress.attempts.length + 1
  let startedAt ← Run.utcNow env
  let monotonic ← Run.perfCounter env
  op.emitEvent .fallbackStarted (fallbackStartedPayload attempt progress.attempts.length)
  match ← Run.tryExcept (op.validatedFallbackChain chain).run with
  | .error e => op.failFallback env started progress chain attempt ⟨startedAt, monotonic⟩ e
  | .ok result =>
    op.succeedFallback env started progress chain attempt ⟨startedAt, monotonic⟩ result

/-! The loop. -/

/-- The `except` branch of the loop: retry, fall back or fail. -/
def afterFailure (started : Started) (progress : Progress) (attempt : ℕ) (attemptStarted : Started)
    (e : Exc) : Run (Pass V) := do
  let (e, plan) ← Run.lift (coroutine (op.planFailure env e attempt))
  let progress ← op.recordFailure env attempt attemptStarted progress e plan
  if plan.willRetry then
    let delay ← op.sleepBeforeRetry attempt plan
    return .again (Progress.noteWait progress plan delay)
  else
    match op.fallbackChain.filter fun chain => chain.policy.shouldFallback e with
    | some chain => op.runFallback env started progress chain
    | none =>
      let name := op.name
      let count := progress.attempts.length
      op.fail env started progress (attemptStatusForException e) (primaryFailureMetadata e plan)
        s!"Operation '{name}' failed after {count} attempt(s)." e

/-- The rest of the loop body after a successful attempt. -/
def afterSuccess (started : Started) (progress : Progress) (attempt : ℕ) (attemptStarted : Started)
    (value : V) (validationMetadata : Metadata) : Run (Pass V) := do
  op.emitValidationSucceeded validationMetadata
    (validationSucceededPayload attempt validationMetadata)
  let duration ← Run.elapsedSeconds env attemptStarted.monotonic
  let metadata := primarySuccessMetadata validationMetadata
  let record ← Run.lift <| ExecutionAttempt.new <|
    successRecord attempt attemptStarted.at_ duration metadata
  op.emitEvent .attemptSucceeded (succeededPayload attempt duration metadata)
  op.succeed env started (Progress.record progress record) metadata value

def runAttempt (started : Started) (attempt : ℕ) (progress : Progress) : Run (Pass V) := do
  let startedAt ← Run.utcNow env
  let monotonic ← Run.perfCounter env
  op.emitEvent .attemptStarted (op.attemptStartedPayload attempt)
  match ← Run.tryExcept (op.runSingleAttempt env attempt) with
  | .error e => op.afterFailure env started progress attempt ⟨startedAt, monotonic⟩ e
  | .ok (value, validationMetadata) =>
    op.afterSuccess env started progress attempt ⟨startedAt, monotonic⟩ value validationMetadata

/-- `for attempt_number in range(attempt, max_attempts + 1)`, by the passes that remain. -/
def runAttempts (started : Started) : ℕ → ℕ → Progress → Run (OperationResult V)
  | 0, _, _ =>
    Run.throwing (runtimeError "AsyncOperation reached an invalid execution state.")
  | remaining + 1, attempt, progress => do
    match ← op.runAttempt env started attempt progress with
    | .again progress => runAttempts started remaining (attempt + 1) progress
    | .returned result => return result

def runWithoutIdempotency : Run (OperationResult V) := do
  let startedAt ← Run.utcNow env
  let monotonic ← Run.perfCounter env
  op.emitEvent .operationStarted op.operationStartedPayload
  op.runAttempts env ⟨startedAt, monotonic⟩ op.maxAttempts 1 {}

end AsyncOperation

end Relprim
