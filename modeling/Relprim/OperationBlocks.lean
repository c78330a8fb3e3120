import Relprim.OperationRules

/-!
What the blocks of an uninterrupted run do: the outcome of an attempt and of the
fallback chain, and the items of every other block.
-/
namespace Relprim
open Interruptible Interruptible.Program Dictionary

namespace AsyncOperation
variable {V : Type} (op : AsyncOperation V) (env : Environment)

/-! The outcome of one attempt. -/

def checked (outcome : Except Exc V) (occasion : Occasion) : Except Exc (V × Metadata) := do
  let value ← coroutine outcome
  let metadata ← coroutine (op.validateValue occasion value)
  return (value, metadata)

theorem says_checked (outcome : Except Exc V) (occasion : Occasion) (s : Session) :
    Says op (do
      let value ← Run.lift (coroutine outcome)
      let metadata ← Run.lift (coroutine (op.validateValue occasion value))
      return (value, metadata)) s fun r items t =>
      r = (op.checked outcome occasion).mapError .exception ∧ items = [] ∧ t = s := by
  refine says_bind (says_lift ?_)
  cases outcome with
  | error e => exact ⟨rfl, rfl, rfl⟩
  | ok value =>
    refine says_bind (says_lift ?_)
    cases validated : op.validateValue occasion value with
    | error e => exact ⟨by simp [checked, validated, bind, Except.bind, Except.mapError], rfl, rfl⟩
    | ok metadata =>
      refine says_pure ⟨?_, rfl, rfl⟩
      simp [checked, validated, bind, Except.bind, pure, Except.pure, Except.mapError]

/-- `called` tells whether the breaker let the operation be called. -/
structure AttemptResult (V : Type) where
  outcome : Except Exc (V × Metadata)
  breaker : BreakerState
  called : Bool

def attemptResult (attempt : ℕ) (b : BreakerState) : AttemptResult V :=
  let outcome := op.checked (op.timedOutcome env attempt) (.attempt attempt)
  match op.circuitBreaker with
  | none => ⟨outcome, b, true⟩
  | some cb =>
    let turn := env.breakerTurn attempt
    match cb.beforeCall turn.admittedAt (turn.before b) with
    | (.error e, b') => ⟨.error e, b', false⟩
    | (.ok probe, b') =>
      ⟨outcome, cb.afterCall turn.completedAt probe
        ((outcome.mapError Raised.exception).map fun _ => ()) (turn.during b'), true⟩

def callItems (attempt : ℕ) (called : Bool) : List Item :=
  if called then [.call (.primary attempt)] else []

theorem says_call (attempt : ℕ) (s : Session) :
    Says op (op.runSingleAttemptWithoutCircuitBreaker env attempt) s fun r items t =>
      r = (op.checked (op.timedOutcome env attempt) (.attempt attempt)).mapError .exception ∧
        items = [.call (.primary attempt)] ∧ t.breaker = s.breaker := by
  unfold runSingleAttemptWithoutCircuitBreaker
  refine says_emits_bind (emits_call trivial) fun t later => ?_
  apply says_mono (op.says_checked _ _ t)
  intro r items u _ facts
  obtain ⟨rfl, rfl, rfl⟩ := facts
  exact ⟨rfl, rfl, later.breaker⟩

theorem says_singleAttempt (attempt : ℕ) (s : Session) :
    Says op (op.runSingleAttempt env attempt) s fun r items t =>
      r = (op.attemptResult env attempt s.breaker).outcome.mapError .exception ∧
        items = callItems attempt (op.attemptResult env attempt s.breaker).called ∧
        t.breaker = (op.attemptResult env attempt s.breaker).breaker := by
  unfold runSingleAttempt attemptResult
  cases configured : op.circuitBreaker with
  | none => exact op.says_call env attempt s
  | some cb =>
    simp only [CircuitBreaker.runAsync]
    rcases admission : cb.beforeCall (env.breakerTurn attempt).admittedAt
      ((env.breakerTurn attempt).before s.breaker) with ⟨admitted, b⟩
    cases admitted with
    | error e =>
      refine says_bind ⟨_, _, [], [], ends_atomic _ s, .nil, ?_, ?_⟩
      · simp
      · simp [admission, Except.mapError, callItems]
    | ok probe =>
      refine says_bind ⟨_, _, [], [], ends_atomic _ s, .nil, ?_, ?_⟩
      · simp
      · simp only [admission, Except.mapError]
        obtain ⟨r, t, items, es, ends, expands, le, rfl, rfl, kept⟩ :=
          op.says_call env attempt { s with
            breaker := b, breakerCalls := s.breakerCalls ++ [.beforeCall (.ok probe) b] }
        refine ⟨_, _, _, es, ends_onExit ends, expands, le, rfl, rfl, ?_⟩
        simp only [kept]
        rfl

/-! The fallback chain. -/

structure ChainResult (V : Type) where
  outcome : Except Exc (FallbackResult (V × Metadata))
  called : ℕ

def chainFrom (p : FallbackPolicy) (count : ℕ) :
    List (FallbackCandidate (Except Exc V)) → ℕ → List Exc → ChainResult V
  | [], _, failures =>
    ⟨.error (fallbackChainError s!"All {count} fallback candidate(s) failed." failures), 0⟩
  | candidate :: rest, index, failures =>
    match op.checked candidate.operation (.candidate index) with
    | .error e =>
      if !p.shouldFallback e then ⟨.error e, 1⟩
      else
        let later := chainFrom p count rest (index + 1) (failures ++ [e])
        ⟨later.outcome, later.called + 1⟩
    | .ok value =>
      ⟨.ok { value, candidateName := candidate.name, candidateIndex := index
             fallbackUsed := 0 < index, failures }, 1⟩

def chainResult (chain : FallbackChain (Except Exc V)) : ChainResult V :=
  op.chainFrom chain.policy chain.candidates.length chain.candidates 0 []

def candidateItems (index called : ℕ) : List Item :=
  (List.range' index called).map fun i => .call (.candidate i)

theorem validatedCandidates_length (candidates : List (FallbackCandidate (Except Exc V)))
    (index : ℕ) : (op.validatedCandidates candidates index).length = candidates.length := by
  induction candidates generalizing index with
  | nil => rfl
  | cons candidate rest ih => simp [validatedCandidates, ih]

theorem says_chainFrom (p : FallbackPolicy) (count : ℕ)
    (candidates : List (FallbackCandidate (Except Exc V))) (index : ℕ) (failures : List Exc)
    (s : Session) :
    Says op (FallbackChain.runFrom p count (op.validatedCandidates candidates index) index failures)
      s fun r items t =>
        r = (op.chainFrom p count candidates index failures).outcome.mapError .exception ∧
        items = candidateItems index (op.chainFrom p count candidates index failures).called ∧
        Later s t := by
  induction candidates generalizing index failures s with
  | nil => exact says_throwing ⟨rfl, rfl, Later.refl s⟩
  | cons candidate rest ih =>
    have body : Says op (op.runCandidate index candidate.operation) s fun r items t =>
        r = (op.checked candidate.operation (.candidate index)).mapError .exception ∧
          items = [.call (.candidate index)] ∧ Later s t := by
      refine says_emits_bind (emits_call trivial) fun t later => ?_
      apply says_mono (op.says_checked _ _ t)
      intro r items u _ facts
      obtain ⟨rfl, rfl, rfl⟩ := facts
      exact ⟨rfl, rfl, later⟩
    simp only [validatedCandidates, FallbackChain.runFrom, chainFrom]
    refine says_bind (says_tryExcept (says_mono body ?_))
    intro r items t _ facts
    obtain ⟨rfl, rfl, later⟩ := facts
    cases out : op.checked candidate.operation (.candidate index) with
    | ok value => exact says_pure ⟨rfl, rfl, later⟩
    | error e =>
      simp only [Except.mapError]
      split
      · exact says_throwing ⟨rfl, rfl, later⟩
      · apply says_mono (ih (index + 1) (failures ++ [e]) t)
        intro r jtems u _ facts
        obtain ⟨rfl, rfl, later'⟩ := facts
        exact ⟨rfl, by simp [candidateItems, List.range'_succ], later.trans later'⟩

theorem says_chain (chain : FallbackChain (Except Exc V)) (s : Session) :
    Says op (op.validatedFallbackChain chain).run s fun r items t =>
      r = (op.chainResult chain).outcome.mapError .exception ∧
        items = candidateItems 0 (op.chainResult chain).called ∧ Later s t := by
  simp only [FallbackChain.run, validatedFallbackChain, validatedCandidates_length]
  exact op.says_chainFrom chain.policy chain.candidates.length chain.candidates 0 [] s

/-! Metadata and payloads pass the finiteness check. -/

theorem checked_metadata {outcome : Except Exc V} {occasion : Occasion} {v : V} {m : Metadata}
    (h : op.checked outcome occasion = .ok (v, m)) :
    m = noValidationMetadata ∨ ∃ result, m = validationSuccessMetadata result := by
  unfold checked at h
  cases outcome with
  | error e => cases h
  | ok value =>
    cases validated : op.validateValue occasion value with
    | error e => simp [validated, bind, Except.bind] at h
    | ok metadata =>
      have same : metadata = m := by
        simp [validated, bind, Except.bind, pure, Except.pure] at h
        exact h.2
      subst same
      unfold validateValue at validated
      split at validated
      · cases validated
        exact .inl rfl
      · rename_i policy _
        cases result : policy.validate occasion value with
        | error e => simp [result, bind, Except.bind] at validated
        | ok verdict =>
          simp only [result, bind, Except.bind] at validated
          split at validated
          · cases validated
          · cases validated
            exact .inr ⟨verdict, rfl⟩

theorem finite_checked {outcome : Except Exc V} {occasion : Occasion} {v : V} {m : Metadata}
    (h : op.checked outcome occasion = .ok (v, m)) : finiteValues m := by
  rcases op.checked_metadata h with rfl | ⟨result, rfl⟩
  · exact finite_ofPairs (by simp)
  · exact finite_ofPairs (by simp)

theorem finite_base {m : Metadata} (h : finiteValues m) : finiteValues (baseMetadata (some m)) :=
  finite_update (finite_ofPairs (by simp)) h

theorem finite_lookup {m : Metadata} (h : finiteValues m) (k : String) :
    ((m.lookup k).getD .none).isfinite = true := by
  cases found : m.lookup k with
  | none => rfl
  | some v => exact allValues_iff.mp h k v found

theorem finite_insert {m : Metadata} (h : finiteValues m) {k : String} {v : JsonScalar}
    (finite : v.isfinite = true) : finiteValues (m.insert k v) := by
  apply allValues_iff.mpr
  intro a w found
  rw [lookup_insert] at found
  split at found
  · cases found
    exact finite
  · exact allValues_iff.mp h a w found

theorem finite_primaryFailure (e : Exc) (plan : RetryPlan) :
    finiteValues (primaryFailureMetadata e plan) := by
  have base : finiteValues (baseMetadata none) :=
    finite_update (finite_ofPairs (by simp)) (finite_ofPairs (by simp))
  have marked : finiteValues
      ((baseMetadata none).insert "circuit_breaker_open" (.bool e.fields.breaker.isSome)) :=
    finite_insert base rfl
  unfold primaryFailureMetadata
  refine finite_update ?_ (finite_ofPairs (by simp))
  split
  · exact finite_update marked (finite_ofPairs (by simp))
  · exact marked

theorem finite_fallbackFailure (e : Exc) : finiteValues (fallbackFailureMetadata e) := by
  unfold fallbackFailureMetadata
  simp only
  split
  · exact finite_update (finite_ofPairs (by simp)) (finite_ofPairs (by simp))
  · exact finite_update (finite_ofPairs (by simp)) (finite_ofPairs (by simp))

theorem finite_fallbackSuccess (result : FallbackResult (V × Metadata)) {m : Metadata}
    (h : finiteValues m) : finiteValues (fallbackSuccessMetadata result m) :=
  finite_update (finite_ofPairs (by simp)) h

theorem finite_report {p : Progress} {m : Metadata} (h : finiteValues m) :
    finiteValues (mergeMetadata [m, rateLimitSummaryMetadata p]) :=
  finite_update (finite_update (allValues_iff.mpr (by simp)) h) (finite_ofPairs (by simp))

/-! The items of each block. -/

def waitExceededItems (attempt : ℕ) (plan : RetryPlan) : List Item :=
  if plan.maxWaitExceeded then
    [.emit .rateLimitWaitExceeded (op.rateLimitWaitExceededPayload attempt plan)]
  else []

def rateLimitItems (attempt : ℕ) (e : Exc) (plan : RetryPlan) : List Item :=
  if plan.rateLimited then
    .emit .rateLimitDetected (op.rateLimitDetectedPayload attempt e plan) ::
      op.waitExceededItems attempt plan
  else []

def validationFailedItems (attempt : ℕ) (e : Exc) : List Item :=
  match e.fields.validation with
  | none => []
  | some failed => [.emit .validationFailed (validationFailedPayload attempt failed)]

/-- The event about a rejection cannot be made: the exception carries an infinity or NaN. -/
def refuses (e : Exc) : Bool :=
  op.eventEmitter.isSome && e.fields.breaker.any fun rejected =>
    !rejected.retryAfterSeconds.all PyFloat.isfinite

def breakerItems (attempt : ℕ) (e : Exc) : List Item :=
  match e.fields.breaker with
  | none => []
  | some rejected =>
    [.emit .circuitBreakerRejected (circuitBreakerRejectedPayload attempt rejected)]

def failureItems (attempt : ℕ) (duration : ℚ) (e : Exc) (plan : RetryPlan) : List Item :=
  op.rateLimitItems attempt e plan ++ (validationFailedItems attempt e ++
    (breakerItems attempt e ++ [.emit .attemptFailed
      (attemptFailedPayload attempt duration e plan.retryable (primaryFailureMetadata e plan))]))

def sleepItems (attempt : ℕ) (plan : RetryPlan) (delay : PyNumber) : List Item :=
  [.emit .retryScheduled (retryScheduledPayload attempt plan delay), .call (.sleep delay)]

def validationSucceededItems (metadata : Metadata) (payload : EventPayload) : List Item :=
  if metadata.lookup "validation_performed" = some (.bool true) then
    [.emit .validationSucceeded payload]
  else []

def successItems (attempt : ℕ) (duration : ℚ) (metadata : Metadata) : List Item :=
  validationSucceededItems metadata (validationSucceededPayload attempt metadata) ++
    [.emit .attemptSucceeded (succeededPayload attempt duration (primarySuccessMetadata metadata))]

def candidateValidationItems (attempt : ℕ) :
    List (FallbackCandidate (Except Exc V) × Exc) → List Item
  | [] => []
  | (candidate, failure) :: rest =>
    (match failure.fields.validation with
      | none => []
      | some failed => [.emit .validationFailed
          (fallbackValidationFailedPayload attempt failed (some candidate.name))]) ++
      candidateValidationItems attempt rest

def chainValidationItems (chain : FallbackChain (Except Exc V)) (attempt : ℕ) (e : Exc) :
    List Item :=
  match e.fields.failures, e.fields.validation with
  | some failures, _ => candidateValidationItems attempt (chain.candidates.zip failures)
  | none, some failed =>
    [.emit .validationFailed (fallbackValidationFailedPayload attempt failed none)]
  | none, none => []

def fallbackFailureItems (chain : FallbackChain (Except Exc V)) (attempt : ℕ) (duration : ℚ)
    (e : Exc) : List Item :=
  chainValidationItems chain attempt e ++ [
    .emit .fallbackFailed (fallbackFailedPayload attempt duration e (fallbackFailureMetadata e)),
    .emit .attemptFailed
      (attemptFailedPayload attempt duration e false (fallbackFailureMetadata e))]

def fallbackSuccessItems (chain : FallbackChain (Except Exc V)) (attempt : ℕ) (duration : ℚ)
    (result : FallbackResult (V × Metadata)) : List Item :=
  candidateValidationItems attempt (chain.candidates.zip result.failures) ++
    (validationSucceededItems result.value.2
      (fallbackValidationSucceededPayload attempt result.value.2 result.candidateName) ++ [
    .emit .fallbackSucceeded
      (succeededPayload attempt duration (fallbackSuccessMetadata result result.value.2)),
    .emit .attemptSucceeded
      (succeededPayload attempt duration (fallbackSuccessMetadata result result.value.2))])

section
variable {op : AsyncOperation V}

theorem finite_maxWait (op : AsyncOperation V) : op.maxWaitJson.isfinite = true := by
  simp [maxWaitJson]

theorem emits_rateLimit (aware : AwareTimestamps op) (attempt : ℕ) (e : Exc) (plan : RetryPlan) :
    Emits op (op.emitRateLimit attempt e plan) (op.rateLimitItems attempt e plan) := by
  have detected : finiteValues (op.rateLimitDetectedPayload attempt e plan) :=
    finite_ofPairs (by simp [finite_maxWait])
  have exceeded : finiteValues (op.rateLimitWaitExceededPayload attempt plan) :=
    finite_ofPairs (by simp [finite_maxWait])
  have rest : Emits op (if plan.maxWaitExceeded then
      op.emitEvent .rateLimitWaitExceeded (op.rateLimitWaitExceededPayload attempt plan)
      else pure ()) (op.waitExceededItems attempt plan) := by
    unfold waitExceededItems
    by_cases refused : plan.maxWaitExceeded = true
    · rw [if_pos refused, if_pos refused]
      exact emits_event aware _ exceeded
    · rw [if_neg refused, if_neg refused]
      exact emits_pure
  unfold emitRateLimit rateLimitItems
  by_cases limited : plan.rateLimited = true
  · rw [if_pos limited, if_pos limited]
    exact emits_seq (emits_event aware _ detected) rest
  · rw [if_neg limited, if_neg limited]
    exact emits_pure

theorem emits_validationFailed (aware : AwareTimestamps op) (attempt : ℕ) (e : Exc) :
    Emits op (op.emitValidationFailed attempt e) (validationFailedItems attempt e) := by
  unfold emitValidationFailed validationFailedItems
  cases e.fields.validation with
  | none => exact emits_pure
  | some failed => exact emits_event aware _ (finite_ofPairs (by simp))

theorem finite_rejected {attempt : ℕ} {rejected : BreakerFields} :
    finiteValues (circuitBreakerRejectedPayload attempt rejected) ↔
      rejected.retryAfterSeconds.all PyFloat.isfinite = true := by
  constructor
  · intro finite
    have value := allValues_iff.mp finite "retry_after_seconds" _ (by
      simp [circuitBreakerRejectedPayload, lookup_ofPairs, List.lookup_cons]; rfl)
    simpa using value
  · intro finite
    exact finite_ofPairs (by simpa using finite)

theorem emits_breaker (aware : AwareTimestamps op) (attempt : ℕ) {e : Exc}
    (accepted : op.refuses e = false) :
    Emits op (op.emitCircuitBreakerRejected attempt e) (breakerItems attempt e) := by
  unfold emitCircuitBreakerRejected breakerItems
  cases failed : e.fields.breaker with
  | none => exact emits_pure
  | some rejected =>
    refine emits_accepted aware _ fun watched => finite_rejected.mpr ?_
    simpa [refuses, failed, watched] using accepted

theorem says_breakerRefused (aware : AwareTimestamps op) (attempt : ℕ) {e : Exc}
    (refused : op.refuses e = true) (s : Session) :
    Says op (op.emitCircuitBreakerRejected attempt e) s fun r items _ =>
      r = .error (.exception payloadError) ∧ items = [] := by
  unfold emitCircuitBreakerRejected
  cases failed : e.fields.breaker with
  | none => simp [refuses, failed] at refused
  | some rejected =>
    simp only [refuses, failed, Bool.and_eq_true, Option.any_some, Bool.not_eq_true'] at refused
    refine says_refused aware _ refused.1 fun finite => ?_
    rw [finite_rejected.mp finite] at refused
    cases refused.2

theorem emits_validationSucceeded (aware : AwareTimestamps op) (metadata : Metadata)
    {payload : EventPayload} (finite : finiteValues payload) :
    Emits op (op.emitValidationSucceeded metadata payload)
      (validationSucceededItems metadata payload) := by
  unfold emitValidationSucceeded validationSucceededItems
  by_cases performed : metadata.lookup "validation_performed" = some (.bool true)
  · rw [if_pos performed, if_pos performed]
    exact emits_event aware _ finite
  · rw [if_neg performed, if_neg performed]
    exact emits_pure

theorem emits_candidateValidation (aware : AwareTimestamps op) (attempt : ℕ)
    (pairs : List (FallbackCandidate (Except Exc V) × Exc)) :
    Emits op (op.emitFallbackValidationFailures attempt pairs)
      (candidateValidationItems attempt pairs) := by
  induction pairs with
  | nil => exact emits_pure
  | cons pair rest ih =>
    obtain ⟨candidate, failure⟩ := pair
    unfold candidateValidationItems emitFallbackValidationFailures
    apply emits_seq _ ih
    unfold emitCandidateValidationFailed
    cases failure.fields.validation with
    | none => exact emits_pure
    | some failed => exact emits_event aware _ (finite_ofPairs (by simp))

theorem emits_chainValidation (aware : AwareTimestamps op) (chain : FallbackChain (Except Exc V))
    (attempt : ℕ) (e : Exc) :
    Emits op (op.emitChainValidationFailed chain attempt e)
      (chainValidationItems chain attempt e) := by
  unfold emitChainValidationFailed chainValidationItems
  cases e.fields.failures with
  | some failures => exact emits_candidateValidation aware attempt _
  | none =>
    cases e.fields.validation with
    | some failed => exact emits_event aware _ (finite_ofPairs (by simp))
    | none => exact emits_pure

end

end AsyncOperation

end Relprim
