import Relprim.Decorators
import Relprim.UntimedExecution

/-!
`retries=N` against the policy it abbreviates. From one retry on both spellings build the
same operation; without retries the shortcut builds an operation that has no policy, and a
failure of its only attempt is classified differently.
-/
namespace Relprim
open Fallible
variable {V : Type}

/-- `RetryOn`, as far as the checks accept it. -/
abbrev RetryOn := {types : List ExcClass // types ≠ []}

namespace ResilientOptions
variable (o : ResilientOptions V)

def shortcut (retries : ℕ) (types : RetryOn) : ResilientOptions V :=
  { o with
    retry := none
    retries := some (.scalar (.int retries))
    retryOn := some (.tuple (types.1.map some)) }

def policyOf (retries : ℕ) (types : RetryOn) : RetryPolicy where
  maxAttempts := retries + 1
  retryOn := types.1
  attempts_pos := Nat.le_add_left 1 retries
  retry_ok := types.2

def spelledOut (retries : ℕ) (types : RetryOn) : ResilientOptions V :=
  { o with retry := some (policyOf retries types), retries := none, retryOn := none }

def withoutRetry : ResilientOptions V := { o with retry := none, retries := none, retryOn := none }

end ResilientOptions

open ResilientOptions

theorem shortcut_policy (retries : ℕ) (types : RetryOn) :
    retryPolicyFrom none (some (.scalar (.int retries))) (some (.tuple (types.1.map some))) =
      .ok (if retries = 0 then none else some (policyOf retries types)) := by
  have nonneg : decide ((0 : ℤ) ≤ retries) = true := by simp
  simp only [retryPolicyFrom, nonneg, check_true, Option.getD_some,
    checkExceptionTypes_ok types.2, bind, Except.bind]
  by_cases zero : retries = 0
  · subst zero
    rfl
  · simp [zero, policyOf, pure, Except.pure]

namespace AsyncOperation

def replaceRetry (op : AsyncOperation V) (policy : Option RetryPolicy) : AsyncOperation V :=
  { op with retryPolicy := policy }

theorem configured_replaceRetry {P : Type} (build : AsyncOperation V → P → AsyncOperation V)
    {policy : Option RetryPolicy}
    (frame : ∀ op p, build (op.replaceRetry policy) p = (build op p).replaceRetry policy)
    (op : AsyncOperation V) (chosen : Option P) :
    (op.replaceRetry policy).configured build chosen =
      (op.configured build chosen).replaceRetry policy := by
  cases chosen with
  | none => rfl
  | some p => exact frame op p

theorem configured_retryPolicy {P : Type} (build : AsyncOperation V → P → AsyncOperation V)
    (frame : ∀ op p, (build op p).retryPolicy = op.retryPolicy) (op : AsyncOperation V)
    (chosen : Option P) : (op.configured build chosen).retryPolicy = op.retryPolicy := by
  cases chosen with
  | none => rfl
  | some p => exact frame op p

theorem configured_withRetry {op : AsyncOperation V} (fresh : op.retryPolicy = none)
    (policy : Option RetryPolicy) :
    op.configured Builder.withRetry policy = op.replaceRetry policy := by
  cases policy with
  | none =>
    cases op
    cases fresh
    rfl
  | some policy => rfl

end AsyncOperation

theorem asyncOperation_fresh {name : String} {operation : ℕ → CallOutcome V}
    {op : AsyncOperation V} (built : asyncOperation name operation = .ok op) :
    op.retryPolicy = none := by
  unfold asyncOperation at built
  split at built
  · cases built
    rfl
  · cases built

theorem decorator_policy (o : ResilientOptions V) (resolved : ResolvedPolicies V)
    (policy : Option RetryPolicy) (f : Callable (ℕ → CallOutcome V)) :
    decorator o { resolved with retryPolicy := policy } f =
      (decorator o { resolved with retryPolicy := none } f).map (·.replaceRetry policy) := by
  unfold decorator
  cases o.name.elim (operationNameFor f) .ok with
  | error x => rfl
  | ok name =>
    cases built : asyncOperation name f.operation with
    | error x => simp only [built, bind, Except.bind, Except.map]
    | ok plain =>
      have fresh : ((plain.configured Builder.withEvents o.events).configured
          Builder.withCircuitBreaker o.circuitBreaker).retryPolicy = none := by
        rw [AsyncOperation.configured_retryPolicy Builder.withCircuitBreaker fun _ _ => rfl,
          AsyncOperation.configured_retryPolicy Builder.withEvents fun _ _ => rfl,
          asyncOperation_fresh built]
      simp only [built, bind, Except.bind, pure, Except.pure, Except.map,
        AsyncOperation.configured_withRetry fresh policy]
      rw [AsyncOperation.configured_replaceRetry Builder.withTimeout fun _ _ => rfl,
        AsyncOperation.configured_replaceRetry Builder.withValidation fun _ _ => rfl,
        AsyncOperation.configured_replaceRetry Builder.withFallbacks fun _ _ => rfl,
        AsyncOperation.configured_replaceRetry Builder.withIdempotency fun _ _ => rfl,
        AsyncOperation.configured_replaceRetry Builder.withRateLimit fun _ _ => rfl]
      rfl

/-- The retry options only decide the retry policy. -/
theorem decorate_policy {o : ResilientOptions V} {policy : Option RetryPolicy}
    (resolved : retryPolicyFrom o.retry o.retries o.retryOn = .ok policy)
    (f : Callable (ℕ → CallOutcome V)) :
    decorate o f = (decorate o.withoutRetry f).map (·.replaceRetry policy) := by
  have unresolved : retryPolicyFrom none none none = .ok none := rfl
  simp only [decorate, resilient, withoutRetry, resolved, unresolved]
  cases check (!o.name.any isBlank) (valueError "name must not be empty.") with
  | error x => rfl
  | ok _ =>
  cases timeoutPolicyFrom o.timeout with
  | error x => rfl
  | ok timeoutPolicy =>
  cases fallbackChainFrom o.fallback o.fallbacks with
  | error x => rfl
  | ok chain =>
  cases idempotencyPolicyFrom o.idempotency o.idempotencyKey o.idempotencyStore
      o.idempotencyTtl with
  | error x => rfl
  | ok idempotencyPolicy =>
  cases rateLimitPolicyFrom o.rateLimit o.rateLimitOn o.retryAfter o.maxRateLimitWait with
  | error x => rfl
  | ok rateLimitPolicy =>
    exact decorator_policy o ⟨none, timeoutPolicy, chain, idempotencyPolicy, rateLimitPolicy⟩
      policy f

/-! One attempt, with and without a policy. -/

namespace AsyncOperation
variable (op : AsyncOperation V) (env : Environment)

/-- The policies that are left classify a failure of the first attempt: it is rate limited, with
    a hint that can be read, or it is of a class to retry on. -/
def Classified (types : RetryOn) (e : Exc) : Prop :=
  ∃ d, op.rateLimitDecision e 1 = .ok d ∧
    (d.rateLimited = true ∨ e.isInstance types.1 = true)

variable {op env}

theorem decision_limited {i : ℕ} {e : Exc} {d : RateLimitDecision}
    (decided : op.rateLimitDecision e i = .ok d) (limited : d.rateLimited = true) :
    ∃ limit, op.rateLimitPolicy = some limit := by
  unfold rateLimitDecision at decided
  cases configured : op.rateLimitPolicy with
  | none =>
    simp only [configured] at decided
    cases decided
    cases limited
  | some limit => exact ⟨limit, rfl⟩

theorem decision_unlimited {i : ℕ} {e : Exc} {d : RateLimitDecision}
    (decided : op.rateLimitDecision e i = .ok d) (unlimited : d.rateLimited = false) :
    d = { rateLimited := false } := by
  unfold rateLimitDecision at decided
  cases configured : op.rateLimitPolicy with
  | none =>
    simp only [configured] at decided
    cases decided
    rfl
  | some limit =>
    simp only [configured] at decided
    by_cases matched : e.isInstance limit.rateLimitOn = true
    · rw [RateLimitPolicy.evaluate_matched i matched] at decided
      cases hint : limit.hint i e with
      | ok q =>
        rw [hint] at decided
        cases decided
        cases unlimited
      | error x =>
        rw [hint] at decided
        cases decided
    · have unmatched : e.isInstance limit.rateLimitOn = false := by simpa using matched
      rw [RateLimitPolicy.evaluate_unmatched i unmatched] at decided
      cases decided
      rfl

def finalPlan (retryable : Bool) (d : RateLimitDecision) : RetryPlan :=
  { retryable, rateLimited := d.rateLimited, retryAfterSeconds := d.retryAfterSeconds }

theorem planFailure_unretried {i : ℕ} {e : Exc} {d : RateLimitDecision}
    (absent : op.retryPolicy = none) (decided : op.rateLimitDecision e i = .ok d) :
    op.planFailure env e i = .ok (e, finalPlan false d) := by
  cases limited : d.rateLimited with
  | true =>
    obtain ⟨limit, configured⟩ := decision_limited decided limited
    simp [planFailure, retryPlanForException, rateLimitRetryPlan, decided, limited, configured,
      absent, finalPlan, RetryPlan.new, bind, Except.bind, pure, Except.pure]
  | false =>
    obtain rfl := decision_unlimited decided limited
    simp [planFailure, retryPlanForException, decided, absent, finalPlan, RetryPlan.new, bind,
      Except.bind, pure, Except.pure]

theorem planFailure_last {i : ℕ} {e : Exc} {d : RateLimitDecision} {policy : RetryPolicy}
    (configured : op.retryPolicy = some policy) (last : ¬ i < op.maxAttempts)
    (decided : op.rateLimitDecision e i = .ok d) : op.planFailure env e i =
      .ok (e, finalPlan (d.rateLimited || e.isInstance policy.retryOn) d) := by
  cases limited : d.rateLimited with
  | true =>
    obtain ⟨limit, limits⟩ := decision_limited decided limited
    simp [planFailure, retryPlanForException, rateLimitRetryPlan, decided, limited, limits,
      configured, last, finalPlan, RetryPlan.new, bind, Except.bind, pure, Except.pure]
  | false =>
    obtain rfl := decision_unlimited decided limited
    cases matched : e.isInstance policy.retryOn <;>
      simp [planFailure, retryPlanForException, decided, configured, last, matched, finalPlan,
        RetryPlan.new, bind, Except.bind, pure, Except.pure]

theorem planFailure_undecided {i : ℕ} {e x : Exc} (undecided : op.rateLimitDecision e i = .error x)
    (policy policy' : Option RetryPolicy) :
    (op.replaceRetry policy).planFailure env e i =
      (op.replaceRetry policy').planFailure env e i := by
  have same (policy : Option RetryPolicy) :
      (op.replaceRetry policy).rateLimitDecision e i = .error x := undecided
  simp only [planFailure, retryPlanForException, same, bind, Except.bind]

theorem closing_inj {made : List Effect} {e : Exc} {as bs : List ExecutionAttempt}
    (same : op.closing made e as = op.closing made e bs) (lengths : as.length = bs.length) :
    as = bs := by
  unfold closing at same
  split at same
  · cases same
    rfl
  · split at same
    · simp only [Execution.mk.injEq, Ending.returned.injEq, true_and] at same
      exact (List.append_inj same lengths).1
    · simp only [Execution.mk.injEq, Ending.failed.injEq, true_and] at same
      exact (List.append_inj same lengths).1

theorem execution_single {b : BreakerState} {e e' : Exc} {plan : RetryPlan}
    (single : op.maxAttempts = 1) (outcome : (op.attemptResult env 1 b).outcome = .error e)
    (planned : op.planFailure env e 1 = .ok (e', plan)) (final : plan.willRetry = false)
    (accepted : op.refuses e' = false) :
    op.execution env b = op.closing (op.callMade env 1 b) e' [untimedFailure 1 e' plan] := by
  have failure : op.verdict env 1 b = .failure e' plan := by
    simp [verdict, outcome, planned, accepted]
  rw [execution, single, executionFrom_final failure final]
  rfl

theorem execution_refused {b : BreakerState} {e e' : Exc} {plan : RetryPlan}
    (single : op.maxAttempts = 1) (outcome : (op.attemptResult env 1 b).outcome = .error e)
    (planned : op.planFailure env e 1 = .ok (e', plan)) (refused : op.refuses e' = true) :
    op.execution env b = ⟨op.callMade env 1 b, .escaped (.exception payloadError)⟩ := by
  have verdict : op.verdict env 1 b = .refused e' plan := by
    simp [verdict, outcome, planned, refused]
  simp only [execution, single, executionFrom, verdict]

/-! What does not depend on the retry policy. -/

@[simp] theorem callMade_replaceRetry (policy : Option RetryPolicy) (i : ℕ) (b : BreakerState) :
    (op.replaceRetry policy).callMade env i b = op.callMade env i b := rfl

theorem chainFrom_replaceRetry (policy : Option RetryPolicy) (p : FallbackPolicy) (count : ℕ)
    (candidates : List (FallbackCandidate (Except Exc V))) (index : ℕ) (failures : List Exc) :
    (op.replaceRetry policy).chainFrom p count candidates index failures =
      op.chainFrom p count candidates index failures := by
  induction candidates generalizing index failures with
  | nil => rfl
  | cons candidate rest ih =>
    have checks : (op.replaceRetry policy).checked candidate.operation (.candidate index) =
        op.checked candidate.operation (.candidate index) := rfl
    simp only [chainFrom, checks, ih]

@[simp] theorem closing_replaceRetry (policy : Option RetryPolicy) (made : List Effect) (e : Exc)
    (attempts : List ExecutionAttempt) :
    (op.replaceRetry policy).closing made e attempts = op.closing made e attempts := by
  have matched : (op.replaceRetry policy).chainFor e = op.chainFor e := rfl
  simp only [closing, matched, chainResult, chainFrom_replaceRetry]

theorem single_verdict {b : BreakerState} {policy policy' : Option RetryPolicy}
    (single : (op.replaceRetry policy).maxAttempts = 1)
    (single' : (op.replaceRetry policy').maxAttempts = 1)
    (same : (op.replaceRetry policy).verdict env 1 b = (op.replaceRetry policy').verdict env 1 b) :
    (op.replaceRetry policy).execution env b = (op.replaceRetry policy').execution env b := by
  simp only [execution, single, single', executionFrom, same, callMade_replaceRetry,
    closing_replaceRetry]

theorem classified_iff {types : RetryOn} {e : Exc} {d : RateLimitDecision}
    (decided : op.rateLimitDecision e 1 = .ok d) :
    op.Classified types e ↔ (d.rateLimited || e.isInstance types.1) = true := by
  rw [Bool.or_eq_true]
  constructor
  · intro classified
    obtain ⟨d', decided', facts⟩ := classified
    rw [decided] at decided'
    cases decided'
    exact facts
  · exact fun facts => ⟨d, decided, facts⟩

theorem undecided_unclassified {types : RetryOn} {e x : Exc}
    (undecided : op.rateLimitDecision e 1 = .error x) : ¬ op.Classified types e := by
  intro classified
  obtain ⟨d, decided, _⟩ := classified
  rw [undecided] at decided
  cases decided

theorem finalPlan_final (retryable : Bool) (d : RateLimitDecision) :
    (finalPlan retryable d).willRetry = false := Bool.and_false retryable

theorem execution_unretried {b : BreakerState} {e : Exc} {d : RateLimitDecision}
    (outcome : (op.attemptResult env 1 b).outcome = .error e)
    (decided : op.rateLimitDecision e 1 = .ok d) (accepted : op.refuses e = false) :
    (op.replaceRetry none).execution env b =
      op.closing (op.callMade env 1 b) e [untimedFailure 1 e (finalPlan false d)] := by
  have planned : (op.replaceRetry none).planFailure env e 1 = .ok (e, finalPlan false d) :=
    planFailure_unretried rfl decided
  have failed : ((op.replaceRetry none).attemptResult env 1 b).outcome = .error e := outcome
  rw [execution_single rfl failed planned (finalPlan_final _ d) accepted, callMade_replaceRetry,
    closing_replaceRetry]

theorem planFailure_onlyAttempt (env : Environment) {e : Exc} {d : RateLimitDecision}
    (types : RetryOn) (decided : op.rateLimitDecision e 1 = .ok d) :
    (op.replaceRetry (some (policyOf 0 types))).planFailure env e 1 =
      .ok (e, finalPlan (d.rateLimited || e.isInstance types.1) d) := by
  have decided' : (op.replaceRetry (some (policyOf 0 types))).rateLimitDecision e 1 = .ok d :=
    decided
  exact planFailure_last rfl (Nat.lt_irrefl 1) decided'

theorem execution_last {b : BreakerState} {e : Exc} {d : RateLimitDecision} (types : RetryOn)
    (outcome : (op.attemptResult env 1 b).outcome = .error e)
    (decided : op.rateLimitDecision e 1 = .ok d) (accepted : op.refuses e = false) :
    (op.replaceRetry (some (policyOf 0 types))).execution env b =
      op.closing (op.callMade env 1 b) e
        [untimedFailure 1 e (finalPlan (d.rateLimited || e.isInstance types.1) d)] := by
  have planned := planFailure_onlyAttempt env types decided
  have failed : ((op.replaceRetry (some (policyOf 0 types))).attemptResult env 1 b).outcome =
      .error e := outcome
  rw [execution_single rfl failed planned (finalPlan_final _ d) accepted, callMade_replaceRetry,
    closing_replaceRetry]

/-- A failure that cannot be published hides how it is classified. -/
theorem execution_hidden {b : BreakerState} {e : Exc} {d : RateLimitDecision} (types : RetryOn)
    (outcome : (op.attemptResult env 1 b).outcome = .error e)
    (decided : op.rateLimitDecision e 1 = .ok d) (refused : op.refuses e = true) :
    (op.replaceRetry none).execution env b =
      (op.replaceRetry (some (policyOf 0 types))).execution env b := by
  have unretried : (op.replaceRetry none).planFailure env e 1 = .ok (e, finalPlan false d) :=
    planFailure_unretried rfl decided
  have last := planFailure_onlyAttempt env types decided
  have failed (policy : Option RetryPolicy) :
      ((op.replaceRetry policy).attemptResult env 1 b).outcome = .error e := outcome
  rw [execution_refused rfl (failed none) unretried refused,
    execution_refused rfl (failed _) last refused, callMade_replaceRetry, callMade_replaceRetry]

theorem untimedFailure_classification {i : ℕ} {e : Exc} {d : RateLimitDecision} {r r' : Bool}
    (same : untimedFailure i e (finalPlan r d) = untimedFailure i e (finalPlan r' d)) : r = r' := by
  simpa [untimedFailure, failureRecord, finalPlan, ExecutionError.fromException] using
    congrArg ExecutionAttempt.error same

/-- Without retries, the policy is missed exactly where it classifies the failure of the only
    attempt, unless that failure cannot be published. -/
theorem single_execution_iff (op : AsyncOperation V) (env : Environment) (b : BreakerState)
    (types : RetryOn) :
    (op.replaceRetry none).execution env b =
        (op.replaceRetry (some (policyOf 0 types))).execution env b ↔
      ∀ e, (op.attemptResult env 1 b).outcome = .error e →
        ¬ op.Classified types e ∨ op.refuses e = true := by
  have attempt (policy : Option RetryPolicy) :
      (op.replaceRetry policy).attemptResult env 1 b = op.attemptResult env 1 b := rfl
  have refuses (policy : Option RetryPolicy) (e : Exc) :
      (op.replaceRetry policy).refuses e = op.refuses e := rfl
  cases outcome : (op.attemptResult env 1 b).outcome with
  | ok value =>
    refine iff_of_true (single_verdict rfl rfl ?_) nofun
    simp only [verdict, attempt, outcome]
  | error e =>
    cases decided : op.rateLimitDecision e 1 with
    | error x =>
      refine iff_of_true (single_verdict rfl rfl ?_) ?_
      · simp only [verdict, attempt, outcome, refuses]
        rw [planFailure_undecided decided none (some (policyOf 0 types))]
      · rintro e' ⟨⟩
        exact .inl (undecided_unclassified decided)
    | ok d =>
      cases accepted : op.refuses e with
      | true =>
        refine iff_of_true (execution_hidden types outcome decided accepted) ?_
        rintro e' ⟨⟩
        exact .inr accepted
      | false =>
        rw [execution_unretried outcome decided accepted,
          execution_last types outcome decided accepted]
        constructor
        · rintro same e' ⟨⟩
          refine .inl fun classified => ?_
          have records := (List.cons.inj (closing_inj same rfl)).1
          rw [(classified_iff decided).mp classified] at records
          exact absurd (untimedFailure_classification records) Bool.false_ne_true
        · intro unclassified
          have missed : (d.rateLimited || e.isInstance types.1) = false := by
            rw [Bool.eq_false_iff]
            intro facts
            rcases unclassified e rfl with other | refused
            · exact other ((classified_iff decided).mpr facts)
            · rw [accepted] at refused
              cases refused
          rw [missed]

end AsyncOperation

/-! Whole runs. -/

/-- Two runs make the same calls with the same delays, and end alike: with the same value, or
    with the same cause, after the same attempts apart from their times. -/
def Alike (op op' : AsyncOperation V) (env env' : Environment) (s s' : Session) : Prop :=
  callsOf (op.trace env none s) = callsOf (op'.trace env' none s') ∧
    endingOf (op.outcome env none s) = endingOf (op'.outcome env' none s')

theorem alike_iff {op op' : AsyncOperation V} (aware : AwareTimestamps op)
    (aware' : AwareTimestamps op') {env env' : Environment} (same : SameOutcomes env env')
    {s s' : Session} (breaker : s'.breaker = s.breaker) :
    Alike op op' env env' s s' ↔ op.execution env s.breaker = op'.execution env s.breaker := by
  have first := AsyncOperation.run_execution aware env s
  have second := AsyncOperation.run_execution aware' env' s'
  rw [breaker, AsyncOperation.execution_congr same] at second
  rw [first, second, Execution.mk.injEq]
  rfl

/-- Both spellings are refused alike, and where they are accepted, their operations do the same
    in every run if and only if there is a retry, or the failure of the only attempt is not
    classified by the policies or cannot be published. -/
theorem retries_shortcut_iff (o : ResilientOptions V) (f : Callable (ℕ → CallOutcome V))
    (retries : ℕ) (types : RetryOn) :
    (∀ x, decorate (o.shortcut retries types) f = .error x ↔
      decorate (o.spelledOut retries types) f = .error x) ∧
    ∀ op op', decorate (o.shortcut retries types) f = .ok op →
      decorate (o.spelledOut retries types) f = .ok op' → AwareTimestamps op →
      ∀ env env' s s', SameOutcomes env env' → s'.breaker = s.breaker →
        (Alike op op' env env' s s' ↔ 1 ≤ retries ∨
          ∀ e, (op.attemptAt env s.breaker 1).outcome = .error e →
            ¬ op.Classified types e ∨ op.refuses e = true) := by
  have short := decorate_policy (o := o.shortcut retries types) (shortcut_policy retries types) f
  have resolved : retryPolicyFrom (some (policyOf retries types)) none none =
      .ok (some (policyOf retries types)) := rfl
  have long := decorate_policy (o := o.spelledOut retries types) resolved f
  have base : (o.spelledOut retries types).withoutRetry = (o.shortcut retries types).withoutRetry :=
    rfl
  rw [base] at long
  rw [short, long]
  cases decorate (o.shortcut retries types).withoutRetry f with
  | error x => exact ⟨fun _ => Iff.rfl, fun _ _ impossible => nomatch impossible⟩
  | ok op =>
    constructor
    · intro x
      simp only [Except.map, reduceCtorEq]
    · intro short_ long_ accepted accepted' aware env env' s s' same breaker
      obtain rfl := Except.ok.inj accepted
      obtain rfl := Except.ok.inj accepted'
      have aware' : AwareTimestamps (op.replaceRetry (some (policyOf retries types))) := aware
      rw [alike_iff aware aware' same breaker]
      by_cases zero : retries = 0
      · subst zero
        rw [if_pos rfl, AsyncOperation.single_execution_iff]
        constructor
        · exact fun unclassified => .inr unclassified
        · exact fun either => either.resolve_left (by omega)
      · rw [if_neg zero]
        exact iff_of_true rfl (.inl (Nat.one_le_iff_ne_zero.mpr zero))

def unavailable : Callable (ℕ → CallOutcome ℕ) where
  dunderName := some "forecast"
  className := "function"
  operation _ := { outcome := .error (builtinError "ConnectionError" "unavailable") }

def connectionErrors : RetryOn := ⟨[⟨"ConnectionError", "builtins"⟩], by decide⟩

def unavailableCall (policy : Option RetryPolicy) : AsyncOperation ℕ where
  name := "forecast"
  operation := unavailable.operation
  retryPolicy := policy

theorem unavailable_short (retries : ℕ) :
    decorate (({} : ResilientOptions ℕ).shortcut retries connectionErrors) unavailable =
      .ok (unavailableCall
        (if retries = 0 then none else some (policyOf retries connectionErrors))) := by
  rw [decorate_policy (shortcut_policy retries connectionErrors)]
  rfl

theorem unavailable_long (retries : ℕ) :
    decorate (({} : ResilientOptions ℕ).spelledOut retries connectionErrors) unavailable =
      .ok (unavailableCall (some (policyOf retries connectionErrors))) := rfl

theorem unavailable_aware (policy : Option RetryPolicy) :
    AwareTimestamps (unavailableCall policy) := by
  rintro emitter ⟨⟩

def shownRetryable (op : AsyncOperation ℕ) : Option Bool :=
  ((reportOf (op.outcome steady none {})).bind (·.lastError)).bind (·.retryable)

/-- With `retries=0` the failure is reported as not retryable, with the policy as retryable. -/
theorem zero_retries_unclassified : ∃ op op' : AsyncOperation ℕ,
    decorate (({} : ResilientOptions ℕ).shortcut 0 connectionErrors) unavailable = .ok op ∧
    decorate (({} : ResilientOptions ℕ).spelledOut 0 connectionErrors) unavailable = .ok op' ∧
    shownRetryable op = some false ∧ shownRetryable op' = some true ∧
    ¬ Alike op op' steady steady {} {} := by
  refine ⟨_, _, unavailable_short 0, unavailable_long 0, by decide +kernel, by decide +kernel, ?_⟩
  intro alike
  have same := (alike_iff (unavailable_aware _) (unavailable_aware _) ⟨rfl, rfl, rfl⟩ rfl).mp alike
  have unclassified := (AsyncOperation.single_execution_iff (unavailableCall none) steady {}
    connectionErrors).mp same (builtinError "ConnectionError" "unavailable") rfl
  rcases unclassified with other | refused
  · exact other ⟨{ rateLimited := false }, rfl, .inr rfl⟩
  · cases refused

def laterClocks : Environment := { steady with
  utcNow := fun n => n + 86400000000
  perfCounter := fun n => 2 * n
  perf_mono := fun _ _ le => mul_le_mul_of_nonneg_left (Nat.cast_le.mpr le) (by decide) }

theorem one_retry_alike : ∃ op op' : AsyncOperation ℕ,
    decorate (({} : ResilientOptions ℕ).shortcut 1 connectionErrors) unavailable = .ok op ∧
    decorate (({} : ResilientOptions ℕ).spelledOut 1 connectionErrors) unavailable = .ok op' ∧
    Alike op op' steady laterClocks {} {} := by
  refine ⟨_, _, unavailable_short 1, unavailable_long 1, ?_⟩
  have spellings := (retries_shortcut_iff {} unavailable 1 connectionErrors).2 _ _
    (unavailable_short 1) (unavailable_long 1) (unavailable_aware _)
  have alike := spellings steady laterClocks {} {} ⟨rfl, rfl, rfl⟩ rfl
  exact alike.mpr (.inl (Nat.le_refl 1))

end Relprim
