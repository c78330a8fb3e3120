import Mathlib.Order.Bounds.Defs
import Relprim.ReportAgreement

/-!
The reference semantics of a run: which attempts are made, which failures are
retried and after which delay, and what the last attempt and the fallback chain
come to. The loop of the source computes exactly this.
-/
namespace Relprim
open Interruptible Dictionary

/-- How a chain ends: at the first candidate that succeeds, at the first whose failure the
    policy does not match, or after all of them; and how many candidates are called. -/
inductive ChainEnds {A : Type} (p : FallbackPolicy) (outcomes : List (Except Exc A)) :
    ℕ → Except Exc A → Prop where
  | succeeded {failures : List Exc} {a : A} {later : List (Except Exc A)}
      (split : outcomes = failures.map .error ++ .ok a :: later)
      (matched : ∀ e ∈ failures, p.shouldFallback e = true) :
      ChainEnds p outcomes (failures.length + 1) (.ok a)
  | unmatched {failures : List Exc} {e : Exc} {later : List (Except Exc A)}
      (split : outcomes = failures.map .error ++ .error e :: later)
      (matched : ∀ e ∈ failures, p.shouldFallback e = true)
      (other : p.shouldFallback e = false) :
      ChainEnds p outcomes (failures.length + 1) (.error e)
  | exhausted {failures : List Exc} {x : Exc} (all : outcomes = failures.map .error)
      (matched : ∀ e ∈ failures, p.shouldFallback e = true)
      (collected : x.fields.failures = some failures) :
      ChainEnds p outcomes failures.length (.error x)

namespace AsyncOperation
variable {V : Type} (op : AsyncOperation V) (env : Environment)

/-! The attempts. -/

def breakerAfter (b : BreakerState) : ℕ → BreakerState
  | 0 => b
  | n + 1 => (op.attemptResult env (n + 1) (breakerAfter b n)).breaker

def attemptAt (b : BreakerState) (i : ℕ) : AttemptResult V :=
  op.attemptResult env i (op.breakerAfter env b (i - 1))

inductive RetriedAfter (i : ℕ) (e : Exc) : PyNumber → Prop where
  | limited {policy : RetryPolicy} {limit : RateLimitPolicy} {hint : Option ℚ} {d : PyNumber}
      {source : RetryDelaySource} (configured : op.retryPolicy = some policy)
      (limits : op.rateLimitPolicy = some limit) (matched : e.isInstance limit.rateLimitOn = true)
      (hinted : limit.ProviderHint i e hint) (selected : Selected env policy i hint d source)
      (within : d.value ≤ limit.maxWaitSeconds.value) : RetriedAfter i e d
  | unlimited {policy : RetryPolicy} {d : PyNumber} (configured : op.retryPolicy = some policy)
      (unlimited : op.Unlimited e) (matched : e.isInstance policy.retryOn = true)
      (delay : policy.backoff.delayForRetry i (env.random i) = .ok d) : RetriedAfter i e d

/-- Attempt `i` is the last one: it succeeds, no attempt is left, or its failure is not
    retried. -/
inductive Stops (b : BreakerState) (i : ℕ) : Prop where
  | succeeded {value : V × Metadata} (outcome : (op.attemptAt env b i).outcome = .ok value) :
      Stops b i
  | exhausted {e : Exc} (outcome : (op.attemptAt env b i).outcome = .error e)
      (last : i = op.maxAttempts) : Stops b i
  | unretried {e : Exc} (outcome : (op.attemptAt env b i).outcome = .error e)
      (final : ∀ d, ¬ op.RetriedAfter env i e d) : Stops b i

/-- The exception a failure is reported with: itself, unless its hint cannot be read. -/
inductive Reports (i : ℕ) (e : Exc) : Exc → Prop where
  | itself (read : ∀ limit, op.rateLimitPolicy = some limit →
      e.isInstance limit.rateLimitOn = true → ∃ hint, limit.ProviderHint i e hint) :
      Reports i e e
  | replaced {limit : RateLimitPolicy} (limits : op.rateLimitPolicy = some limit)
      (matched : e.isInstance limit.rateLimitOn = true)
      {x : Exc} (evaluated : limit.evaluate i e = .error x)
      (surfaces : x.fields.extraction.isSome = true) : Reports i e x

/-- Every rate-limited failure has a hint that can be read, or an extraction failure. -/
def ExtractionSurfaces (b : BreakerState) : Prop :=
  ∀ i e limit, (op.attemptAt env b i).outcome = .error e → op.rateLimitPolicy = some limit →
    e.isInstance limit.rateLimitOn = true →
    (∃ hint, limit.ProviderHint i e hint) ∨
      ∃ x, limit.evaluate i e = .error x ∧ x.fields.extraction.isSome = true

/-- The events about every failure can be made; without an emitter there is none to make. -/
def Announceable (b : BreakerState) : Prop :=
  ∀ i e, (op.attemptAt env b i).outcome = .error e → op.refuses (op.reportedFailure i e) = false

theorem announceable_of_silent (silent : op.eventEmitter = none) (b : BreakerState) :
    op.Announceable env b := by
  intro i e _
  simp [refuses, silent]

theorem surfaces_not_escapes {b : BreakerState} (h : op.ExtractionSurfaces env b) {i : ℕ} {e : Exc}
    (outcome : (op.attemptAt env b i).outcome = .error e) (x : Exc) : ¬ op.Escapes i e x := by
  intro escapes
  obtain ⟨⟨limit, limits, matched, raises⟩, uncaught⟩ := escapes
  have hint := RateLimitPolicy.hint_raises raises
  rcases h i e limit outcome limits matched with ⟨q, hinted⟩ | ⟨y, evaluated, surfaces⟩
  · rw [RateLimitPolicy.hint_ok_iff.mpr hinted] at hint
    cases hint
  · rw [RateLimitPolicy.evaluate_matched i matched, hint] at evaluated
    cases evaluated
    rw [uncaught] at surfaces
    cases surfaces

theorem selected_unique {policy : RetryPolicy} {i : ℕ} {hint : Option ℚ} {d d' : PyNumber}
    {source source' : RetryDelaySource} (h : Selected env policy i hint d source)
    (h' : Selected env policy i hint d' source') : d = d' := by
  cases h with
  | provider q =>
    cases h' with
    | provider => rfl
  | backoff delay =>
    cases h' with
    | backoff delay' =>
      rw [delay] at delay'
      cases delay'
      rfl

theorem planned_retried {i : ℕ} {e e' : Exc} {plan : RetryPlan} {d : PyNumber}
    (h : op.Planned env i e e' plan) (again : plan.willRetry = true)
    (delay : plan.delaySeconds = some d) : op.RetriedAfter env i e d := by
  cases h with
  | waited limited configured left selected within =>
    cases delay
    exact .limited configured limited.configured limited.matched
      (RateLimitPolicy.hint_ok_iff.mp limited.hinted) selected within
  | retried unlimited configured matched left delay' =>
    cases delay
    exact .unlimited configured unlimited matched delay'
  | extraction => cases again
  | single => cases again
  | limitedLast => cases again
  | exceeded => cases again
  | unmatched => cases again
  | last => cases again

theorem planned_final {i : ℕ} {e e' : Exc} {plan : RetryPlan} (h : op.Planned env i e e' plan)
    (final : plan.willRetry = false) (left : i < op.maxAttempts) (d : PyNumber) :
    ¬ op.RetriedAfter env i e d := by
  intro retried
  cases retried with
  | limited configured limits matched hinted selected within =>
    have hint := RateLimitPolicy.hint_ok_iff.mpr hinted
    cases h with
    | extraction limits' _ refused _ =>
      rw [limits] at limits'
      cases limits'
      rw [hint] at refused
      cases refused
    | single limited unretried =>
      rw [configured] at unretried
      cases unretried
    | limitedLast limited configured' last => exact last left
    | exceeded limited configured' left' selected' above =>
      have same := limited.configured
      rw [limits] at same
      cases same
      rw [configured] at configured'
      cases configured'
      have same := limited.hinted
      rw [hint] at same
      cases same
      rw [selected_unique env selected' selected] at above
      exact absurd within (not_le_of_gt above)
    | waited => cases final
    | unmatched unlimited other =>
      rw [unlimited _ limits] at matched
      cases matched
    | last unlimited =>
      rw [unlimited _ limits] at matched
      cases matched
    | retried => cases final
  | unlimited configured unlimited matched delay =>
    cases h with
    | extraction limits matched' _ _ =>
      rw [unlimited _ limits] at matched'
      cases matched'
    | single limited unretried =>
      rw [configured] at unretried
      cases unretried
    | limitedLast limited configured' last => exact last left
    | exceeded limited =>
      have other := unlimited _ limited.configured
      rw [limited.matched] at other
      cases other
    | waited => cases final
    | unmatched unlimited' other =>
      rw [other _ configured] at matched
      cases matched
    | last unlimited' configured' matched' last => exact last left
    | retried => cases final

theorem planned_reports {i : ℕ} {e e' : Exc} {plan : RetryPlan} (h : op.Planned env i e e' plan) :
    op.Reports i e e' := by
  have limited_reports {limit : RateLimitPolicy} {hint : Option ℚ}
      (limited : op.Limited i e limit hint) : op.Reports i e e := by
    apply Reports.itself
    intro limit' limits _
    rw [limited.configured] at limits
    cases limits
    exact ⟨hint, RateLimitPolicy.hint_ok_iff.mp limited.hinted⟩
  have unlimited_reports (unlimited : op.Unlimited e) : op.Reports i e e := by
    apply Reports.itself
    intro limit limits matched
    rw [unlimited limit limits] at matched
    cases matched
  cases h with
  | extraction configured matched refused surfaces =>
    refine .replaced configured matched ?_ surfaces
    rw [RateLimitPolicy.evaluate_matched i matched, refused]
    rfl
  | single limited => exact limited_reports limited
  | limitedLast limited => exact limited_reports limited
  | exceeded limited => exact limited_reports limited
  | waited limited => exact limited_reports limited
  | unmatched unlimited => exact unlimited_reports unlimited
  | last unlimited => exact unlimited_reports unlimited
  | retried unlimited => exact unlimited_reports unlimited

/-! The fallback chain. -/

def candidateOutcomes : List (FallbackCandidate (Except Exc V)) → ℕ →
    List (Except Exc (V × Metadata))
  | [], _ => []
  | candidate :: rest, index =>
    op.checked candidate.operation (.candidate index) :: candidateOutcomes rest (index + 1)

theorem chainFrom_ends (p : FallbackPolicy) (count : ℕ)
    (candidates : List (FallbackCandidate (Except Exc V))) (index : ℕ) {failures : List Exc}
    (matched : ∀ e ∈ failures, p.shouldFallback e = true) :
    ChainEnds p (failures.map .error ++ op.candidateOutcomes candidates index)
      (failures.length + (op.chainFrom p count candidates index failures).called)
      ((op.chainFrom p count candidates index failures).outcome.map (·.value)) := by
  induction candidates generalizing index failures with
  | nil => exact .exhausted (List.append_nil _) matched rfl
  | cons candidate rest ih =>
    unfold candidateOutcomes chainFrom
    cases out : op.checked candidate.operation (.candidate index) with
    | ok value => exact .succeeded rfl matched
    | error e =>
      by_cases here : p.shouldFallback e = true
      · have extended : ∀ x ∈ failures ++ [e], p.shouldFallback x = true := by
          intro x member
          rcases List.mem_append.mp member with earlier | last
          · exact matched x earlier
          · rw [List.mem_singleton.mp last]
            exact here
        have later := ih (index + 1) extended
        simp only [here, Bool.not_true, Bool.false_eq_true, if_false]
        simpa [Nat.add_assoc, Nat.add_comm 1] using later
      · have other : p.shouldFallback e = false := by simpa using here
        simp only [other, Bool.not_false, if_true]
        exact .unmatched rfl matched other

/-- The chain that is run is the one that its definition describes. -/
theorem chainResult_ends (chain : FallbackChain (Except Exc V)) :
    ChainEnds chain.policy (op.candidateOutcomes chain.candidates 0) (op.chainResult chain).called
      ((op.chainResult chain).outcome.map (·.value)) := by
  have none : ∀ e ∈ ([] : List Exc), chain.policy.shouldFallback e = true := by
    intro e member
    cases member
  have ends := op.chainFrom_ends chain.policy chain.candidates.length chain.candidates 0 none
  simpa [chainResult] using ends

/-! The run. -/

def attemptCalls (b : BreakerState) (i : ℕ) : List Effect :=
  if (op.attemptAt env b i).called then [.primary i] else []

def loopCalls (b : BreakerState) (i : ℕ) : List PyNumber → List Effect
  | [] => op.attemptCalls env b i
  | d :: later => op.attemptCalls env b i ++ .sleep d :: loopCalls b (i + 1) later

/-- What a run whose last attempt is `k` comes to, and how many candidates it calls. -/
inductive Concludes (b : BreakerState) (k : ℕ) : Except Raised (OperationResult V) → ℕ → Prop where
  | succeeded {v : V} {metadata : Metadata}
      (outcome : (op.attemptAt env b k).outcome = .ok (v, metadata)) (report : ExecutionReport) :
      Concludes b k (.ok ⟨v, report⟩) 0
  | failed {e e' : Exc} (outcome : (op.attemptAt env b k).outcome = .error e)
      (reported : op.Reports k e e')
      (unmatched : ∀ chain, op.fallbackChain = some chain → chain.policy.shouldFallback e' = false)
      (message : String) (report : ExecutionReport) :
      Concludes b k (.error (.exception (operationExecutionError message report e'))) 0
  | fellBack {e e' : Exc} (outcome : (op.attemptAt env b k).outcome = .error e)
      (reported : op.Reports k e e') {chain : FallbackChain (Except Exc V)}
      (configured : op.fallbackChain = some chain)
      (matched : chain.policy.shouldFallback e' = true) {n : ℕ} {v : V} {metadata : Metadata}
      (ends : ChainEnds chain.policy (op.candidateOutcomes chain.candidates 0) n (.ok (v, metadata)))
      (report : ExecutionReport) : Concludes b k (.ok ⟨v, report⟩) n
  | fallbackFailed {e e' : Exc} (outcome : (op.attemptAt env b k).outcome = .error e)
      (reported : op.Reports k e e') {chain : FallbackChain (Except Exc V)}
      (configured : op.fallbackChain = some chain)
      (matched : chain.policy.shouldFallback e' = true) {n : ℕ} {x : Exc}
      (ends : ChainEnds chain.policy (op.candidateOutcomes chain.candidates 0) n (.error x))
      (message : String) (report : ExecutionReport) :
      Concludes b k (.error (.exception (operationExecutionError message report x))) n

/-- A run from attempt `i` on: `k` is its last attempt, `delays` are its sleeps. -/
structure Follows (b : BreakerState) (i k : ℕ) (delays : List PyNumber)
    (r : Except Raised (OperationResult V)) (effects : List Effect) : Prop where
  last : op.Stops env b k
  earlier : ∀ j, i ≤ j → j < k → ¬ op.Stops env b j
  count : k = i + delays.length
  slept : ∀ n d, delays[n]? = some d →
    ∃ e, (op.attemptAt env b (i + n)).outcome = .error e ∧ op.RetriedAfter env (i + n) e d
  primaries : ∀ report, reportOf r = some report →
    (report.attempts.filter fun a => !a.fallback).length = k
  concluded : ∃ n, effects = op.loopCalls env b i delays ++ (List.range n).map .candidate ∧
    op.Concludes env b k r n

section
variable {op : AsyncOperation V} {env : Environment}

@[simp] theorem calls_validationFailed (i : ℕ) (e : Exc) :
    calls (validationFailedItems i e) = [] := by
  unfold validationFailedItems
  cases e.fields.validation <;> rfl

@[simp] theorem calls_breaker (i : ℕ) (e : Exc) : calls (breakerItems i e) = [] := by
  unfold breakerItems
  cases e.fields.breaker <;> rfl

@[simp] theorem calls_rateLimit (i : ℕ) (e : Exc) (plan : RetryPlan) :
    calls (op.rateLimitItems i e plan) = [] := by
  unfold rateLimitItems waitExceededItems
  cases plan.rateLimited <;> cases plan.maxWaitExceeded <;> rfl

@[simp] theorem calls_failure (i : ℕ) (d : ℚ) (e : Exc) (plan : RetryPlan) :
    calls (op.failureItems i d e plan) = [] := by
  simp [failureItems, calls_append]

@[simp] theorem calls_validationSucceeded (m : Metadata) (payload : EventPayload) :
    calls (validationSucceededItems m payload) = [] := by
  unfold validationSucceededItems
  split <;> rfl

@[simp] theorem calls_candidateValidation (i : ℕ)
    (pairs : List (FallbackCandidate (Except Exc V) × Exc)) :
    calls (candidateValidationItems i pairs) = [] := by
  induction pairs with
  | nil => rfl
  | cons pair rest ih =>
    obtain ⟨candidate, failure⟩ := pair
    unfold candidateValidationItems
    rw [calls_append, ih]
    cases failure.fields.validation <;> rfl

@[simp] theorem calls_chainValidation (chain : FallbackChain (Except Exc V)) (i : ℕ) (e : Exc) :
    calls (chainValidationItems chain i e) = [] := by
  unfold chainValidationItems
  split
  · exact calls_candidateValidation i _
  · rfl
  · rfl

@[simp] theorem calls_fallback (chain : FallbackChain (Except Exc V)) (i n : ℕ) :
    calls (op.fallbackItems chain i n) = (List.range (op.chainResult chain).called).map .candidate := by
  simp [fallbackItems, candidateItems, calls, List.range_eq_range', List.filterMap_map]

theorem closes_calls {started : Started} {i : ℕ} (pos : 1 ≤ i) {b : BreakerState} {p : Progress}
    {r : Except Raised (OperationResult V)} {items : List Item} {b' : BreakerState}
    (state : b' = op.breakerAfter env b (i - 1))
    (handled : ∀ e, (op.attemptAt env b i).outcome = .error e → op.Handled i e)
    (closes : op.Closes env started i b' p r items) :
    ∃ n, calls items = (List.range n).map .candidate ∧ op.Concludes env b i r n := by
  subst state
  cases closes with
  | succeeded verdict at_ duration total reported =>
    refine ⟨0, ?_, .succeeded (verdict_value verdict) _⟩
    simp [successItems, calls_append]
  | failed verdict final unmatched at_ duration total message reported =>
    obtain ⟨e, outcome, planned⟩ := verdict_failure pos verdict
    refine ⟨0, ?_, .failed outcome (op.planned_reports env planned) ?_ message _⟩
    · simp [calls_append]
    · intro chain configured
      simpa [chainFor, configured] using unmatched
  | @fellBack e' plan verdict final chain matched result out k at_ duration numbered at_' duration'
      total drafted reported =>
    obtain ⟨e, outcome, planned⟩ := verdict_failure pos verdict
    obtain ⟨configured, here⟩ := Option.filter_eq_some_iff.mp matched
    have ends := op.chainResult_ends chain
    rw [out] at ends
    refine ⟨_, ?_, .fellBack outcome (op.planned_reports env planned) configured here ends _⟩
    simp [fallbackSuccessItems, calls_append]
  | @fallbackFailed e' plan verdict final chain matched x out k at_ duration numbered at_' duration'
      total message drafted reported =>
    obtain ⟨e, outcome, planned⟩ := verdict_failure pos verdict
    obtain ⟨configured, here⟩ := Option.filter_eq_some_iff.mp matched
    have ends := op.chainResult_ends chain
    rw [out] at ends
    refine ⟨_, ?_, .fallbackFailed outcome (op.planned_reports env planned) configured here ends
      message _⟩
    simp [fallbackFailureItems, calls_append]
  | refused verdict => exact absurd verdict (handled_not_refused pos handled _ _)
  | escaped verdict => exact absurd verdict (handled_not_escape pos handled _)

theorem concludes_reported {b : BreakerState} {k n : ℕ} {r : Except Raised (OperationResult V)}
    (h : op.Concludes env b k r n) : ∃ report, reportOf r = some report := by
  cases h <;> exact ⟨_, rfl⟩

theorem calls_attempt (i : ℕ) (b : BreakerState) : calls (op.attemptItems env i b) =
    if (op.attemptResult env i b).called then [.primary i] else [] := by
  unfold attemptItems callItems
  cases (op.attemptResult env i b).called <;> rfl

theorem closes_primaries {started : Started} {i : ℕ} (pos : 1 ≤ i) {b : BreakerState} {p : Progress}
    (count : p.attempts.length + 1 = i) (failed : ∀ a ∈ p.attempts, Failed a)
    {r : Except Raised (OperationResult V)} {items : List Item}
    (closes : op.Closes env started i b p r items) {report : ExecutionReport}
    (found : reportOf r = some report) :
    (report.attempts.filter fun a => !a.fallback).length = i := by
  have primaries := failed_primaries failed
  cases closes with
  | succeeded verdict at_ duration total reported =>
    cases found
    simp [reported, reportDraft, Progress.record, List.filter_append, primaries, successRecord, count]
  | failed verdict final unmatched at_ duration total message reported =>
    cases found
    simp [reported, reportDraft, failed_attempts, List.filter_append, primaries, failureRecord,
      count]
  | fellBack verdict final matched out at_ duration numbered at_' duration' total reported =>
    cases found
    simp [reported, reportDraft, Progress.record, failed_attempts, List.filter_append, primaries,
      failureRecord, candidateRecord, count]
  | fallbackFailed verdict final matched out at_ duration numbered at_' duration' total message
      reported =>
    cases found
    simp [reported, reportDraft, Progress.record, failed_attempts, List.filter_append, primaries,
      failureRecord, fallbackRecord, count]
  | refused verdict => cases found
  | escaped verdict =>
    rw [escape_unreported pos verdict] at found
    cases found

theorem closes_stops {started : Started} {i : ℕ} (pos : 1 ≤ i) (bound : i ≤ op.maxAttempts)
    {b : BreakerState} {p : Progress} {r : Except Raised (OperationResult V)} {items : List Item}
    (handled : ∀ e, (op.attemptAt env b i).outcome = .error e → op.Handled i e)
    (closes : op.Closes env started i (op.breakerAfter env b (i - 1)) p r items) :
    op.Stops env b i := by
  have stops {e : Exc} {plan : RetryPlan}
      (verdict : op.verdict env i (op.breakerAfter env b (i - 1)) = .failure e plan)
      (final : plan.willRetry = false) : op.Stops env b i := by
    obtain ⟨e, outcome, planned⟩ := verdict_failure pos verdict
    by_cases last : i = op.maxAttempts
    · exact .exhausted outcome last
    · exact .unretried outcome (op.planned_final env planned final (by omega))
  cases closes with
  | succeeded verdict => exact .succeeded (verdict_value verdict)
  | failed verdict final => exact stops verdict final
  | fellBack verdict final => exact stops verdict final
  | fallbackFailed verdict final => exact stops verdict final
  | refused verdict => exact absurd verdict (handled_not_refused pos handled _ _)
  | escaped verdict => exact absurd verdict (handled_not_escape pos handled _)

theorem retries_continues {i : ℕ} (pos : 1 ≤ i) {b : BreakerState} {p q : Progress} {d : PyNumber}
    {items : List Item} (retries : op.Retries env i (op.breakerAfter env b (i - 1)) p d q items) :
    i < op.maxAttempts ∧ calls items = [.sleep d] ∧
      ∃ e, (op.attemptAt env b i).outcome = .error e ∧ op.RetriedAfter env i e d := by
  cases retries with
  | intro verdict again delay left at_ duration =>
    obtain ⟨e, outcome, planned⟩ := verdict_failure pos verdict
    refine ⟨left, ?_, e, outcome, op.planned_retried env planned again delay⟩
    simp [calls_append, sleepItems]

theorem retried_not_stops {i : ℕ} {b : BreakerState} {e : Exc} {d : PyNumber}
    (left : i < op.maxAttempts) (outcome : (op.attemptAt env b i).outcome = .error e)
    (retried : op.RetriedAfter env i e d) : ¬ op.Stops env b i := by
  intro stops
  cases stops with
  | succeeded outcome' =>
    rw [outcome] at outcome'
    cases outcome'
  | exhausted outcome' last => omega
  | unretried outcome' final =>
    rw [outcome] at outcome'
    cases outcome'
    exact final d retried

theorem breakerAfter_succ {i : ℕ} (pos : 1 ≤ i) (b : BreakerState) :
    (op.attemptResult env i (op.breakerAfter env b (i - 1))).breaker =
      op.breakerAfter env b (i + 1 - 1) := by
  obtain ⟨n, rfl⟩ := Nat.exists_eq_add_of_le' pos
  rfl

theorem transcript_follows {started : Started} {i : ℕ} (pos : 1 ≤ i) (bound : i ≤ op.maxAttempts)
    {b b' : BreakerState} (state : b' = op.breakerAfter env b (i - 1))
    (surfaces : op.ExtractionSurfaces env b) (announced : op.Announceable env b) {p : Progress}
    {t : Tally} (looping : Looping i p t)
    {r : Except Raised (OperationResult V)} {items : List Item}
    (run : op.Transcript env started i b' p r items) :
    ∃ k delays, op.Follows env b i k delays r (calls items) := by
  induction run generalizing t with
  | @closes i b' p r items closes =>
    subst state
    have handled : ∀ e, (op.attemptAt env b i).outcome = .error e → op.Handled i e :=
      fun e outcome => ⟨op.surfaces_not_escapes env surfaces outcome, announced i e outcome⟩
    obtain ⟨n, effects, concludes⟩ := closes_calls pos rfl handled closes
    refine ⟨i, [], ?_⟩
    constructor
    · exact closes_stops pos bound handled closes
    · intro j above below
      omega
    · rfl
    · intro n d found
      cases found
    · intro report found
      exact closes_primaries pos looping.count looping.failed closes found
    · refine ⟨n, ?_, concludes⟩
      rw [calls_append, effects, calls_attempt]
      rfl
  | @retries i b' p q d r items rest retries run ih =>
    subst state
    obtain ⟨left, slept, e, outcome, retried⟩ := retries_continues pos retries
    obtain ⟨k, delays, follows⟩ := ih (Nat.le_add_left 1 i) left (breakerAfter_succ pos b)
      (looping_retries looping retries)
    refine ⟨k, d :: delays, ?_⟩
    constructor
    · exact follows.last
    · intro j above below
      by_cases here : j = i
      · subst here
        exact retried_not_stops left outcome retried
      · exact follows.earlier j (by omega) below
    · rw [follows.count, List.length_cons]
      omega
    · intro n d' found
      cases n with
      | zero =>
        cases found
        exact ⟨e, outcome, retried⟩
      | succ n =>
        have later := follows.slept n d' found
        rwa [Nat.add_assoc, Nat.add_comm 1] at later
    · exact follows.primaries
    · obtain ⟨n, effects, concludes⟩ := follows.concluded
      refine ⟨n, ?_, concludes⟩
      rw [calls_append, calls_append, slept, effects, calls_attempt]
      simp only [loopCalls, List.append_assoc, List.cons_append, List.nil_append]
      rfl

end

end AsyncOperation

/-- A run makes `k` primary attempts for the least `k` that stops, sleeps `k - 1` times for
    the delays selected after the failures, and ends as its last attempt and the fallback
    chain conclude. -/
theorem run_follows_reference {V : Type} (op : AsyncOperation V) (env : Environment) (s : Session)
    (aware : AwareTimestamps op) (surfaces : op.ExtractionSurfaces env s.breaker)
    (announced : op.eventEmitter.isSome = true → op.Announceable env s.breaker) :
    ∃ k delays, IsLeast {i | 1 ≤ i ∧ op.Stops env s.breaker i} k ∧ delays.length = k - 1 ∧
      (∀ i d, delays[i]? = some d → ∃ e, (op.attemptAt env s.breaker (i + 1)).outcome = .error e ∧
        op.RetriedAfter env (i + 1) e d) ∧
      (∃ report, reportOf (op.outcome env none s) = some report ∧
        (report.attempts.filter fun a => !a.fallback).length = k) ∧
      ∃ n, callsOf (op.trace env none s) =
          op.loopCalls env s.breaker 1 delays ++ (List.range n).map .candidate ∧
        op.Concludes env s.breaker k (op.outcome env none s) n := by
  have announceable : op.Announceable env s.breaker := by
    cases emitter : op.eventEmitter with
    | none => exact op.announceable_of_silent env emitter s.breaker
    | some made => exact announced (by rw [emitter]; rfl)
  obtain ⟨started, rest, run, expands⟩ := AsyncOperation.run_transcript aware env s
  obtain ⟨k, delays, follows⟩ := AsyncOperation.transcript_follows (Nat.le_refl 1)
    op.maxAttempts_pos rfl surfaces announceable (looping_start op.operationStartedPayload) run
  have count := follows.count
  have slept : ∀ i d, delays[i]? = some d → ∃ e,
      (op.attemptAt env s.breaker (i + 1)).outcome = .error e ∧ op.RetriedAfter env (i + 1) e d := by
    intro i d found
    have later := follows.slept i d found
    rwa [Nat.add_comm] at later
  have least : IsLeast {i | 1 ≤ i ∧ op.Stops env s.breaker i} k := by
    constructor
    · exact ⟨by omega, follows.last⟩
    · intro j member
      obtain ⟨above, stops⟩ := member
      by_contra below
      exact follows.earlier j above (Nat.lt_of_not_le below) stops
  obtain ⟨n, effects, concludes⟩ := follows.concluded
  refine ⟨k, delays, least, by omega, slept, ?_, n, ?_, concludes⟩
  · obtain ⟨report, found⟩ := AsyncOperation.concludes_reported concludes
    exact ⟨report, found, follows.primaries report found⟩
  · rw [expands_calls expands, AsyncOperation.runItems, calls_emit, effects]

theorem limitedOnce_failure {b : BreakerState} {i : ℕ} {e : Exc}
    (h : (limitedOnce.attemptAt steady b i).outcome = .error e) : e = runtimeError "429" := by
  have outcome : (limitedOnce.attemptAt steady b i).outcome =
      limitedOnce.checked (if i = 1 then .error (runtimeError "429") else .ok 7) (.attempt i) := rfl
  rw [outcome] at h
  by_cases first : i = 1
  · rw [if_pos first] at h
    cases h
    rfl
  · rw [if_neg first] at h
    cases h

theorem limitedOnce_hint (i : ℕ) (e : Exc) :
    (provider (.scalar (.float (.finite (1 / 2))))).hint i e = .ok (some (1 / 2)) := by
  have half : Hints (.ok (.scalar (.float (.finite (1 / 2))))) (some (1 / 2)) :=
    .seconds rfl (by decide +kernel)
  exact readHint_hints half e

theorem limitedOnce_reported {b : BreakerState} {i : ℕ} {e : Exc}
    (h : (limitedOnce.attemptAt steady b i).outcome = .error e) :
    limitedOnce.reportedFailure i e = runtimeError "429" := by
  obtain rfl := limitedOnce_failure h
  have decided : limitedOnce.rateLimitDecision (runtimeError "429") i =
      .ok { rateLimited := true, retryAfterSeconds := some (1 / 2) } := by
    rw [limitedOnce.decision_matched rfl (by decide), limitedOnce_hint]
    rfl
  simp only [AsyncOperation.reportedFailure, decided]

theorem limitedOnce_handled {b : BreakerState} {i : ℕ} {e : Exc}
    (h : (limitedOnce.attemptAt steady b i).outcome = .error e) : limitedOnce.Handled i e := by
  constructor
  · rintro x ⟨⟨limit, limits, _, raises⟩, _⟩
    cases limits
    have hint := RateLimitPolicy.hint_raises raises
    rw [limitedOnce_hint] at hint
    cases hint
  · rw [limitedOnce_reported h]
    rfl

theorem limitedOnce_follows_reference : ∃ k, IsLeast
    {i | 1 ≤ i ∧ limitedOnce.Stops steady ({} : Session).breaker i} k := by
  have surfaces : limitedOnce.ExtractionSurfaces steady ({} : Session).breaker := by
    rintro i e limit _ limits _
    cases limits
    exact .inl ⟨_, .answered rfl (.seconds rfl (by decide +kernel))⟩
  obtain ⟨k, _, least, _⟩ := run_follows_reference limitedOnce steady {} limitedOnce_aware surfaces
    fun _ i e outcome => (limitedOnce_handled outcome).accepted
  exact ⟨k, least⟩

end Relprim
