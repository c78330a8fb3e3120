import Relprim.OperationReference

/-!
The grammar of the event stream of a run, and when a run follows it: always,
except when `float()` of an extractor's answer raises what nothing catches, or when
a `CircuitBreakerOpenError` carries an infinity or NaN into its event.
-/
namespace Relprim
open Interruptible Dictionary

structure Mark where
  type : EventType
  attempt : Option JsonScalar := none
  next : Option JsonScalar := none
  deriving DecidableEq

def mark (ev : Published) : Mark where
  type := ev.1
  attempt := ev.2.lookup "attempt_number"
  next := ev.2.lookup "next_attempt_number"

def Mark.about (type : EventType) (i : ℕ) : Mark := { type, attempt := some (.int i) }

def Mark.retry (i : ℕ) : Mark :=
  { Mark.about .retryScheduled i with next := some (.int (i + 1 : ℕ)) }

/-! The grammar. -/

/-- A rate limit, whose wait may exceed the maximum in the last attempt only. -/
inductive LimitStream (i : ℕ) (last : Bool) : List Mark → Prop where
  | unseen : LimitStream i last []
  | detected : LimitStream i last [.about .rateLimitDetected i]
  | exceeded (final : last = true) :
      LimitStream i last [.about .rateLimitDetected i, .about .rateLimitWaitExceeded i]

inductive CauseStream (i : ℕ) : List Mark → Prop where
  | other : CauseStream i []
  | validation : CauseStream i [.about .validationFailed i]
  | breaker : CauseStream i [.about .circuitBreakerRejected i]

inductive ValidStream (i : ℕ) : List Mark → Prop where
  | unchecked : ValidStream i []
  | succeeded : ValidStream i [.about .validationSucceeded i]

inductive FailureStream (i : ℕ) (last : Bool) : List Mark → Prop where
  | intro {limit cause : List Mark} (limited : LimitStream i last limit)
      (caused : CauseStream i cause) : FailureStream i last
        (.about .attemptStarted i :: (limit ++ (cause ++ [.about .attemptFailed i])))

inductive FallbackStream (i : ℕ) : List Mark → Prop where
  | succeeded (rejected : ℕ) {valid : List Mark} (checked : ValidStream i valid) :
      FallbackStream i (List.replicate rejected (.about .validationFailed i) ++ (valid ++
        [.about .fallbackSucceeded i, .about .attemptSucceeded i, { type := .operationSucceeded }]))
  | failed (rejected : ℕ) :
      FallbackStream i (List.replicate rejected (.about .validationFailed i) ++
        [.about .fallbackFailed i, .about .attemptFailed i, { type := .operationFailed }])

inductive AttemptStream : ℕ → List Mark → Prop where
  | succeeded {i : ℕ} {valid : List Mark} (checked : ValidStream i valid) :
      AttemptStream i (.about .attemptStarted i ::
        (valid ++ [.about .attemptSucceeded i, { type := .operationSucceeded }]))
  | retried {i : ℕ} {failure rest : List Mark} (failed : FailureStream i false failure)
      (later : AttemptStream (i + 1) rest) : AttemptStream i (failure ++ .retry i :: rest)
  | failed {i : ℕ} {failure : List Mark} (failed : FailureStream i true failure) :
      AttemptStream i (failure ++ [{ type := .operationFailed }])
  | fellBack {i : ℕ} {failure rest : List Mark} (failed : FailureStream i true failure)
      (later : FallbackStream (i + 1) rest) :
      AttemptStream i (failure ++ .about .fallbackStarted (i + 1) :: rest)

inductive EventStream : List Mark → Prop where
  | started {rest : List Mark} (attempts : AttemptStream 1 rest) :
      EventStream ({ type := .operationStarted } :: rest)

def Concluded (ms : List Mark) : Prop :=
  ∃ front, ms = front ++ [{ type := .operationSucceeded }] ∨
    ms = front ++ [{ type := .operationFailed }]

theorem concluded_append {ms : List Mark} (h : Concluded ms) (front : List Mark) :
    Concluded (front ++ ms) := by
  obtain ⟨before, last⟩ := h
  refine ⟨front ++ before, ?_⟩
  rcases last with rfl | rfl
  · exact .inl (List.append_assoc _ _ _).symm
  · exact .inr (List.append_assoc _ _ _).symm

theorem concluded_fallback {i : ℕ} {ms : List Mark} (h : FallbackStream i ms) : Concluded ms := by
  cases h with
  | succeeded rejected checked =>
    exact concluded_append (concluded_append ⟨[_, _], .inl rfl⟩ _) _
  | failed rejected => exact concluded_append ⟨[_, _], .inr rfl⟩ _

theorem concluded_attempts {i : ℕ} {ms : List Mark} (h : AttemptStream i ms) : Concluded ms := by
  induction h with
  | succeeded checked => exact concluded_append ⟨[_], .inl rfl⟩ (_ :: _)
  | retried failed later ih => exact concluded_append (concluded_append ih [_]) _
  | failed failed => exact concluded_append ⟨[], .inr rfl⟩ _
  | fellBack failed later =>
    exact concluded_append (concluded_append (concluded_fallback later) [_]) _

theorem concluded_stream {ms : List Mark} (h : EventStream ms) : Concluded ms := by
  cases h with
  | started attempts => exact concluded_append (concluded_attempts attempts) [_]

/-- No stream stops at an event about an attempt. -/
theorem stopped_not_stream {i : ℕ} {ms : List Mark} (nonempty : ms ≠ [])
    (about : ∀ m ∈ ms, m.attempt = some (.int i)) (front : List Mark) :
    ¬ EventStream (front ++ ms) := by
  intro stream
  have ends : ((front ++ ms).getLast (by simp [nonempty])).attempt = none := by
    obtain ⟨before, last | last⟩ := concluded_stream stream <;> simp [last]
  rw [List.getLast_append_of_ne_nil _ nonempty, about _ (List.getLast_mem nonempty)] at ends
  cases ends

/-! The marks of the items. -/

def marks (items : List Item) : List Mark := (emissions items).map mark

@[simp] theorem marks_append (items jtems : List Item) :
    marks (items ++ jtems) = marks items ++ marks jtems := by
  simp [marks, emissions_append]

namespace AsyncOperation
variable {V : Type} {op : AsyncOperation V} {env : Environment}

theorem marks_attempt (i : ℕ) (b : BreakerState) :
    marks (op.attemptItems env i b) = [.about .attemptStarted i] := by
  simp [marks, attemptItems, mark, Mark.about, attemptStartedPayload, lookup_ofPairs, List.lookup_cons]

theorem marks_rateLimit (i : ℕ) (e : Exc) {plan : RetryPlan} {last : Bool}
    (final : plan.maxWaitExceeded = true → last = true) :
    LimitStream i last (marks (op.rateLimitItems i e plan)) := by
  have detected : mark (.rateLimitDetected, op.rateLimitDetectedPayload i e plan) =
      .about .rateLimitDetected i := by
    simp [mark, Mark.about, rateLimitDetectedPayload, lookup_ofPairs, List.lookup_cons]
  have exceeded : mark (.rateLimitWaitExceeded, op.rateLimitWaitExceededPayload i plan) =
      .about .rateLimitWaitExceeded i := by
    simp [mark, Mark.about, rateLimitWaitExceededPayload, lookup_ofPairs, List.lookup_cons]
  unfold rateLimitItems waitExceededItems
  cases limited : plan.rateLimited with
  | false => exact .unseen
  | true =>
    cases refused : plan.maxWaitExceeded with
    | false =>
      simp only [if_true, Bool.false_eq_true, if_false, marks, emissions_emit, emissions_nil,
        List.map_cons, List.map_nil, detected]
      exact .detected
    | true =>
      simp only [if_true, marks, emissions_emit, emissions_nil, List.map_cons, List.map_nil,
        detected, exceeded]
      exact .exceeded (final refused)

theorem mark_validationFailed (i : ℕ) (failed : ValidationFields) :
    mark (.validationFailed, validationFailedPayload i failed) = .about .validationFailed i := by
  simp [mark, Mark.about, validationFailedPayload, lookup_ofPairs, List.lookup_cons]

theorem marks_cause (i : ℕ) {e : Exc}
    (separate : e.fields.validation = none ∨ e.fields.breaker = none) :
    CauseStream i (marks (validationFailedItems i e) ++ marks (breakerItems i e)) := by
  have breaker (rejected : BreakerFields) :
      mark (.circuitBreakerRejected, circuitBreakerRejectedPayload i rejected) =
        .about .circuitBreakerRejected i := by
    simp [mark, Mark.about, circuitBreakerRejectedPayload, lookup_ofPairs, List.lookup_cons]
  unfold validationFailedItems breakerItems
  cases validated : e.fields.validation with
  | none =>
    cases rejected : e.fields.breaker with
    | none => exact .other
    | some rejected =>
      simp only [marks, emissions_emit, emissions_nil, List.map_cons, List.map_nil, breaker,
        List.nil_append]
      exact .breaker
  | some failed =>
    cases rejected : e.fields.breaker with
    | none =>
      simp only [marks, emissions_emit, emissions_nil, List.map_cons, List.map_nil,
        mark_validationFailed, List.append_nil]
      exact .validation
    | some rejected' =>
      rw [validated, rejected] at separate
      rcases separate with impossible | impossible <;> cases impossible

theorem mark_attemptFailed (i : ℕ) (d : ℚ) (e : Exc) (retryable : Bool) {m : Metadata}
    (disjoint : ∀ k ∈ eventKeys, m.lookup k = none) :
    mark (.attemptFailed, attemptFailedPayload i d e retryable m) = .about .attemptFailed i := by
  obtain ⟨next, number, _, _, _⟩ := disjoint_iff.mp disjoint
  simp [mark, Mark.about, attemptFailedPayload, lookup_update, lookup_ofPairs, List.lookup_cons, next,
    number]

theorem mark_succeeded (type : EventType) (i : ℕ) (d : ℚ) {m : Metadata}
    (disjoint : ∀ k ∈ eventKeys, m.lookup k = none) :
    mark (type, succeededPayload i d m) = .about type i := by
  obtain ⟨next, number, _, _, _⟩ := disjoint_iff.mp disjoint
  simp [mark, Mark.about, succeededPayload, lookup_update, lookup_ofPairs, List.lookup_cons, next,
    number]

theorem marks_failure (i : ℕ) (b : BreakerState) (d : ℚ) {e : Exc} {plan : RetryPlan} {last : Bool}
    (final : plan.maxWaitExceeded = true → last = true)
    (separate : e.fields.validation = none ∨ e.fields.breaker = none) :
    FailureStream i last
      (marks (op.attemptItems env i b) ++ marks (op.failureItems i d e plan)) := by
  have failed : marks [.emit .attemptFailed
      (attemptFailedPayload i d e plan.retryable (primaryFailureMetadata e plan))] =
      [.about .attemptFailed i] := by
    simp only [marks, emissions_emit, emissions_nil, List.map_cons, List.map_nil,
      mark_attemptFailed i d e plan.retryable (disjoint_primaryFailure e plan)]
  rw [marks_attempt, failureItems, marks_append, marks_append, marks_append, failed,
    ← List.append_assoc (marks (validationFailedItems i e))]
  exact .intro (marks_rateLimit i e final) (marks_cause i separate)

theorem marks_sleep (i : ℕ) (plan : RetryPlan) (d : PyNumber) :
    marks (sleepItems i plan d) = [.retry i] := by
  simp [marks, sleepItems, mark, Mark.about, Mark.retry, retryScheduledPayload, lookup_ofPairs,
    List.lookup_cons]

theorem marks_valid (i : ℕ) (m : Metadata) {payload : EventPayload}
    (about : mark (.validationSucceeded, payload) = .about .validationSucceeded i) :
    ValidStream i (marks (validationSucceededItems m payload)) := by
  unfold validationSucceededItems
  split
  · simp only [marks, emissions_emit, emissions_nil, List.map_cons, List.map_nil, about]
    exact .succeeded
  · exact .unchecked

theorem marks_success (i : ℕ) (d : ℚ) {m : Metadata}
    (disjoint : ∀ k ∈ eventKeys, m.lookup k = none) :
    ∃ valid, ValidStream i valid ∧
      marks (successItems i d m) = valid ++ [.about .attemptSucceeded i] := by
  have about : mark (.validationSucceeded, validationSucceededPayload i m) =
      .about .validationSucceeded i := by
    simp [mark, Mark.about, validationSucceededPayload, lookup_ofPairs, List.lookup_cons]
  refine ⟨_, marks_valid i m about, ?_⟩
  simp [successItems, marks, emissions_append,
    mark_succeeded .attemptSucceeded i d (disjoint_primarySuccess disjoint)]

theorem mark_fallbackValidation (i : ℕ) (failed : ValidationFields) (name : Option String) :
    mark (.validationFailed, fallbackValidationFailedPayload i failed name) =
      .about .validationFailed i := by
  simp [mark, Mark.about, fallbackValidationFailedPayload, lookup_ofPairs, List.lookup_cons]

theorem marks_candidateValidation (i : ℕ)
    (pairs : List (FallbackCandidate (Except Exc V) × Exc)) :
    ∃ n, marks (candidateValidationItems i pairs) =
      List.replicate n (.about .validationFailed i) := by
  induction pairs with
  | nil => exact ⟨0, rfl⟩
  | cons pair rest ih =>
    obtain ⟨candidate, failure⟩ := pair
    obtain ⟨n, replicated⟩ := ih
    unfold candidateValidationItems
    rw [marks_append, replicated]
    cases failure.fields.validation with
    | none => exact ⟨n, rfl⟩
    | some failed =>
      refine ⟨n + 1, ?_⟩
      simp [marks, mark_fallbackValidation, List.replicate_succ]

theorem marks_chainValidation (chain : FallbackChain (Except Exc V)) (i : ℕ) (e : Exc) :
    ∃ n, marks (chainValidationItems chain i e) =
      List.replicate n (.about .validationFailed i) := by
  unfold chainValidationItems
  split
  · exact marks_candidateValidation i _
  · exact ⟨1, by simp [marks, mark_fallbackValidation]⟩
  · exact ⟨0, rfl⟩

theorem marks_fallback (chain : FallbackChain (Except Exc V)) (i n : ℕ) :
    marks (op.fallbackItems chain i n) = [.about .fallbackStarted i] := by
  simp [marks, fallbackItems, mark, Mark.about, fallbackStartedPayload, lookup_ofPairs, List.lookup_cons]

theorem mark_fallbackFailed (i : ℕ) (d : ℚ) (e : Exc) {m : Metadata}
    (disjoint : ∀ k ∈ eventKeys, m.lookup k = none) :
    mark (.fallbackFailed, fallbackFailedPayload i d e m) = .about .fallbackFailed i := by
  obtain ⟨next, number, _, _, _⟩ := disjoint_iff.mp disjoint
  simp [mark, Mark.about, fallbackFailedPayload, lookup_update, lookup_ofPairs, List.lookup_cons, next,
    number]

theorem disjoint_report (op : AsyncOperation V) (at_ : DateTime) (total : ℚ)
    (status : ExecutionStatus) (p : Progress) {m : Metadata}
    (disjoint : ∀ k ∈ eventKeys, m.lookup k = none) :
    (op.reportDraft at_ total status p m).metadata.lookup "attempt_number" = none ∧
      (op.reportDraft at_ total status p m).metadata.lookup "next_attempt_number" = none := by
  obtain ⟨next, number, _, _, _⟩ := disjoint_iff.mp disjoint
  simp [summary_lookup, rateLimitSummaryMetadata, lookup_ofPairs, List.lookup_cons, next, number]

theorem marks_operationSucceeded {report : ExecutionReport} {at_ : DateTime} {total : ℚ}
    {status : ExecutionStatus} {p : Progress} {m : Metadata}
    (reported : report = op.reportDraft at_ total status p m)
    (disjoint : ∀ k ∈ eventKeys, m.lookup k = none) :
    marks [.emit .operationSucceeded (operationSucceededPayload report)] =
      [{ type := .operationSucceeded }] := by
  have absent := disjoint_report op at_ total status p disjoint
  simp [reported, marks, mark, operationSucceededPayload, lookup_update, lookup_ofPairs,
    List.lookup_cons, absent]

theorem marks_operationFailed {report : ExecutionReport} {at_ : DateTime} {total : ℚ}
    {status : ExecutionStatus} {p : Progress} {m : Metadata}
    (reported : report = op.reportDraft at_ total status p m)
    (disjoint : ∀ k ∈ eventKeys, m.lookup k = none) (e : Exc) :
    marks [.emit .operationFailed (operationFailedPayload report e)] =
      [{ type := .operationFailed }] := by
  have absent := disjoint_report op at_ total status p disjoint
  simp [reported, marks, mark, operationFailedPayload, lookup_update, lookup_ofPairs,
    List.lookup_cons, absent]

/-! A whole run. -/

/-- No failure of an attempt, as it is reported, is both a ValidationFailedError and a
    CircuitBreakerOpenError. -/
def Separate (op : AsyncOperation V) (env : Environment) (b : BreakerState) : Prop :=
  ∀ i e, (op.attemptAt env b i).outcome = .error e →
    (op.reportedFailure i e).fields.validation = none ∨
      (op.reportedFailure i e).fields.breaker = none

/-- Attempt `i` is made: all attempts before it are retried, and their events can be made. -/
def Reaches (op : AsyncOperation V) (env : Environment) (b : BreakerState) (i : ℕ) : Prop :=
  1 ≤ i ∧ ∀ j, 1 ≤ j → j < i → j < op.maxAttempts ∧
    ∃ e d, (op.attemptAt env b j).outcome = .error e ∧ op.RetriedAfter env j e d ∧
      op.refuses e = false

theorem planned_separate {b : BreakerState} {i : ℕ} {e e' : Exc} {plan : RetryPlan}
    (separate : Separate op env b) (outcome : (op.attemptAt env b i).outcome = .error e)
    (h : op.Planned env i e e' plan) : e'.fields.validation = none ∨ e'.fields.breaker = none := by
  rw [op.planned_reported env h]
  exact separate i e outcome

theorem planned_exceeded {i : ℕ} {e e' : Exc} {plan : RetryPlan} (h : op.Planned env i e e' plan)
    (exceeded : plan.maxWaitExceeded = true) : plan.willRetry = false := by
  cases h with
  | exceeded => rfl
  | waited => cases exceeded
  | retried => cases exceeded
  | _ => rfl

theorem closes_stream {started : Started} {i : ℕ} (pos : 1 ≤ i) {b b' : BreakerState}
    (state : b' = op.breakerAfter env b (i - 1)) (separate : Separate op env b) {p : Progress}
    (count : p.attempts.length + 1 = i)
    (handled : ∀ e, (op.attemptAt env b i).outcome = .error e → op.Handled i e)
    {r : Except Raised (OperationResult V)} {items : List Item}
    (closes : op.Closes env started i b' p r items) :
    AttemptStream i (marks (op.attemptItems env i b') ++ marks items) := by
  subst state
  have failing {e : Exc} {plan : RetryPlan} (d : ℚ)
      (verdict : op.verdict env i (op.breakerAfter env b (i - 1)) = .failure e plan) :
      FailureStream i true (marks (op.attemptItems env i (op.breakerAfter env b (i - 1))) ++
        marks (op.failureItems i d e plan)) := by
    obtain ⟨e, outcome, planned⟩ := verdict_failure pos verdict
    exact marks_failure i _ d (fun _ => rfl) (planned_separate separate outcome planned)
  have next (at_ : DateTime) (d : ℚ) (e : Exc) (plan : RetryPlan) {k : ℕ}
      (numbered : k = (p.failed i at_ d e plan).attempts.length + 1) : k = i + 1 := by
    rw [numbered, failed_attempts, List.length_append, List.length_singleton, count]
  cases closes with
  | @succeeded v m verdict at_ duration total report reported =>
    have disjoint := disjoint_checked (attempt_checked (verdict_value verdict))
    obtain ⟨valid, checked, success⟩ := marks_success i duration disjoint
    rw [marks_attempt, marks_append, success,
      marks_operationSucceeded reported (disjoint_primarySuccess disjoint), List.append_assoc]
    exact .succeeded checked
  | @failed e plan verdict final unmatched at_ duration total message report reported =>
    rw [marks_append, marks_operationFailed reported (disjoint_primaryFailure e plan) e,
      ← List.append_assoc]
    exact .failed (failing duration verdict)
  | @fellBack e plan verdict final chain matched result out k at_ duration numbered at_' duration'
      total report reported =>
    obtain ⟨_, _, checked⟩ := chainFrom_checked out
    have disjoint := disjoint_fallbackSuccess result (disjoint_checked checked)
    have about : mark (.validationSucceeded,
        fallbackValidationSucceededPayload k result.value.2 result.candidateName) =
        .about .validationSucceeded k := by
      simp [mark, Mark.about, fallbackValidationSucceededPayload, lookup_ofPairs, List.lookup_cons]
    have successes : marks [
        .emit .fallbackSucceeded
          (succeededPayload k duration' (fallbackSuccessMetadata result result.value.2)),
        .emit .attemptSucceeded
          (succeededPayload k duration' (fallbackSuccessMetadata result result.value.2))] =
        [.about .fallbackSucceeded k, .about .attemptSucceeded k] := by
      simp [marks, mark_succeeded _ k duration' disjoint]
    obtain ⟨n, rejected⟩ := marks_candidateValidation k (chain.candidates.zip result.failures)
    rw [marks_append, marks_append, marks_append, marks_fallback, fallbackSuccessItems,
      marks_append, marks_append, rejected, successes, marks_operationSucceeded reported disjoint,
      ← List.append_assoc]
    have later := FallbackStream.succeeded n (marks_valid k result.value.2 about)
    have here := next at_ duration e plan numbered
    subst here
    simpa using AttemptStream.fellBack (failing duration verdict) later
  | @fallbackFailed e plan verdict final chain matched x out k at_ duration numbered at_' duration'
      total message report reported =>
    have disjoint := disjoint_fallbackFailure x
    have failures : marks [
        .emit .fallbackFailed (fallbackFailedPayload k duration' x (fallbackFailureMetadata x)),
        .emit .attemptFailed
          (attemptFailedPayload k duration' x false (fallbackFailureMetadata x))] =
        [.about .fallbackFailed k, .about .attemptFailed k] := by
      simp [marks, mark_fallbackFailed k duration' x disjoint,
        mark_attemptFailed k duration' x false disjoint]
    obtain ⟨n, rejected⟩ := marks_chainValidation chain k x
    rw [marks_append, marks_append, marks_append, marks_fallback, fallbackFailureItems,
      marks_append, rejected, failures, marks_operationFailed reported disjoint x,
      ← List.append_assoc]
    have here := next at_ duration e plan numbered
    subst here
    simpa using AttemptStream.fellBack (failing duration verdict) (.failed n)
  | refused verdict => exact absurd verdict (handled_not_refused pos handled _ _)
  | escaped verdict => exact absurd verdict (handled_not_escape pos handled _)

theorem reaches_next {b : BreakerState} {i : ℕ} (h : Reaches op env b i) (left : i < op.maxAttempts)
    {e : Exc} {d : PyNumber} (outcome : (op.attemptAt env b i).outcome = .error e)
    (retried : op.RetriedAfter env i e d) (accepted : op.refuses e = false) :
    Reaches op env b (i + 1) := by
  refine ⟨Nat.le_add_left 1 i, fun j pos below => ?_⟩
  by_cases here : j = i
  · subst here
    exact ⟨left, e, d, outcome, retried, accepted⟩
  · exact h.2 j pos (by omega)

theorem retried_reported {i : ℕ} {e : Exc} {d : PyNumber} (h : op.RetriedAfter env i e d) :
    op.reportedFailure i e = e := by
  cases h with
  | limited configured limits matched hinted selected within =>
    simp [reportedFailure, op.decision_matched limits matched,
      RateLimitPolicy.hint_ok_iff.mpr hinted, Except.map]
  | unlimited configured unlimited matched delay =>
    simp [reportedFailure, op.decision_unmatched i unlimited]

theorem retried_handled {i : ℕ} {e : Exc} {d : PyNumber} (h : op.RetriedAfter env i e d)
    (accepted : op.refuses e = false) : op.Handled i e := by
  constructor
  · rintro x ⟨⟨limit, configured, matched, raises⟩, _⟩
    cases h with
    | limited _ limits _ hinted _ _ =>
      rw [configured] at limits
      cases limits
      have read := RateLimitPolicy.hint_ok_iff.mpr hinted
      rw [RateLimitPolicy.hint_raises raises] at read
      cases read
    | unlimited _ unlimited _ _ =>
      rw [unlimited limit configured] at matched
      cases matched
  · rw [retried_reported h]
    exact accepted

theorem retries_reaches {i : ℕ} {b : BreakerState} (h : Reaches op env b i) {p q : Progress}
    {d : PyNumber} {items : List Item}
    (retries : op.Retries env i (op.breakerAfter env b (i - 1)) p d q items) :
    Reaches op env b (i + 1) := by
  cases retries with
  | intro verdict again delay left at_ duration =>
    obtain ⟨e, outcome, planned⟩ := verdict_failure h.1 verdict
    have retried := op.planned_retried env planned again delay
    have same := op.planned_reported env planned
    rw [retried_reported retried] at same
    subst same
    exact reaches_next h left outcome retried (verdict_accepted h.1 verdict)

theorem transcript_stream {started : Started} {i : ℕ} {b b' : BreakerState}
    (reached : Reaches op env b i) (state : b' = op.breakerAfter env b (i - 1))
    (separate : Separate op env b)
    (handled : ∀ j e, Reaches op env b j → (op.attemptAt env b j).outcome = .error e →
      op.Handled j e) {p : Progress} {t : Tally} (looping : Looping i p t)
    {r : Except Raised (OperationResult V)} {items : List Item}
    (run : op.Transcript env started i b' p r items) : AttemptStream i (marks items) := by
  induction run generalizing t with
  | @closes i b' p r items closes =>
    rw [marks_append]
    exact closes_stream reached.1 state separate looping.count (fun e => handled i e reached) closes
  | @retries i b' p q d r items rest retries run ih =>
    subst state
    have later := ih (retries_reaches reached retries) (breakerAfter_succ reached.1 b)
      (looping_retries looping retries)
    obtain ⟨verdict, again, _, _, at_, duration⟩ := retries
    obtain ⟨e, outcome, planned⟩ := verdict_failure reached.1 verdict
    have within (exceeded : _) := (planned_exceeded planned exceeded).symm.trans again
    rw [marks_append, marks_append, marks_append, marks_sleep, List.append_assoc,
      List.singleton_append, ← List.append_assoc]
    exact .retried (marks_failure i _ duration within
      (planned_separate separate outcome planned)) later

theorem transcript_reaches {started : Started} {i m : ℕ} {b b' : BreakerState} (le : i ≤ m)
    (pos : 1 ≤ i) (state : b' = op.breakerAfter env b (i - 1)) (reached : Reaches op env b m)
    {p : Progress} {t : Tally} (looping : Looping i p t)
    {r : Except Raised (OperationResult V)} {items : List Item}
    (run : op.Transcript env started i b' p r items) :
    ∃ front rest q u, items = front ++ rest ∧ Looping m q u ∧
      op.Transcript env started m (op.breakerAfter env b (m - 1)) q r rest := by
  induction run generalizing t with
  | @closes i b' p r items closes =>
    subst state
    by_cases here : i = m
    · subst here
      exact ⟨[], _, p, t, rfl, looping, .closes closes⟩
    · obtain ⟨left, e, d, outcome', retried, accepted⟩ := reached.2 i pos (by omega)
      have handled : ∀ y, (op.attemptAt env b i).outcome = .error y → op.Handled i y := by
        intro y same
        rw [outcome'] at same
        cases same
        exact retried_handled retried accepted
      exact absurd (closes_stops pos left.le handled closes)
        (retried_not_stops left outcome' retried)
  | @retries i b' p q d r items rest retries run ih =>
    subst state
    by_cases here : i = m
    · subst here
      exact ⟨[], _, p, t, rfl, looping, .retries retries run⟩
    · obtain ⟨front, later, q', u, split, looping', run'⟩ := ih (by omega) (Nat.le_add_left 1 i)
        (breakerAfter_succ pos b) (looping_retries looping retries)
      refine ⟨op.attemptItems env i (op.breakerAfter env b (i - 1)) ++ (items ++ front), later, q', u,
        ?_, looping', run'⟩
      rw [split, List.append_assoc, List.append_assoc]

theorem limitStream_about {i : ℕ} {last : Bool} {ms : List Mark} (h : LimitStream i last ms) :
    ∀ m ∈ ms, m.attempt = some (.int i) := by
  cases h <;> simp [Mark.about]

theorem validationFailed_about {i : ℕ} {e : Exc} {m : Mark}
    (h : m ∈ marks (validationFailedItems i e)) : m.attempt = some (.int i) := by
  unfold validationFailedItems at h
  cases validated : e.fields.validation with
  | none => simp [validated, marks] at h
  | some failed =>
    simp only [validated, marks, emissions_emit, emissions_nil, List.map_cons, List.map_nil,
      mark_validationFailed, List.mem_singleton] at h
    rw [h]
    rfl

/-- An attempt whose failure is not handled has the last events of the run. -/
theorem transcript_stopped {started : Started} {i : ℕ} {b : BreakerState} (pos : 1 ≤ i) {e : Exc}
    (outcome : (op.attemptAt env b i).outcome = .error e) (unhandled : ¬ op.Handled i e)
    {p : Progress} {r : Except Raised (OperationResult V)} {items : List Item}
    (run : op.Transcript env started i (op.breakerAfter env b (i - 1)) p r items) :
    marks items ≠ [] ∧ ∀ m ∈ marks items, m.attempt = some (.int i) := by
  by_cases escapes : ∃ x, op.Escapes i e x
  · obtain ⟨x, escapes⟩ := escapes
    obtain ⟨_, stopped⟩ := transcript_escape (verdict_escapes outcome escapes) run
    rw [stopped, marks_attempt]
    exact ⟨by simp, by simp [Mark.about]⟩
  · have planned : ∀ x, ¬ op.Escapes i e x := fun x here => escapes ⟨x, here⟩
    have refused : op.refuses (op.reportedFailure i e) = true := by
      by_contra accepted
      exact unhandled ⟨planned, by simpa using accepted⟩
    obtain ⟨plan, stops⟩ := verdict_refuses pos outcome planned refused
    obtain ⟨_, stopped⟩ := transcript_refused stops run
    have limited : LimitStream i true (marks (op.rateLimitItems i (op.reportedFailure i e) plan)) :=
      marks_rateLimit i _ fun _ => rfl
    rw [stopped, marks_append, marks_append, marks_attempt]
    refine ⟨by simp, ?_⟩
    intro m member
    rcases List.mem_append.mp member with started | later
    · rw [List.mem_singleton.mp started]
      rfl
    · rcases List.mem_append.mp later with about | about
      · exact limitStream_about limited m about
      · exact validationFailed_about about

end AsyncOperation

/-- The events that every sink receives in an uninterrupted run follow the grammar, if and
    only if `float()` of no extractor's answer raises what nothing catches, and no infinity or
    NaN has to be written into the event about a rejection, in an attempt that is made. -/
theorem event_stream_iff {V : Type} (op : AsyncOperation V) (env : Environment) (s : Session)
    (aware : AwareTimestamps op) (watched : 0 < op.sinkCount)
    (separate : op.Separate env s.breaker) :
    (∀ j < op.sinkCount, EventStream ((op.published env s j).map mark)) ↔
      ∀ i e, op.Reaches env s.breaker i → (op.attemptAt env s.breaker i).outcome = .error e →
        op.Handled i e := by
  obtain ⟨started, rest, run, expands⟩ := AsyncOperation.run_transcript aware env s
  have begun : mark (.operationStarted, op.operationStartedPayload) =
      { type := .operationStarted } := by
    simp [mark, AsyncOperation.operationStartedPayload, lookup_ofPairs, List.lookup_cons]
  have published (j : ℕ) (sink : j < op.sinkCount) : (op.published env s j).map mark =
      { type := .operationStarted } :: marks rest := by
    rw [AsyncOperation.published, expands_delivered expands sink, AsyncOperation.runItems,
      emissions_emit, List.map_cons, begun]
    rfl
  constructor
  · intro streams i e reached outcome
    by_contra unhandled
    obtain ⟨front, later, q, u, split, _, run'⟩ := AsyncOperation.transcript_reaches reached.1
      (Nat.le_refl 1) rfl reached (looping_start op.operationStartedPayload) run
    obtain ⟨nonempty, about⟩ :=
      AsyncOperation.transcript_stopped reached.1 outcome unhandled run'
    have stream := streams 0 watched
    rw [published 0 watched, split, marks_append, ← List.cons_append] at stream
    exact stopped_not_stream nonempty about _ stream
  · intro handled j sink
    have first : op.Reaches env s.breaker 1 := ⟨Nat.le_refl 1, fun j pos below => by omega⟩
    rw [published j sink]
    exact .started (AsyncOperation.transcript_stream first rfl separate handled
      (looping_start op.operationStartedPayload) run)

theorem limitedOnce_event_stream : EventStream ((limitedOnce.published steady {} 0).map mark) := by
  have separate : limitedOnce.Separate steady ({} : Session).breaker := by
    intro i e outcome
    rw [limitedOnce_reported outcome]
    exact .inl rfl
  exact (event_stream_iff limitedOnce steady {} limitedOnce_aware (by decide) separate).mpr
    (fun i e _ outcome => limitedOnce_handled outcome) 0 (by decide)

def oversizedHint : AsyncOperation ℕ := { observed with
  operation := fun _ => { outcome := .error (runtimeError "429") }
  rateLimitPolicy := some (provider (.scalar (.int (.ofNat floatLimit)))) }

theorem oversizedHint_truncates_stream :
    (oversizedHint.published steady {} 0).map mark =
        [{ type := .operationStarted }, .about .attemptStarted 1] ∧
      ¬ EventStream ((oversizedHint.published steady {} 0).map mark) := by
  have published : (oversizedHint.published steady {} 0).map mark =
      [{ type := .operationStarted }, .about .attemptStarted 1] := by decide +kernel
  refine ⟨published, ?_⟩
  rw [published]
  have about : ∀ m ∈ [Mark.about .attemptStarted 1], m.attempt = some (.int (1 : ℕ)) := by decide
  exact stopped_not_stream (by simp) about [_]

/-- An operation that raises a `CircuitBreakerOpenError` of its own, without an end. -/
def endlessRejection : AsyncOperation ℕ := { observed with
  operation := fun _ => {
    outcome := .error (circuitBreakerOpenError "open" "api" .opened (some (.inf false))) } }

example : (endlessRejection.published steady {} 0).map mark =
    [{ type := .operationStarted }, .about .attemptStarted 1] := by decide +kernel

end Relprim
