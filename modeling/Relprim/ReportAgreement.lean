import Mathlib.Algebra.BigOperators.Group.List.Basic
import Relprim.OperationTranscript

/-!
The report and the events of a run are built separately; here they are compared.
The locals of the loop track the events that were emitted so far, and each exit
builds its report from them.
-/
namespace Relprim
open Interruptible Dictionary

abbrev Published := EventType × EventPayload

/-- What the sink at position `j` has received in an uninterrupted run. -/
def AsyncOperation.published {V : Type} (op : AsyncOperation V) (env : Environment) (s : Session)
    (j : ℕ) : List Published :=
  (delivered j (op.trace env none s)).map fun ev => (ev.eventType, ev.payload)

/-- The report that is returned, or attached to an OperationExecutionError. -/
def reportOf {V : Type} : Except Raised (OperationResult V) → Option ExecutionReport
  | .ok result => some result.report
  | .error (.exception e) => e.fields.execution.map Prod.fst
  | .error _ => none

/-! What consumers read off the events. -/

def attemptEvents (events : List Published) : List Published :=
  events.filter fun ev => ev.1 = .attemptSucceeded ∨ ev.1 = .attemptFailed

def scheduled (events : List Published) : List Published :=
  events.filter fun ev => ev.1 = .retryScheduled

def JsonScalar.number : JsonScalar → ℚ
  | .int n => n
  | .float (.finite q) => q
  | _ => 0

/-- The sum of `delay_seconds` over the retries that were rate-limited. -/
def limitedWait (retries : List Published) : ℚ :=
  ((retries.filter fun ev => ev.2.lookup "rate_limited" = some (.bool true)).map
    fun ev => ((ev.2.lookup "delay_seconds").getD .none).number).sum

def detected (events : List Published) : Bool := events.any fun ev => ev.1 = .rateLimitDetected

def waitExceeded (events : List Published) : Bool :=
  events.any fun ev => ev.1 = .rateLimitWaitExceeded

def attemptKeys : List String := ["attempt_number", "duration_seconds", "error_type", "retryable"]

def eventKeys : List String := "next_attempt_number" :: attemptKeys

/-- An event tells of an attempt: number, duration, success and metadata are equal. -/
structure Describes (ev : Published) (a : ExecutionAttempt) : Prop where
  type : ev.1 = if a.succeeded then .attemptSucceeded else .attemptFailed
  number : ev.2.lookup "attempt_number" = some (.int a.attemptNumber)
  duration : ev.2.lookup "duration_seconds" = some (.seconds a.durationSeconds)
  metadata : ∀ k, k ∉ attemptKeys → ev.2.lookup k = a.metadata.lookup k
  disjoint : ∀ k ∈ attemptKeys, a.metadata.lookup k = none

def summaryKeys : List String :=
  ["rate_limit_encountered", "rate_limit_wait_seconds", "rate_limit_wait_exceeded"]

/-- Only the last attempt may have succeeded or be the fallback's, and it gives the report
    its status and its metadata. -/
structure Sound (report : ExecutionReport) : Prop where
  numbered : ∀ n a, report.attempts[n]? = some a → a.attemptNumber = ((n + 1 : ℕ) : ℤ)
  earlier : ∀ a ∈ report.attempts.dropLast,
    a.fallback = false ∧ a.succeeded = false ∧ a.error.isSome = true
  concluded : ∃ last, report.lastAttempt = some last ∧ report.status.value = last.status.value ∧
    ∀ k, k ∉ summaryKeys → report.metadata.lookup k = last.metadata.lookup k

structure Agrees (report : ExecutionReport) (events : List Published) : Prop where
  described : List.Forall₂ Describes (attemptEvents events) report.attempts
  retries : report.retryCount = (scheduled events).length
  encountered : report.metadata.lookup "rate_limit_encountered" = some (.bool (detected events))
  exceeded : report.metadata.lookup "rate_limit_wait_exceeded" =
    some (.bool (waitExceeded events))
  waited : report.metadata.lookup "rate_limit_wait_seconds" =
    some (.seconds (limitedWait (scheduled events)))

/-! The events of attempts. -/

namespace AsyncOperation
variable {V : Type} {op : AsyncOperation V} {env : Environment}

theorem disjoint_iff {m : Metadata} : (∀ k ∈ eventKeys, m.lookup k = none) ↔
    m.lookup "next_attempt_number" = none ∧ m.lookup "attempt_number" = none ∧
      m.lookup "duration_seconds" = none ∧ m.lookup "error_type" = none ∧
      m.lookup "retryable" = none := by
  simp [eventKeys, attemptKeys]

theorem describes_failed {a : ExecutionAttempt} (failed : a.succeeded = false) {i : ℕ}
    (number : a.attemptNumber = i) (disjoint : ∀ k ∈ eventKeys, a.metadata.lookup k = none)
    (e : Exc) (retryable : Bool) :
    Describes (.attemptFailed, attemptFailedPayload i a.durationSeconds e retryable a.metadata) a := by
  obtain ⟨_, first, second, _, _⟩ := disjoint_iff.mp disjoint
  constructor
  · simp [failed]
  · simp [attemptFailedPayload, lookup_update, lookup_ofPairs, first, number]
  · simp [attemptFailedPayload, lookup_update, lookup_ofPairs, second, List.lookup_cons]
  · intro k other
    have absent : (ofPairs [("attempt_number", JsonScalar.int i),
        ("duration_seconds", .seconds a.durationSeconds), ("error_type", .str e.type.name),
        ("retryable", .bool retryable)]).lookup k = none := by
      rw [lookup_ofPairs, List.lookup_eq_none_iff]
      simpa [attemptKeys] using other
    simp [attemptFailedPayload, lookup_update, absent]
  · exact fun k member => disjoint k (List.mem_cons_of_mem _ member)

theorem describes_succeeded {a : ExecutionAttempt} (succeeded : a.succeeded = true) {i : ℕ}
    (number : a.attemptNumber = i) (disjoint : ∀ k ∈ eventKeys, a.metadata.lookup k = none) :
    Describes (.attemptSucceeded, succeededPayload i a.durationSeconds a.metadata) a := by
  obtain ⟨_, first, second, _, _⟩ := disjoint_iff.mp disjoint
  constructor
  · simp [succeeded]
  · simp [succeededPayload, lookup_update, lookup_ofPairs, first, number]
  · simp [succeededPayload, lookup_update, lookup_ofPairs, second, List.lookup_cons]
  · intro k other
    have absent : (ofPairs [("attempt_number", JsonScalar.int i),
        ("duration_seconds", .seconds a.durationSeconds)]).lookup k = none := by
      rw [lookup_ofPairs, List.lookup_eq_none_iff]
      simp [attemptKeys] at other
      simp [other]
    simp [succeededPayload, lookup_update, absent]
  · exact fun k member => disjoint k (List.mem_cons_of_mem _ member)

theorem disjoint_checked {outcome : Except Exc V} {occasion : Occasion} {v : V} {m : Metadata}
    (h : op.checked outcome occasion = .ok (v, m)) : ∀ k ∈ eventKeys, m.lookup k = none := by
  rw [disjoint_iff]
  rcases op.checked_metadata h with rfl | ⟨result, rfl⟩
  · simp [noValidationMetadata, lookup_ofPairs, List.lookup_cons]
  · simp [validationSuccessMetadata, lookup_ofPairs, List.lookup_cons]

theorem disjoint_primarySuccess {m : Metadata} (h : ∀ k ∈ eventKeys, m.lookup k = none) :
    ∀ k ∈ eventKeys, (primarySuccessMetadata m).lookup k = none := by
  rw [disjoint_iff] at h ⊢
  simp [primarySuccessMetadata, baseMetadata, lookup_update, lookup_ofPairs, List.lookup_cons, h]

theorem disjoint_fallbackSuccess (result : FallbackResult (V × Metadata)) {m : Metadata}
    (h : ∀ k ∈ eventKeys, m.lookup k = none) :
    ∀ k ∈ eventKeys, (fallbackSuccessMetadata result m).lookup k = none := by
  rw [disjoint_iff] at h ⊢
  simp [fallbackSuccessMetadata, lookup_update, lookup_ofPairs, List.lookup_cons, h]

theorem disjoint_primaryFailure (e : Exc) (plan : RetryPlan) :
    ∀ k ∈ eventKeys, (primaryFailureMetadata e plan).lookup k = none := by
  rw [disjoint_iff]
  cases validated : e.fields.validation with
  | none =>
    simp [primaryFailureMetadata, validated, baseMetadata, noValidationMetadata, lookup_update,
      lookup_ofPairs, List.lookup_cons]
  | some failed =>
    simp [primaryFailureMetadata, validated, baseMetadata, noValidationMetadata,
      validationFailureMetadata, lookup_update, lookup_ofPairs, List.lookup_cons]

theorem disjoint_fallbackFailure (e : Exc) :
    ∀ k ∈ eventKeys, (fallbackFailureMetadata e).lookup k = none := by
  rw [disjoint_iff]
  unfold fallbackFailureMetadata
  simp only
  split
  · simp [validationFailureMetadata, lookup_update, lookup_ofPairs, List.lookup_cons]
  · simp [noValidationMetadata, lookup_update, lookup_ofPairs, List.lookup_cons]

end AsyncOperation

/-! What the items of a block add to what consumers read. -/

structure Tally where
  attempts : List Published := []
  retries : List Published := []
  detected : Bool := false
  exceeded : Bool := false

def Tally.plus (t u : Tally) : Tally where
  attempts := t.attempts ++ u.attempts
  retries := t.retries ++ u.retries
  detected := t.detected || u.detected
  exceeded := t.exceeded || u.exceeded

@[simp] theorem Tally.plus_none (t : Tally) : t.plus {} = t := by
  simp [plus]

@[simp] theorem Tally.none_plus (t : Tally) : Tally.plus {} t = t := by
  simp [plus]

def tally (events : List Published) : Tally where
  attempts := attemptEvents events
  retries := scheduled events
  detected := detected events
  exceeded := waitExceeded events

@[simp] theorem tally_append (es ds : List Published) :
    tally (es ++ ds) = (tally es).plus (tally ds) := by
  simp [tally, Tally.plus, attemptEvents, scheduled, detected, waitExceeded]

@[simp] theorem tally_nil : tally [] = {} := rfl

@[simp] theorem tally_operationSucceeded (payload : EventPayload) :
    tally [(.operationSucceeded, payload)] = {} := rfl

@[simp] theorem tally_operationFailed (payload : EventPayload) :
    tally [(.operationFailed, payload)] = {} := rfl

@[simp] theorem tally_attemptFailed (payload : EventPayload) :
    tally [(.attemptFailed, payload)] = { attempts := [(.attemptFailed, payload)] } := rfl

@[simp] theorem tally_attemptSucceeded (payload : EventPayload) :
    tally [(.attemptSucceeded, payload)] = { attempts := [(.attemptSucceeded, payload)] } := rfl

namespace AsyncOperation
variable {V : Type} {op : AsyncOperation V} {env : Environment}

@[simp] theorem emissions_callItems (i : ℕ) (called : Bool) :
    emissions (callItems i called) = [] := by
  cases called <;> rfl

@[simp] theorem emissions_candidateItems (index called : ℕ) :
    emissions (candidateItems index called) = [] := by
  simp [emissions, candidateItems]

theorem emissions_fallback (chain : FallbackChain (Except Exc V)) (attempt n : ℕ) :
    emissions (op.fallbackItems chain attempt n) =
      [(.fallbackStarted, fallbackStartedPayload attempt n)] := by
  simp only [fallbackItems, emissions_emit, emissions_candidateItems]

@[simp] theorem tally_attempt (i : ℕ) (b : BreakerState) :
    tally (emissions (op.attemptItems env i b)) = {} := by
  simp only [attemptItems, emissions_emit, emissions_callItems]
  rfl

@[simp] theorem tally_validationFailed (i : ℕ) (e : Exc) :
    tally (emissions (validationFailedItems i e)) = {} := by
  unfold validationFailedItems
  cases e.fields.validation <;> rfl

@[simp] theorem tally_breaker (i : ℕ) (e : Exc) :
    tally (emissions (breakerItems i e)) = {} := by
  unfold breakerItems
  cases e.fields.breaker <;> rfl

@[simp] theorem tally_candidateValidation (i : ℕ)
    (pairs : List (FallbackCandidate (Except Exc V) × Exc)) :
    tally (emissions (candidateValidationItems i pairs)) = {} := by
  induction pairs with
  | nil => rfl
  | cons pair rest ih =>
    obtain ⟨candidate, failure⟩ := pair
    unfold candidateValidationItems
    rw [emissions_append, tally_append, ih]
    cases failure.fields.validation <;> rfl

@[simp] theorem tally_chainValidation (chain : FallbackChain (Except Exc V)) (i : ℕ) (e : Exc) :
    tally (emissions (chainValidationItems chain i e)) = {} := by
  unfold chainValidationItems
  split
  · exact tally_candidateValidation i _
  · rfl
  · rfl

@[simp] theorem tally_validationSucceeded (m : Metadata) (payload : EventPayload) :
    tally (emissions (validationSucceededItems m payload)) = {} := by
  unfold validationSucceededItems
  split <;> rfl

@[simp] theorem tally_rateLimit (i : ℕ) (e : Exc) (plan : RetryPlan) :
    tally (emissions (op.rateLimitItems i e plan)) = {
      detected := plan.rateLimited, exceeded := plan.rateLimited && plan.maxWaitExceeded } := by
  unfold rateLimitItems waitExceededItems
  cases plan.rateLimited <;> cases plan.maxWaitExceeded <;> rfl

@[simp] theorem tally_failure (i : ℕ) (d : ℚ) (e : Exc) (plan : RetryPlan) :
    tally (emissions (op.failureItems i d e plan)) = {
      attempts := [(.attemptFailed,
        attemptFailedPayload i d e plan.retryable (primaryFailureMetadata e plan))]
      detected := plan.rateLimited, exceeded := plan.rateLimited && plan.maxWaitExceeded } := by
  simp [failureItems, emissions_append, Tally.plus]

@[simp] theorem tally_sleep (i : ℕ) (plan : RetryPlan) (d : PyNumber) :
    tally (emissions (sleepItems i plan d)) = {
      retries := [(.retryScheduled, retryScheduledPayload i plan d)] } := rfl

@[simp] theorem tally_success (i : ℕ) (d : ℚ) (m : Metadata) :
    tally (emissions (successItems i d m)) = {
      attempts := [(.attemptSucceeded, succeededPayload i d (primarySuccessMetadata m))] } := by
  simp [successItems, emissions_append]

@[simp] theorem tally_fallback (chain : FallbackChain (Except Exc V)) (i n : ℕ) :
    tally (emissions (op.fallbackItems chain i n)) = {} := by
  rw [emissions_fallback]
  rfl

@[simp] theorem tally_fallbackFailure (chain : FallbackChain (Except Exc V)) (i : ℕ) (d : ℚ)
    (e : Exc) : tally (emissions (fallbackFailureItems chain i d e)) = {
      attempts := [(.attemptFailed,
        attemptFailedPayload i d e false (fallbackFailureMetadata e))] } := by
  simp only [fallbackFailureItems, emissions_append, tally_append, tally_chainValidation,
    Tally.none_plus]
  rfl

@[simp] theorem tally_fallbackSuccess (chain : FallbackChain (Except Exc V)) (i : ℕ) (d : ℚ)
    (result : FallbackResult (V × Metadata)) :
    tally (emissions (fallbackSuccessItems chain i d result)) = {
      attempts := [(.attemptSucceeded,
        succeededPayload i d (fallbackSuccessMetadata result result.value.2))] } := by
  simp only [fallbackSuccessItems, emissions_append, tally_append, tally_candidateValidation,
    tally_validationSucceeded, Tally.none_plus]
  rfl

end AsyncOperation

/-! The locals track the events. -/

/-- The locals `p` of the loop tell what the tally of the events so far tells. -/
structure Tracks (p : Progress) (t : Tally) : Prop where
  described : List.Forall₂ Describes t.attempts p.attempts
  numbered : ∀ n a, p.attempts[n]? = some a → a.attemptNumber = ((n + 1 : ℕ) : ℤ)
  encountered : p.rateLimitEncountered = t.detected
  exceeded : p.rateLimitWaitExceeded = t.exceeded
  waited : p.rateLimitWaitSeconds = limitedWait t.retries

namespace AsyncOperation
variable {V : Type} {op : AsyncOperation V} {env : Environment}

theorem tracks_record {p : Progress} {t : Tally} (h : Tracks p t) {ev : Published}
    {a : ExecutionAttempt} (describes : Describes ev a)
    (number : a.attemptNumber = ((p.attempts.length + 1 : ℕ) : ℤ)) :
    Tracks (p.record a) (t.plus { attempts := [ev] }) := by
  constructor
  · exact List.rel_append h.described (.cons describes .nil)
  · intro n b found
    rw [Progress.record, List.getElem?_append] at found
    split at found
    · exact h.numbered n b found
    · rw [List.getElem?_singleton] at found
      split at found
      · cases found
        have last : n = p.attempts.length := by omega
        rw [last, number]
      · cases found
  · simpa [Tally.plus, Progress.record] using h.encountered
  · simpa [Tally.plus, Progress.record] using h.exceeded
  · simpa [Tally.plus, Progress.record] using h.waited

theorem tracks_rateLimit {p : Progress} {t : Tally} (h : Tracks p t) (plan : RetryPlan) :
    Tracks (p.noteRateLimit plan) (t.plus {
      detected := plan.rateLimited, exceeded := plan.rateLimited && plan.maxWaitExceeded }) := by
  unfold Progress.noteRateLimit
  cases limited : plan.rateLimited with
  | true =>
    constructor
    · simpa [Tally.plus] using h.described
    · simpa using h.numbered
    · simp [Tally.plus]
    · simp [Tally.plus, h.exceeded]
    · simpa [Tally.plus] using h.waited
  | false =>
    simpa [Tally.plus] using h

theorem tracks_wait {p : Progress} {t : Tally} (h : Tracks p t) (i : ℕ) (plan : RetryPlan)
    (d : PyNumber) : Tracks (p.noteWait plan d) (t.plus {
      retries := [(.retryScheduled, retryScheduledPayload i plan d)] }) := by
  have limited : (retryScheduledPayload i plan d).lookup "rate_limited" =
      some (.bool plan.rateLimited) := by
    simp [retryScheduledPayload, lookup_ofPairs, List.lookup_cons]
  have delay : (retryScheduledPayload i plan d).lookup "delay_seconds" = some d.json := by
    simp [retryScheduledPayload, lookup_ofPairs, List.lookup_cons]
  have number : d.json.number = d.value := by cases d <;> rfl
  have added : limitedWait (t.retries ++ [(.retryScheduled, retryScheduledPayload i plan d)]) =
      limitedWait t.retries + if plan.rateLimited then d.value else 0 := by
    cases value : plan.rateLimited <;>
      simp [limitedWait, List.filter_append, limited, delay, number, value]
  unfold Progress.noteWait
  constructor
  · split <;> simpa [Tally.plus] using h.described
  · split <;> exact h.numbered
  · split <;> simpa [Tally.plus] using h.encountered
  · split <;> simpa [Tally.plus] using h.exceeded
  · simp only [Tally.plus, added]
    split <;> simp [h.waited]

theorem noteRateLimit_attempts (p : Progress) (plan : RetryPlan) :
    (p.noteRateLimit plan).attempts = p.attempts := by
  unfold Progress.noteRateLimit
  split <;> rfl

theorem noteWait_attempts (p : Progress) (plan : RetryPlan) (d : PyNumber) :
    (p.noteWait plan d).attempts = p.attempts := by
  unfold Progress.noteWait
  split <;> rfl

theorem tracks_failed (op : AsyncOperation V) {p : Progress} {t : Tally} (h : Tracks p t) {i : ℕ}
    (count : p.attempts.length + 1 = i) (at_ : DateTime) (d : ℚ) (e : Exc) (plan : RetryPlan) :
    Tracks (p.failed i at_ d e plan) (t.plus (tally (emissions (op.failureItems i d e plan)))) := by
  have attempts := noteRateLimit_attempts p plan
  have limited := tracks_rateLimit h plan
  have describes := describes_failed
    (a := failureRecord i at_ d e plan.retryable (primaryFailureMetadata e plan))
    (by simp [ExecutionAttempt.succeeded, failureRecord, attemptStatus_failed])
    rfl (disjoint_primaryFailure e plan) e plan.retryable
  have recorded := tracks_record limited describes (by simp [attempts, failureRecord, count])
  simpa [Tally.plus, Progress.failed, failureRecord] using recorded

def Failed (a : ExecutionAttempt) : Prop :=
  a.fallback = false ∧ a.succeeded = false ∧ a.error.isSome = true

theorem failed_primaries {attempts : List ExecutionAttempt} (h : ∀ a ∈ attempts, Failed a) :
    attempts.filter (fun a => !a.fallback) = attempts := by
  rw [List.filter_eq_self]
  intro a member
  simp [(h a member).1]

theorem failed_attempts (p : Progress) (i : ℕ) (at_ : DateTime) (d : ℚ) (e : Exc)
    (plan : RetryPlan) : (p.failed i at_ d e plan).attempts = p.attempts ++
      [failureRecord i at_ d e plan.retryable (primaryFailureMetadata e plan)] := by
  unfold Progress.failed Progress.record Progress.noteRateLimit
  split <;> rfl

theorem failed_failed {p : Progress} (h : ∀ a ∈ p.attempts, Failed a) (i : ℕ) (at_ : DateTime)
    (d : ℚ) (e : Exc) (plan : RetryPlan) : ∀ a ∈ (p.failed i at_ d e plan).attempts, Failed a := by
  intro a member
  rw [failed_attempts, List.mem_append, List.mem_singleton] at member
  rcases member with earlier | rfl
  · exact h a earlier
  · exact ⟨rfl, by simp [ExecutionAttempt.succeeded, failureRecord, attemptStatus_failed], rfl⟩

structure Looping (i : ℕ) (p : Progress) (t : Tally) : Prop where
  tracks : Tracks p t
  count : p.attempts.length + 1 = i
  retried : t.retries.length + 1 = i
  failed : ∀ a ∈ p.attempts, Failed a

theorem looping_retries {i : ℕ} {b : BreakerState} {p q : Progress} {t : Tally} {d : PyNumber}
    {items : List Item} (h : Looping i p t) (retries : op.Retries env i b p d q items) :
    Looping (i + 1) q (t.plus (tally (emissions items))) := by
  obtain ⟨_, again, delay, left, at_, duration⟩ := retries
  rename_i e plan verdict
  have attempts := noteWait_attempts (p.failed i at_ duration e plan) plan d
  have tracks := tracks_wait (tracks_failed op h.tracks h.count at_ duration e plan) i plan d
  constructor
  · simpa [emissions_append, Tally.plus] using tracks
  · have count := h.count
    rw [attempts, failed_attempts, List.length_append, List.length_singleton]
    omega
  · have retried := h.retried
    simp [emissions_append, Tally.plus]
    omega
  · rw [attempts]
    exact failed_failed h.failed i at_ duration e plan

/-! The report at the end. -/

theorem status_value (e : Exc) :
    (reportStatusForAttemptStatus (attemptStatusForException e)).value =
      (attemptStatusForException e).value := by
  unfold attemptStatusForException
  split <;> rfl

theorem summary_lookup (op : AsyncOperation V) (at_ : DateTime) (total : ℚ)
    (status : ExecutionStatus) (p : Progress) (m : Metadata) (k : String) :
    (op.reportDraft at_ total status p m).metadata.lookup k =
      ((rateLimitSummaryMetadata p).lookup k).or (m.lookup k) := by
  simp [reportDraft, mergeMetadata, lookup_update]

/-- A report built from locals that track all events. -/
theorem draft_agrees {q : Progress} {a : ExecutionAttempt} {events : List Published} {t : Tally}
    (all : tally events = t) (tracks : Tracks (q.record a) t) (failed : ∀ b ∈ q.attempts, Failed b)
    (retries : t.retries.length = if a.fallback then q.attempts.length - 1 else q.attempts.length)
    {status : ExecutionStatus} (agree : status.value = a.status.value) (op : AsyncOperation V)
    (at_ : DateTime) (total : ℚ) {report : ExecutionReport}
    (reported : report = op.reportDraft at_ total status (q.record a) a.metadata) :
    Sound report ∧ Agrees report events := by
  subst all
  subst reported
  constructor
  · constructor
    · exact tracks.numbered
    · intro b member
      simp only [reportDraft, Progress.record, List.dropLast_concat] at member
      exact failed b member
    · refine ⟨a, by simp [ExecutionReport.lastAttempt, reportDraft, Progress.record], agree, ?_⟩
      intro k other
      have absent : (rateLimitSummaryMetadata (q.record a)).lookup k = none := by
        simp only [summaryKeys, List.mem_cons, List.not_mem_nil, or_false, not_or] at other
        rw [rateLimitSummaryMetadata, lookup_ofPairs, List.lookup_eq_none_iff]
        simp [other]
      rw [summary_lookup, absent, Option.none_or]
  · constructor
    · exact tracks.described
    · have retries : (scheduled events).length = _ := retries
      rw [retries, ExecutionReport.retryCount]
      simp only [reportDraft, Progress.record, List.filter_append, failed_primaries failed]
      cases primary : a.fallback <;> simp [primary]
    · rw [summary_lookup]
      simp [rateLimitSummaryMetadata, lookup_ofPairs, tracks.encountered, tally]
    · rw [summary_lookup]
      simp [rateLimitSummaryMetadata, lookup_ofPairs, List.lookup_cons, tracks.exceeded, tally]
    · rw [summary_lookup]
      simp [rateLimitSummaryMetadata, lookup_ofPairs, List.lookup_cons, tracks.waited, tally]

/-- The exception that escapes from the planning of a failure is not the run's own. -/
theorem escape_unreported {i : ℕ} (pos : 1 ≤ i) {b : BreakerState} {x : Exc}
    (verdict : op.verdict env i b = .escape x) :
    reportOf (.error (.exception x) : Except Raised (OperationResult V)) = none := by
  obtain ⟨e, y, _, escapes, rfl⟩ := verdict_escape pos verdict
  rw [reportOf, op.escapes_foreign escapes]
  rfl

theorem closes_agrees {started : Started} {i : ℕ} (pos : 1 ≤ i) {b : BreakerState} {p : Progress}
    {events : List Published} (looping : Looping i p (tally events))
    {r : Except Raised (OperationResult V)} {items : List Item}
    (closes : op.Closes env started i b p r items) {report : ExecutionReport}
    (found : reportOf r = some report) :
    Sound report ∧ Agrees report (events ++ emissions items) := by
  have count := looping.count
  have retried := looping.retried
  cases closes with
  | refused verdict => cases found
  | escaped verdict =>
    rw [escape_unreported pos verdict] at found
    cases found
  | @succeeded v m verdict at_ duration total drafted reported =>
    cases found
    have disjoint := disjoint_primarySuccess
      (disjoint_checked (attempt_checked (verdict_value verdict)))
    have describes : Describes _ (successRecord i at_ duration (primarySuccessMetadata m)) :=
      describes_succeeded rfl rfl disjoint
    have tracks := tracks_record looping.tracks describes (by simp [successRecord, ← count])
    have all : tally (events ++ emissions (successItems i duration m ++
        [.emit .operationSucceeded (operationSucceededPayload drafted)])) =
        (tally events).plus {
          attempts := [(.attemptSucceeded, succeededPayload i duration (primarySuccessMetadata m))] } := by
      simp [emissions_append]
    refine draft_agrees all tracks looping.failed ?_ rfl op started.at_ total reported
    simp [Tally.plus, successRecord]
    omega
  | @failed e plan verdict final unmatched at_ duration total message drafted reported =>
    cases found
    have tracks := tracks_failed op looping.tracks count at_ duration e plan
    have all : tally (events ++ emissions (op.failureItems i duration e plan ++
        [.emit .operationFailed (operationFailedPayload drafted e)])) =
        (tally events).plus (tally (emissions (op.failureItems i duration e plan))) := by
      simp [emissions_append]
    have attempts := noteRateLimit_attempts p plan
    refine draft_agrees all tracks ?_ ?_ (status_value e) op started.at_ total reported
    · rw [attempts]
      exact looping.failed
    · rw [attempts]
      simp [Tally.plus, failureRecord]
      omega
  | @fellBack e plan verdict final chain matched result out k at_ duration numbered at_' duration'
      total drafted reported =>
    cases found
    have before := tracks_failed op looping.tracks count at_ duration e plan
    obtain ⟨_, _, checked⟩ := chainFrom_checked out
    have disjoint := disjoint_fallbackSuccess result (disjoint_checked checked)
    have describes : Describes _ (candidateRecord k at_' duration' result) :=
      describes_succeeded rfl rfl disjoint
    have tracks := tracks_record before describes (by simp [candidateRecord, successRecord, numbered])
    have all : tally (events ++ emissions (op.failureItems i duration e plan ++
        (op.fallbackItems chain k (k - 1) ++ (fallbackSuccessItems chain k duration' result ++
          [.emit .operationSucceeded (operationSucceededPayload drafted)])))) =
        ((tally events).plus (tally (emissions (op.failureItems i duration e plan)))).plus {
          attempts := [(.attemptSucceeded,
            succeededPayload k duration' (fallbackSuccessMetadata result result.value.2))] } := by
      simp [emissions_append, Tally.plus]
    refine draft_agrees all tracks (failed_failed looping.failed i at_ duration e plan) ?_ rfl op
      started.at_ total reported
    rw [failed_attempts]
    simp [Tally.plus, candidateRecord]
    omega
  | @fallbackFailed e plan verdict final chain matched x out k at_ duration numbered at_' duration'
      total message drafted reported =>
    cases found
    have before := tracks_failed op looping.tracks count at_ duration e plan
    have describes : Describes _ (fallbackRecord k at_' duration' x) :=
      describes_failed (by simp [ExecutionAttempt.succeeded, fallbackRecord, failureRecord,
        attemptStatus_failed]) rfl (disjoint_fallbackFailure x) x false
    have tracks := tracks_record before describes (by simp [fallbackRecord, failureRecord, numbered])
    have all : tally (events ++ emissions (op.failureItems i duration e plan ++
        (op.fallbackItems chain k (k - 1) ++ (fallbackFailureItems chain k duration' x ++
          [.emit .operationFailed (operationFailedPayload drafted x)])))) =
        ((tally events).plus (tally (emissions (op.failureItems i duration e plan)))).plus {
          attempts := [(.attemptFailed,
            attemptFailedPayload k duration' x false (fallbackFailureMetadata x))] } := by
      simp [emissions_append, Tally.plus]
    refine draft_agrees all tracks (failed_failed looping.failed i at_ duration e plan) ?_
      (status_value x) op started.at_ total reported
    rw [failed_attempts]
    simp [Tally.plus, fallbackRecord]
    omega

theorem transcript_agrees {started : Started} {i : ℕ} (pos : 1 ≤ i) {b : BreakerState}
    {p : Progress} {r : Except Raised (OperationResult V)} {items : List Item}
    (run : op.Transcript env started i b p r items) {events : List Published}
    (looping : Looping i p (tally events)) {report : ExecutionReport}
    (found : reportOf r = some report) :
    Sound report ∧ Agrees report (events ++ emissions items) := by
  induction run generalizing events with
  | @closes i b p r items closes =>
    have attempted : Looping i p (tally (events ++ emissions (op.attemptItems env i b))) := by
      simpa using looping
    have agrees := closes_agrees pos attempted closes found
    rwa [List.append_assoc, ← emissions_append] at agrees
  | @retries i b p q d r items rest retries run ih =>
    have passed : Looping (i + 1) q
        (tally (events ++ emissions (op.attemptItems env i b ++ items))) := by
      simpa [emissions_append] using looping_retries looping retries
    have agrees := ih (Nat.le_add_left 1 i) passed found
    rwa [List.append_assoc, ← emissions_append, List.append_assoc] at agrees

end AsyncOperation

theorem looping_start (payload : EventPayload) :
    AsyncOperation.Looping 1 {} (tally [(.operationStarted, payload)]) := by
  constructor
  · constructor
    · exact .nil
    · intro n a found
      cases found
    · rfl
    · rfl
    · rfl
  · rfl
  · rfl
  · intro a member
    cases member

/-- The report of an uninterrupted run, returned or attached to the error, and the events
    that every sink has received tell of the same execution. -/
theorem report_agrees_with_events {V : Type} (op : AsyncOperation V) (env : Environment)
    (s : Session) (aware : AwareTimestamps op) {report : ExecutionReport}
    (found : reportOf (op.outcome env none s) = some report) :
    Sound report ∧ ∀ j < op.sinkCount, Agrees report (op.published env s j) := by
  obtain ⟨started, rest, run, expands⟩ := AsyncOperation.run_transcript aware env s
  have agrees := AsyncOperation.transcript_agrees (Nat.le_refl 1) run
    (looping_start op.operationStartedPayload) found
  refine ⟨agrees.1, fun j sink => ?_⟩
  rw [AsyncOperation.published, expands_delivered expands sink]
  exact agrees.2

def provider (answer : Answer) : RateLimitPolicy where
  rateLimitOn := [⟨"RuntimeError", "builtins"⟩]
  retryAfter := some fun _ _ => .ok answer

/-- An operation that is rate-limited once, waits for half a second and succeeds. -/
def limitedOnce : AsyncOperation ℕ := { observed with
  operation := fun attempt =>
    { outcome := if attempt = 1 then .error (runtimeError "429") else .ok 7 }
  retryPolicy := some { retryOn := [⟨"RuntimeError", "builtins"⟩] }
  rateLimitPolicy := some (provider (.scalar (.float (.finite (1 / 2))))) }

theorem limitedOnce_aware : AwareTimestamps limitedOnce := by
  rintro emitter member n
  cases member
  rfl

theorem limitedOnce_agrees : ∃ report, reportOf (limitedOnce.outcome steady none {}) = some report ∧
    Sound report ∧ ∀ j < 2, Agrees report (limitedOnce.published steady {} j) := by
  have reported : (reportOf (limitedOnce.outcome steady none {})).isSome = true := by
    decide +kernel
  obtain ⟨report, found⟩ := Option.isSome_iff_exists.mp reported
  exact ⟨report, found, report_agrees_with_events limitedOnce steady {} limitedOnce_aware found⟩

end Relprim
