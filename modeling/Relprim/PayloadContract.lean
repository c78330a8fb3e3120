import Relprim.ReportAgreement
import Relprim.IdempotentResult

/-!
docs/events-and-metadata.md: the keys of every payload and of the metadata of every
attempt and report, as its tables list them, and how the flags among them hang together.
-/
namespace Relprim
open Dictionary

def validationKeys : List String :=
  ["validation_performed", "validation_valid", "validation_validator_name", "validation_reason"]

def rateLimitKeys : List String :=
  ["rate_limited", "rate_limit_retry_after_seconds", "rate_limit_delay_seconds",
    "rate_limit_delay_source", "rate_limit_wait_exceeded"]

def fallbackFailureKeys : List String := ["fallback_failed", "fallback_failure_count"]

def fallbackSuccessKeys : List String :=
  fallbackFailureKeys ++ ["fallback_candidate_name", "fallback_candidate_index"]

def attemptMetadataKeys (fallback succeeded : Bool) : List String :=
  ["fallback_used", "circuit_breaker_open"] ++ validationKeys ++
    match fallback, succeeded with
    | false, true => []
    | false, false => rateLimitKeys
    | true, true => fallbackSuccessKeys
    | true, false => fallbackFailureKeys

/-- Report metadata, without the idempotency keys. -/
def reportMetadataKeys (fallback succeeded : Bool) : List String :=
  attemptMetadataKeys fallback succeeded ++ summaryKeys

/-- Event payloads, before the fallback has started or after. -/
def payloadKeys (type : EventType) (fallback : Bool) : List String :=
  let candidate := if fallback then ["fallback_used", "fallback_candidate_name"] else []
  match type with
  | .operationStarted => ["retry_enabled", "timeout_enabled", "fallback_enabled",
      "circuit_breaker_enabled", "validation_enabled", "rate_limit_enabled"]
  | .attemptStarted => ["attempt_number", "max_attempts"]
  | .attemptSucceeded => ["attempt_number", "duration_seconds"] ++ attemptMetadataKeys fallback true
  | .attemptFailed => ["attempt_number", "duration_seconds", "error_type", "retryable"] ++
      attemptMetadataKeys fallback false
  | .retryScheduled => ["attempt_number", "next_attempt_number", "delay_seconds", "delay_source",
      "rate_limited", "retry_after_seconds"]
  | .validationSucceeded => ["attempt_number", "validator_name"] ++ candidate
  | .validationFailed => ["attempt_number", "validator_name", "reason"] ++ candidate
  | .circuitBreakerRejected => ["attempt_number", "breaker_name", "state", "retry_after_seconds"]
  | .rateLimitDetected => ["attempt_number", "error_type", "retry_after_seconds",
      "max_wait_seconds", "max_wait_exceeded"]
  | .rateLimitWaitExceeded => ["attempt_number", "retry_after_seconds", "delay_seconds",
      "max_wait_seconds"]
  | .fallbackStarted => ["attempt_number", "after_primary_attempts"]
  | .fallbackSucceeded => ["attempt_number", "duration_seconds"] ++ attemptMetadataKeys true true
  | .fallbackFailed => ["attempt_number", "duration_seconds", "error_type"] ++
      attemptMetadataKeys true false
  | .operationSucceeded => ["duration_seconds", "attempt_count", "retry_count"] ++
      reportMetadataKeys fallback true
  | .operationFailed => ["duration_seconds", "attempt_count", "retry_count", "error_type"] ++
      reportMetadataKeys fallback false

structure FlagsAgree (d : Dict String JsonScalar) (fallback : Bool) : Prop where
  valid : ∀ performed valid, d.lookup "validation_performed" = some performed →
    d.lookup "validation_valid" = some valid → (valid = .none ↔ performed = .bool false)
  reason : ∀ valid reason, d.lookup "validation_valid" = some valid →
    d.lookup "validation_reason" = some reason → (reason = .none ↔ valid ≠ .bool false)
  delay : ∀ seconds source, d.lookup "rate_limit_delay_seconds" = some seconds →
    d.lookup "rate_limit_delay_source" = some source → (seconds = .none ↔ source = .none)
  used : ∀ used, d.lookup "fallback_used" = some used → used = .bool fallback

structure Documented (d : Dict String JsonScalar) (keys : List String) (fallback : Bool) :
    Prop where
  keys : HasKeys d keys
  flags : FlagsAgree d fallback

def flagKeys : List String :=
  ["validation_performed", "validation_valid", "validation_reason", "rate_limit_delay_seconds",
    "rate_limit_delay_source", "fallback_used"]

/-! Flags. -/

theorem flags_congr {d e : Dict String JsonScalar} {fallback : Bool} (h : FlagsAgree d fallback)
    (same : ∀ k ∈ flagKeys, e.lookup k = d.lookup k) : FlagsAgree e fallback := by
  simp only [flagKeys, List.forall_mem_cons] at same
  obtain ⟨performed, valid, reason, seconds, source, used, _⟩ := same
  constructor
  · rw [performed, valid]
    exact h.valid
  · rw [valid, reason]
    exact h.reason
  · rw [seconds, source]
    exact h.delay
  · rw [used]
    exact h.used

theorem flags_absent {d : Dict String JsonScalar} {ks : List String} (h : HasKeys d ks)
    (absent : ∀ k ∈ flagKeys, k ∉ ks) (fallback : Bool) : FlagsAgree d fallback := by
  have none (k : String) (member : k ∈ flagKeys) : d.lookup k = none :=
    lookup_absent h (absent k member)
  constructor
  · intro performed _ found
    rw [none _ (by decide)] at found
    cases found
  · intro valid _ found
    rw [none _ (by decide)] at found
    cases found
  · intro seconds _ found
    rw [none _ (by decide)] at found
    cases found
  · intro used found
    rw [none _ (by decide)] at found
    cases found

theorem documented_plain {ps : List (String × JsonScalar)} (ks : List String)
    (listed : ps.map Prod.fst = ks) (absent : ∀ k ∈ flagKeys, k ∉ ks) (fallback : Bool) :
    Documented (ofPairs ps) ks fallback := by
  subst listed
  exact ⟨hasKeys_ofPairs ps, flags_absent (hasKeys_ofPairs ps) absent fallback⟩

theorem documented_over {ps : List (String × JsonScalar)} {m : Metadata} {ks ls : List String}
    {fallback : Bool} (listed : ps.map Prod.fst = ks) (h : Documented m ls fallback)
    (absent : ∀ k ∈ flagKeys, k ∉ ks) : Documented (update (ofPairs ps) m) (ks ++ ls) fallback := by
  subst listed
  have base := hasKeys_ofPairs ps
  refine ⟨hasKeys_update base h.keys, flags_congr h.flags fun k member => ?_⟩
  rw [lookup_update, lookup_absent base (absent k member), Option.or_none]

theorem documented_under {ps : List (String × JsonScalar)} {m : Metadata} {ks ls : List String}
    {fallback : Bool} (h : Documented m ls fallback) (listed : ps.map Prod.fst = ks)
    (absent : ∀ k ∈ flagKeys, k ∉ ks) : Documented (update m (ofPairs ps)) (ls ++ ks) fallback := by
  subst listed
  have top := hasKeys_ofPairs ps
  refine ⟨hasKeys_update h.keys top, flags_congr h.flags fun k member => ?_⟩
  rw [lookup_update, lookup_absent top (absent k member), Option.none_or]

/-! The metadata of attempts. -/

namespace AsyncOperation
variable {V : Type} {op : AsyncOperation V} {env : Environment}

structure Validated (m : Metadata) : Prop where
  keys : HasKeys m validationKeys
  valid : ∀ performed valid, m.lookup "validation_performed" = some performed →
    m.lookup "validation_valid" = some valid → (valid = .none ↔ performed = .bool false)
  reason : ∀ valid reason, m.lookup "validation_valid" = some valid →
    m.lookup "validation_reason" = some reason → (reason = .none ↔ valid ≠ .bool false)

theorem validated_success (result : ValidationResult) : Validated
    (validationSuccessMetadata result) := by
  constructor
  · exact hasKeys_ofPairs _
  · simp [validationSuccessMetadata, lookup_ofPairs, List.lookup_cons]
  · simp [validationSuccessMetadata, lookup_ofPairs, List.lookup_cons]

theorem validated_failure (failed : ValidationFields) : Validated
    (validationFailureMetadata failed) := by
  constructor
  · exact hasKeys_ofPairs _
  · simp [validationFailureMetadata, lookup_ofPairs, List.lookup_cons]
  · simp [validationFailureMetadata, lookup_ofPairs, List.lookup_cons]

theorem validated_none : Validated noValidationMetadata := by
  constructor
  · exact hasKeys_ofPairs _
  · simp [noValidationMetadata, lookup_ofPairs, List.lookup_cons]
  · simp [noValidationMetadata, lookup_ofPairs, List.lookup_cons]

theorem validated_checked {outcome : Except Exc V} {occasion : Occasion} {v : V} {m : Metadata}
    (h : op.checked outcome occasion = .ok (v, m)) : Validated m := by
  rcases op.checked_metadata h with rfl | ⟨result, rfl⟩
  · exact validated_none
  · exact validated_success result

/-- The metadata of a validation on top of entries of which one tells of the fallback. -/
theorem documented_validated {ps : List (String × JsonScalar)} {m : Metadata} (ks : List String)
    {ls : List String} {fallback : Bool} (listed : ps.map Prod.fst = ks)
    (used : ps.lookup "fallback_used" = some (.bool fallback))
    (absent : ∀ k ∈ flagKeys, k ∈ ks → k = "fallback_used") (sub : ks ++ validationKeys ⊆ ls)
    (sup : ls ⊆ ks ++ validationKeys) (h : Validated m) :
    Documented (update (ofPairs ps) m) ls fallback := by
  have base : HasKeys (ofPairs ps) ks := listed ▸ hasKeys_ofPairs ps
  have under (k : String) (flag : k ∈ flagKeys) (other : k ≠ "fallback_used") :
      (update (ofPairs ps) m).lookup k = m.lookup k := by
    have missing : (ofPairs ps).lookup k = none :=
      lookup_absent base fun member => other (absent k flag member)
    rw [lookup_update, missing, Option.or_none]
  refine ⟨hasKeys_congr (hasKeys_update base h.keys) sub sup, ⟨?_, ?_, ?_, ?_⟩⟩
  · rw [under _ (by decide) (by decide), under _ (by decide) (by decide)]
    exact h.valid
  · rw [under _ (by decide) (by decide), under _ (by decide) (by decide)]
    exact h.reason
  · intro seconds source found
    rw [under _ (by decide) (by decide), lookup_absent h.keys (by decide)] at found
    cases found
  · intro value found
    rw [lookup_update, lookup_absent h.keys (by decide), Option.none_or, lookup_ofPairs, used] at found
    cases found
    rfl

theorem documented_base {m : Metadata} (h : Validated m) :
    Documented (baseMetadata (some m)) (attemptMetadataKeys false true) false :=
  documented_validated ["fallback_used", "circuit_breaker_open"] rfl rfl (by decide) (by decide)
    (by decide) h

theorem documented_fallbackSuccess (result : FallbackResult (V × Metadata)) {m : Metadata}
    (h : Validated m) :
    Documented (fallbackSuccessMetadata result m) (attemptMetadataKeys true true) true :=
  documented_validated ["fallback_used", "fallback_failed", "fallback_candidate_name",
    "fallback_candidate_index", "fallback_failure_count", "circuit_breaker_open"] rfl rfl
    (by decide) (by decide) (by decide) h

theorem documented_fallbackFailure (e : Exc) :
    Documented (fallbackFailureMetadata e) (attemptMetadataKeys true false) true := by
  have covers (count : ℕ) {m : Metadata} (h : Validated m) : Documented (update (ofPairs [
      ("fallback_used", JsonScalar.bool true), ("fallback_failed", .bool true),
      ("fallback_failure_count", .int count),
      ("circuit_breaker_open", .bool e.fields.breaker.isSome)]) m)
      (attemptMetadataKeys true false) true :=
    documented_validated ["fallback_used", "fallback_failed", "fallback_failure_count",
      "circuit_breaker_open"] rfl rfl (by decide) (by decide) (by decide) h
  unfold fallbackFailureMetadata
  simp only
  split
  · exact covers _ (validated_failure _)
  · exact covers _ validated_none

theorem documented_revalidated {m v : Metadata}
    (h : Documented m (attemptMetadataKeys false true) false) (validated : Validated v) :
    Documented (update m v) (attemptMetadataKeys false true) false := by
  have replaced (k : String) (present : k ∈ validationKeys) :
      (update m v).lookup k = v.lookup k := by
    obtain ⟨value, found⟩ := Option.isSome_iff_exists.mp
      (AList.lookup_isSome.mpr ((validated.keys k).mpr present))
    rw [lookup_update, found, Option.some_or]
  have kept (k : String) (missing : k ∉ validationKeys) : (update m v).lookup k = m.lookup k := by
    rw [lookup_update, lookup_absent validated.keys missing, Option.none_or]
  refine ⟨hasKeys_congr (hasKeys_update h.keys validated.keys) (by decide) (by decide),
    ⟨?_, ?_, ?_, ?_⟩⟩
  · rw [replaced _ (by decide), replaced _ (by decide)]
    exact validated.valid
  · rw [replaced _ (by decide), replaced _ (by decide)]
    exact validated.reason
  · rw [kept _ (by decide), kept _ (by decide)]
    exact h.flags.delay
  · rw [kept _ (by decide)]
    exact h.flags.used

theorem planned_delay {i : ℕ} {e e' : Exc} {plan : RetryPlan} (h : op.Planned env i e e' plan) :
    plan.delaySeconds = none ↔ plan.delaySource = none := by
  cases h <;> simp

theorem documented_primaryFailure (e : Exc) {plan : RetryPlan}
    (together : plan.delaySeconds = none ↔ plan.delaySource = none) :
    Documented (primaryFailureMetadata e plan) (attemptMetadataKeys false false) false := by
  let limits : Metadata := ofPairs [
    ("rate_limited", .bool plan.rateLimited),
    ("rate_limit_retry_after_seconds", .ofOption .seconds plan.retryAfterSeconds),
    ("rate_limit_delay_seconds",
      .ofOption PyNumber.json (if plan.rateLimited then plan.delaySeconds else none)),
    ("rate_limit_delay_source",
      .ofOption (fun s => .str s.value) (if plan.rateLimited then plan.delaySource else none)),
    ("rate_limit_wait_exceeded", .bool plan.maxWaitExceeded)]
  have top : HasKeys limits rateLimitKeys := hasKeys_ofPairs _
  have delays : ∀ seconds source, limits.lookup "rate_limit_delay_seconds" = some seconds →
      limits.lookup "rate_limit_delay_source" = some source → (seconds = .none ↔ source = .none) := by
    intro seconds source found found'
    simp only [limits, lookup_ofPairs, List.lookup_cons] at found found'
    cases found
    cases found'
    cases limited : plan.rateLimited with
    | false => simp [JsonScalar.ofOption]
    | true =>
      cases delay : plan.delaySeconds with
      | none => simp [together.mp delay, JsonScalar.ofOption]
      | some d =>
        cases origin : plan.delaySource with
        | none => simp [together.mpr origin] at delay
        | some source => cases d <;> simp [JsonScalar.ofOption, PyNumber.json, JsonScalar.seconds]
  have covers {m : Metadata} (h : Documented m (attemptMetadataKeys false true) false) :
      Documented (update m limits) (attemptMetadataKeys false false) false := by
    have keep (k : String) (missing : k ∉ rateLimitKeys) :
        (update m limits).lookup k = m.lookup k := by
      rw [lookup_update, lookup_absent top missing, Option.none_or]
    have replaced (k : String) (missing : k ∉ attemptMetadataKeys false true) :
        (update m limits).lookup k = limits.lookup k := by
      rw [lookup_update, lookup_absent h.keys missing, Option.or_none]
    refine ⟨hasKeys_update h.keys top, ⟨?_, ?_, ?_, ?_⟩⟩
    · rw [keep _ (by decide), keep _ (by decide)]
      exact h.flags.valid
    · rw [keep _ (by decide), keep _ (by decide)]
      exact h.flags.reason
    · rw [replaced _ (by decide), replaced _ (by decide)]
      exact delays
    · rw [keep _ (by decide)]
      exact h.flags.used
  have base : Documented ((baseMetadata none).insert "circuit_breaker_open"
      (.bool e.fields.breaker.isSome)) (attemptMetadataKeys false true) false := by
    have plain := documented_base validated_none
    refine ⟨hasKeys_insert plain.keys (by decide) _, flags_congr plain.flags fun k member => ?_⟩
    have other : k ≠ "circuit_breaker_open" := by
      rintro rfl
      exact absurd member (by decide)
    rw [lookup_insert, if_neg other]
    rfl
  unfold primaryFailureMetadata
  simp only
  split
  · exact covers (documented_revalidated base (validated_failure _))
  · exact covers base

theorem documented_draft (at_ : DateTime) (total : ℚ) (status : ExecutionStatus) (p : Progress)
    {m : Metadata} {fallback succeeded : Bool}
    (h : Documented m (attemptMetadataKeys fallback succeeded) fallback) :
    Documented (op.reportDraft at_ total status p m).metadata
      (reportMetadataKeys fallback succeeded) fallback := by
  have base : Documented (update ∅ m) ([] ++ attemptMetadataKeys fallback succeeded) fallback := by
    refine ⟨hasKeys_update hasKeys_empty h.keys, flags_congr h.flags fun k _ => ?_⟩
    rw [lookup_update, AList.lookup_empty, Option.or_none]
  exact documented_under base rfl (by decide)

/-! The items of a run. -/

def Fits (fallback : Bool) (items : List Item) : Prop :=
  ∀ ev ∈ emissions items, ev.1 ≠ .fallbackStarted ∧
    Documented ev.2 (payloadKeys ev.1 fallback) fallback

theorem fits_nil (fallback : Bool) : Fits fallback [] := by
  simp [Fits]

theorem fits_append {fallback : Bool} {items jtems : List Item} (first : Fits fallback items)
    (second : Fits fallback jtems) : Fits fallback (items ++ jtems) := by
  intro ev member
  rw [emissions_append] at member
  exact (List.mem_append.mp member).elim (first ev) (second ev)

theorem fits_emit {fallback : Bool} {type : EventType} {payload : EventPayload}
    (other : type ≠ .fallbackStarted)
    (documented : Documented payload (payloadKeys type fallback) fallback) :
    Fits fallback [.emit type payload] := by
  intro ev member
  rw [emissions_emit, emissions_nil, List.mem_singleton] at member
  subst member
  exact ⟨other, documented⟩

theorem fits_plain {fallback : Bool} {type : EventType} {ps : List (String × JsonScalar)}
    (other : type ≠ .fallbackStarted) (listed : ps.map Prod.fst = payloadKeys type fallback)
    (absent : ∀ k ∈ flagKeys, k ∉ payloadKeys type fallback) :
    Fits fallback [.emit type (ofPairs ps)] :=
  fits_emit other (documented_plain _ listed absent fallback)

theorem fits_attempt (op : AsyncOperation V) (env : Environment) (i : ℕ) (b : BreakerState) :
    Fits false (op.attemptItems env i b) := by
  have called : Fits false (callItems i (op.attemptResult env i b).called) := by
    simp [Fits]
  exact fits_append (fits_plain (by decide) rfl (by decide))
    called

theorem fits_rateLimit (op : AsyncOperation V) (i : ℕ) (e : Exc) (plan : RetryPlan) :
    Fits false (op.rateLimitItems i e plan) := by
  have exceeded : Fits false (op.waitExceededItems i plan) := by
    unfold waitExceededItems
    split
    · exact fits_plain (by decide) rfl (by decide)
    · exact fits_nil false
  unfold rateLimitItems
  split
  · exact fits_append (fits_plain (by decide) rfl (by decide)) exceeded
  · exact fits_nil false

theorem fits_validationFailed (i : ℕ) (e : Exc) : Fits false (validationFailedItems i e) := by
  unfold validationFailedItems
  split
  · exact fits_nil false
  · exact fits_plain (by decide) rfl (by decide)

theorem fits_failure (i : ℕ) (duration : ℚ) (e : Exc) {plan : RetryPlan}
    (together : plan.delaySeconds = none ↔ plan.delaySource = none) :
    Fits false (op.failureItems i duration e plan) := by
  have rejected : Fits false (breakerItems i e) := by
    unfold breakerItems
    split
    · exact fits_nil false
    · exact fits_plain (by decide) rfl (by decide)
  apply fits_append (fits_rateLimit op i e plan)
  apply fits_append (fits_validationFailed i e)
  apply fits_append rejected (fits_emit (by decide) ?_)
  exact documented_over rfl (documented_primaryFailure e together) (by decide)

theorem fits_sleep (i : ℕ) (plan : RetryPlan) (d : PyNumber) : Fits false
    (sleepItems i plan d) := by
  have scheduled : Fits false [.emit .retryScheduled (retryScheduledPayload i plan d)] :=
    fits_plain (by decide) rfl (by decide)
  exact fits_append scheduled (fits_nil false)

theorem fits_validationSucceeded {fallback : Bool} (m : Metadata) {payload : EventPayload}
    (documented : Documented payload (payloadKeys .validationSucceeded fallback) fallback) :
    Fits fallback (validationSucceededItems m payload) := by
  unfold validationSucceededItems
  split
  · exact fits_emit (by decide) documented
  · exact fits_nil fallback

theorem fits_success (i : ℕ) (duration : ℚ) {m : Metadata} (h : Validated m) :
    Fits false (successItems i duration m) := by
  have validated : Documented (validationSucceededPayload i m)
      (payloadKeys .validationSucceeded false) false :=
    documented_plain ["attempt_number", "validator_name"] rfl (by decide) false
  apply fits_append
  · exact fits_validationSucceeded m validated
  · exact fits_emit (by decide) (documented_over rfl (documented_base h) (by decide))

theorem documented_candidateFailed (i : ℕ) (failed : ValidationFields) (name : Option String) :
    Documented (fallbackValidationFailedPayload i failed name)
      (payloadKeys .validationFailed true) true := by
  refine ⟨hasKeys_ofPairs _, ?_⟩
  constructor <;> simp [fallbackValidationFailedPayload, lookup_ofPairs, List.lookup_cons]

theorem fits_candidates (i : ℕ) (pairs : List (FallbackCandidate (Except Exc V) × Exc)) :
    Fits true (candidateValidationItems i pairs) := by
  induction pairs with
  | nil => exact fits_nil true
  | cons pair rest ih =>
    obtain ⟨candidate, failure⟩ := pair
    refine fits_append ?_ ih
    cases failure.fields.validation with
    | none => exact fits_nil true
    | some failed => exact fits_emit (by decide) (documented_candidateFailed i failed _)

theorem fits_fallbackFailure (chain : FallbackChain (Except Exc V)) (i : ℕ) (duration : ℚ)
    (e : Exc) :
    Fits true (fallbackFailureItems chain i duration e) := by
  have metadata := documented_fallbackFailure e
  have validations : Fits true (chainValidationItems chain i e) := by
    unfold chainValidationItems
    split
    · exact fits_candidates i _
    · exact fits_emit (by decide) (documented_candidateFailed i _ none)
    · exact fits_nil true
  apply fits_append validations
  have failed : Fits true
      [.emit .fallbackFailed (fallbackFailedPayload i duration e (fallbackFailureMetadata e))] :=
    fits_emit (by decide) (documented_over rfl metadata (by decide))
  exact fits_append failed
    (fits_emit (by decide) (documented_over rfl metadata (by decide)))

theorem fits_fallbackSuccess (chain : FallbackChain (Except Exc V)) (i : ℕ) (duration : ℚ)
    (result : FallbackResult (V × Metadata)) (h : Validated result.value.2) :
    Fits true (fallbackSuccessItems chain i duration result) := by
  have metadata := documented_fallbackSuccess result h
  have validated : Documented (fallbackValidationSucceededPayload i result.value.2
      result.candidateName) (payloadKeys .validationSucceeded true) true := by
    refine ⟨hasKeys_ofPairs _, ?_⟩
    constructor <;> simp [fallbackValidationSucceededPayload, lookup_ofPairs, List.lookup_cons]
  have succeeded : Fits true [.emit .fallbackSucceeded
      (succeededPayload i duration (fallbackSuccessMetadata result result.value.2))] :=
    fits_emit (by decide) (documented_over rfl metadata (by decide))
  exact fits_append (fits_candidates i _) (fits_append (fits_validationSucceeded _ validated)
    (fits_append succeeded
      (fits_emit (by decide) (documented_over rfl metadata (by decide)))))

/-! The events of a run, and its report. -/

def fallbackRan (events : List Published) : Bool := events.any fun ev => ev.1 = .fallbackStarted

/-- Every event is documented, by whether the fallback has started when it comes. -/
def Contracted (fallback : Bool) (events : List Published) : Prop :=
  ∀ before ev after, events = before ++ ev :: after →
    Documented ev.2 (payloadKeys ev.1 (fallback || fallbackRan before))
      (fallback || fallbackRan before)

theorem contracted_nil (fallback : Bool) : Contracted fallback [] := by
  intro before ev after split
  cases before <;> cases split

theorem contracted_cons {fallback : Bool} {ev : Published} {events : List Published}
    (first : Documented ev.2 (payloadKeys ev.1 fallback) fallback)
    (rest : Contracted (fallback || decide (ev.1 = .fallbackStarted)) events) :
    Contracted fallback (ev :: events) := by
  intro before ev' after split
  cases before with
  | nil =>
    cases split
    simpa [fallbackRan] using first
  | cons ev'' before =>
    obtain ⟨rfl, tail⟩ := List.cons.inj split
    have later := rest before ev' after tail
    simpa [fallbackRan, Bool.or_assoc] using later

theorem contracted_append {fallback : Bool} {items : List Item} {events : List Published}
    (fits : Fits fallback items) (rest : Contracted fallback events) :
    Contracted fallback (emissions items ++ events) := by
  unfold Fits at fits
  generalize emissions items = es at fits ⊢
  induction es with
  | nil => exact rest
  | cons ev es ih =>
    obtain ⟨⟨other, documented⟩, later⟩ := List.forall_mem_cons.mp fits
    apply contracted_cons documented
    simpa [other] using ih later

theorem contracted_fits {fallback : Bool} {items : List Item} (fits : Fits fallback items) :
    Contracted fallback (emissions items) := by
  have whole := contracted_append fits (contracted_nil fallback)
  rwa [List.append_nil] at whole

/-- The metadata of the attempts and of the report, with the keys that came on top. -/
structure ReportDocumented (report : ExecutionReport) (added : List String) : Prop where
  attempts : ∀ a ∈ report.attempts,
    Documented a.metadata (attemptMetadataKeys a.fallback a.succeeded) a.fallback
  metadata : ∃ last, report.lastAttempt = some last ∧
    Documented report.metadata (reportMetadataKeys last.fallback last.succeeded ++ added) last.fallback

def AttemptsDocumented (p : Progress) : Prop :=
  ∀ a ∈ p.attempts, Documented a.metadata (attemptMetadataKeys a.fallback a.succeeded) a.fallback

theorem attemptsDocumented_record {p : Progress} (h : AttemptsDocumented p) {a : ExecutionAttempt}
    (last : Documented a.metadata (attemptMetadataKeys a.fallback a.succeeded) a.fallback) :
    AttemptsDocumented (p.record a) := by
  intro b member
  rcases List.mem_append.mp member with earlier | final
  · exact h b earlier
  · rw [List.mem_singleton.mp final]
    exact last

theorem attemptsDocumented_failed {p : Progress} (h : AttemptsDocumented p) (i : ℕ) (at_ : DateTime)
    (duration : ℚ) (e : Exc) {plan : RetryPlan}
    (together : plan.delaySeconds = none ↔ plan.delaySource = none) :
    AttemptsDocumented (p.failed i at_ duration e plan) := by
  have noted : AttemptsDocumented (p.noteRateLimit plan) := by
    unfold Progress.noteRateLimit
    split <;> exact h
  apply attemptsDocumented_record noted
  have failed : (failureRecord i at_ duration e plan.retryable
      (primaryFailureMetadata e plan)).succeeded = false := by
    simp [ExecutionAttempt.succeeded, failureRecord, attemptStatus_failed]
  rw [failed]
  exact documented_primaryFailure e together

theorem reportDocumented_draft {p : Progress} {a : ExecutionAttempt}
    (documented : AttemptsDocumented (p.record a)) (op : AsyncOperation V) (at_ : DateTime)
    (total : ℚ) (status : ExecutionStatus) :
    ReportDocumented (op.reportDraft at_ total status (p.record a) a.metadata) [] where
  attempts := documented
  metadata := by
    refine ⟨a, by simp [ExecutionReport.lastAttempt, reportDraft, Progress.record], ?_⟩
    rw [List.append_nil]
    exact documented_draft at_ total status _ (documented a (by simp [Progress.record]))

variable {started : Started}

theorem closes_contracted {i : ℕ} (pos : 1 ≤ i) {b : BreakerState} {p : Progress}
    (attempts : AttemptsDocumented p) {r : Except Raised (OperationResult V)} {items : List Item}
    (closes : op.Closes env started i b p r items) :
    Contracted false (emissions items) ∧
      ∀ report, reportOf r = some report → ReportDocumented report [] := by
  cases closes with
  | @succeeded v metadata verdict at_ duration total report reported =>
    have validated := validated_checked (attempt_checked (verdict_value verdict))
    have documented := documented_base validated
    subst reported
    constructor
    · apply contracted_fits (fits_append (fits_success i duration validated) (fits_emit (by decide) ?_))
      exact documented_over rfl (documented_draft _ _ _ _ documented) (by decide)
    · intro report found
      cases found
      exact reportDocumented_draft (attemptsDocumented_record attempts documented) op _ _ _
  | @failed e plan verdict final unmatched at_ duration total message report reported =>
    obtain ⟨_, _, planned⟩ := verdict_failure pos verdict
    have together := planned_delay planned
    subst reported
    constructor
    · apply contracted_fits (fits_append (fits_failure i duration e together)
        (fits_emit (by decide) ?_))
      exact documented_over rfl (documented_draft _ _ _ _ (documented_primaryFailure e together))
        (by decide)
    · intro report found
      cases found
      exact reportDocumented_draft
        (attemptsDocumented_failed attempts i at_ duration e together) op _ _ _
  | @fellBack e plan verdict final chain matched result out k at_ duration numbered at_' duration'
      total report reported =>
    obtain ⟨_, _, planned⟩ := verdict_failure pos verdict
    have together := planned_delay planned
    obtain ⟨_, _, checked⟩ := chainFrom_checked out
    have validated := validated_checked checked
    have documented := documented_fallbackSuccess result validated
    subst reported
    constructor
    · rw [emissions_append, emissions_append]
      apply contracted_append (fits_failure i duration e together)
      rw [emissions_fallback]
      apply contracted_cons (documented_plain ["attempt_number", "after_primary_attempts"] rfl
        (by decide) false)
      apply contracted_fits (fits_append (fits_fallbackSuccess chain k duration' result validated)
        (fits_emit (by decide) ?_))
      exact documented_over rfl (documented_draft _ _ _ _ documented) (by decide)
    · intro report found
      cases found
      exact reportDocumented_draft (attemptsDocumented_record
        (attemptsDocumented_failed attempts i at_ duration e together) documented) op _ _ _
  | @fallbackFailed e plan verdict final chain matched x out k at_ duration numbered at_' duration'
      total message report reported =>
    obtain ⟨_, _, planned⟩ := verdict_failure pos verdict
    have together := planned_delay planned
    have documented := documented_fallbackFailure x
    subst reported
    constructor
    · rw [emissions_append, emissions_append]
      apply contracted_append (fits_failure i duration e together)
      rw [emissions_fallback]
      apply contracted_cons (documented_plain ["attempt_number", "after_primary_attempts"] rfl
        (by decide) false)
      apply contracted_fits (fits_append (fits_fallbackFailure chain k duration' x)
        (fits_emit (by decide) ?_))
      exact documented_over rfl (documented_draft _ _ _ _ documented) (by decide)
    · intro report found
      cases found
      have failed : (fallbackRecord k at_' duration' x).succeeded = false := by
        simp [ExecutionAttempt.succeeded, fallbackRecord, failureRecord, attemptStatus_failed]
      have last : Documented (fallbackRecord k at_' duration' x).metadata (attemptMetadataKeys true
          (fallbackRecord k at_' duration' x).succeeded) true := by
        rw [failed]
        exact documented
      exact reportDocumented_draft (attemptsDocumented_record
        (attemptsDocumented_failed attempts i at_ duration e together) last) op _ _ _
  | @refused e plan verdict =>
    refine ⟨?_, fun report found => by cases found⟩
    simpa using contracted_append (fits_append (fits_rateLimit op i e plan)
      (fits_validationFailed i e)) (contracted_nil false)
  | escaped verdict =>
    refine ⟨contracted_nil false, fun report found => ?_⟩
    rw [escape_unreported pos verdict] at found
    cases found

theorem transcript_contracted {i : ℕ} (pos : 1 ≤ i) {b : BreakerState} {p : Progress}
    (attempts : AttemptsDocumented p) {r : Except Raised (OperationResult V)} {items : List Item}
    (run : op.Transcript env started i b p r items) :
    Contracted false (emissions items) ∧
      ∀ report, reportOf r = some report → ReportDocumented report [] := by
  induction run with
  | @closes i b p r items closes =>
    obtain ⟨events, report⟩ := closes_contracted pos attempts closes
    rw [emissions_append]
    exact ⟨contracted_append (fits_attempt op env i b) events, report⟩
  | @retries i b p q d r items rest retries run ih =>
    cases retries with
    | @intro e plan _ verdict again delay left at_ duration =>
    obtain ⟨_, _, planned⟩ := verdict_failure pos verdict
    have together := planned_delay planned
    have failed := attemptsDocumented_failed attempts i at_ duration e together
    have noted : AttemptsDocumented ((p.failed i at_ duration e plan).noteWait plan d) := by
      intro a member
      rw [noteWait_attempts] at member
      exact failed a member
    obtain ⟨events, report⟩ := ih (Nat.le_add_left 1 i) noted
    refine ⟨?_, report⟩
    rw [emissions_append, emissions_append]
    exact contracted_append (fits_attempt op env i b) (contracted_append
      (fits_append (fits_failure i duration e together) (fits_sleep i plan d)) events)

end AsyncOperation

/-- Every event that a sink receives, the metadata of every attempt and report, and the report
    of every result that is shared under an idempotency key have just the documented keys,
    with flags that agree. -/
theorem payloads_documented {V : Type} (op : AsyncOperation V) (env : Environment) (s : Session)
    (aware : AwareTimestamps op) :
    (∀ j < op.sinkCount, ∀ before ev after, op.published env s j = before ++ ev :: after →
      Documented ev.2 (payloadKeys ev.1 (AsyncOperation.fallbackRan before))
        (AsyncOperation.fallbackRan before)) ∧
    (∀ report, reportOf (op.outcome env none s) = some report →
      AsyncOperation.ReportDocumented report []) ∧
    ∀ r : IdempotencyResult (OperationResult V), op.outcome env none s = .ok r.value →
      ∃ result, operationResultWithIdempotencyMetadata r = .ok result ∧
        result.report.attempts = r.value.report.attempts ∧
        AsyncOperation.ReportDocumented result.report idempotencyKeys := by
  obtain ⟨started, rest, run, expands⟩ := AsyncOperation.run_transcript aware env s
  have empty : AsyncOperation.AttemptsDocumented {} := List.forall_mem_nil _
  obtain ⟨events, reports⟩ := AsyncOperation.transcript_contracted (Nat.le_refl 1) empty run
  have whole : AsyncOperation.Contracted false (emissions (op.runItems rest)) :=
    AsyncOperation.contracted_append
      (AsyncOperation.fits_plain (by decide) rfl (by decide)) events
  refine ⟨?_, reports, ?_⟩
  · intro j sink before ev after split
    rw [AsyncOperation.published, expands_delivered expands sink] at split
    have documented := whole before ev after split
    rwa [Bool.false_or] at documented
  · intro r returned
    have reported : Reported r.value := op.yields_run env none s [] r.value returned
    obtain ⟨result, rebuilt, _, same⟩ := idempotency_metadata_added reported
    obtain ⟨attempts, last, ends, documented⟩ := reports r.value.report (by rw [returned]; rfl)
    refine ⟨result, rebuilt, by rw [same], ?_⟩
    rw [same]
    refine ⟨attempts, last, ends, ?_⟩
    rw [List.append_nil] at documented
    exact documented_under documented rfl (by decide)

theorem limitedOnce_documented : ∃ report, reportOf
    (limitedOnce.outcome steady none {}) = some report ∧
    AsyncOperation.ReportDocumented report [] := by
  have reported : (reportOf (limitedOnce.outcome steady none {})).isSome = true := by
    decide +kernel
  obtain ⟨report, found⟩ := Option.isSome_iff_exists.mp reported
  exact ⟨report, found, (payloads_documented limitedOnce steady {} limitedOnce_aware).2.1 report found⟩

end Relprim
