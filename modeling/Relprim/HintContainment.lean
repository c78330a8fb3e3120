import Relprim.EventGrammar

/-!
What becomes of a bad retry-after hint: where `evaluate` answers or raises an
extraction failure, a run records the failure as not retryable and goes on to the
fallback or to its own error. What `float()` of the answer raises is not guarded.
-/
namespace Relprim
open Dictionary

/-- `evaluate` answers with a hint that can be waited for, if any, or raises an extraction
    failure that carries the exception. -/
def Contained (e : Exc) (r : Except Exc RateLimitDecision) : Prop :=
  (∃ hint, r = .ok { rateLimited := true, retryAfterSeconds := hint } ∧ ∀ q, hint = some q → 0 ≤ q) ∨
    ∃ x cause, r = .error x ∧ x.fields.extraction = some (e, cause)

theorem hints_nonneg {answer : Except Exc Answer} {q : ℚ} (h : Hints answer (some q)) : 0 ≤ q := by
  cases h with
  | seconds converted nonneg => exact nonneg

theorem hint_nonneg {p : RateLimitPolicy} {occasion : ℕ} {e : Exc} {q : ℚ}
    (h : p.hint occasion e = .ok (some q)) : 0 ≤ q := by
  cases RateLimitPolicy.hint_ok_iff.mp h with
  | answered asked hints => exact hints_nonneg hints

theorem evaluate_contained_iff {p : RateLimitPolicy} (occasion : ℕ) {e : Exc}
    (matched : e.isInstance p.rateLimitOn = true) :
    Contained e (p.evaluate occasion e) ↔
      ∀ x, p.Raises occasion e x → ∃ cause, x.fields.extraction = some (e, cause) := by
  rw [RateLimitPolicy.evaluate_matched occasion matched]
  constructor
  · intro contained x raises
    rw [RateLimitPolicy.hint_raises raises] at contained
    rcases contained with ⟨hint, answered, _⟩ | ⟨y, cause, raised, carried⟩
    · cases answered
    · cases raised
      exact ⟨cause, carried⟩
  · intro guarded
    rcases p.hint_cases occasion e with ⟨q, hint⟩ | ⟨x, hint, failure | raises⟩
    · rw [hint]
      refine .inl ⟨q, rfl, ?_⟩
      rintro r rfl
      exact hint_nonneg hint
    · rw [hint]
      obtain ⟨message, cause, rfl⟩ := failure
      exact .inr ⟨_, cause, rfl, rfl⟩
    · rw [hint]
      obtain ⟨cause, carried⟩ := guarded x raises
      exact .inr ⟨x, cause, rfl, carried⟩

def RecordedAs (report : ExecutionReport) (i : ℕ) (x : Exc) : Prop :=
  ∃ record, report.attempts[i - 1]? = some record ∧ record.attemptNumber = i ∧
    record.status = AsyncOperation.attemptStatusForException x ∧
    record.error = some (.fromException x (some false))

/-- The run records `x` as the failure of attempt `i`, and goes on to the fallback, if `x`
    matches, else to an error caused by `x`. -/
structure AsyncOperation.GivesUp {V : Type} (op : AsyncOperation V) (i : ℕ) (x : Exc)
    (report : ExecutionReport) (r : Except Raised (OperationResult V))
    (published : List (EventType × EventPayload)) (called : List Effect) : Prop where
  recorded : RecordedAs report i x
  announced : ∃ duration metadata,
    (.attemptFailed, AsyncOperation.attemptFailedPayload i duration x false metadata) ∈ published
  goes_on : (∃ chain, op.fallbackChain = some chain ∧ chain.policy.shouldFallback x = true ∧
      (.fallbackStarted, AsyncOperation.fallbackStartedPayload (i + 1) i) ∈ published ∧
      .candidate 0 ∈ called) ∨
    (∀ chain, op.fallbackChain = some chain → chain.policy.shouldFallback x = false) ∧
      ∃ message, r = .error (.exception (operationExecutionError message report x))
  ends : ∀ message cause, r = .error (.exception (operationExecutionError message report cause)) →
    (.operationFailed, AsyncOperation.operationFailedPayload report cause) ∈ published

namespace AsyncOperation
variable {V : Type} {op : AsyncOperation V} {env : Environment}

def Unreadable (op : AsyncOperation V) (i : ℕ) (e x : Exc) : Prop :=
  ∃ limit, op.rateLimitPolicy = some limit ∧ e.isInstance limit.rateLimitOn = true ∧
    limit.evaluate i e = .error x

theorem unreadable_hint {i : ℕ} {e x : Exc} (h : op.Unreadable i e x) : ∃ limit,
    op.rateLimitPolicy = some limit ∧ e.isInstance limit.rateLimitOn = true ∧
      limit.hint i e = .error x := by
  obtain ⟨limit, configured, matched, raised⟩ := h
  refine ⟨limit, configured, matched, ?_⟩
  rw [RateLimitPolicy.evaluate_matched i matched] at raised
  cases hint : limit.hint i e with
  | ok q =>
    rw [hint] at raised
    cases raised
  | error y =>
    rw [hint] at raised
    cases raised
    rfl

theorem hintRaises_unreadable {i : ℕ} {e x : Exc} (h : op.HintRaises i e x) :
    op.Unreadable i e x := by
  obtain ⟨limit, configured, matched, raises⟩ := h
  refine ⟨limit, configured, matched, ?_⟩
  rw [RateLimitPolicy.evaluate_matched i matched, RateLimitPolicy.hint_raises raises]
  rfl

theorem unreadable_reported {i : ℕ} {e x : Exc} (h : op.Unreadable i e x) :
    op.reportedFailure i e = x := by
  obtain ⟨limit, configured, matched, hint⟩ := unreadable_hint h
  simp [reportedFailure, op.decision_matched configured matched, hint, Except.map]

theorem readable_reported {i : ℕ} {e : Exc} (readable : ∀ x, ¬ op.Unreadable i e x) :
    op.reportedFailure i e = e := by
  cases decided : op.rateLimitDecision e i with
  | ok decision => simp [reportedFailure, decided]
  | error x =>
    unfold rateLimitDecision at decided
    cases configured : op.rateLimitPolicy with
    | none =>
      simp only [configured] at decided
      cases decided
    | some limit =>
      simp only [configured] at decided
      cases matched : e.isInstance limit.rateLimitOn with
      | true => exact absurd ⟨limit, configured, matched, decided⟩ (readable x)
      | false =>
        rw [RateLimitPolicy.evaluate_unmatched i matched] at decided
        cases decided

theorem unreadable_caught {i : ℕ} {e x : Exc} (h : op.Unreadable i e x)
    (guarded : op.HintRaises i e x → x.fields.extraction.isSome = true ∧ op.refuses x = false) :
    x.fields.extraction.isSome = true ∧ op.refuses x = false := by
  obtain ⟨limit, configured, matched, hint⟩ := unreadable_hint h
  rcases limit.hint_cases i e with ⟨q, read⟩ | ⟨y, read, failure | raises⟩
  · rw [hint] at read
    cases read
  · rw [hint] at read
    cases read
    obtain ⟨message, cause, rfl⟩ := failure
    exact ⟨rfl, by simp [refuses, retryAfterExtractionError, relprimError, Exc.fields]⟩
  · rw [hint] at read
    cases read
    exact guarded ⟨limit, configured, matched, raises⟩

/-- The plan for such a failure replaces it and does not retry. -/
theorem unreadable_planned {i : ℕ} {e x e' : Exc} {plan : RetryPlan} (h : op.Unreadable i e x)
    (planned : op.Planned env i e e' plan) : e' = x ∧ plan = { retryable := false } := by
  obtain ⟨limit, configured, matched, hint⟩ := unreadable_hint h
  have not_limited {limit' : RateLimitPolicy} {q : Option ℚ} : ¬ op.Limited i e limit' q := by
    intro limited
    have same := limited.configured
    rw [configured] at same
    cases same
    have read := limited.hinted
    rw [hint] at read
    cases read
  have not_unlimited : ¬ op.Unlimited e := by
    intro unlimited
    rw [unlimited limit configured] at matched
    cases matched
  cases planned with
  | extraction configured' _ refused _ =>
    rw [configured] at configured'
    cases configured'
    rw [hint] at refused
    cases refused
    exact ⟨rfl, rfl⟩
  | single limited => exact absurd limited not_limited
  | limitedLast limited => exact absurd limited not_limited
  | exceeded limited => exact absurd limited not_limited
  | waited limited => exact absurd limited not_limited
  | unmatched unlimited => exact absurd unlimited not_unlimited
  | last unlimited => exact absurd unlimited not_unlimited
  | retried unlimited => exact absurd unlimited not_unlimited

theorem execution_inj {m m' : String} {report report' : ExecutionReport} {e e' : Exc}
    (h : (.error (.exception (operationExecutionError m report e)) :
      Except Raised (OperationResult V)) =
        .error (.exception (operationExecutionError m' report' e'))) : e = e' := by
  simp [operationExecutionError, relprimError] at h
  exact h.2.2

theorem failure_announced (op : AsyncOperation V) (i : ℕ) (duration : ℚ) (e : Exc)
    (before later : List Item) : ∃ duration' metadata,
    (.attemptFailed, attemptFailedPayload i duration' e false metadata) ∈
      emissions (before ++ (op.failureItems i duration e { retryable := false } ++ later)) :=
  ⟨duration, primaryFailureMetadata e { retryable := false },
    by simp [failureItems, emissions_append]⟩

theorem chainFrom_called_pos (op : AsyncOperation V) (p : FallbackPolicy) (count : ℕ)
    {candidates : List (FallbackCandidate (Except Exc V))} (nonempty : candidates ≠ []) (index : ℕ)
    (failures : List Exc) : 0 < (op.chainFrom p count candidates index failures).called := by
  cases candidates with
  | nil => exact absurd rfl nonempty
  | cons candidate rest =>
    unfold chainFrom
    cases op.checked candidate.operation (.candidate index) with
    | ok value => exact Nat.one_pos
    | error e => cases here : p.shouldFallback e <;> simp [here]

theorem candidate_called (op : AsyncOperation V) (chain : FallbackChain (Except Exc V)) (i n : ℕ)
    (before later : List Item) :
    .candidate 0 ∈ calls (before ++ (op.fallbackItems chain i n ++ later)) := by
  have called := op.chainFrom_called_pos chain.policy chain.candidates.length
    chain.candidates_ok 0 []
  simp [calls_append, chainResult, called]

theorem transcript_givesUp {started : Started} {i : ℕ} {b : BreakerState} (pos : 1 ≤ i)
    {e x : Exc} (outcome : (op.attemptAt env b i).outcome = .error e)
    (unreadable : op.Unreadable i e x)
    (caught : x.fields.extraction.isSome = true ∧ op.refuses x = false) {p : Progress} {t : Tally}
    (looping : Looping i p t) {r : Except Raised (OperationResult V)} {items : List Item}
    (run : op.Transcript env started i (op.breakerAfter env b (i - 1)) p r items) :
    ∃ report, reportOf r = some report ∧
      op.GivesUp i x report r (emissions items) (calls items) := by
  have handled : ∀ y, (op.attemptAt env b i).outcome = .error y → op.Handled i y := by
    intro y same
    rw [outcome] at same
    cases same
    constructor
    · intro y escapes
      have same := unreadable_reported (hintRaises_unreadable escapes.1)
      rw [unreadable_reported unreadable] at same
      subst same
      simp [escapes.2] at caught
    · rw [unreadable_reported unreadable]
      exact caught.2
  have planned {e' : Exc} {plan : RetryPlan}
      (verdict : op.verdict env i (op.breakerAfter env b (i - 1)) = .failure e' plan) :
      e' = x ∧ plan = { retryable := false } := by
    obtain ⟨y, outcome', planned⟩ := verdict_failure pos verdict
    have same : (op.attemptAt env b i).outcome = .error y := outcome'
    rw [outcome] at same
    cases same
    exact unreadable_planned unreadable planned
  have recorded (at_ : DateTime) (duration : ℚ) (later : List ExecutionAttempt)
      {report : ExecutionReport}
      (attempts : report.attempts =
        (p.failed i at_ duration x { retryable := false }).attempts ++ later) :
      RecordedAs report i x := by
    have here : i - 1 = p.attempts.length := by
      have count := looping.count
      omega
    exact ⟨_, by rw [attempts, failed_attempts, here]; simp; rfl, rfl, rfl, rfl⟩
  have next {at_ : DateTime} {duration : ℚ} {k : ℕ}
      (numbered : k = (p.failed i at_ duration x { retryable := false }).attempts.length + 1) :
      k = i + 1 := by
    have count := looping.count
    rw [numbered, failed_attempts, List.length_append, List.length_singleton]
    omega
  cases run with
  | closes closes =>
    cases closes with
    | succeeded verdict =>
      have same : (op.attemptAt env b i).outcome = _ := verdict_value verdict
      rw [outcome] at same
      cases same
    | @failed e' plan verdict final unmatched at_ duration total message report reported =>
      obtain ⟨rfl, rfl⟩ := planned verdict
      refine ⟨report, rfl, recorded at_ duration [] (by simp [reported, reportDraft]), ?_, ?_, ?_⟩
      · exact failure_announced op i duration e' _ _
      · refine .inr ⟨fun chain configured => ?_, message, rfl⟩
        simpa [chainFor, configured] using unmatched
      · intro message' cause same
        simp [emissions_append, execution_inj same]
    | @fellBack e' plan verdict final chain matched result out k at_ duration numbered at_' duration'
        total report reported =>
      obtain ⟨rfl, rfl⟩ := planned verdict
      obtain ⟨configured, here⟩ := Option.filter_eq_some_iff.mp matched
      refine ⟨report, rfl, recorded at_ duration _ (by rw [reported]; rfl), ?_, ?_, ?_⟩
      · exact failure_announced op i duration e' _ _
      · refine .inl ⟨chain, configured, here, ?_, ?_⟩
        · simp [emissions_append, fallbackItems, next numbered]
        · rw [← List.append_assoc]
          exact candidate_called op chain k (k - 1) _ _
      · intro message' cause same
        cases same
    | @fallbackFailed e' plan verdict final chain matched y out k at_ duration numbered at_'
        duration' total message report reported =>
      obtain ⟨rfl, rfl⟩ := planned verdict
      obtain ⟨configured, here⟩ := Option.filter_eq_some_iff.mp matched
      refine ⟨report, rfl, recorded at_ duration _ (by rw [reported]; rfl), ?_, ?_, ?_⟩
      · exact failure_announced op i duration e' _ _
      · refine .inl ⟨chain, configured, here, ?_, ?_⟩
        · simp [emissions_append, fallbackItems, next numbered]
        · rw [← List.append_assoc]
          exact candidate_called op chain k (k - 1) _ _
      · intro message' cause same
        simp [emissions_append, execution_inj same]
    | refused verdict => exact absurd verdict (handled_not_refused pos handled _ _)
    | escaped verdict => exact absurd verdict (handled_not_escape pos handled _)
  | retries retries run =>
    obtain ⟨verdict, again, _⟩ := retries
    obtain ⟨rfl, rfl⟩ := planned verdict
    cases again

theorem givesUp_mono {i : ℕ} {x : Exc} {report : ExecutionReport}
    {r : Except Raised (OperationResult V)} {published published' : List (EventType × EventPayload)}
    {called called' : List Effect} (h : op.GivesUp i x report r published called)
    (more : ∀ ev ∈ published, ev ∈ published') (more' : ∀ c ∈ called, c ∈ called') :
    op.GivesUp i x report r published' called' where
  recorded := h.recorded
  announced := by
    obtain ⟨duration, metadata, member⟩ := h.announced
    exact ⟨duration, metadata, more _ member⟩
  goes_on := by
    rcases h.goes_on with ⟨chain, configured, matched, member, first⟩ | own
    · exact .inl ⟨chain, configured, matched, more _ member, more' _ first⟩
    · exact .inr own
  ends message cause raised := more _ (h.ends message cause raised)

/-- How a run ends that no extractor breaks: it returns or raises its own error, unless the
    event about the operation's own failure cannot be made. -/
inductive Surfaces (op : AsyncOperation V) (env : Environment) (b : BreakerState) :
    Except Raised (OperationResult V) → Prop where
  | returned (result : OperationResult V) : Surfaces op env b (.ok result)
  | raised (message : String) (report : ExecutionReport) (cause : Exc) :
      Surfaces op env b (.error (.exception (operationExecutionError message report cause)))
  | unannounced {i : ℕ} {e : Exc} (reached : Reaches op env b i)
      (outcome : (op.attemptAt env b i).outcome = .error e)
      (readable : ∀ x, ¬ op.Unreadable i e x) (refused : op.refuses e = true) :
      Surfaces op env b (.error (.exception payloadError))

/-- What `float()` raises in place of a hint is caught, and can be published. -/
def Guarded (op : AsyncOperation V) (env : Environment) (b : BreakerState) : Prop :=
  ∀ i e x, Reaches op env b i → (op.attemptAt env b i).outcome = .error e → op.HintRaises i e x →
    x.fields.extraction.isSome = true ∧ op.refuses x = false

theorem closes_surfaces {started : Started} {i : ℕ} {b : BreakerState} (reached : Reaches op env b i)
    (guarded : Guarded op env b) {p : Progress} {r : Except Raised (OperationResult V)}
    {items : List Item} (closes : op.Closes env started i (op.breakerAfter env b (i - 1)) p r items) :
    Surfaces op env b r := by
  cases closes with
  | succeeded => exact .returned _
  | fellBack => exact .returned _
  | failed => exact .raised _ _ _
  | fallbackFailed => exact .raised _ _ _
  | refused verdict =>
    obtain ⟨e, outcome, planned, refused⟩ := verdict_refused reached.1 verdict
    have readable : ∀ x, ¬ op.Unreadable i e x := by
      intro x unreadable
      obtain ⟨rfl, _⟩ := unreadable_planned unreadable planned
      have caught := unreadable_caught unreadable (guarded i e _ reached outcome)
      rw [caught.2] at refused
      cases refused
    rw [op.planned_reported env planned, readable_reported readable] at refused
    exact .unannounced reached outcome readable refused
  | escaped verdict =>
    obtain ⟨e, x, outcome, escapes, _⟩ := verdict_escape reached.1 verdict
    have caught := guarded i e x reached outcome escapes.1
    simp [escapes.2] at caught

theorem transcript_surfaces {started : Started} {i : ℕ} {b b' : BreakerState}
    (reached : Reaches op env b i) (state : b' = op.breakerAfter env b (i - 1))
    (guarded : Guarded op env b) {p : Progress} {r : Except Raised (OperationResult V)}
    {items : List Item} (run : op.Transcript env started i b' p r items) : Surfaces op env b r := by
  induction run with
  | @closes i b' p r items closes =>
    subst state
    exact closes_surfaces reached guarded closes
  | @retries i b' p q d r items rest retries run ih =>
    subst state
    exact ih (retries_reaches reached retries) (breakerAfter_succ reached.1 b)

/-- A failure that is not handled leaves no report behind. -/
theorem transcript_unhandled {started : Started} {i : ℕ} {b : BreakerState} (pos : 1 ≤ i) {e x : Exc}
    (outcome : (op.attemptAt env b i).outcome = .error e) (raises : op.HintRaises i e x)
    (uncaught : ¬ (x.fields.extraction.isSome = true ∧ op.refuses x = false)) {p : Progress}
    {r : Except Raised (OperationResult V)} {items : List Item}
    (run : op.Transcript env started i (op.breakerAfter env b (i - 1)) p r items) :
    reportOf r = none := by
  cases surfaces : x.fields.extraction with
  | none =>
    have verdict := verdict_escapes outcome ⟨raises, surfaces⟩
    obtain ⟨rfl, _⟩ := transcript_escape verdict run
    exact escape_unreported pos verdict
  | some extraction =>
    have refused : op.refuses x = true := by simpa [surfaces] using uncaught
    have planned : ∀ y, ¬ op.Escapes i e y := by
      intro y escapes
      obtain rfl := op.hintRaises_unique raises escapes.1
      have uncaught := escapes.2
      rw [surfaces] at uncaught
      cases uncaught
    rw [← unreadable_reported (hintRaises_unreadable raises)] at refused
    obtain ⟨plan, verdict⟩ := verdict_refuses pos outcome planned refused
    obtain ⟨rfl, _⟩ := transcript_refused verdict run
    rfl

/-- No extractor breaks the run, which gives up where a hint cannot be read. -/
structure HintsContained (op : AsyncOperation V) (env : Environment) (s : Session) : Prop where
  surfaces : Surfaces op env s.breaker (op.outcome env none s)
  gives_up : ∀ i e x, op.Reaches env s.breaker i → (op.attemptAt env s.breaker i).outcome = .error e →
    op.Unreadable i e x → ∃ report published, reportOf (op.outcome env none s) = some report ∧
      op.GivesUp i x report (op.outcome env none s) published (callsOf (op.trace env none s)) ∧
      ∀ j < op.sinkCount, op.published env s j = published

end AsyncOperation

/-- For a failure that matches, `evaluate` is contained if and only if `float()` of the
    extractor's answer raises no error of its own; and a run contains every hint if and only if
    in every attempt that is made such an error is caught and can be published. -/
theorem hint_contained_iff (p : RateLimitPolicy) (occasion : ℕ) (e : Exc) :
    (e.isInstance p.rateLimitOn = true → (Contained e (p.evaluate occasion e) ↔
      ∀ x, p.Raises occasion e x → ∃ cause, x.fields.extraction = some (e, cause))) ∧
    ∀ (V : Type) (op : AsyncOperation V) (env : Environment) (s : Session), AwareTimestamps op →
      (op.HintsContained env s ↔ ∀ i e x, op.Reaches env s.breaker i →
        (op.attemptAt env s.breaker i).outcome = .error e → op.HintRaises i e x →
          x.fields.extraction.isSome = true ∧ op.refuses x = false) := by
  refine ⟨fun matched => evaluate_contained_iff occasion matched, ?_⟩
  intro V op env s aware
  obtain ⟨started, rest, run, expands⟩ := AsyncOperation.run_transcript aware env s
  have first : op.Reaches env s.breaker 1 := ⟨Nat.le_refl 1, fun j pos below => by omega⟩
  have from_attempt {i : ℕ} (reached : op.Reaches env s.breaker i) :=
    AsyncOperation.transcript_reaches reached.1 (Nat.le_refl 1) rfl reached
      (looping_start op.operationStartedPayload) run
  constructor
  · intro contained i e x reached outcome raises
    by_contra uncaught
    obtain ⟨_, _, _, _, _, _, run'⟩ := from_attempt reached
    have unreported := AsyncOperation.transcript_unhandled reached.1 outcome raises uncaught run'
    obtain ⟨report, _, found, _⟩ := contained.gives_up i e x reached outcome
      (AsyncOperation.hintRaises_unreadable raises)
    rw [unreported] at found
    cases found
  · intro guarded
    refine ⟨AsyncOperation.transcript_surfaces first rfl guarded run, ?_⟩
    intro i e x reached outcome unreadable
    obtain ⟨front, later, _, _, split, looping, run'⟩ := from_attempt reached
    have caught := AsyncOperation.unreadable_caught unreadable (guarded i e x reached outcome)
    obtain ⟨report, found, givesUp⟩ :=
      AsyncOperation.transcript_givesUp reached.1 outcome unreadable caught looping run'
    refine ⟨report, emissions (op.runItems rest), found, AsyncOperation.givesUp_mono givesUp ?_ ?_, ?_⟩
    · intro ev member
      simp [AsyncOperation.runItems, split, emissions_append, member]
    · intro c member
      simp [expands_calls expands, AsyncOperation.runItems, split, calls_append, member]
    · intro j sink
      rw [AsyncOperation.published, expands_delivered expands sink]

theorem oversizedHint_raises :
    oversizedHint.outcome steady none {} = .error (.exception conversionError) := by
  have aware : AwareTimestamps oversizedHint := by
    rintro emitter member n
    cases member
    rfl
  have escapes : oversizedHint.Escapes 1 (runtimeError "429") conversionError :=
    ⟨⟨_, rfl, by decide, _, rfl, floatRaises_int (le_refl _)⟩, rfl⟩
  obtain ⟨started, rest, run, _⟩ := AsyncOperation.run_transcript aware steady {}
  exact (AsyncOperation.transcript_escape
    (AsyncOperation.verdict_escapes (by rfl) escapes) run).1

/-- An integer that no float can hold escapes from `evaluate` and from the run. -/
theorem oversized_hint_escapes :
    (runtimeError "429").isInstance (provider (.scalar (.int floatLimit))).rateLimitOn = true ∧
      ¬ Contained (runtimeError "429")
        ((provider (.scalar (.int floatLimit))).evaluate 1 (runtimeError "429")) ∧
      oversizedHint.outcome steady none {} = .error (.exception conversionError) ∧
      (oversizedHint.published steady {} 0).map Prod.fst = [.operationStarted, .attemptStarted] := by
  have raises : (provider (.scalar (.int floatLimit))).Raises 1 (runtimeError "429") conversionError :=
    ⟨_, rfl, floatRaises_int (le_refl _)⟩
  refine ⟨by decide, fun contained => ?_, ?_, by decide +kernel⟩
  · obtain ⟨cause, carried⟩ := (evaluate_contained_iff 1 (by decide)).mp contained _ raises
    cases carried
  · exact oversizedHint_raises

theorem hint_contained_limitedOnce : limitedOnce.HintsContained steady {} := by
  have contained := hint_contained_iff (provider (.scalar (.int 1))) 1 (runtimeError "429")
  refine (contained.2 ℕ limitedOnce steady {} limitedOnce_aware).mpr ?_
  rintro i e x _ _ ⟨limit, limits, _, raises⟩
  cases limits
  have hint := RateLimitPolicy.hint_raises raises
  rw [limitedOnce_hint] at hint
  cases hint

end Relprim
