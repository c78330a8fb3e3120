import Mathlib.Algebra.Order.Ring.Cast
import Relprim.Operation

/-!
What the planning of a failed attempt can come to, said once: the answers of an
extractor, the plans, and the only errors that escape, which are those of the
conversion of an answer to float.
-/
namespace Relprim

/-- The answers of an extractor that tell how long to wait, or that nothing is told. -/
inductive Hints : Except Exc Answer → Option ℚ → Prop where
  | absent : Hints (.ok (.scalar .none)) none
  | seconds {a : Answer} {q : ℚ} (converted : a.float = some (.ok (.finite q))) (nonneg : 0 ≤ q) :
      Hints (.ok a) (some q)

def FloatRaises (answer : Except Exc Answer) (x : Exc) : Prop :=
  ∃ a, answer = .ok a ∧ a.float = some (.error x)

/-- `float()` of an int from `floatLimit` on. -/
def conversionError : Exc := overflowError "int too large to convert to float"

theorem floatRaises_int {n : ℤ} (large : floatLimit ≤ n.natAbs) :
    FloatRaises (.ok (.scalar (.int n))) conversionError := by
  refine ⟨_, rfl, ?_⟩
  rw [Answer.float, PyNumber.toFloat, if_neg (Nat.not_lt.mpr large)]
  rfl

theorem floatRaises_foreign {answer : Except Exc Answer} {x : Exc} (h : FloatRaises answer x) :
    x.fields.execution = none := by
  obtain ⟨a, rfl, raised⟩ := h
  cases a with
  | scalar s =>
    cases s with
    | int n =>
      rw [Answer.float, PyNumber.toFloat] at raised
      split at raised
      · cases raised
      · cases raised
        rfl
    | _ => cases raised
  | subclass float foreign =>
    cases raised
    exact foreign x rfl
  | other typeName => cases raised

theorem leaveCoroutine_foreign {x : Exc} (h : x.fields.execution = none) :
    x.leaveCoroutine.fields.execution = none := by
  unfold Exc.leaveCoroutine
  split
  · rfl
  · exact h

def readHint (e : Exc) : Except Exc Answer → Except Exc (Option ℚ)
  | .error cause =>
    .error (retryAfterExtractionError "The retry-after extractor raised an exception." e cause)
  | .ok (.scalar .none) => .ok none
  | .ok value => (validateRetryAfter value e).map some

def ExtractionFailure (e x : Exc) : Prop :=
  ∃ message cause, x = retryAfterExtractionError message e cause

inductive ReadHint (e : Exc) (answer : Except Exc Answer) : Except Exc (Option ℚ) → Prop where
  | hinted {q : Option ℚ} (hints : Hints answer q) : ReadHint e answer (.ok q)
  | refused {x : Exc} (failure : ExtractionFailure e x) : ReadHint e answer (.error x)
  | raised {x : Exc} (raises : FloatRaises answer x) : ReadHint e answer (.error x)

theorem readHint_value {a : Answer} (e : Exc) {r : Except Exc PyFloat} (h : a.float = some r) :
    readHint e (.ok a) = (validateRetryAfter a e).map some := by
  cases a with
  | scalar s =>
    cases s with
    | none => cases h
    | _ => rfl
  | _ => rfl

theorem readHint_hints {answer : Except Exc Answer} {q : Option ℚ} (h : Hints answer q) (e : Exc) :
    readHint e answer = .ok q := by
  cases h with
  | absent => rfl
  | seconds converted nonneg =>
    simp [readHint_value e converted, validateRetryAfter, converted, check, nonneg, bind,
      Except.bind, pure, Except.pure, Except.map]

theorem readHint_raises {answer : Except Exc Answer} {x : Exc} (h : FloatRaises answer x) (e : Exc) :
    readHint e answer = .error x := by
  obtain ⟨a, rfl, raised⟩ := h
  simp [readHint_value e raised, validateRetryAfter, raised, bind, Except.bind, Except.map]

theorem readHint_seconds {a : Answer} (e : Exc) {x : PyFloat} (converted : a.float = some (.ok x)) :
    ReadHint e (.ok a) (readHint e (.ok a)) := by
  have refuse (message : String)
      (read : readHint e (.ok a) = .error (retryAfterExtractionError message e none)) :
      ReadHint e (.ok a) (readHint e (.ok a)) := by
    rw [read]
    exact .refused ⟨_, _, rfl⟩
  cases x with
  | finite q =>
    by_cases nonneg : 0 ≤ q
    · rw [readHint_hints (.seconds converted nonneg)]
      exact .hinted (.seconds converted nonneg)
    · apply refuse "The retry-after value must be greater than or equal to 0."
      simp [readHint_value e converted, validateRetryAfter, converted, check, nonneg, bind,
        Except.bind, Except.map]
  | inf negative =>
    apply refuse "The retry-after value must be finite."
    simp [readHint_value e converted, validateRetryAfter, converted, throw, throwThe,
      MonadExceptOf.throw, bind, Except.bind, Except.map]
  | nan =>
    apply refuse "The retry-after value must be finite."
    simp [readHint_value e converted, validateRetryAfter, converted, throw, throwThe,
      MonadExceptOf.throw, bind, Except.bind, Except.map]

theorem readHint_cases (e : Exc) (answer : Except Exc Answer) :
    ReadHint e answer (readHint e answer) := by
  cases answer with
  | error cause => exact .refused ⟨_, _, rfl⟩
  | ok a =>
    cases converted : a.float with
    | some r =>
      cases r with
      | ok x => exact readHint_seconds e converted
      | error x =>
        rw [readHint_raises ⟨a, rfl, converted⟩]
        exact .raised ⟨a, rfl, converted⟩
    | none =>
      by_cases told : a = .scalar .none
      · subst told
        exact .hinted .absent
      · have read : readHint e (.ok a) = .error (retryAfterExtractionError
            "The retry-after extractor must return an int, float or None." e none) := by
          cases a with
          | scalar s =>
            cases s with
            | none => exact absurd rfl told
            | int n => cases converted
            | float x => cases converted
            | _ => rfl
          | subclass float foreign => cases converted
          | other typeName => rfl
        rw [read]
        exact .refused ⟨_, _, rfl⟩

namespace RateLimitPolicy

def hint (p : RateLimitPolicy) (occasion : ℕ) (e : Exc) : Except Exc (Option ℚ) :=
  match p.retryAfter with
  | none => .ok none
  | some extractor => readHint e (extractor occasion e)

theorem evaluate_matched {p : RateLimitPolicy} {e : Exc} (occasion : ℕ)
    (h : e.isInstance p.rateLimitOn = true) :
    p.evaluate occasion e =
      (p.hint occasion e).map fun q => { rateLimited := true, retryAfterSeconds := q } := by
  unfold evaluate hint
  simp only [h, Bool.not_true, Bool.false_eq_true, if_false]
  cases asked : p.retryAfter with
  | none => rfl
  | some extractor =>
    simp only
    generalize extractor occasion e = answer
    split
    · rfl
    · rfl
    · rename_i value told
      rw [readHint.eq_3 _ _ told]
      cases validateRetryAfter value e with
      | error x => rfl
      | ok q => rfl

theorem evaluate_unmatched {p : RateLimitPolicy} {e : Exc} (occasion : ℕ)
    (h : e.isInstance p.rateLimitOn = false) :
    p.evaluate occasion e = .ok { rateLimited := false } := by
  unfold evaluate
  simp only [h, Bool.not_false, if_true]
  rfl

inductive ProviderHint (p : RateLimitPolicy) (occasion : ℕ) (e : Exc) : Option ℚ → Prop where
  | unasked (absent : p.retryAfter = none) : ProviderHint p occasion e none
  | answered {extractor : ℕ → Exc → Except Exc Answer} (asked : p.retryAfter = some extractor)
      {q : Option ℚ} (hints : Hints (extractor occasion e) q) : ProviderHint p occasion e q

theorem hint_ok_iff {p : RateLimitPolicy} {occasion : ℕ} {e : Exc} {q : Option ℚ} :
    p.hint occasion e = .ok q ↔ p.ProviderHint occasion e q := by
  constructor
  · intro h
    unfold hint at h
    cases asked : p.retryAfter with
    | none =>
      simp only [asked] at h
      cases h
      exact .unasked asked
    | some extractor =>
      simp only [asked] at h
      have read := readHint_cases e (extractor occasion e)
      rw [h] at read
      cases read with
      | hinted hints => exact .answered asked hints
  · intro h
    unfold hint
    cases h with
    | unasked absent => simp only [absent]
    | answered asked hints => simp only [asked, readHint_hints hints e]

/-- `float()` of the extractor's answer to a failure of attempt `occasion` raises `x`. -/
def Raises (p : RateLimitPolicy) (occasion : ℕ) (e x : Exc) : Prop :=
  ∃ extractor, p.retryAfter = some extractor ∧ FloatRaises (extractor occasion e) x

theorem hint_cases (p : RateLimitPolicy) (occasion : ℕ) (e : Exc) :
    (∃ q, p.hint occasion e = .ok q) ∨
    ∃ x, p.hint occasion e = .error x ∧ (ExtractionFailure e x ∨ p.Raises occasion e x) := by
  unfold hint Raises
  cases p.retryAfter with
  | none => exact .inl ⟨none, rfl⟩
  | some extractor =>
    simp only
    have read := readHint_cases e (extractor occasion e)
    generalize readHint e (extractor occasion e) = result at read ⊢
    cases read with
    | hinted hints => exact .inl ⟨_, rfl⟩
    | refused failure => exact .inr ⟨_, rfl, .inl failure⟩
    | raised raises => exact .inr ⟨_, rfl, .inr ⟨extractor, rfl, raises⟩⟩

theorem hint_raises {p : RateLimitPolicy} {occasion : ℕ} {e x : Exc}
    (h : p.Raises occasion e x) : p.hint occasion e = .error x := by
  obtain ⟨extractor, asked, raises⟩ := h
  unfold hint
  simp only [asked, readHint_raises raises]

theorem raises_foreign {p : RateLimitPolicy} {occasion : ℕ} {e x : Exc}
    (h : p.Raises occasion e x) : x.fields.execution = none := by
  obtain ⟨_, _, raises⟩ := h
  exact floatRaises_foreign raises

end RateLimitPolicy

namespace AsyncOperation
variable {V : Type} (op : AsyncOperation V) (env : Environment)

def Unlimited (e : Exc) : Prop :=
  ∀ limit, op.rateLimitPolicy = some limit → e.isInstance limit.rateLimitOn = false

/-- A failure of attempt `i` matches the rate-limit policy, with this hint. -/
structure Limited (i : ℕ) (e : Exc) (limit : RateLimitPolicy) (hint : Option ℚ) : Prop where
  configured : op.rateLimitPolicy = some limit
  matched : e.isInstance limit.rateLimitOn = true
  hinted : limit.hint i e = .ok hint

/-- The delay that is selected after attempt `i`: the hint, else the backoff. -/
inductive Selected (policy : RetryPolicy) (i : ℕ) : Option ℚ → PyNumber → RetryDelaySource → Prop where
  | provider (q : ℚ) : Selected policy i (some q) (.float q) .provider
  | backoff {d : PyNumber} (delay : policy.backoff.delayForRetry i (env.random i) = .ok d) :
      Selected policy i none d .backoff

theorem selected_exists (policy : RetryPolicy) {i : ℕ} (pos : 1 ≤ i) (hint : Option ℚ) :
    ∃ d source, Selected env policy i hint d source := by
  cases hint with
  | some q => exact ⟨_, _, .provider q⟩
  | none =>
    obtain ⟨d, delay⟩ := policy.backoff.delayForRetry_total pos (env.random i)
    exact ⟨d, _, .backoff delay⟩

/-- The plans for a failure `e` of attempt `i`, with the failure that is reported. -/
inductive Planned (i : ℕ) (e : Exc) : Exc → RetryPlan → Prop where
  | extraction {limit : RateLimitPolicy} {x : Exc} (configured : op.rateLimitPolicy = some limit)
      (matched : e.isInstance limit.rateLimitOn = true) (refused : limit.hint i e = .error x)
      (surfaces : x.fields.extraction.isSome = true) : Planned i e x { retryable := false }
  | single {limit : RateLimitPolicy} {hint : Option ℚ} (limited : op.Limited i e limit hint)
      (unretried : op.retryPolicy = none) :
      Planned i e e { retryable := false, rateLimited := true, retryAfterSeconds := hint }
  | limitedLast {limit : RateLimitPolicy} {hint : Option ℚ} (limited : op.Limited i e limit hint)
      {policy : RetryPolicy} (configured : op.retryPolicy = some policy)
      (last : ¬ i < op.maxAttempts) :
      Planned i e e { retryable := true, rateLimited := true, retryAfterSeconds := hint }
  | exceeded {limit : RateLimitPolicy} {hint : Option ℚ} (limited : op.Limited i e limit hint)
      {policy : RetryPolicy} (configured : op.retryPolicy = some policy)
      (left : i < op.maxAttempts) {d : PyNumber} {source : RetryDelaySource}
      (selected : Selected env policy i hint d source)
      (above : limit.maxWaitSeconds.value < d.value) :
      Planned i e e {
        retryable := false, rateLimited := true, retryAfterSeconds := hint
        delaySeconds := some d, delaySource := some source, maxWaitExceeded := true }
  | waited {limit : RateLimitPolicy} {hint : Option ℚ} (limited : op.Limited i e limit hint)
      {policy : RetryPolicy} (configured : op.retryPolicy = some policy)
      (left : i < op.maxAttempts) {d : PyNumber} {source : RetryDelaySource}
      (selected : Selected env policy i hint d source)
      (within : d.value ≤ limit.maxWaitSeconds.value) :
      Planned i e e {
        retryable := true, rateLimited := true, retryAfterSeconds := hint
        delaySeconds := some d, delaySource := some source }
  | unmatched (unlimited : op.Unlimited e)
      (other : ∀ policy, op.retryPolicy = some policy → e.isInstance policy.retryOn = false) :
      Planned i e e { retryable := false }
  | last (unlimited : op.Unlimited e) {policy : RetryPolicy}
      (configured : op.retryPolicy = some policy) (matched : e.isInstance policy.retryOn = true)
      (last : ¬ i < op.maxAttempts) : Planned i e e { retryable := true }
  | retried (unlimited : op.Unlimited e) {policy : RetryPolicy}
      (configured : op.retryPolicy = some policy) (matched : e.isInstance policy.retryOn = true)
      (left : i < op.maxAttempts) {d : PyNumber}
      (delay : policy.backoff.delayForRetry i (env.random i) = .ok d) :
      Planned i e e {
        retryable := true, delaySeconds := some d, delaySource := some .backoff }

def HintRaises (i : ℕ) (e x : Exc) : Prop :=
  ∃ limit, op.rateLimitPolicy = some limit ∧ e.isInstance limit.rateLimitOn = true ∧
    limit.Raises i e x

/-- The planning for a failure of attempt `i` raises `x`, which nothing catches. -/
def Escapes (i : ℕ) (e x : Exc) : Prop := op.HintRaises i e x ∧ x.fields.extraction = none

theorem hintRaises_unique {i : ℕ} {e x y : Exc} (h : op.HintRaises i e x)
    (h' : op.HintRaises i e y) : x = y := by
  obtain ⟨limit, configured, _, raises⟩ := h
  obtain ⟨limit', configured', _, raises'⟩ := h'
  rw [configured] at configured'
  cases configured'
  have same := RateLimitPolicy.hint_raises raises
  rw [RateLimitPolicy.hint_raises raises'] at same
  cases same
  rfl

theorem escapes_foreign {i : ℕ} {e x : Exc} (h : op.Escapes i e x) :
    x.leaveCoroutine.fields.execution = none := by
  obtain ⟨⟨_, _, _, raises⟩, _⟩ := h
  exact leaveCoroutine_foreign (RateLimitPolicy.raises_foreign raises)

inductive Planning (i : ℕ) (e : Exc) : Except Exc (Exc × RetryPlan) → Prop where
  | planned {e' : Exc} {plan : RetryPlan} (h : op.Planned env i e e' plan) :
      Planning i e (.ok (e', plan))
  | escaped {x : Exc} (escapes : op.Escapes i e x) : Planning i e (.error x)

theorem decision_matched {i : ℕ} {e : Exc} {limit : RateLimitPolicy}
    (configured : op.rateLimitPolicy = some limit) (matched : e.isInstance limit.rateLimitOn = true) :
    op.rateLimitDecision e i =
      (limit.hint i e).map fun q => { rateLimited := true, retryAfterSeconds := q } := by
  simp only [rateLimitDecision, configured, RateLimitPolicy.evaluate_matched i matched]

theorem decision_unmatched {e : Exc} (i : ℕ) (unlimited : op.Unlimited e) :
    op.rateLimitDecision e i = .ok { rateLimited := false } := by
  unfold rateLimitDecision
  cases configured : op.rateLimitPolicy with
  | none => rfl
  | some limit => exact RateLimitPolicy.evaluate_unmatched i (unlimited limit configured)

/-- The failure that attempt `i` is reported with: a failed extraction replaces it. -/
def reportedFailure (i : ℕ) (e : Exc) : Exc :=
  match op.rateLimitDecision e i with
  | .ok _ => e
  | .error x => x

theorem planned_reported {i : ℕ} {e e' : Exc} {plan : RetryPlan} (h : op.Planned env i e e' plan) :
    e' = op.reportedFailure i e := by
  have limited_reported {limit : RateLimitPolicy} {hint : Option ℚ}
      (limited : op.Limited i e limit hint) : e = op.reportedFailure i e := by
    simp [reportedFailure, op.decision_matched limited.configured limited.matched, limited.hinted,
      Except.map]
  have unlimited_reported (unlimited : op.Unlimited e) : e = op.reportedFailure i e := by
    simp [reportedFailure, op.decision_unmatched i unlimited]
  cases h with
  | extraction configured matched refused _ =>
    simp [reportedFailure, op.decision_matched configured matched, refused, Except.map]
  | single limited => exact limited_reported limited
  | limitedLast limited => exact limited_reported limited
  | exceeded limited => exact limited_reported limited
  | waited limited => exact limited_reported limited
  | unmatched unlimited => exact unlimited_reported unlimited
  | last unlimited => exact unlimited_reported unlimited
  | retried unlimited => exact unlimited_reported unlimited

theorem planFailure_limited {i : ℕ} (pos : 1 ≤ i) {e : Exc} {limit : RateLimitPolicy}
    {hint : Option ℚ} (limited : op.Limited i e limit hint) :
    op.Planning env i e (op.planFailure env e i) := by
  have evaluated : op.rateLimitDecision e i =
      .ok { rateLimited := true, retryAfterSeconds := hint } := by
    rw [op.decision_matched limited.configured limited.matched, limited.hinted]
    rfl
  cases retry : op.retryPolicy with
  | none =>
    have plan : op.planFailure env e i = .ok (e,
        { retryable := false, rateLimited := true, retryAfterSeconds := hint }) := by
      simp [planFailure, retryPlanForException, evaluated, rateLimitRetryPlan,
        limited.configured, retry, RetryPlan.new, check, bind, Except.bind, pure, Except.pure]
    rw [plan]
    exact .planned (.single limited retry)
  | some policy =>
    by_cases left : i < op.maxAttempts
    · obtain ⟨d, source, selected⟩ := selected_exists env policy pos hint
      by_cases above : limit.maxWaitSeconds.value < d.value
      · have plan : op.planFailure env e i = .ok (e, {
            retryable := false, rateLimited := true, retryAfterSeconds := hint
            delaySeconds := some d, delaySource := some source, maxWaitExceeded := true }) := by
          cases selected with
          | provider q =>
            simp [planFailure, retryPlanForException, evaluated, rateLimitRetryPlan, above,
              limited.configured, retry, left, RetryPlan.new, check, bind, Except.bind, pure,
              Except.pure]
          | backoff delay =>
            simp [planFailure, retryPlanForException, evaluated, rateLimitRetryPlan, delay, above,
              limited.configured, retry, left, RetryPlan.new, check, bind, Except.bind, pure,
              Except.pure]
        rw [plan]
        exact .planned (.exceeded limited retry left selected above)
      · have plan : op.planFailure env e i = .ok (e, {
            retryable := true, rateLimited := true, retryAfterSeconds := hint
            delaySeconds := some d, delaySource := some source }) := by
          cases selected with
          | provider q =>
            simp [planFailure, retryPlanForException, evaluated, rateLimitRetryPlan, above,
              limited.configured, retry, left, RetryPlan.new, check, bind, Except.bind, pure,
              Except.pure]
          | backoff delay =>
            simp [planFailure, retryPlanForException, evaluated, rateLimitRetryPlan, delay, above,
              limited.configured, retry, left, RetryPlan.new, check, bind, Except.bind, pure,
              Except.pure]
        rw [plan]
        exact .planned (.waited limited retry left selected (le_of_not_gt above))
    · have plan : op.planFailure env e i = .ok (e,
          { retryable := true, rateLimited := true, retryAfterSeconds := hint }) := by
        simp [planFailure, retryPlanForException, evaluated, rateLimitRetryPlan,
          limited.configured, retry, left, RetryPlan.new, check, bind, Except.bind, pure,
          Except.pure]
      rw [plan]
      exact .planned (.limitedLast limited retry left)

theorem planFailure_unlimited {i : ℕ} (pos : 1 ≤ i) {e : Exc} (unlimited : op.Unlimited e) :
    op.Planning env i e (op.planFailure env e i) := by
  have evaluated := op.decision_unmatched i unlimited
  cases retry : op.retryPolicy with
  | none =>
    have plan : op.planFailure env e i = .ok (e, { retryable := false }) := by
      simp [planFailure, retryPlanForException, evaluated, retry, RetryPlan.new, check, bind,
        Except.bind, pure, Except.pure]
    rw [plan]
    exact .planned (.unmatched unlimited (by simp [retry]))
  | some policy =>
    by_cases matched : e.isInstance policy.retryOn = true
    · by_cases left : i < op.maxAttempts
      · obtain ⟨d, delay⟩ := policy.backoff.delayForRetry_total pos (env.random i)
        have plan : op.planFailure env e i = .ok (e, {
            retryable := true, delaySeconds := some d, delaySource := some .backoff }) := by
          simp [planFailure, retryPlanForException, evaluated, retry, matched, left, delay,
            RetryPlan.new, check, bind, Except.bind, pure, Except.pure]
        rw [plan]
        exact .planned (.retried unlimited retry matched left delay)
      · have plan : op.planFailure env e i = .ok (e, { retryable := true }) := by
          simp [planFailure, retryPlanForException, evaluated, retry, matched, left,
            RetryPlan.new, check, bind, Except.bind, pure, Except.pure]
        rw [plan]
        exact .planned (.last unlimited retry matched left)
    · have plan : op.planFailure env e i = .ok (e, { retryable := false }) := by
        simp [planFailure, retryPlanForException, evaluated, retry, matched, RetryPlan.new, check,
          bind, Except.bind, pure, Except.pure]
      rw [plan]
      exact .planned (.unmatched unlimited (by simpa [retry] using matched))

theorem planFailure_escapes {i : ℕ} {e x : Exc} (h : op.Escapes i e x) :
    op.planFailure env e i = .error x := by
  obtain ⟨⟨limit, configured, matched, raises⟩, uncaught⟩ := h
  have evaluated := op.decision_matched (i := i) configured matched
  rw [RateLimitPolicy.hint_raises raises] at evaluated
  simp [planFailure, retryPlanForException, evaluated, uncaught, Except.map, bind, Except.bind]

theorem planFailure_cases {i : ℕ} (pos : 1 ≤ i) (e : Exc) :
    op.Planning env i e (op.planFailure env e i) := by
  cases configured : op.rateLimitPolicy with
  | none => exact op.planFailure_unlimited env pos (by simp [Unlimited, configured])
  | some limit =>
    by_cases matched : e.isInstance limit.rateLimitOn = true
    · have evaluated := op.decision_matched (i := i) configured matched
      have replaced {x : Exc} (refused : limit.hint i e = .error x)
          (surfaces : x.fields.extraction.isSome = true) :
          op.Planning env i e (op.planFailure env e i) := by
        have plan : op.planFailure env e i = .ok (x, { retryable := false }) := by
          simp [planFailure, retryPlanForException, evaluated, refused, surfaces, Except.map,
            RetryPlan.new, check, bind, Except.bind, pure, Except.pure]
        rw [plan]
        exact .planned (.extraction configured matched refused surfaces)
      rcases limit.hint_cases i e with ⟨hint, hinted⟩ | ⟨x, refused, failure | raises⟩
      · exact op.planFailure_limited env pos ⟨configured, matched, hinted⟩
      · apply replaced refused
        obtain ⟨message, cause, rfl⟩ := failure
        rfl
      · cases surfaces : x.fields.extraction with
        | some extraction => exact replaced refused (by simp [surfaces])
        | none =>
          have escapes : op.Escapes i e x := ⟨⟨limit, configured, matched, raises⟩, surfaces⟩
          rw [op.planFailure_escapes env escapes]
          exact .escaped escapes
    · exact op.planFailure_unlimited env pos (by simpa [Unlimited, configured] using matched)

theorem planned_again {i : ℕ} {e e' : Exc} {plan : RetryPlan} (h : op.Planned env i e e' plan)
    (again : plan.willRetry = true) :
    i < op.maxAttempts ∧ ∃ policy d, op.retryPolicy = some policy ∧ plan.delaySeconds = some d := by
  cases h with
  | waited limited configured left selected within => exact ⟨left, _, _, configured, rfl⟩
  | retried unlimited configured matched left delay => exact ⟨left, _, _, configured, rfl⟩
  | extraction => cases again
  | single => cases again
  | limitedLast => cases again
  | exceeded => cases again
  | unmatched => cases again
  | last => cases again

end AsyncOperation

end Relprim
