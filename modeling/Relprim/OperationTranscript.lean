import Relprim.OperationBlocks
import Relprim.RetryPlanning

/-!
What an uninterrupted run does, pass by pass: the attempts with their outcomes and
plans, the items of each pass, and how the run ends. Everything said about whole
runs is read off this transcript.
-/
namespace Relprim
open Interruptible Interruptible.Program Dictionary

/-- What an attempt comes to, a failure with the plan that is made for it. It is refused if the
    event about it cannot be made. -/
inductive Verdict (V : Type) where
  | value (v : V) (metadata : Metadata)
  | failure (e : Exc) (plan : RetryPlan)
  | refused (e : Exc) (plan : RetryPlan)
  | escape (x : Exc)

def Progress.failed (p : Progress) (attempt : ℕ) (startedAt : DateTime) (duration : ℚ) (e : Exc)
    (plan : RetryPlan) : Progress :=
  (p.noteRateLimit plan).record (AsyncOperation.failureRecord attempt startedAt duration e
    plan.retryable (AsyncOperation.primaryFailureMetadata e plan))

namespace AsyncOperation
variable {V : Type} (op : AsyncOperation V) (env : Environment)

def verdict (attempt : ℕ) (b : BreakerState) : Verdict V :=
  match (op.attemptResult env attempt b).outcome with
  | .ok (v, metadata) => .value v metadata
  | .error e =>
    match op.planFailure env e attempt with
    | .ok (e', plan) => if op.refuses e' then .refused e' plan else .failure e' plan
    | .error x => .escape x.leaveCoroutine

def attemptItems (attempt : ℕ) (b : BreakerState) : List Item :=
  .emit .attemptStarted (op.attemptStartedPayload attempt) ::
    callItems attempt (op.attemptResult env attempt b).called

def chainFor (e : Exc) : Option (FallbackChain (Except Exc V)) :=
  op.fallbackChain.filter fun chain => chain.policy.shouldFallback e

def fallbackRecord (attempt : ℕ) (startedAt : DateTime) (duration : ℚ) (e : Exc) :
    ExecutionAttempt :=
  { failureRecord attempt startedAt duration e false (fallbackFailureMetadata e) with
    fallback := true }

def candidateRecord (attempt : ℕ) (startedAt : DateTime) (duration : ℚ)
    (result : FallbackResult (V × Metadata)) : ExecutionAttempt :=
  { successRecord attempt startedAt duration (fallbackSuccessMetadata result result.value.2) with
    fallback := true }

def fallbackItems (chain : FallbackChain (Except Exc V)) (attempt primaryAttempts : ℕ) :
    List Item :=
  .emit .fallbackStarted (fallbackStartedPayload attempt primaryAttempts) ::
    candidateItems 0 (op.chainResult chain).called

/-- The ways a run ends in a pass: its result, and the items after the attempt. The locals
    `p` are those before the pass. -/
inductive Closes (started : Started) (i : ℕ) (b : BreakerState) (p : Progress) :
    Except Raised (OperationResult V) → List Item → Prop where
  | succeeded {v : V} {metadata : Metadata} (verdict : op.verdict env i b = .value v metadata)
      (at_ : DateTime) (duration total : ℚ) {report : ExecutionReport}
      (reported : report = op.reportDraft started.at_ total .succeeded
        (p.record (successRecord i at_ duration (primarySuccessMetadata metadata)))
        (primarySuccessMetadata metadata)) :
      Closes started i b p (.ok ⟨v, report⟩) (successItems i duration metadata ++
        [.emit .operationSucceeded (operationSucceededPayload report)])
  | failed {e : Exc} {plan : RetryPlan} (verdict : op.verdict env i b = .failure e plan)
      (final : plan.willRetry = false) (unmatched : op.chainFor e = none)
      (at_ : DateTime) (duration total : ℚ) (message : String) {report : ExecutionReport}
      (reported : report = op.reportDraft started.at_ total
        (reportStatusForAttemptStatus (attemptStatusForException e))
        (p.failed i at_ duration e plan) (primaryFailureMetadata e plan)) :
      Closes started i b p (.error (.exception (operationExecutionError message report e)))
        (op.failureItems i duration e plan ++
          [.emit .operationFailed (operationFailedPayload report e)])
  | fellBack {e : Exc} {plan : RetryPlan} (verdict : op.verdict env i b = .failure e plan)
      (final : plan.willRetry = false) {chain : FallbackChain (Except Exc V)}
      (matched : op.chainFor e = some chain) {result : FallbackResult (V × Metadata)}
      (out : (op.chainResult chain).outcome = .ok result) {k : ℕ}
      (at_ : DateTime) (duration : ℚ) (numbered : k = (p.failed i at_ duration e plan).attempts.length + 1)
      (at_' : DateTime) (duration' total : ℚ) {report : ExecutionReport}
      (reported : report = op.reportDraft started.at_ total .succeeded
        ((p.failed i at_ duration e plan).record (candidateRecord k at_' duration' result))
        (fallbackSuccessMetadata result result.value.2)) :
      Closes started i b p (.ok ⟨result.value.1, report⟩)
        (op.failureItems i duration e plan ++ (op.fallbackItems chain k (k - 1) ++
          (fallbackSuccessItems chain k duration' result ++
            [.emit .operationSucceeded (operationSucceededPayload report)])))
  | fallbackFailed {e : Exc} {plan : RetryPlan} (verdict : op.verdict env i b = .failure e plan)
      (final : plan.willRetry = false) {chain : FallbackChain (Except Exc V)}
      (matched : op.chainFor e = some chain) {x : Exc}
      (out : (op.chainResult chain).outcome = .error x) {k : ℕ}
      (at_ : DateTime) (duration : ℚ) (numbered : k = (p.failed i at_ duration e plan).attempts.length + 1)
      (at_' : DateTime) (duration' total : ℚ) (message : String) {report : ExecutionReport}
      (reported : report = op.reportDraft started.at_ total
        (reportStatusForAttemptStatus (attemptStatusForException x))
        ((p.failed i at_ duration e plan).record (fallbackRecord k at_' duration' x))
        (fallbackFailureMetadata x)) :
      Closes started i b p (.error (.exception (operationExecutionError message report x)))
        (op.failureItems i duration e plan ++ (op.fallbackItems chain k (k - 1) ++
          (fallbackFailureItems chain k duration' x ++
            [.emit .operationFailed (operationFailedPayload report x)])))
  | refused {e : Exc} {plan : RetryPlan} (verdict : op.verdict env i b = .refused e plan) :
      Closes started i b p (.error (.exception payloadError))
        (op.rateLimitItems i e plan ++ validationFailedItems i e)
  | escaped {x : Exc} (verdict : op.verdict env i b = .escape x) :
      Closes started i b p (.error (.exception x)) []

/-- A failed pass that sleeps and goes on: the delay, the locals after it and its items. -/
inductive Retries (i : ℕ) (b : BreakerState) (p : Progress) :
    PyNumber → Progress → List Item → Prop where
  | intro {e : Exc} {plan : RetryPlan} {d : PyNumber}
      (verdict : op.verdict env i b = .failure e plan) (again : plan.willRetry = true)
      (delay : plan.delaySeconds = some d) (left : i < op.maxAttempts)
      (at_ : DateTime) (duration : ℚ) :
      Retries i b p d ((p.failed i at_ duration e plan).noteWait plan d)
        (op.failureItems i duration e plan ++ sleepItems i plan d)

inductive Transcript (started : Started) : ℕ → BreakerState → Progress →
    Except Raised (OperationResult V) → List Item → Prop where
  | closes {i : ℕ} {b : BreakerState} {p : Progress} {r : Except Raised (OperationResult V)}
      {items : List Item} (h : op.Closes env started i b p r items) :
      Transcript started i b p r (op.attemptItems env i b ++ items)
  | retries {i : ℕ} {b : BreakerState} {p q : Progress} {d : PyNumber}
      {r : Except Raised (OperationResult V)} {items rest : List Item}
      (h : op.Retries env i b p d q items)
      (run : Transcript started (i + 1) (op.attemptResult env i b).breaker q r rest) :
      Transcript started i b p r (op.attemptItems env i b ++ (items ++ rest))

inductive Passes (started : Started) (i : ℕ) (b : BreakerState) (p : Progress) (s t : Session) :
    Except Raised (Pass V) → List Item → Prop where
  | closes {r : Except Raised (OperationResult V)} {items : List Item}
      (h : op.Closes env started i b p r items) : Passes started i b p s t (r.map .returned) items
  | retries {d : PyNumber} {q : Progress} {items : List Item} (h : op.Retries env i b p d q items)
      (later : Later s t) : Passes started i b p s t (.ok (.again q)) items

section
variable {op : AsyncOperation V} {env : Environment} {started : Started}

/-! What a verdict tells of the attempt. -/

theorem verdict_value {i : ℕ} {b : BreakerState} {v : V} {metadata : Metadata}
    (h : op.verdict env i b = .value v metadata) :
    (op.attemptResult env i b).outcome = .ok (v, metadata) := by
  unfold verdict at h
  cases outcome : (op.attemptResult env i b).outcome with
  | ok value =>
    simp only [outcome] at h
    cases h
    rfl
  | error e =>
    simp only [outcome] at h
    split at h
    · split at h <;> cases h
    · cases h

inductive Judged (op : AsyncOperation V) (env : Environment) (i : ℕ) (b : BreakerState) :
    Verdict V → Prop where
  | failure {e e' : Exc} {plan : RetryPlan} (outcome : (op.attemptResult env i b).outcome = .error e)
      (planned : op.Planned env i e e' plan) (accepted : op.refuses e' = false) :
      Judged op env i b (.failure e' plan)
  | refused {e e' : Exc} {plan : RetryPlan} (outcome : (op.attemptResult env i b).outcome = .error e)
      (planned : op.Planned env i e e' plan) (refused : op.refuses e' = true) :
      Judged op env i b (.refused e' plan)
  | escape {e x : Exc} (outcome : (op.attemptResult env i b).outcome = .error e)
      (escapes : op.Escapes i e x) : Judged op env i b (.escape x.leaveCoroutine)

theorem verdict_judged {i : ℕ} (pos : 1 ≤ i) {b : BreakerState} {e : Exc}
    (outcome : (op.attemptResult env i b).outcome = .error e) :
    op.Judged env i b (op.verdict env i b) := by
  have planning := op.planFailure_cases env pos e
  unfold verdict
  simp only [outcome]
  cases planned : op.planFailure env e i with
  | error x =>
    rw [planned] at planning
    cases planning with
    | escaped escapes => exact .escape outcome escapes
  | ok reported =>
    rw [planned] at planning
    cases planning with
    | @planned e' plan planning =>
    cases refused : op.refuses e' with
    | true => simpa [refused] using Judged.refused outcome planning refused
    | false => simpa [refused] using Judged.failure outcome planning refused

theorem judged_of_verdict {i : ℕ} (pos : 1 ≤ i) {b : BreakerState} {w : Verdict V}
    (h : op.verdict env i b = w) (failed : ∀ v metadata, w ≠ .value v metadata) :
    op.Judged env i b w := by
  subst h
  cases outcome : (op.attemptResult env i b).outcome with
  | error e => exact verdict_judged pos outcome
  | ok value =>
    obtain ⟨v, metadata⟩ := value
    exact absurd (by simp [verdict, outcome]) (failed v metadata)

theorem verdict_failure {i : ℕ} (pos : 1 ≤ i) {b : BreakerState} {e' : Exc} {plan : RetryPlan}
    (h : op.verdict env i b = .failure e' plan) :
    ∃ e, (op.attemptResult env i b).outcome = .error e ∧ op.Planned env i e e' plan := by
  cases judged_of_verdict pos h (by simp) with
  | failure outcome planned accepted => exact ⟨_, outcome, planned⟩

theorem verdict_accepted {i : ℕ} (pos : 1 ≤ i) {b : BreakerState} {e : Exc} {plan : RetryPlan}
    (h : op.verdict env i b = .failure e plan) : op.refuses e = false := by
  cases judged_of_verdict pos h (by simp) with
  | failure outcome planned accepted => exact accepted

theorem verdict_refused {i : ℕ} (pos : 1 ≤ i) {b : BreakerState} {e' : Exc} {plan : RetryPlan}
    (h : op.verdict env i b = .refused e' plan) :
    ∃ e, (op.attemptResult env i b).outcome = .error e ∧ op.Planned env i e e' plan ∧
      op.refuses e' = true := by
  cases judged_of_verdict pos h (by simp) with
  | refused outcome planned refused => exact ⟨_, outcome, planned, refused⟩

theorem verdict_escape {i : ℕ} (pos : 1 ≤ i) {b : BreakerState} {y : Exc}
    (h : op.verdict env i b = .escape y) :
    ∃ e x, (op.attemptResult env i b).outcome = .error e ∧ op.Escapes i e x ∧
      y = x.leaveCoroutine := by
  cases judged_of_verdict pos h (by simp) with
  | escape outcome escapes => exact ⟨_, _, outcome, escapes, rfl⟩

theorem verdict_escapes {i : ℕ} {b : BreakerState} {e x : Exc}
    (outcome : (op.attemptResult env i b).outcome = .error e) (escapes : op.Escapes i e x) :
    op.verdict env i b = .escape x.leaveCoroutine := by
  simp [verdict, outcome, op.planFailure_escapes env escapes]

theorem verdict_refuses {i : ℕ} (pos : 1 ≤ i) {b : BreakerState} {e : Exc}
    (outcome : (op.attemptResult env i b).outcome = .error e) (planned : ∀ x, ¬ op.Escapes i e x)
    (refused : op.refuses (op.reportedFailure i e) = true) :
    ∃ plan, op.verdict env i b = .refused (op.reportedFailure i e) plan := by
  have judged := verdict_judged pos outcome
  generalize op.verdict env i b = w at judged ⊢
  cases judged with
  | failure outcome' planned' accepted =>
    rw [outcome] at outcome'
    cases outcome'
    rw [op.planned_reported env planned', refused] at accepted
    cases accepted
  | refused outcome' planned' refused' =>
    rw [outcome] at outcome'
    cases outcome'
    rw [op.planned_reported env planned']
    exact ⟨_, rfl⟩
  | escape outcome' escapes =>
    rw [outcome] at outcome'
    cases outcome'
    exact absurd escapes (planned _)

/-- A failure of attempt `i` gets a plan, and the events about it can be made. -/
structure Handled (op : AsyncOperation V) (i : ℕ) (e : Exc) : Prop where
  planned : ∀ x, ¬ op.Escapes i e x
  accepted : op.refuses (op.reportedFailure i e) = false

theorem handled_not_escape {i : ℕ} (pos : 1 ≤ i) {b : BreakerState}
    (handled : ∀ e, (op.attemptResult env i b).outcome = .error e → op.Handled i e) (x : Exc) :
    op.verdict env i b ≠ .escape x := by
  intro verdict
  obtain ⟨e, y, outcome, escapes, _⟩ := verdict_escape pos verdict
  exact (handled e outcome).planned y escapes

theorem handled_not_refused {i : ℕ} (pos : 1 ≤ i) {b : BreakerState}
    (handled : ∀ e, (op.attemptResult env i b).outcome = .error e → op.Handled i e) (e' : Exc)
    (plan : RetryPlan) : op.verdict env i b ≠ .refused e' plan := by
  intro verdict
  obtain ⟨e, outcome, planned, refused⟩ := verdict_refused pos verdict
  rw [op.planned_reported env planned, (handled e outcome).accepted] at refused
  cases refused

/-! A run stops at an attempt whose failure is not handled. -/

theorem transcript_escape {i : ℕ} {b : BreakerState} {x : Exc} (stops : op.verdict env i b = .escape x)
    {p : Progress} {r : Except Raised (OperationResult V)} {items : List Item}
    (run : op.Transcript env started i b p r items) :
    r = .error (.exception x) ∧ items = op.attemptItems env i b := by
  cases run with
  | closes closes =>
    cases closes with
    | escaped verdict =>
      rw [stops] at verdict
      cases verdict
      exact ⟨rfl, List.append_nil _⟩
    | succeeded verdict | failed verdict | fellBack verdict | fallbackFailed verdict | refused verdict =>
      rw [stops] at verdict
      cases verdict
  | retries retries run =>
    obtain ⟨verdict, _⟩ := retries
    rw [stops] at verdict
    cases verdict

theorem transcript_refused {i : ℕ} {b : BreakerState} {e : Exc} {plan : RetryPlan}
    (stops : op.verdict env i b = .refused e plan)
    {p : Progress} {r : Except Raised (OperationResult V)} {items : List Item}
    (run : op.Transcript env started i b p r items) :
    r = .error (.exception payloadError) ∧ items = op.attemptItems env i b ++
      (op.rateLimitItems i e plan ++ validationFailedItems i e) := by
  cases run with
  | closes closes =>
    cases closes with
    | refused verdict =>
      rw [stops] at verdict
      cases verdict
      exact ⟨rfl, rfl⟩
    | succeeded verdict | failed verdict | fellBack verdict | fallbackFailed verdict | escaped verdict =>
      rw [stops] at verdict
      cases verdict
  | retries retries run =>
    obtain ⟨verdict, _⟩ := retries
    rw [stops] at verdict
    cases verdict

/-! The blocks at the end of a run. -/

theorem says_buildReport {s : Session} (past : Past env started.monotonic s)
    (aware : started.at_.utcoffset.isSome = true) {status : ExecutionStatus} {p : Progress}
    {record : ExecutionAttempt} {metadata : Metadata}
    (agree : status = .succeeded ↔ record.status = .succeeded) (finite : finiteValues metadata) :
    Says op (op.buildReport env started status (p.record record) metadata) s fun r items t =>
      ∃ total, r = .ok (op.reportDraft started.at_ total status (p.record record) metadata) ∧
        items = [] ∧ Later s t := by
  refine says_elapsed_bind past fun total t nonneg later => says_lift ?_
  have ends : (op.reportDraft started.at_ total status (p.record record) metadata).lastAttempt =
      some record := by
    simp [ExecutionReport.lastAttempt, reportDraft, Progress.record]
  have valid := report_new_ok op.name_ok nonneg ends agree aware (finite_report finite)
  exact ⟨total, by rw [valid]; rfl, rfl, later⟩

theorem says_succeed (aware : AwareTimestamps op) {s : Session}
    (past : Past env started.monotonic s) (at_ : started.at_.utcoffset.isSome = true)
    {p : Progress} {record : ExecutionAttempt} {metadata : Metadata}
    (success : record.status = .succeeded) (finite : finiteValues metadata) (v : V) :
    Says op (op.succeed env started (p.record record) metadata v) s fun r items _ =>
      ∃ total report,
        report = op.reportDraft started.at_ total .succeeded (p.record record) metadata ∧
        r = .ok (.returned ⟨v, report⟩) ∧
        items = [.emit .operationSucceeded (operationSucceededPayload report)] := by
  refine says_bind (says_mono (says_buildReport past at_ (by simp [success]) finite) ?_)
  intro r items t _ facts
  obtain ⟨total, rfl, rfl, _⟩ := facts
  have values : finiteValues (operationSucceededPayload
      (op.reportDraft started.at_ total .succeeded (p.record record) metadata)) :=
    finite_update (finite_ofPairs (by simp)) (finite_report finite)
  exact says_emits_bind (emits_event aware _ values) fun _ _ =>
    says_pure ⟨total, _, rfl, rfl, rfl⟩

theorem says_fail (aware : AwareTimestamps op) {s : Session}
    (past : Past env started.monotonic s) (at_ : started.at_.utcoffset.isSome = true)
    {p : Progress} {record : ExecutionAttempt} {status : AttemptStatus} {metadata : Metadata}
    (failure : record.status = status) (unsuccessful : status ≠ .succeeded)
    (finite : finiteValues metadata) (message : String) (e : Exc) :
    Says op (op.fail env started (p.record record) status metadata message e) s fun r items _ =>
      ∃ total report, report = op.reportDraft started.at_ total
          (reportStatusForAttemptStatus status) (p.record record) metadata ∧
        r = .error (.exception (operationExecutionError message report e)) ∧
        items = [.emit .operationFailed (operationFailedPayload report e)] := by
  have agree : reportStatusForAttemptStatus status = .succeeded ↔ record.status = .succeeded := by
    rw [failure]
    cases status <;> simp_all [reportStatusForAttemptStatus]
  refine says_bind (says_mono (says_buildReport past at_ agree finite) ?_)
  intro r items t _ facts
  obtain ⟨total, rfl, rfl, _⟩ := facts
  have values : finiteValues (operationFailedPayload (op.reportDraft started.at_ total
      (reportStatusForAttemptStatus status) (p.record record) metadata) e) :=
    finite_update (finite_ofPairs (by simp)) (finite_report finite)
  exact says_emits_bind (emits_event aware _ values) fun _ _ =>
    says_throwing ⟨total, _, rfl, rfl, rfl⟩

theorem attemptStatus_failed (e : Exc) : attemptStatusForException e ≠ .succeeded := by
  unfold attemptStatusForException
  split <;> simp

/-! A failed attempt. -/

theorem says_recordFailure (aware : AwareTimestamps op) {s : Session} {attempt : ℕ}
    (pos : 1 ≤ attempt) {begun : Started} (past : Past env begun.monotonic s)
    (at_ : begun.at_.utcoffset.isSome = true) (p : Progress) {e : Exc} (plan : RetryPlan)
    (accepted : op.refuses e = false) :
    Says op (op.recordFailure env attempt begun p e plan) s fun r items t =>
      ∃ duration, r = .ok (p.failed attempt begun.at_ duration e plan) ∧
        items = op.failureItems attempt duration e plan ∧ Later s t := by
  apply says_emits_bind (emits_rateLimit aware attempt e plan)
  intro t first
  apply says_elapsed_bind (past_later past first.reads)
  intro duration u nonneg second
  apply says_emits_bind (emits_validationFailed aware attempt e)
  intro v third
  apply says_emits_bind (emits_breaker aware attempt accepted)
  intro w fourth
  have valid : ExecutionAttempt.new (failureRecord attempt begun.at_ duration e plan.retryable
      (primaryFailureMetadata e plan)) = .ok (failureRecord attempt begun.at_ duration e
        plan.retryable (primaryFailureMetadata e plan)) :=
    attempt_new_ok (Int.ofNat_le.mpr pos) nonneg (fun h => absurd h (attemptStatus_failed e)) at_
      (finite_primaryFailure e plan)
  have values : finiteValues (attemptFailedPayload attempt duration e plan.retryable
      (primaryFailureMetadata e plan)) :=
    finite_update (finite_ofPairs (by simp)) (finite_primaryFailure e plan)
  apply says_lift_bind valid
  refine says_emits_bind (emits_event aware _ values) fun x fifth => says_pure ?_
  have later := first.trans (second.trans (third.trans (fourth.trans fifth)))
  exact ⟨duration, rfl, by simp [failureItems], later⟩

theorem says_recordRefused (aware : AwareTimestamps op) {s : Session} (attempt : ℕ)
    {begun : Started} (past : Past env begun.monotonic s) (p : Progress) {e : Exc}
    (plan : RetryPlan) (refused : op.refuses e = true) :
    Says op (op.recordFailure env attempt begun p e plan) s fun r items _ =>
      r = .error (.exception payloadError) ∧
        items = op.rateLimitItems attempt e plan ++ validationFailedItems attempt e := by
  apply says_emits_bind (emits_rateLimit aware attempt e plan)
  intro t first
  apply says_elapsed_bind (past_later past first.reads)
  intro duration u _ second
  apply says_emits_bind (emits_validationFailed aware attempt e)
  intro v third
  refine says_bind (says_mono (says_breakerRefused aware attempt refused v) ?_)
  intro r items w _ facts
  obtain ⟨rfl, rfl⟩ := facts
  exact ⟨rfl, by simp⟩

theorem says_sleepBeforeRetry (aware : AwareTimestamps op) (s : Session) {attempt : ℕ}
    {plan : RetryPlan} {d : PyNumber} {policy : RetryPolicy}
    (configured : op.retryPolicy = some policy) (again : plan.willRetry = true)
    (delay : plan.delaySeconds = some d) :
    Says op (op.sleepBeforeRetry attempt plan) s fun r items t =>
      r = .ok d ∧ items = sleepItems attempt plan d ∧ Later s t := by
  have values : finiteValues (retryScheduledPayload attempt plan d) := finite_ofPairs (by simp)
  simp only [sleepBeforeRetry, configured, again, delay]
  apply says_emits_bind (emits_event aware _ values)
  intro t first
  refine says_emits_bind (emits_call trivial) fun u second => says_pure ?_
  exact ⟨rfl, rfl, first.trans second⟩

/-! The fallback attempt. -/

theorem says_failFallback (aware : AwareTimestamps op) {s : Session}
    (past : Past env started.monotonic s) (at_ : started.at_.utcoffset.isSome = true)
    (begun : Started) (past' : Past env begun.monotonic s)
    (at_' : begun.at_.utcoffset.isSome = true) {attempt : ℕ} (pos : 1 ≤ attempt) (p : Progress)
    (chain : FallbackChain (Except Exc V)) (x : Exc) :
    Says op (op.failFallback env started p chain attempt begun x) s fun r items _ =>
      ∃ duration total message report, report = op.reportDraft started.at_ total
          (reportStatusForAttemptStatus (attemptStatusForException x))
          (p.record (fallbackRecord attempt begun.at_ duration x)) (fallbackFailureMetadata x) ∧
        r = .error (.exception (operationExecutionError message report x)) ∧
        items = fallbackFailureItems chain attempt duration x ++
          [.emit .operationFailed (operationFailedPayload report x)] := by
  apply says_elapsed_bind past'
  intro duration t nonneg first
  apply says_emits_bind (emits_chainValidation aware chain attempt x)
  intro u second
  have valid : ExecutionAttempt.new (fallbackRecord attempt begun.at_ duration x) =
      .ok (fallbackRecord attempt begun.at_ duration x) :=
    attempt_new_ok (Int.ofNat_le.mpr pos) nonneg (fun h => absurd h (attemptStatus_failed x)) at_'
      (finite_fallbackFailure x)
  have payload : finiteValues
      (fallbackFailedPayload attempt duration x (fallbackFailureMetadata x)) :=
    finite_update (finite_ofPairs (by simp)) (finite_fallbackFailure x)
  have values : finiteValues
      (attemptFailedPayload attempt duration x false (fallbackFailureMetadata x)) :=
    finite_update (finite_ofPairs (by simp)) (finite_fallbackFailure x)
  apply says_lift_bind valid
  apply says_emits_bind (emits_event aware _ payload)
  intro v third
  apply says_emits_bind (emits_event aware _ values)
  intro w fourth
  have later := first.trans (second.trans (third.trans fourth))
  refine says_mono (says_fail aware (past_later past later.reads) at_ rfl (attemptStatus_failed x)
    (finite_fallbackFailure x) _ x) ?_
  intro r items y _ facts
  obtain ⟨total, report, reported, rfl, rfl⟩ := facts
  exact ⟨duration, total, _, report, reported, rfl, by simp [fallbackFailureItems]⟩

theorem says_succeedFallback (aware : AwareTimestamps op) {s : Session}
    (past : Past env started.monotonic s) (at_ : started.at_.utcoffset.isSome = true)
    (begun : Started) (past' : Past env begun.monotonic s)
    (at_' : begun.at_.utcoffset.isSome = true) {attempt : ℕ} (pos : 1 ≤ attempt) (p : Progress)
    (chain : FallbackChain (Except Exc V)) {result : FallbackResult (V × Metadata)}
    (finite : finiteValues result.value.2) :
    Says op (op.succeedFallback env started p chain attempt begun result) s fun r items _ =>
      ∃ duration total report, report = op.reportDraft started.at_ total .succeeded
          (p.record (candidateRecord attempt begun.at_ duration result))
          (fallbackSuccessMetadata result result.value.2) ∧
        r = .ok (.returned ⟨result.value.1, report⟩) ∧
        items = fallbackSuccessItems chain attempt duration result ++
          [.emit .operationSucceeded (operationSucceededPayload report)] := by
  have metadata := finite_fallbackSuccess result finite
  have validated : finiteValues
      (fallbackValidationSucceededPayload attempt result.value.2 result.candidateName) :=
    finite_ofPairs (by simp [validatorNameJson, finite_lookup finite])
  apply says_emits_bind (emits_candidateValidation aware attempt _)
  intro t first
  apply says_emits_bind (emits_validationSucceeded aware _ validated)
  intro u second
  have so_far := first.trans second
  apply says_elapsed_bind (past_later past' so_far.reads)
  intro duration v nonneg third
  have valid : ExecutionAttempt.new (candidateRecord attempt begun.at_ duration result) =
      .ok (candidateRecord attempt begun.at_ duration result) :=
    attempt_new_ok (Int.ofNat_le.mpr pos) nonneg (fun _ => rfl) at_' metadata
  have values : finiteValues (succeededPayload attempt duration
      (fallbackSuccessMetadata result result.value.2)) :=
    finite_update (finite_ofPairs (by simp)) metadata
  apply says_lift_bind valid
  apply says_emits_bind (emits_event aware _ values)
  intro w fourth
  apply says_emits_bind (emits_event aware _ values)
  intro x fifth
  have later := so_far.trans (third.trans (fourth.trans fifth))
  apply says_mono (says_succeed aware (past_later past later.reads) at_ rfl metadata _)
  intro r items y _ facts
  obtain ⟨total, report, reported, rfl, rfl⟩ := facts
  exact ⟨duration, total, report, reported, rfl, by simp [fallbackSuccessItems]⟩

theorem chainFrom_checked {policy : FallbackPolicy} {count : ℕ}
    {candidates : List (FallbackCandidate (Except Exc V))} {index : ℕ} {failures : List Exc}
    {result : FallbackResult (V × Metadata)}
    (h : (op.chainFrom policy count candidates index failures).outcome = .ok result) :
    ∃ outcome occasion, op.checked outcome occasion = .ok result.value := by
  induction candidates generalizing index failures with
  | nil => cases h
  | cons candidate rest ih =>
    unfold chainFrom at h
    cases out : op.checked candidate.operation (.candidate index) with
    | ok value =>
      simp only [out] at h
      cases h
      exact ⟨_, _, out⟩
    | error e =>
      simp only [out] at h
      split at h
      · cases h
      · exact ih h

theorem finite_chain {chain : FallbackChain (Except Exc V)} {result : FallbackResult (V × Metadata)}
    (h : (op.chainResult chain).outcome = .ok result) : finiteValues result.value.2 := by
  obtain ⟨_, _, checked⟩ := chainFrom_checked h
  exact op.finite_checked checked

theorem says_runFallback (aware : AwareTimestamps op) {s : Session} {i : ℕ} {b : BreakerState}
    {p : Progress} (past : Past env started.monotonic s)
    (at_ : started.at_.utcoffset.isSome = true) {e : Exc} {plan : RetryPlan}
    (failure : op.verdict env i b = .failure e plan) (final : plan.willRetry = false)
    {chain : FallbackChain (Except Exc V)} (matched : op.chainFor e = some chain)
    (startedAt : DateTime) (duration : ℚ) :
    Says op (op.runFallback env started (p.failed i startedAt duration e plan) chain) s
      fun r items t => op.Passes env started i b p s t r
        (op.failureItems i duration e plan ++ items) := by
  have values : finiteValues (fallbackStartedPayload
      ((p.failed i startedAt duration e plan).attempts.length + 1)
      (p.failed i startedAt duration e plan).attempts.length) := finite_ofPairs (by simp)
  apply says_utcNow_bind
  intro begunAt t at_' first
  apply says_perfCounter_bind
  intro monotonic u past' second
  apply says_emits_bind (emits_event aware _ values)
  intro v third
  have so_far := first.trans (second.trans third)
  refine says_bind (says_tryExcept (says_mono (op.says_chain chain v) ?_))
  intro r items w _ facts
  obtain ⟨rfl, rfl, fourth⟩ := facts
  have past := past_later past (so_far.trans fourth).reads
  have past' := past_later past' (third.trans fourth).reads
  cases out : (op.chainResult chain).outcome with
  | error x =>
    refine says_mono (says_failFallback aware past at_ ⟨begunAt, monotonic⟩ past' at_'
      (Nat.succ_pos _) _ chain x) ?_
    intro r items y _ facts
    obtain ⟨duration', total, message, report, reported, rfl, rfl⟩ := facts
    exact .closes (.fallbackFailed failure final matched out startedAt duration rfl begunAt
      duration' total message reported)
  | ok result =>
    refine says_mono (says_succeedFallback aware past at_ ⟨begunAt, monotonic⟩ past' at_'
      (Nat.succ_pos _) _ chain (finite_chain out)) ?_
    intro r items y _ facts
    obtain ⟨duration', total, report, reported, rfl, rfl⟩ := facts
    exact .closes (.fellBack failure final matched out startedAt duration rfl begunAt duration'
      total reported)

/-! The loop. -/

theorem says_afterFailure (aware : AwareTimestamps op) {s : Session} {i : ℕ} (pos : 1 ≤ i)
    {b : BreakerState} (p : Progress) (past : Past env started.monotonic s)
    (at_ : started.at_.utcoffset.isSome = true) (begun : Started)
    (past' : Past env begun.monotonic s) (at_' : begun.at_.utcoffset.isSome = true) {e : Exc}
    (outcome : (op.attemptResult env i b).outcome = .error e) :
    Says op (op.afterFailure env started p i begun e) s fun r items t =>
      op.Passes env started i b p s t r items := by
  refine says_bind (says_lift ?_)
  have planning := op.planFailure_cases env pos e
  cases planned : op.planFailure env e i with
  | error x => exact .closes (.escaped (by simp [verdict, outcome, planned]))
  | ok reported =>
    obtain ⟨e', plan⟩ := reported
    rw [planned] at planning
    cases planning with
    | planned planning =>
    cases accepted : op.refuses e' with
    | true =>
      refine says_bind (says_mono (says_recordRefused aware i past' p plan accepted) ?_)
      intro r items t _ facts
      obtain ⟨rfl, rfl⟩ := facts
      exact .closes (.refused (by simp [verdict, outcome, planned, accepted]))
    | false =>
    have failure : op.verdict env i b = .failure e' plan := by
      simp [verdict, outcome, planned, accepted]
    refine says_bind (says_mono (says_recordFailure aware pos past' at_' p plan accepted) ?_)
    intro r items t _ facts
    obtain ⟨duration, rfl, rfl, first⟩ := facts
    by_cases again : plan.willRetry = true
    · obtain ⟨left, policy, d, configured, delay⟩ := op.planned_again env planning again
      simp only [again, if_true]
      refine says_bind (says_mono (says_sleepBeforeRetry aware t configured again delay) ?_)
      intro r items u _ facts
      obtain ⟨rfl, rfl, second⟩ := facts
      apply says_pure
      rw [List.append_nil]
      exact .retries (.intro failure again delay left begun.at_ duration) (first.trans second)
    · have final : plan.willRetry = false := by simpa using again
      simp only [final, Bool.false_eq_true, if_false]
      cases matched : op.chainFor e' with
      | some chain =>
        have chosen : (op.fallbackChain.filter fun chain => chain.policy.shouldFallback e') =
          some chain := matched
        simp only [chosen]
        refine says_mono (says_runFallback aware (past_later past first.reads) at_ failure final
          matched begun.at_ duration) ?_
        intro r items u _ passes
        cases passes with
        | closes h => exact .closes h
        | retries h later => exact .retries h (first.trans later)
      | none =>
        have chosen : (op.fallbackChain.filter fun chain => chain.policy.shouldFallback e') =
          none := matched
        simp only [chosen]
        refine says_mono (says_fail aware (past_later past first.reads) at_ rfl
          (attemptStatus_failed e') (finite_primaryFailure e' plan) _ e') ?_
        intro r items u _ facts
        obtain ⟨total, report, reported, rfl, rfl⟩ := facts
        exact .closes (.failed failure final matched begun.at_ duration total _ reported)

theorem says_afterSuccess (aware : AwareTimestamps op) {s : Session} {i : ℕ} (pos : 1 ≤ i)
    {b : BreakerState} (p : Progress) (past : Past env started.monotonic s)
    (at_ : started.at_.utcoffset.isSome = true) (begun : Started)
    (past' : Past env begun.monotonic s) (at_' : begun.at_.utcoffset.isSome = true) {v : V}
    {metadata : Metadata} (outcome : (op.attemptResult env i b).outcome = .ok (v, metadata))
    (finite : finiteValues metadata) :
    Says op (op.afterSuccess env started p i begun v metadata) s fun r items t =>
      op.Passes env started i b p s t r items := by
  have base : finiteValues (primarySuccessMetadata metadata) := finite_base finite
  have validated : finiteValues (validationSucceededPayload i metadata) :=
    finite_ofPairs (by simp [validatorNameJson, finite_lookup finite])
  apply says_emits_bind (emits_validationSucceeded aware _ validated)
  intro t first
  apply says_elapsed_bind (past_later past' first.reads)
  intro duration u nonneg second
  have valid : ExecutionAttempt.new
      (successRecord i begun.at_ duration (primarySuccessMetadata metadata)) =
      .ok (successRecord i begun.at_ duration (primarySuccessMetadata metadata)) :=
    attempt_new_ok (Int.ofNat_le.mpr pos) nonneg (fun _ => rfl) at_' base
  have values : finiteValues (succeededPayload i duration (primarySuccessMetadata metadata)) :=
    finite_update (finite_ofPairs (by simp)) base
  apply says_lift_bind valid
  apply says_emits_bind (emits_event aware _ values)
  intro w third
  have later := first.trans (second.trans third)
  apply says_mono (says_succeed aware (past_later past later.reads) at_ rfl base v)
  intro r items x _ facts
  obtain ⟨total, report, reported, rfl, rfl⟩ := facts
  have value : op.verdict env i b = .value v metadata := by simp [verdict, outcome]
  have items : validationSucceededItems metadata (validationSucceededPayload i metadata) ++
      ([.emit .attemptSucceeded (succeededPayload i duration (primarySuccessMetadata metadata))] ++
        [.emit .operationSucceeded (operationSucceededPayload report)]) =
      successItems i duration metadata ++
        [.emit .operationSucceeded (operationSucceededPayload report)] := by
    simp [successItems]
  rw [items]
  exact .closes (.succeeded value begun.at_ duration total reported)

theorem attempt_checked {i : ℕ} {b : BreakerState} {value : V × Metadata}
    (h : (op.attemptResult env i b).outcome = .ok value) :
    op.checked (op.timedOutcome env i) (.attempt i) = .ok value := by
  unfold attemptResult at h
  cases configured : op.circuitBreaker with
  | none =>
    simp only [configured] at h
    exact h
  | some cb =>
    rcases admission : cb.beforeCall (env.breakerTurn i).admittedAt
      ((env.breakerTurn i).before b) with ⟨admitted, b'⟩
    cases admitted with
    | error e => simp [configured, admission] at h
    | ok probe =>
      simp only [configured, admission] at h
      exact h

theorem says_runAttempt (aware : AwareTimestamps op) {s : Session} {i : ℕ} (pos : 1 ≤ i)
    (p : Progress) (past : Past env started.monotonic s)
    (at_ : started.at_.utcoffset.isSome = true) :
    Says op (op.runAttempt env started i p) s fun r items t => ∃ u rest,
      u.breaker = (op.attemptResult env i s.breaker).breaker ∧ s.reads ≤ u.reads ∧
      items = op.attemptItems env i s.breaker ++ rest ∧
      op.Passes env started i s.breaker p u t r rest := by
  have values : finiteValues (op.attemptStartedPayload i) := finite_ofPairs (by simp)
  apply says_utcNow_bind
  intro begunAt t at_' first
  apply says_perfCounter_bind
  intro monotonic u past' second
  apply says_emits_bind (emits_event aware _ values)
  intro v third
  have so_far := first.trans (second.trans third)
  refine says_bind (says_tryExcept (says_mono (op.says_singleAttempt env i v) ?_))
  intro r items w later facts
  obtain ⟨rfl, rfl, breaker⟩ := facts
  rw [so_far.breaker] at breaker ⊢
  have past := past_later past (Nat.le_trans so_far.reads later)
  have past' := past_later past' (Nat.le_trans third.reads later)
  have reads : s.reads ≤ w.reads := Nat.le_trans so_far.reads later
  cases outcome : (op.attemptResult env i s.breaker).outcome with
  | error e =>
    refine says_mono (says_afterFailure aware pos p past at_ ⟨begunAt, monotonic⟩ past'
      at_' outcome) ?_
    intro r items x _ passes
    exact ⟨w, items, breaker, reads, rfl, passes⟩
  | ok value =>
    obtain ⟨value, metadata⟩ := value
    refine says_mono (says_afterSuccess aware pos p past at_ ⟨begunAt, monotonic⟩ past'
      at_' outcome (op.finite_checked (attempt_checked outcome))) ?_
    intro r items x _ passes
    exact ⟨w, items, breaker, reads, rfl, passes⟩

/-- One pass and what follows it, if the next pass goes on as a transcript does. -/
theorem says_pass (aware : AwareTimestamps op) {s : Session} {i : ℕ} (pos : 1 ≤ i) (p : Progress)
    (past : Past env started.monotonic s) (at_ : started.at_.utcoffset.isSome = true)
    {next : Progress → Run (OperationResult V)}
    (later : ∀ d q items u, op.Retries env i s.breaker p d q items → s.reads ≤ u.reads →
      Says op (next q) u fun r jtems _ => op.Transcript env started (i + 1) u.breaker q r jtems) :
    Says op (do
      match ← op.runAttempt env started i p with
      | .again progress => next progress
      | .returned result => return result) s fun r items _ =>
        op.Transcript env started i s.breaker p r items := by
  refine says_bind (says_mono (says_runAttempt aware pos p past at_) ?_)
  intro r items t _ facts
  obtain ⟨u, rest, breaker, reads, rfl, passes⟩ := facts
  cases passes with
  | @closes r items h =>
    cases r with
    | ok result => exact says_pure (by simpa using Transcript.closes h)
    | error x => exact .closes h
  | @retries d q items h elapsed =>
    apply says_mono (later d q _ t h (Nat.le_trans reads elapsed.reads))
    intro r jtems v _ run
    rw [elapsed.breaker, breaker] at run
    rw [List.append_assoc]
    exact .retries h run

/-- The loop never runs out of passes: the last attempt is not retried. -/
theorem says_runAttempts (started : Started) (aware : AwareTimestamps op)
    (at_ : started.at_.utcoffset.isSome = true)
    {remaining i : ℕ} (pos : 1 ≤ i) (left : i + remaining = op.maxAttempts) (p : Progress)
    {s : Session} (past : Past env started.monotonic s) :
    Says op (op.runAttempts env started (remaining + 1) i p) s fun r items _ =>
      op.Transcript env started i s.breaker p r items := by
  induction remaining generalizing i p s with
  | zero =>
    apply says_pass aware pos p past at_
    intro d q items u retries _
    obtain ⟨_, _, _, below, _, _⟩ := retries
    omega
  | succ remaining ih =>
    apply says_pass aware pos p past at_
    intro d q items u _ reads
    exact ih (Nat.le_add_left 1 i) (by omega) q (past_later past reads)

theorem maxAttempts_pos (op : AsyncOperation V) : 1 ≤ op.maxAttempts := by
  unfold maxAttempts
  cases op.retryPolicy with
  | none => exact Nat.le_refl 1
  | some policy => exact policy.attempts_pos

def runItems (op : AsyncOperation V) (rest : List Item) : List Item :=
  .emit .operationStarted op.operationStartedPayload :: rest

/-- An uninterrupted run has a transcript, and its effects are those of the items. -/
theorem run_transcript (aware : AwareTimestamps op) (env : Environment) (s : Session) :
    ∃ started rest, op.Transcript env started 1 s.breaker {} (op.outcome env none s) rest ∧
      Expands op (op.runItems rest) (op.trace env none s) := by
  have values : finiteValues op.operationStartedPayload := finite_ofPairs (by simp)
  have whole : Says op (op.runWithoutIdempotency env) s fun r items _ => ∃ started rest,
      op.Transcript env started 1 s.breaker {} r rest ∧ items = op.runItems rest := by
    apply says_utcNow_bind
    intro startedAt t at_ first
    apply says_perfCounter_bind
    intro monotonic u past second
    apply says_emits_bind (emits_event aware _ values)
    intro v third
    have later := first.trans (second.trans third)
    obtain ⟨remaining, count⟩ := Nat.exists_eq_add_of_le op.maxAttempts_pos
    have loop := says_runAttempts ⟨startedAt, monotonic⟩ aware at_ (Nat.le_refl 1)
      count.symm {} (past_later past third.reads)
    rw [Nat.add_comm remaining 1, ← count] at loop
    apply says_mono loop
    intro r items w _ run
    rw [later.breaker] at run
    exact ⟨_, items, run, rfl⟩
  obtain ⟨r, t, items, es, ends, expands, _, started, rest, run, rfl⟩ := whole
  have same : op.runWithoutIdempotency env none s [] = (r, t, es) := ends []
  have outcome : op.outcome env none s = r := congrArg Prod.fst same
  have trace : op.trace env none s = es := congrArg (fun x => x.2.2) same
  rw [outcome, trace]
  exact ⟨started, rest, run, expands⟩

end

end AsyncOperation

end Relprim
