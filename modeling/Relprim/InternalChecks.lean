import Relprim.HintContainment
import Relprim.IdempotentResult

/-!
The checks that a run makes on its own data. `Upholds` is the judgement its blocks are
proved with: whatever is delivered, recorded, returned or raised as a report has passed the
constructor it comes from. That no check raises is then read off how the run ends, since no
error of a check is the error that a run ends with.
-/
namespace Relprim
open Interruptible Interruptible.Program Dictionary Fallible
variable {A B V : Type}

/-! What the checks raise. -/

def RaisesBuiltin (r : Except Exc A) : Prop :=
  ∀ x, r = .error x → ∃ name message, x = builtinError name message

theorem raises_ok (a : A) : RaisesBuiltin (.ok a) := nofun

theorem raises_builtin (name message : String) :
    RaisesBuiltin (.error (builtinError name message) : Except Exc A) := by
  rintro x ⟨⟩
  exact ⟨name, message, rfl⟩

theorem raises_check (ok : Bool) (name message : String) :
    RaisesBuiltin (check ok (builtinError name message)) := by
  cases ok with
  | true => exact raises_ok ()
  | false => exact raises_builtin name message

theorem raises_bind {r : Except Exc A} {f : A → Except Exc B} (first : RaisesBuiltin r)
    (second : ∀ a, RaisesBuiltin (f a)) : RaisesBuiltin (r >>= f) := by
  cases r with
  | ok a => exact second a
  | error x =>
    rintro y ⟨⟩
    exact first x rfl

theorem raises_aware (timestamp : DateTime) (name : String) :
    RaisesBuiltin (checkAware timestamp name) := raises_check _ _ _

theorem raises_frozen (values : Dict String JsonScalar) (name : String) :
    RaisesBuiltin (freezeJsonScalars values name) :=
  raises_bind (raises_check _ _ _) fun _ => raises_ok _

theorem raises_isfinite (number : JsonScalar) : RaisesBuiltin (mathIsfinite number) := by
  unfold mathIsfinite
  split
  · split
    · exact raises_ok true
    · exact raises_builtin _ _
  · exact raises_ok _
  · exact raises_ok false

theorem raises_seconds (q : ℚ) (name : String) :
    RaisesBuiltin (checkSeconds (.scalar (.seconds q)) name true) :=
  raises_bind (raises_ok (JsonScalar.seconds q, q)) fun _ =>
    raises_bind (raises_isfinite _) fun _ => raises_bind (raises_check _ _ _) fun _ =>
    raises_check _ _ _

theorem raises_plan (p : RetryPlan) : RaisesBuiltin (RetryPlan.new p) := by
  refine raises_bind (raises_check _ _ _) fun _ => ?_
  split
  · exact raises_bind (raises_check _ _ _) fun _ => raises_ok _
  · exact raises_bind (raises_check _ _ _) fun _ => raises_ok _

theorem raises_decision (d : RateLimitDecision) : RaisesBuiltin (RateLimitDecision.new d) :=
  raises_bind (raises_check _ _ _) fun _ => raises_ok _

theorem raises_attempt (a : ExecutionAttempt) : RaisesBuiltin (ExecutionAttempt.new a) :=
  raises_bind (raises_check _ _ _) fun _ => raises_bind (raises_seconds _ _) fun _ =>
    raises_bind (raises_check _ _ _) fun _ => raises_bind (raises_aware _ _) fun _ =>
    raises_bind (raises_frozen _ _) fun _ => raises_ok _

theorem raises_report (r : ExecutionReport) : RaisesBuiltin (ExecutionReport.new r) := by
  refine raises_bind (raises_check _ _ _) fun _ => raises_bind (raises_seconds _ _) fun _ => ?_
  split
  · exact raises_builtin _ _
  · exact raises_bind (raises_check _ _ _) fun _ => raises_bind (raises_check _ _ _) fun _ =>
      raises_bind (raises_aware _ _) fun _ => raises_bind (raises_frozen _ _) fun _ => raises_ok _

theorem raises_event (e : StructuredEvent) : RaisesBuiltin (StructuredEvent.new e) :=
  raises_bind (raises_check _ _ _) fun _ => raises_bind (raises_aware _ _) fun _ =>
    raises_bind (raises_frozen _ _) fun _ => raises_ok _

/-- The errors of the checks that a run makes on its own data, and of the branches of the
    loop that are there in case its own data contradicts itself. -/
inductive InternalError : Exc → Prop where
  | plan {p : RetryPlan} {x : Exc} (refused : RetryPlan.new p = .error x) : InternalError x
  | decision {d : RateLimitDecision} {x : Exc} (refused : RateLimitDecision.new d = .error x) :
      InternalError x
  | attempt {a : ExecutionAttempt} {x : Exc} (refused : ExecutionAttempt.new a = .error x) :
      InternalError x
  | report {r : ExecutionReport} {x : Exc} (refused : ExecutionReport.new r = .error x) :
      InternalError x
  | event {e : StructuredEvent} {x : Exc} (refused : StructuredEvent.new e = .error x) :
      InternalError x
  | invalidState :
      InternalError (runtimeError "AsyncOperation reached an invalid execution state.")
  | noRetryPolicy : InternalError (runtimeError "Retry sleep requested without retry policy.")
  | noRetryablePlan :
      InternalError (runtimeError "Retry sleep requested without a retryable plan.")
  | noRateLimitPolicy :
      InternalError (runtimeError "Rate-limit decision created without a rate-limit policy.")

theorem internal_builtin {x : Exc} (h : InternalError x) :
    ∃ name message, x = builtinError name message := by
  cases h with
  | plan refused => exact raises_plan _ x refused
  | decision refused => exact raises_decision _ x refused
  | attempt refused => exact raises_attempt _ x refused
  | report refused => exact raises_report _ x refused
  | event refused => exact raises_event _ x refused
  | invalidState => exact ⟨_, _, rfl⟩
  | noRetryPolicy => exact ⟨_, _, rfl⟩
  | noRetryablePlan => exact ⟨_, _, rfl⟩
  | noRateLimitPolicy => exact ⟨_, _, rfl⟩

/-! What the constructors accept. -/

def Effect.Accepted : Effect → Prop
  | .deliver _ event => StructuredEvent.new event = .ok event
  | _ => True

def AttemptsAccepted (attempts : List ExecutionAttempt) : Prop :=
  ∀ a ∈ attempts, ExecutionAttempt.new a = .ok a

structure ReportAccepted (r : ExecutionReport) : Prop where
  report : ExecutionReport.new r = .ok r
  attempts : AttemptsAccepted r.attempts

theorem attempts_accepted_record {p : Progress} (h : AttemptsAccepted p.attempts)
    {a : ExecutionAttempt} (accepted : ExecutionAttempt.new a = .ok a) :
    AttemptsAccepted (p.record a).attempts := by
  intro b member
  rcases List.mem_append.mp member with before | last
  · exact h b before
  · rw [List.mem_singleton.mp last]
    exact accepted

theorem event_new_inv {e e' : StructuredEvent} (h : StructuredEvent.new e = .ok e') : e' = e := by
  obtain ⟨_, _, h⟩ := except_bind_ok h
  obtain ⟨_, _, h⟩ := except_bind_ok h
  obtain ⟨_, frozen, h⟩ := except_bind_ok h
  obtain ⟨_, rfl⟩ := freezeJsonScalars_inv frozen
  cases h
  rfl

theorem attempt_new_inv {a a' : ExecutionAttempt} (h : ExecutionAttempt.new a = .ok a') :
    a' = a := by
  obtain ⟨_, _, h⟩ := except_bind_ok h
  obtain ⟨_, _, h⟩ := except_bind_ok h
  obtain ⟨_, _, h⟩ := except_bind_ok h
  obtain ⟨_, _, h⟩ := except_bind_ok h
  obtain ⟨_, frozen, h⟩ := except_bind_ok h
  obtain ⟨_, rfl⟩ := freezeJsonScalars_inv frozen
  cases h
  rfl

/-! What the blocks of a run uphold. -/

def Announced : Raised → Prop
  | .exception e => ∀ report cause, e.fields.execution = some (report, cause) →
      ReportAccepted report ∧ report.failed = true
  | _ => True

theorem announced_builtin (name message : String) :
    Announced (.exception (builtinError name message)) := nofun

theorem announced_foreign {e : Exc} (h : e.fields.execution = none) : Announced (.exception e) := by
  intro report cause carried
  rw [h] at carried
  cases carried

theorem announced_uncaught {x : Raised} (h : x.exception? = none) : Announced x := by
  cases x with
  | exception e => cases h
  | cancelled => trivial
  | baseException type => trivial

/-- Uninterrupted, `m` delivers accepted events, returns what satisfies `P`, and raises no
    report that was not accepted. -/
def Upholds (m : Run A) (P : A → Prop) : Prop := Performs Effect.Accepted m P Announced

section
variable {P : A → Prop}

theorem upholds_bind {m : Run A} {f : A → Run B} {R : B → Prop} (first : Upholds m P)
    (second : ∀ a, P a → Upholds (f a) R) : Upholds (m >>= f) R := performs_bind first second

theorem upholds_pure {a : A} (h : P a) : Upholds (pure a : Run A) P := performs_pure h

theorem upholds_reading (f : ℕ → A) : Upholds (Run.reading f) fun _ => True :=
  performs_atomic (fun _ _ _ => trivial) nofun

theorem upholds_elapsed (env : Environment) (startedAt : ℚ) :
    Upholds (Run.elapsedSeconds env startedAt) fun _ => True :=
  upholds_bind (upholds_reading _) fun _ _ => upholds_pure trivial

theorem upholds_throwing {e : Exc} (h : Announced (.exception e)) :
    Upholds (Run.throwing e : Run A) P := performs_raise h

theorem upholds_lift {r : Except Exc A} (errors : ∀ x, r = .error x → Announced (.exception x))
    (values : ∀ a, r = .ok a → P a) : Upholds (Run.lift r) P := by
  cases r with
  | ok a => exact performs_pure (values a rfl)
  | error x => exact performs_raise (errors x rfl)

theorem upholds_check {r : Except Exc A} (raises : RaisesBuiltin r)
    (values : ∀ a, r = .ok a → P a) : Upholds (Run.lift r) P := by
  refine upholds_lift (fun x error => ?_) values
  obtain ⟨name, message, rfl⟩ := raises x error
  exact announced_builtin name message

end

/-- The user's code, and what a policy makes of it: it delivers nothing and raises anything. -/
def Silent (m : Run A) : Prop := Performs Effect.Accepted m (fun _ => True) fun _ => True

theorem silent_bind {m : Run A} {f : A → Run B} (first : Silent m) (second : ∀ a, Silent (f a)) :
    Silent (m >>= f) := performs_bind first fun a _ => second a

theorem upholds_tryExcept {m : Run A} (h : Silent m) : Upholds (Run.tryExcept m) fun _ => True :=
  performs_mono (performs_attempt h fun _ _ uncaught => announced_uncaught uncaught)
    (fun _ _ => trivial) fun _ announced => announced

theorem silent_attempts : Attempts @Silent where
  pure _ := performs_pure trivial
  bind first second := silent_bind first second
  lift _ := performs_fromExcept (fun _ _ => trivial) fun _ _ => trivial
  candidate _ := performs_effect trivial
  tryExcept inside := performs_mono (upholds_tryExcept inside) (fun _ _ => trivial)
    fun _ _ => trivial
  primary _ := performs_effect trivial
  guarded inside _ _ := silent_bind (performs_atomic (fun _ _ _ => trivial) fun _ _ _ => trivial)
    fun _ => performs_onExit inside

namespace AsyncOperation
variable (op : AsyncOperation V) (env : Environment)

/-! Events and reports. -/

theorem upholds_deliver {event : StructuredEvent} (accepted : StructuredEvent.new event = .ok event)
    (sinks : List ℕ) : Upholds (EventEmitter.deliver event sinks) fun _ => True := by
  induction sinks with
  | nil => exact upholds_pure trivial
  | cons sink rest ih => exact upholds_bind (performs_effect accepted) fun _ _ => ih

theorem upholds_emitEvent (type : EventType) (payload : EventPayload) :
    Upholds (op.emitEvent type payload) fun _ => True := by
  unfold emitEvent
  split
  · exact upholds_pure trivial
  · rename_i emitter _
    refine upholds_bind (P := fun _ => True) ?_ fun _ _ => upholds_pure trivial
    refine upholds_bind (upholds_reading _) fun timestamp _ => ?_
    refine upholds_bind (P := fun event => StructuredEvent.new event = .ok event)
      (upholds_check (raises_event _) fun event h => ?_) fun event accepted => ?_
    · obtain rfl := event_new_inv h
      exact h
    · exact upholds_bind (upholds_deliver accepted _) fun _ _ => upholds_pure trivial

theorem upholds_announces : Announces op fun m => Upholds m fun _ => True where
  pure _ := upholds_pure trivial
  bind first second := upholds_bind first fun a _ => second a
  emit type payload := op.upholds_emitEvent type payload
  sleep _ := performs_effect trivial
  internal _ := upholds_throwing (announced_builtin _ _)

theorem upholds_emit_then {type : EventType} {payload : EventPayload} {next : Unit → Run A}
    {P : A → Prop} (h : Upholds (next ()) P) : Upholds (op.emitEvent type payload >>= next) P :=
  upholds_bind (op.upholds_emitEvent type payload) fun _ _ => h

theorem upholds_record (draft : ExecutionAttempt) :
    Upholds (Run.lift (ExecutionAttempt.new draft)) fun a =>
      a = draft ∧ ExecutionAttempt.new a = .ok a := by
  refine upholds_check (raises_attempt draft) fun a h => ?_
  obtain rfl := attempt_new_inv h
  exact ⟨rfl, h⟩

theorem upholds_buildReport (started : Started) (status : ExecutionStatus) {progress : Progress}
    (accepted : AttemptsAccepted progress.attempts) (metadata : Metadata) :
    Upholds (op.buildReport env started status progress metadata) fun report =>
      ReportAccepted report ∧ report.status = status := by
  refine upholds_bind (upholds_elapsed env _) fun duration _ => ?_
  refine upholds_check (raises_report _) fun report h => ?_
  obtain ⟨rfl, _⟩ := report_new_inv h
  exact ⟨⟨h, accepted⟩, rfl⟩

def PassAccepted : Pass V → Prop
  | .again progress => AttemptsAccepted progress.attempts
  | .returned result => ReportAccepted result.report ∧ result.report.succeeded = true

theorem upholds_succeed (started : Started) {progress : Progress}
    (accepted : AttemptsAccepted progress.attempts) (metadata : Metadata) (value : V) :
    Upholds (op.succeed env started progress metadata value) PassAccepted := by
  refine upholds_bind (op.upholds_buildReport env started _ accepted metadata) ?_
  intro report built
  obtain ⟨kept, status⟩ := built
  apply op.upholds_emit_then
  exact upholds_pure ⟨kept, by simp [ExecutionReport.succeeded, status]⟩

theorem reportStatus_failed (status : AttemptStatus) :
    reportStatusForAttemptStatus status ≠ .succeeded := by
  cases status <;> simp [reportStatusForAttemptStatus]

theorem upholds_fail (started : Started) {progress : Progress}
    (accepted : AttemptsAccepted progress.attempts) (status : AttemptStatus) (metadata : Metadata)
    (message : String) (e : Exc) :
    Upholds (op.fail env started progress status metadata message e) PassAccepted := by
  refine upholds_bind (op.upholds_buildReport env started _ accepted metadata) ?_
  intro report built
  obtain ⟨kept, reported⟩ := built
  apply op.upholds_emit_then
  apply upholds_throwing
  rintro report' cause ⟨⟩
  exact ⟨kept, by simp [ExecutionReport.failed, ExecutionReport.succeeded, reported,
    reportStatus_failed]⟩

/-! A failed attempt. -/

theorem upholds_recordFailure (attempt : ℕ) (started : Started) {progress : Progress}
    (accepted : AttemptsAccepted progress.attempts) (e : Exc) (plan : RetryPlan) :
    Upholds (op.recordFailure env attempt started progress e plan) fun p =>
      AttemptsAccepted p.attempts := by
  refine upholds_bind (op.upholds_announces.emitRateLimit _ _ _) fun _ _ =>
    upholds_bind (upholds_elapsed env _) fun duration _ =>
    upholds_bind (op.upholds_announces.emitValidationFailed _ _) fun _ _ =>
    upholds_bind (op.upholds_announces.emitCircuitBreakerRejected _ _) fun _ _ => ?_
  refine upholds_bind (upholds_record _) fun record recorded => ?_
  apply op.upholds_emit_then
  have kept : AttemptsAccepted (progress.noteRateLimit plan).attempts := by
    rw [noteRateLimit_attempts]
    exact accepted
  exact upholds_pure (attempts_accepted_record kept recorded.2)

/-! The fallback attempt. -/

theorem upholds_failFallback (started : Started) {progress : Progress}
    (accepted : AttemptsAccepted progress.attempts) (chain : FallbackChain (Except Exc V))
    (attempt : ℕ) (fallbackStarted : Started) (e : Exc) :
    Upholds (op.failFallback env started progress chain attempt fallbackStarted e)
      PassAccepted := by
  refine upholds_bind (upholds_elapsed env _) fun duration _ =>
    upholds_bind (op.upholds_announces.emitChainValidationFailed _ _ _) fun _ _ => ?_
  refine upholds_bind (upholds_record _) fun record recorded => ?_
  apply op.upholds_emit_then
  apply op.upholds_emit_then
  exact op.upholds_fail env started (attempts_accepted_record accepted recorded.2) _ _ _ _

theorem upholds_succeedFallback (started : Started) {progress : Progress}
    (accepted : AttemptsAccepted progress.attempts) (chain : FallbackChain (Except Exc V))
    (attempt : ℕ) (fallbackStarted : Started) (result : FallbackResult (V × Metadata)) :
    Upholds (op.succeedFallback env started progress chain attempt fallbackStarted result)
      PassAccepted := by
  refine upholds_bind (op.upholds_announces.emitFallbackValidationFailures _ _) fun _ _ =>
    upholds_bind (op.upholds_announces.emitValidationSucceeded _ _) fun _ _ =>
    upholds_bind (upholds_elapsed env _) fun duration _ => ?_
  refine upholds_bind (upholds_record _) fun record recorded => ?_
  apply op.upholds_emit_then
  apply op.upholds_emit_then
  exact op.upholds_succeed env started (attempts_accepted_record accepted recorded.2) _ _

theorem upholds_runFallback (started : Started) {progress : Progress}
    (accepted : AttemptsAccepted progress.attempts) (chain : FallbackChain (Except Exc V)) :
    Upholds (op.runFallback env started progress chain) PassAccepted := by
  refine upholds_bind (upholds_reading _) fun startedAt _ =>
    upholds_bind (upholds_reading _) fun monotonic _ => ?_
  apply op.upholds_emit_then
  refine upholds_bind (upholds_tryExcept (silent_attempts.toCalls.chain chain)) fun r _ => ?_
  cases r with
  | error e => exact op.upholds_failFallback env started accepted chain _ _ e
  | ok result => exact op.upholds_succeedFallback env started accepted chain _ _ result

/-! The loop. -/

theorem announced_planFailure {attempt : ℕ} (pos : 1 ≤ attempt) (e : Exc) (x : Exc)
    (h : coroutine (op.planFailure env e attempt) = .error x) : Announced (.exception x) := by
  have planning := op.planFailure_cases env pos e
  cases planned : op.planFailure env e attempt with
  | ok reported =>
    rw [planned] at h
    cases h
  | error y =>
    rw [planned] at h planning
    cases h
    cases planning with
    | escaped escapes => exact announced_foreign (op.escapes_foreign escapes)

theorem upholds_afterFailure (started : Started) {progress : Progress}
    (accepted : AttemptsAccepted progress.attempts) {attempt : ℕ} (pos : 1 ≤ attempt)
    (attemptStarted : Started) (e : Exc) :
    Upholds (op.afterFailure env started progress attempt attemptStarted e) PassAccepted := by
  refine upholds_bind (P := fun _ => True)
    (upholds_lift (op.announced_planFailure env pos e) fun _ _ => trivial) fun planned _ => ?_
  obtain ⟨e', plan⟩ := planned
  refine upholds_bind (op.upholds_recordFailure env _ _ accepted e' plan) fun p kept => ?_
  split
  · refine upholds_bind (op.upholds_announces.sleepBeforeRetry _ _) fun delay _ => upholds_pure ?_
    show AttemptsAccepted (p.noteWait plan delay).attempts
    rw [noteWait_attempts]
    exact kept
  · split
    · exact op.upholds_runFallback env started kept _
    · exact op.upholds_fail env started kept _ _ _ _

theorem upholds_afterSuccess (started : Started) {progress : Progress}
    (accepted : AttemptsAccepted progress.attempts) (attempt : ℕ) (attemptStarted : Started)
    (value : V) (metadata : Metadata) :
    Upholds (op.afterSuccess env started progress attempt attemptStarted value metadata)
      PassAccepted := by
  refine upholds_bind (op.upholds_announces.emitValidationSucceeded _ _) fun _ _ =>
    upholds_bind (upholds_elapsed env _) fun duration _ => ?_
  refine upholds_bind (upholds_record _) fun record recorded => ?_
  apply op.upholds_emit_then
  exact op.upholds_succeed env started (attempts_accepted_record accepted recorded.2) _ _

theorem upholds_runAttempt (started : Started) {attempt : ℕ} (pos : 1 ≤ attempt)
    {progress : Progress} (accepted : AttemptsAccepted progress.attempts) :
    Upholds (op.runAttempt env started attempt progress) PassAccepted := by
  refine upholds_bind (upholds_reading _) fun startedAt _ =>
    upholds_bind (upholds_reading _) fun monotonic _ => ?_
  apply op.upholds_emit_then
  refine upholds_bind (upholds_tryExcept (silent_attempts.runSingleAttempt env attempt)) fun r _ => ?_
  cases r with
  | error e => exact op.upholds_afterFailure env started accepted pos _ e
  | ok value => exact op.upholds_afterSuccess env started accepted attempt _ value.1 value.2

theorem upholds_runAttempts (started : Started) (remaining : ℕ) {attempt : ℕ} (pos : 1 ≤ attempt)
    {progress : Progress} (accepted : AttemptsAccepted progress.attempts) :
    Upholds (op.runAttempts env started remaining attempt progress) fun result =>
      ReportAccepted result.report ∧ result.report.succeeded = true := by
  induction remaining generalizing attempt progress with
  | zero => exact upholds_throwing (announced_builtin _ _)
  | succ remaining ih =>
    refine upholds_bind (op.upholds_runAttempt env started pos accepted) fun pass kept => ?_
    cases pass with
    | again progress => exact ih (Nat.le_add_left 1 attempt) kept
    | returned result => exact upholds_pure kept

theorem upholds_run : Upholds (op.runWithoutIdempotency env) fun result =>
    ReportAccepted result.report ∧ result.report.succeeded = true := by
  refine upholds_bind (upholds_reading _) fun startedAt _ =>
    upholds_bind (upholds_reading _) fun monotonic _ => ?_
  apply op.upholds_emit_then
  have empty : AttemptsAccepted ({} : Progress).attempts := List.forall_mem_nil _
  exact op.upholds_runAttempts env ⟨startedAt, monotonic⟩ op.maxAttempts (Nat.le_refl 1) empty

/-! Plans. -/

theorem planned_accepted {i : ℕ} {e e' : Exc} {plan : RetryPlan} (h : op.Planned env i e e' plan) :
    RetryPlan.new plan = .ok plan := by
  cases h with
  | extraction => rfl
  | single => rfl
  | limitedLast => rfl
  | exceeded => rfl
  | waited => rfl
  | unmatched => rfl
  | last => rfl
  | retried => rfl

/-- The classification of a failure is a decision that passes its constructor, or a failed
    extraction. -/
theorem decision_accepted {i : ℕ} {e : Exc} (planned : ∀ x, ¬ op.Escapes i e x) :
    (∃ d, op.rateLimitDecision e i = .ok d ∧ RateLimitDecision.new d = .ok d) ∨
      ∃ x, op.rateLimitDecision e i = .error x ∧ x.fields.extraction.isSome = true := by
  unfold rateLimitDecision
  cases configured : op.rateLimitPolicy with
  | none => exact .inl ⟨_, rfl, rfl⟩
  | some limit =>
    by_cases matched : e.isInstance limit.rateLimitOn = true
    · simp only [RateLimitPolicy.evaluate_matched i matched]
      rcases limit.hint_cases i e with ⟨q, hint⟩ | ⟨x, hint, failure | raises⟩
      · exact .inl ⟨_, by rw [hint]; rfl, rfl⟩
      · refine .inr ⟨x, by rw [hint]; rfl, ?_⟩
        obtain ⟨message, cause, rfl⟩ := failure
        rfl
      · refine .inr ⟨x, by rw [hint]; rfl, ?_⟩
        by_contra uncaught
        exact planned x ⟨⟨limit, configured, matched, raises⟩, by simpa using uncaught⟩
    · have unmatched : e.isInstance limit.rateLimitOn = false := by simpa using matched
      exact .inl ⟨_, RateLimitPolicy.evaluate_unmatched i unmatched, rfl⟩

/-- The plan for a failure passes its constructor, and where it retries, there is a policy,
    a delay and an attempt left. -/
def PlanAccepted (i : ℕ) (e : Exc) : Prop :=
  ∃ e' plan, op.planFailure env e i = .ok (e', plan) ∧ RetryPlan.new plan = .ok plan ∧
    (plan.willRetry = true → i < op.maxAttempts ∧ op.retryPolicy.isSome = true ∧
      plan.delaySeconds.isSome = true)

theorem plan_accepted {i : ℕ} (pos : 1 ≤ i) {e : Exc} (caught : ∀ x, ¬ op.Escapes i e x) :
    op.PlanAccepted env i e := by
  have planning := op.planFailure_cases env pos e
  cases planned : op.planFailure env e i with
  | error x =>
    rw [planned] at planning
    cases planning with
    | escaped escapes => exact absurd escapes (caught x)
  | ok reported =>
    obtain ⟨e', plan⟩ := reported
    rw [planned] at planning
    cases planning with
    | planned planning =>
      refine ⟨e', plan, planned, op.planned_accepted env planning, fun again => ?_⟩
      obtain ⟨left, policy, d, configured, delay⟩ := op.planned_again env planning again
      exact ⟨left, by rw [configured]; rfl, by rw [delay]; rfl⟩

/-! Whole runs. -/

/-- How a run may end: a result with an accepted report that succeeded, which stays so when the
    keys of an idempotency result are added, or its own error with an accepted report that
    failed. -/
inductive EndsAccepted : Except Raised (OperationResult V) → Prop where
  | returned {result : OperationResult V} (accepted : ReportAccepted result.report)
      (succeeded : result.report.succeeded = true)
      (stored : ∀ r : IdempotencyResult (OperationResult V), r.value = result → ∃ keyed,
        operationResultWithIdempotencyMetadata r = .ok keyed ∧ keyed.report.succeeded = true) :
      EndsAccepted (.ok result)
  | raised {message : String} {report : ExecutionReport} {cause : Exc}
      (accepted : ReportAccepted report) (failed : report.failed = true) :
      EndsAccepted (.error (.exception (operationExecutionError message report cause)))

structure ChecksHold (s : Session) : Prop where
  decisions : ∀ i e, (op.attemptAt env s.breaker i).outcome = .error e →
    (∃ d, op.rateLimitDecision e i = .ok d ∧ RateLimitDecision.new d = .ok d) ∨
      ∃ x, op.rateLimitDecision e i = .error x ∧ x.fields.extraction.isSome = true
  plans : ∀ i e, 1 ≤ i → (op.attemptAt env s.breaker i).outcome = .error e →
    op.PlanAccepted env i e
  events : ∀ effect ∈ op.trace env none s, effect.Accepted
  unreached : ∀ x, InternalError x → op.outcome env none s ≠ .error (.exception x)
  ends : EndsAccepted (op.outcome env none s)

end AsyncOperation

theorem internal_not_execution {x : Exc} (h : InternalError x) (message : String)
    (report : ExecutionReport) (cause : Exc) :
    x ≠ operationExecutionError message report cause := by
  obtain ⟨name, text, rfl⟩ := internal_builtin h
  simp [builtinError, operationExecutionError, relprimError]

theorem surfaces_announceable {op : AsyncOperation V} {env : Environment} {b : BreakerState}
    (announced : op.Announceable env b) {r : Except Raised (OperationResult V)}
    (h : op.Surfaces env b r) : (∃ result, r = .ok result) ∨ ∃ message report cause,
      r = .error (.exception (operationExecutionError message report cause)) := by
  cases h with
  | returned result => exact .inl ⟨result, rfl⟩
  | raised message report cause => exact .inr ⟨message, report, cause, rfl⟩
  | @unannounced i e reached outcome readable refused =>
    have accepted := announced i e outcome
    rw [AsyncOperation.readable_reported readable, refused] at accepted
    cases accepted

/-- With a provider that gives a readable hint or fails as an extraction, and failures whose
    events can be made, an uninterrupted run takes none of its internal error branches: it
    returns a result whose report succeeded or raises its own error with a report that failed. -/
theorem internal_checks_hold (op : AsyncOperation V) (env : Environment) (s : Session)
    (aware : AwareTimestamps op) (surfaces : op.ExtractionSurfaces env s.breaker)
    (announced : op.Announceable env s.breaker) : op.ChecksHold env s := by
  have caught (i : ℕ) (e : Exc) (outcome : (op.attemptAt env s.breaker i).outcome = .error e) :
      ∀ x, ¬ op.Escapes i e x := op.surfaces_not_escapes env surfaces outcome
  have first : op.Reaches env s.breaker 1 := ⟨Nat.le_refl 1, fun j pos below => by omega⟩
  obtain ⟨started, rest, run, _⟩ := AsyncOperation.run_transcript aware env s
  have guarded : op.Guarded env s.breaker := by
    intro i e x _ outcome raises
    constructor
    · by_contra uncaught
      exact caught i e outcome x ⟨raises, by simpa using uncaught⟩
    · have accepted := announced i e outcome
      rwa [AsyncOperation.unreadable_reported
        (AsyncOperation.hintRaises_unreadable raises)] at accepted
  have surfaced := surfaces_announceable announced
    (AsyncOperation.transcript_surfaces first rfl guarded run)
  obtain ⟨⟨es, trace, effects⟩, returned, raised⟩ := op.upholds_run env s []
  constructor
  · exact fun i e outcome => op.decision_accepted (caught i e outcome)
  · exact fun i e pos outcome => op.plan_accepted env pos (caught i e outcome)
  · intro effect member
    have whole : op.trace env none s = es := trace
    rw [whole] at member
    exact effects effect member
  · intro x internal same
    rcases surfaced with ⟨result, ok⟩ | ⟨message, report, cause, own⟩
    · rw [ok] at same
      cases same
    · rw [own] at same
      cases same
      exact internal_not_execution internal message report cause rfl
  · rcases surfaced with ⟨result, ok⟩ | ⟨message, report, cause, own⟩
    · obtain ⟨accepted, succeeded⟩ := returned result ok
      rw [ok]
      refine .returned accepted succeeded fun r same => ?_
      have reported : Reported r.value := by
        rw [same]
        exact op.yields_run env none s [] result ok
      obtain ⟨keyed, added, _, report⟩ := idempotency_metadata_added reported
      refine ⟨keyed, added, ?_⟩
      rw [report, same]
      exact succeeded
    · obtain ⟨accepted, failed⟩ := raised _ own report cause rfl
      rw [own]
      exact .raised accepted failed

theorem limitedOnce_checks_hold : limitedOnce.ChecksHold steady {} := by
  have surfaces : limitedOnce.ExtractionSurfaces steady ({} : Session).breaker := by
    rintro i e limit _ limits _
    cases limits
    exact .inl ⟨_, .answered rfl (.seconds rfl (by decide +kernel))⟩
  exact internal_checks_hold limitedOnce steady {} limitedOnce_aware surfaces
    fun i e outcome => (limitedOnce_handled outcome).accepted

end Relprim
