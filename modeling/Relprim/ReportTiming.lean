import Mathlib.Algebra.Order.BigOperators.Group.List
import Mathlib.Data.Int.ConditionallyCompleteOrder
import Relprim.InternalChecks
import Relprim.ReportDicts

/-!
The times of a report. They are readings that the run made of its clocks, in the order it
made them; so the attempts follow one another and fit into the duration of the report.
-/
namespace Relprim
open Interruptible Interruptible.Program Dictionary
variable {A B V : Type}

/-- The attempt began at reading `k` of the clocks and was measured at reading `l`. -/
structure Took (env : Environment) (k l : ℕ) (a : ExecutionAttempt) : Prop where
  later : k < l
  startedAt : a.startedAt = .utc (env.utcNow k)
  duration : a.durationSeconds = env.perfCounter l - env.perfCounter (k + 1)

/-- Attempts one after the other, from reading `m` on and before reading `n`. -/
def Timed (env : Environment) : ℕ → List ExecutionAttempt → ℕ → Prop
  | m, [], n => m ≤ n
  | m, a :: as, n => ∃ k l, m ≤ k ∧ Took env k l a ∧ Timed env (l + 1) as n

structure Clocked (env : Environment) (k : ℕ) (report : ExecutionReport) : Prop where
  startedAt : report.startedAt = .utc (env.utcNow k)
  ended : ∃ l, report.durationSeconds = env.perfCounter l - env.perfCounter (k + 1) ∧
    Timed env (k + 2) report.attempts l

section
variable {env : Environment} {as : List ExecutionAttempt}

theorem timed_later {m n j : ℕ} (h : Timed env m as n) (le : n ≤ j) : Timed env m as j := by
  induction as generalizing m with
  | nil => exact Nat.le_trans h le
  | cons a as ih =>
    obtain ⟨k, l, from_, took, rest⟩ := h
    exact ⟨k, l, from_, took, ih rest⟩

theorem timed_snoc {m n k l : ℕ} {a : ExecutionAttempt} (h : Timed env m as k)
    (took : Took env k l a) (before : l < n) : Timed env m (as ++ [a]) n := by
  induction as generalizing m with
  | nil => exact ⟨k, l, h, took, before⟩
  | cons b as ih =>
    obtain ⟨i, j, from_, first, rest⟩ := h
    exact ⟨i, j, from_, first, ih rest⟩

/-- Attempts that follow one another last no longer than from the first reading to the last. -/
theorem timed_sum {m n : ℕ} (h : Timed env m as n) :
    (as.map (·.durationSeconds)).sum ≤ env.perfCounter n - env.perfCounter m := by
  induction as generalizing m with
  | nil =>
    have passed := env.perf_mono (show m ≤ n from h)
    simpa using passed
  | cons a as ih =>
    obtain ⟨k, l, from_, took, rest⟩ := h
    have sum := ih rest
    have before := env.perf_mono (Nat.le_succ_of_le from_)
    have between := env.perf_mono (Nat.le_succ l)
    rw [List.map_cons, List.sum_cons, took.duration]
    linarith

theorem timed_started {m n : ℕ} (h : Timed env m as n) {a : ExecutionAttempt} (member : a ∈ as) :
    ∃ k, m ≤ k ∧ a.startedAt = .utc (env.utcNow k) ∧ 0 ≤ a.durationSeconds := by
  induction as generalizing m with
  | nil => cases member
  | cons b as ih =>
    obtain ⟨k, l, from_, took, rest⟩ := h
    rcases List.mem_cons.mp member with rfl | later
    · have passed := env.perf_mono took.later
      exact ⟨k, from_, took.startedAt, by rw [took.duration]; linarith⟩
    · obtain ⟨j, after, started⟩ := ih rest later
      have before := took.later
      exact ⟨j, by omega, started⟩

theorem timed_order (forward : Monotone env.utcNow) {m n : ℕ} (h : Timed env m as n) :
    as.Pairwise fun a b => a.startedAt.instant ≤ b.startedAt.instant := by
  induction as generalizing m with
  | nil => exact .nil
  | cons a as ih =>
    obtain ⟨k, l, from_, took, rest⟩ := h
    refine .cons ?_ (ih rest)
    intro b member
    obtain ⟨j, after, started, _⟩ := timed_started rest member
    have before := took.later
    rw [took.startedAt, started]
    exact forward (show k ≤ j by omega)

end

/-! How the clocks are read. -/

def Unreported : Raised → Prop
  | .exception e => e.fields.execution = none
  | _ => True

def Owned (env : Environment) (k : ℕ) : Raised → Prop
  | .exception e => ∀ report cause, e.fields.execution = some (report, cause) →
      Clocked env k report
  | _ => True

theorem owned_unreported {env : Environment} {k : ℕ} {x : Raised} (h : Unreported x) :
    Owned env k x := by
  cases x with
  | exception e =>
    intro report cause found
    rw [show e.fields.execution = none from h] at found
    cases found
  | cancelled => trivial
  | baseException type => trivial

abbrev Timely (env : Environment) (k n : ℕ) (m : Run A) (P : A → ℕ → Prop) : Prop :=
  Advances Session.reads n m P (Owned env k)

def Quiet (m : Run A) : Prop := ∀ n, Advances Session.reads n m (fun _ _ => True) Unreported

/-- The user's code: it reads no clock of the run and raises anything. -/
def Foreign (m : Run A) : Prop := ∀ n, Advances Session.reads n m (fun _ _ => True) fun _ => True

section
variable {env : Environment} {k n : ℕ} {P : A → ℕ → Prop} {Q : Raised → Prop}

theorem timely_bind {m : Run B} {f : B → Run A} {R : B → ℕ → Prop} (first : Timely env k n m R)
    (second : ∀ b j, n ≤ j → R b j → Timely env k j (f b) P) : Timely env k n (m >>= f) P :=
  advances_bind first second

theorem timely_quiet {m : Run B} {f : B → Run A} (quiet : Quiet m)
    (next : ∀ b j, n ≤ j → Timely env k j (f b) P) : Timely env k n (m >>= f) P :=
  advances_bind (advances_mono (quiet n) (fun _ _ _ _ => trivial) fun _ h => owned_unreported h)
    fun b j le _ => next b j le

theorem quiet_pure (a : A) : Quiet (pure a : Run A) := fun _ => advances_pure trivial

theorem quiet_bind {m : Run B} {f : B → Run A} (first : Quiet m) (second : ∀ b, Quiet (f b)) :
    Quiet (m >>= f) := fun n => advances_bind (first n) fun b j _ _ => second b j

theorem unreported_builtin {r : Except Exc A} (raises : RaisesBuiltin r) {x : Raised}
    (h : r.mapError .exception = .error x) : Unreported x := by
  cases r with
  | ok a => cases h
  | error e =>
    obtain ⟨name, message, rfl⟩ := raises e rfl
    cases h
    rfl

theorem quiet_lift {r : Except Exc A} (raises : RaisesBuiltin r) : Quiet (Run.lift r) :=
  fun _ => advances_fromExcept (fun _ _ => trivial) fun _ h => unreported_builtin raises h

theorem advances_reading (f : ℕ → A) :
    Advances Session.reads n (Run.reading f) (fun a j => j = n + 1 ∧ a = f n) Q := by
  refine advances_atomic (fun s shows => ?_) ?_ nofun
  · exact Nat.le_succ_of_le (Nat.le_of_eq shows.symm)
  · rintro s a rfl ⟨⟩
    exact ⟨rfl, rfl⟩

theorem advances_elapsed (env : Environment) (at_ : ℚ) :
    Advances Session.reads n (Run.elapsedSeconds env at_)
      (fun d j => j = n + 1 ∧ d = env.perfCounter n - at_) Q := by
  refine advances_bind (advances_reading _) fun now j _ shows => advances_pure ?_
  obtain ⟨rfl, rfl⟩ := shows
  exact ⟨rfl, rfl⟩

theorem quiet_reading (f : ℕ → A) : Quiet (Run.reading f) :=
  fun _ => advances_mono (advances_reading f) (fun _ _ _ _ => trivial) fun _ h => h

theorem quiet_effect (e : Effect) : Quiet (effect e : Run Unit) :=
  fun _ => advances_mono (advances_effect e) (fun _ _ _ _ => trivial) fun _ h => h

theorem quiet_throwing {e : Exc} (h : e.fields.execution = none) :
    Quiet (Run.throwing e : Run A) := fun _ => advances_raise h

theorem foreign_bind {m : Run B} {f : B → Run A} (first : Foreign m)
    (second : ∀ b, Foreign (f b)) : Foreign (m >>= f) :=
  fun n => advances_bind (first n) fun b j _ _ => second b j

theorem foreign_lift (r : Except Exc A) : Foreign (Run.lift r) :=
  fun _ => advances_fromExcept (fun _ _ => trivial) fun _ _ => trivial

theorem foreign_quiet {m : Run A} (h : Quiet m) : Foreign m :=
  fun n => advances_mono (h n) (fun _ _ _ _ => trivial) fun _ _ => trivial

theorem quiet_tryExcept {m : Run A} (h : Foreign m) : Quiet (Run.tryExcept m) := by
  intro n
  have uncaught (x : Raised) (h : x.exception? = none) : Unreported x := by
    cases x with
    | exception e => cases h
    | cancelled => trivial
    | baseException type => trivial
  exact advances_mono (advances_attempt (h n) fun x _ none => uncaught x none)
    (fun _ _ _ _ => trivial) fun _ h => h

theorem foreign_attempts : Attempts @Foreign where
  pure a := foreign_quiet (quiet_pure a)
  bind first second := foreign_bind first second
  lift r := foreign_lift r
  candidate _ := foreign_quiet (quiet_effect _)
  tryExcept inside := foreign_quiet (quiet_tryExcept inside)
  primary _ := foreign_quiet (quiet_effect _)
  guarded inside _ _ := by
    refine foreign_bind (fun n => ?_) fun probe n => advances_onExit (fun _ _ => rfl) (inside n)
    exact advances_atomic (fun s shows => Nat.le_of_eq shows.symm) (fun _ _ _ _ => trivial)
      fun _ _ _ => trivial

end

theorem reportOf_spec {P : ExecutionReport → Prop} {r : Except Raised (OperationResult V)}
    (returned : ∀ result, r = .ok result → P result.report)
    (raised : ∀ e entry, r = .error (.exception e) → e.fields.execution = some entry → P entry.1)
    {report : ExecutionReport} (found : reportOf r = some report) : P report := by
  cases r with
  | ok result =>
    cases found
    exact returned result rfl
  | error x =>
    cases x with
    | exception e =>
      obtain ⟨entry, attached, rfl⟩ := Option.map_eq_some_iff.mp found
      exact raised e entry rfl attached
    | cancelled => cases found
    | baseException type => cases found

namespace AsyncOperation
variable (op : AsyncOperation V) (env : Environment)

/-! The events. -/

theorem quiet_deliver (event : StructuredEvent) (sinks : List ℕ) :
    Quiet (EventEmitter.deliver event sinks) := by
  induction sinks with
  | nil => exact quiet_pure ()
  | cons sink rest ih => exact quiet_bind (quiet_effect _) fun _ => ih

theorem quiet_emitEvent (type : EventType) (payload : EventPayload) :
    Quiet (op.emitEvent type payload) := by
  unfold emitEvent
  split
  · exact quiet_pure ()
  · refine quiet_bind (quiet_bind (quiet_reading _) fun timestamp => ?_) fun _ => quiet_pure ()
    refine quiet_bind (quiet_lift (raises_event _)) fun event => ?_
    exact quiet_bind (quiet_deliver _ _) fun _ => quiet_pure event

theorem quiet_planFailure {attempt : ℕ} (pos : 1 ≤ attempt) (e : Exc) :
    Quiet (Run.lift (coroutine (op.planFailure env e attempt))) := by
  have planning := op.planFailure_cases env pos e
  cases planned : op.planFailure env e attempt with
  | ok reported => exact quiet_pure reported
  | error x =>
    rw [planned] at planning
    cases planning with
    | escaped escapes => exact quiet_throwing (op.escapes_foreign escapes)

theorem quiet_announces : Announces op @Quiet where
  pure a := quiet_pure a
  bind first second := quiet_bind first second
  emit type payload := op.quiet_emitEvent type payload
  sleep _ := quiet_effect _
  internal _ := quiet_throwing rfl

/-! The records and the report. -/

structure BegunAt (k : ℕ) (started : Started) : Prop where
  at_ : started.at_ = .utc (env.utcNow k)
  monotonic : started.monotonic = env.perfCounter (k + 1)

def PassTimed (k : ℕ) : Pass V → ℕ → Prop
  | .again progress, n => Timed env (k + 2) progress.attempts n
  | .returned result, _ => Clocked env k result.report

section
variable {op : AsyncOperation V} {env : Environment} {k n : ℕ} {started : Started}

theorem timely_record {P : A → ℕ → Prop} {draft : ExecutionAttempt}
    {f : ExecutionAttempt → Run A} (next : Timely env k n (f draft) P) :
    Timely env k n (Run.lift (ExecutionAttempt.new draft) >>= f) P := by
  refine timely_bind (R := fun a j => a = draft ∧ j = n) (advances_fromExcept ?_ ?_) ?_
  · intro a h
    cases built : ExecutionAttempt.new draft with
    | error e =>
      rw [built] at h
      cases h
    | ok b =>
      rw [built] at h
      cases h
      exact ⟨attempt_new_inv built, rfl⟩
  · exact fun x h => owned_unreported (unreported_builtin (raises_attempt draft) h)
  · rintro a j _ ⟨rfl, rfl⟩
    exact next

theorem timely_buildReport (begun : BegunAt env k started) {progress : Progress}
    (timed : Timed env (k + 2) progress.attempts n) (status : ExecutionStatus)
    (metadata : Metadata) :
    Timely env k n (op.buildReport env started status progress metadata) fun report _ =>
      Clocked env k report := by
  refine timely_bind (advances_elapsed env _) fun d j _ read => ?_
  obtain ⟨rfl, rfl⟩ := read
  refine advances_fromExcept ?_ ?_
  · intro report h
    cases built : ExecutionReport.new (op.reportDraft started.at_ (env.perfCounter n -
        started.monotonic) status progress metadata) with
    | error e =>
      rw [built] at h
      cases h
    | ok b =>
      rw [built] at h
      cases h
      obtain ⟨rfl, _⟩ := report_new_inv built
      exact ⟨begun.at_, n, by rw [← begun.monotonic]; rfl, timed⟩
  · exact fun x h => owned_unreported (unreported_builtin (raises_report _) h)

theorem timely_succeed (begun : BegunAt env k started) {progress : Progress}
    (timed : Timed env (k + 2) progress.attempts n) (metadata : Metadata) (value : V) :
    Timely env k n (op.succeed env started progress metadata value) (PassTimed env k) := by
  refine timely_bind (timely_buildReport begun timed _ metadata) fun report j _ clocked => ?_
  exact timely_quiet (op.quiet_emitEvent _ _) fun _ _ _ => advances_pure clocked

theorem timely_fail (begun : BegunAt env k started) {progress : Progress}
    (timed : Timed env (k + 2) progress.attempts n) (status : AttemptStatus) (metadata : Metadata)
    (message : String) (e : Exc) :
    Timely env k n (op.fail env started progress status metadata message e) (PassTimed env k) := by
  refine timely_bind (timely_buildReport begun timed _ metadata) fun report j _ clocked => ?_
  refine timely_quiet (op.quiet_emitEvent _ _) fun _ _ _ => advances_raise ?_
  rintro report' cause ⟨⟩
  exact clocked

structure Open (env : Environment) (k m n : ℕ) (begun : Started) (progress : Progress) : Prop where
  begun : BegunAt env m begun
  before : m < n
  timed : Timed env (k + 2) progress.attempts m

theorem Open.later {k m n j : ℕ} {begun : Started} {progress : Progress}
    (h : Open env k m n begun progress) (le : n ≤ j) : Open env k m j begun progress :=
  ⟨h.begun, Nat.lt_of_lt_of_le h.before le, h.timed⟩

theorem Open.record {k m n j : ℕ} {begun : Started} {progress : Progress}
    (h : Open env k m n begun progress) (after : n < j) {a : ExecutionAttempt}
    (at_ : a.startedAt = begun.at_)
    (duration : a.durationSeconds = env.perfCounter n - begun.monotonic) :
    Timed env (k + 2) (progress.record a).attempts j := by
  refine timed_snoc h.timed ⟨h.before, ?_, ?_⟩ after
  · rw [at_, h.begun.at_]
  · rw [duration, h.begun.monotonic]

theorem timely_recordFailure {m attempt : ℕ} {begun : Started} {progress : Progress}
    (opened : Open env k m n begun progress) (e : Exc) (plan : RetryPlan) :
    Timely env k n (op.recordFailure env attempt begun progress e plan) fun p j =>
      Timed env (k + 2) p.attempts j := by
  refine timely_quiet (op.quiet_announces.emitRateLimit _ _ _) fun _ i le => ?_
  refine timely_bind (advances_elapsed env _) fun d j _ read => ?_
  obtain ⟨rfl, rfl⟩ := read
  refine timely_quiet (op.quiet_announces.emitValidationFailed _ _) fun _ j second => ?_
  refine timely_quiet (op.quiet_announces.emitCircuitBreakerRejected _ _) fun _ j' third => timely_record ?_
  refine timely_quiet (op.quiet_emitEvent _ _) fun _ l fourth => advances_pure ?_
  have noted : Open env k m i begun (progress.noteRateLimit plan) := by
    obtain ⟨begun, before, timed⟩ := opened.later le
    refine ⟨begun, before, ?_⟩
    rwa [noteRateLimit_attempts]
  exact noted.record (by omega) rfl rfl

theorem timely_failFallback (begun : BegunAt env k started) {m attempt : ℕ} {again : Started}
    {progress : Progress} (opened : Open env k m n again progress)
    (chain : FallbackChain (Except Exc V)) (e : Exc) :
    Timely env k n (op.failFallback env started progress chain attempt again e)
      (PassTimed env k) := by
  refine timely_bind (advances_elapsed env _) fun d j _ read => ?_
  obtain ⟨rfl, rfl⟩ := read
  refine timely_quiet (op.quiet_announces.emitChainValidationFailed _ _ _) fun _ j second => timely_record ?_
  refine timely_quiet (op.quiet_emitEvent _ _) fun _ j' third => ?_
  refine timely_quiet (op.quiet_emitEvent _ _) fun _ l fourth => ?_
  exact timely_fail begun (opened.record (by omega) rfl rfl) _ _ _ _

theorem timely_succeedFallback (begun : BegunAt env k started) {m attempt : ℕ} {again : Started}
    {progress : Progress} (opened : Open env k m n again progress)
    (chain : FallbackChain (Except Exc V)) (result : FallbackResult (V × Metadata)) :
    Timely env k n (op.succeedFallback env started progress chain attempt again result)
      (PassTimed env k) := by
  refine timely_quiet (op.quiet_announces.emitFallbackValidationFailures _ _) fun _ i first => ?_
  refine timely_quiet (op.quiet_announces.emitValidationSucceeded _ _) fun _ i' second => ?_
  refine timely_bind (advances_elapsed env _) fun d j _ read => ?_
  obtain ⟨rfl, rfl⟩ := read
  refine timely_record ?_
  refine timely_quiet (op.quiet_emitEvent _ _) fun _ j third => ?_
  refine timely_quiet (op.quiet_emitEvent _ _) fun _ l fourth => ?_
  exact timely_succeed begun
    ((opened.later (Nat.le_trans first second)).record (by omega) rfl rfl) _ _

theorem timely_begin {P : A → ℕ → Prop} {progress : Progress}
    (timed : Timed env (k + 2) progress.attempts n) {type : EventType} {payload : EventPayload}
    {f : DateTime → ℚ → Run A}
    (next : ∀ j at_ monotonic, Open env k n j ⟨at_, monotonic⟩ progress →
      Timely env k j (f at_ monotonic) P) :
    Timely env k n (do
      let startedAt ← Run.utcNow env
      let monotonic ← Run.perfCounter env
      op.emitEvent type payload
      f startedAt monotonic) P := by
  refine timely_bind (advances_reading _) fun at_ i _ read => ?_
  obtain ⟨rfl, rfl⟩ := read
  refine timely_bind (advances_reading _) fun monotonic j _ read => ?_
  obtain ⟨rfl, rfl⟩ := read
  refine timely_quiet (op.quiet_emitEvent _ _) fun _ l le => ?_
  exact next l _ _ ⟨⟨rfl, rfl⟩, by omega, timed⟩

theorem timely_runFallback (begun : BegunAt env k started) {progress : Progress}
    (timed : Timed env (k + 2) progress.attempts n) (chain : FallbackChain (Except Exc V)) :
    Timely env k n (op.runFallback env started progress chain) (PassTimed env k) := by
  refine timely_begin timed fun j at_ monotonic opened => ?_
  refine timely_quiet (quiet_tryExcept (foreign_attempts.toCalls.chain chain)) fun r l le => ?_
  cases r with
  | error e => exact timely_failFallback begun (opened.later le) chain e
  | ok result => exact timely_succeedFallback begun (opened.later le) chain result

/-! The loop. -/

theorem timely_afterFailure (begun : BegunAt env k started) {m attempt : ℕ} (pos : 1 ≤ attempt)
    {again : Started} {progress : Progress} (opened : Open env k m n again progress) (e : Exc) :
    Timely env k n (op.afterFailure env started progress attempt again e) (PassTimed env k) := by
  refine timely_quiet (op.quiet_planFailure env pos e) fun planned i le => ?_
  obtain ⟨e', plan⟩ := planned
  refine timely_bind (timely_recordFailure (opened.later le) e' plan) fun p j _ timed => ?_
  split
  · refine timely_quiet (op.quiet_announces.sleepBeforeRetry _ _) fun delay l later => advances_pure ?_
    show Timed env (k + 2) (p.noteWait plan delay).attempts l
    rw [noteWait_attempts]
    exact timed_later timed later
  · split
    · exact timely_runFallback begun timed _
    · exact timely_fail begun timed _ _ _ _

theorem timely_afterSuccess (begun : BegunAt env k started) {m attempt : ℕ} {again : Started}
    {progress : Progress} (opened : Open env k m n again progress) (value : V)
    (metadata : Metadata) :
    Timely env k n (op.afterSuccess env started progress attempt again value metadata)
      (PassTimed env k) := by
  refine timely_quiet (op.quiet_announces.emitValidationSucceeded _ _) fun _ i le => ?_
  refine timely_bind (advances_elapsed env _) fun d j _ read => ?_
  obtain ⟨rfl, rfl⟩ := read
  refine timely_record (timely_quiet (op.quiet_emitEvent _ _) fun _ l later => ?_)
  exact timely_succeed begun ((opened.later le).record (by omega) rfl rfl) _ _

theorem timely_runAttempt (begun : BegunAt env k started) {attempt : ℕ} (pos : 1 ≤ attempt)
    {progress : Progress} (timed : Timed env (k + 2) progress.attempts n) :
    Timely env k n (op.runAttempt env started attempt progress) (PassTimed env k) := by
  refine timely_begin timed fun j at_ monotonic opened => ?_
  refine timely_quiet (quiet_tryExcept (foreign_attempts.runSingleAttempt env attempt)) fun r l le => ?_
  cases r with
  | error e => exact timely_afterFailure begun pos (opened.later le) e
  | ok value => exact timely_afterSuccess begun (opened.later le) value.1 value.2

theorem timely_runAttempts (begun : BegunAt env k started) (remaining : ℕ) {attempt : ℕ}
    (pos : 1 ≤ attempt) {progress : Progress} (timed : Timed env (k + 2) progress.attempts n) :
    Timely env k n (op.runAttempts env started remaining attempt progress) fun result _ =>
      Clocked env k result.report := by
  induction remaining generalizing attempt progress n with
  | zero => exact advances_raise nofun
  | succ remaining ih =>
    refine timely_bind (timely_runAttempt begun pos timed) fun pass j _ kept => ?_
    cases pass with
    | again progress => exact ih (Nat.le_add_left 1 attempt) kept
    | returned result => exact advances_pure kept

end

theorem timely_run (k : ℕ) : Timely env k k (op.runWithoutIdempotency env) fun result _ =>
    Clocked env k result.report := by
  refine timely_bind (advances_reading _) fun at_ i _ read => ?_
  obtain ⟨rfl, rfl⟩ := read
  refine timely_bind (advances_reading _) fun monotonic j _ read => ?_
  obtain ⟨rfl, rfl⟩ := read
  refine timely_quiet (op.quiet_emitEvent _ _) fun _ l le => ?_
  exact timely_runAttempts ⟨rfl, rfl⟩ op.maxAttempts (Nat.le_refl 1) le

theorem report_clocked {s : Session} {report : ExecutionReport}
    (found : reportOf (op.outcome env none s) = some report) : Clocked env s.reads report := by
  obtain ⟨_, returned, raised⟩ := op.timely_run env s.reads s [] rfl
  exact reportOf_spec returned (fun e entry out attached => raised _ out entry.1 entry.2 attached)
    found

end AsyncOperation

/-- Every attempt of a report takes no negative time, and all of them together no more than the
    report says; and on a wall clock that does not go back they begin in order, the first of
    them after the operation. -/
theorem attempts_fit_report (op : AsyncOperation V) (env : Environment) (s : Session)
    (report : ExecutionReport) (found : reportOf (op.outcome env none s) = some report) :
    (∀ a ∈ report.attempts, 0 ≤ a.durationSeconds) ∧
      (report.attempts.map (·.durationSeconds)).sum ≤ report.durationSeconds ∧
      (Monotone env.utcNow →
        (∀ a ∈ report.attempts, report.startedAt.instant ≤ a.startedAt.instant) ∧
        report.attempts.Pairwise fun a b => a.startedAt.instant ≤ b.startedAt.instant) := by
  obtain ⟨startedAt, l, duration, timed⟩ := op.report_clocked env found
  refine ⟨?_, ?_, fun forward => ⟨?_, timed_order forward timed⟩⟩
  · intro a member
    obtain ⟨_, _, _, nonneg⟩ := timed_started timed member
    exact nonneg
  · have sum := timed_sum timed
    have before := env.perf_mono (Nat.le_succ (s.reads + 1))
    rw [duration]
    linarith
  · intro a member
    obtain ⟨j, after, started, _⟩ := timed_started timed member
    rw [startedAt, started]
    exact forward (show s.reads ≤ j by omega)

theorem steady_forward : Monotone steady.utcNow := fun _ _ le => Int.ofNat_le.mpr le

theorem limitedOnce_fits : ∃ report, reportOf (limitedOnce.outcome steady none {}) = some report ∧
    (report.attempts.map (·.durationSeconds)).sum ≤ report.durationSeconds ∧
    report.attempts.Pairwise fun a b => a.startedAt.instant ≤ b.startedAt.instant := by
  have reported : (reportOf (limitedOnce.outcome steady none {})).isSome = true := by
    decide +kernel
  obtain ⟨report, found⟩ := Option.isSome_iff_exists.mp reported
  obtain ⟨_, sum, order⟩ := attempts_fit_report limitedOnce steady {} report found
  exact ⟨report, found, sum, (order steady_forward).2⟩

theorem run_report_dict_read (op : AsyncOperation V) (env : Environment) (s : Session)
    (year : ∀ n, 0 ≤ env.utcNow n ∧ env.utcNow n < Calendar.endOfTime) {report : ExecutionReport}
    (found : reportOf (op.outcome env none s) = some report) :
    ExecutionReport.ofDict report.toDict = some report := by
  obtain ⟨startedAt, l, _, timed⟩ := op.report_clocked env found
  have holds (n : ℕ) : (DateTime.utc (env.utcNow n)).Holds := by
    rintro offset ⟨⟩
    simpa using ⟨show 0 < Calendar.dayMicros by decide, year n⟩
  have accepted : ReportAccepted report := by
    obtain ⟨_, returned, raised⟩ := op.upholds_run env s []
    exact reportOf_spec (P := ReportAccepted) (fun result out => (returned result out).1)
      (fun e entry out attached => (raised _ out entry.1 entry.2 attached).1) found
  refine report_dict_read accepted (startedAt ▸ holds _) fun a member => ?_
  obtain ⟨j, _, started, _⟩ := timed_started timed member
  exact started ▸ holds j

end Relprim
