import Relprim.OperationReference

/-!
What an uninterrupted run does and how it ends as one function of its outcomes, with the
clocks left out. Every run computes this function, so two runs differ at most where their
executions do, and in their times.
-/
namespace Relprim
open Dictionary
variable {V : Type}

def ExecutionAttempt.untimed (a : ExecutionAttempt) : ExecutionAttempt :=
  { a with startedAt := .utc 0, durationSeconds := 0 }

inductive Ending (V : Type) where
  | returned (value : V) (attempts : List ExecutionAttempt)
  | failed (cause : Exc) (attempts : List ExecutionAttempt)
  | escaped (x : Raised)

def untimedAttempts (report : ExecutionReport) : List ExecutionAttempt :=
  report.attempts.map ExecutionAttempt.untimed

def endingOf : Except Raised (OperationResult V) → Ending V
  | .ok result => .returned result.value (untimedAttempts result.report)
  | .error (.exception e) =>
    match e.fields.execution with
    | some (report, cause) => .failed cause (untimedAttempts report)
    | none => .escaped (.exception e)
  | .error x => .escaped x

theorem endingOf_own (message : String) (report : ExecutionReport) (cause : Exc) :
    endingOf (.error (.exception (operationExecutionError message report cause)) :
      Except Raised (OperationResult V)) = .failed cause (untimedAttempts report) := rfl

structure Execution (V : Type) where
  calls : List Effect
  ending : Ending V

/-- The environments give a run the same random stream, breaker and number formatting. -/
structure SameOutcomes (env env' : Environment) : Prop where
  random : env'.random = env.random
  breakerTurn : env'.breakerTurn = env.breakerTurn
  str : env'.str = env.str

namespace AsyncOperation
variable (op : AsyncOperation V) (env : Environment)

def untimedFailure (i : ℕ) (e : Exc) (plan : RetryPlan) : ExecutionAttempt :=
  failureRecord i (.utc 0) 0 e plan.retryable (primaryFailureMetadata e plan)

def callMade (i : ℕ) (b : BreakerState) : List Effect :=
  if (op.attemptResult env i b).called then [.primary i] else []

/-- The execution after the last primary attempt has failed with `e`. -/
def closing (made : List Effect) (e : Exc) (attempts : List ExecutionAttempt) : Execution V :=
  match op.chainFor e with
  | none => ⟨made, .failed e attempts⟩
  | some chain =>
    let tried := made ++ (List.range (op.chainResult chain).called).map .candidate
    let number := attempts.length + 1
    match (op.chainResult chain).outcome with
    | .ok result =>
      ⟨tried, .returned result.value.1 (attempts ++ [candidateRecord number (.utc 0) 0 result])⟩
    | .error x => ⟨tried, .failed x (attempts ++ [fallbackRecord number (.utc 0) 0 x])⟩

def executionFrom : ℕ → ℕ → BreakerState → List ExecutionAttempt → Execution V
  | 0, _, _, _ => ⟨[], .escaped (.exception
      (runtimeError "AsyncOperation reached an invalid execution state."))⟩
  | remaining + 1, i, b, attempts =>
    let made := op.callMade env i b
    match op.verdict env i b with
    | .value v metadata =>
      ⟨made, .returned v (attempts ++
        [successRecord i (.utc 0) 0 (primarySuccessMetadata metadata)])⟩
    | .escape x => ⟨made, .escaped (.exception x)⟩
    | .refused _ _ => ⟨made, .escaped (.exception payloadError)⟩
    | .failure e plan =>
      let attempts := attempts ++ [untimedFailure i e plan]
      match plan.willRetry, plan.delaySeconds with
      | true, some d =>
        let later := executionFrom remaining (i + 1) (op.attemptResult env i b).breaker attempts
        ⟨made ++ .sleep d :: later.calls, later.ending⟩
      | _, _ => op.closing made e attempts

def execution (b : BreakerState) : Execution V := op.executionFrom env op.maxAttempts 1 b []

section
variable {op : AsyncOperation V} {env : Environment}

theorem untimed_failed (p : Progress) (i : ℕ) (at_ : DateTime) (d : ℚ) (e : Exc)
    (plan : RetryPlan) :
    (p.failed i at_ d e plan).attempts.map ExecutionAttempt.untimed =
      p.attempts.map ExecutionAttempt.untimed ++ [untimedFailure i e plan] := by
  rw [failed_attempts, List.map_append]
  rfl

theorem untimed_record (p : Progress) (a : ExecutionAttempt) :
    (p.record a).attempts.map ExecutionAttempt.untimed =
      p.attempts.map ExecutionAttempt.untimed ++ [a.untimed] := List.map_append

theorem executionFrom_final {i : ℕ} {b : BreakerState} {e : Exc} {plan : RetryPlan}
    (verdict : op.verdict env i b = .failure e plan) (final : plan.willRetry = false)
    (remaining : ℕ) (attempts : List ExecutionAttempt) :
    op.executionFrom env (remaining + 1) i b attempts =
      op.closing (op.callMade env i b) e (attempts ++ [untimedFailure i e plan]) := by
  simp only [executionFrom, verdict, final]

theorem executionFrom_again {i : ℕ} {b : BreakerState} {e : Exc} {plan : RetryPlan} {d : PyNumber}
    (verdict : op.verdict env i b = .failure e plan) (again : plan.willRetry = true)
    (delay : plan.delaySeconds = some d) (remaining : ℕ) (attempts : List ExecutionAttempt)
    {later : Execution V} (rest : op.executionFrom env remaining (i + 1)
      (op.attemptResult env i b).breaker (attempts ++ [untimedFailure i e plan]) = later) :
    op.executionFrom env (remaining + 1) i b attempts =
      ⟨op.callMade env i b ++ .sleep d :: later.calls, later.ending⟩ := by
  subst rest
  simp only [executionFrom, verdict, again, delay]

theorem closes_execution {started : Started} {i : ℕ} (pos : 1 ≤ i) {b : BreakerState} {p : Progress}
    {r : Except Raised (OperationResult V)} {items : List Item}
    (closes : op.Closes env started i b p r items) (remaining : ℕ) :
    op.executionFrom env (remaining + 1) i b (p.attempts.map ExecutionAttempt.untimed) =
      ⟨op.callMade env i b ++ calls items, endingOf r⟩ := by
  cases closes with
  | succeeded verdict at_ duration total reported =>
    simp only [executionFrom, verdict, reported, endingOf, untimedAttempts, reportDraft,
      untimed_record]
    simp [successItems, calls_append, callMade]
    rfl
  | @failed e plan verdict final unmatched at_ duration total message report reported =>
    rw [executionFrom_final verdict final, endingOf_own, reported]
    simp only [closing, unmatched, untimedAttempts, reportDraft, untimed_failed]
    simp [calls_append]
  | @fellBack e plan verdict final chain matched result out k at_ duration numbered at_' duration'
      total report reported =>
    rw [executionFrom_final verdict final, reported]
    simp only [closing, matched, out, endingOf, untimedAttempts, reportDraft, untimed_record,
      untimed_failed]
    simp [calls_append, fallbackSuccessItems, numbered, failed_attempts]
    rfl
  | @fallbackFailed e plan verdict final chain matched x out k at_ duration numbered at_' duration'
      total message report reported =>
    rw [executionFrom_final verdict final, endingOf_own, reported]
    simp only [closing, matched, out, untimedAttempts, reportDraft, untimed_record,
      untimed_failed]
    simp [calls_append, fallbackFailureItems, numbered, failed_attempts]
    rfl
  | refused verdict =>
    simp only [executionFrom, verdict, calls_append, calls_rateLimit, calls_validationFailed,
      List.append_nil]
    rfl
  | escaped verdict =>
    obtain ⟨_, x, _, escapes, rfl⟩ := verdict_escape pos verdict
    simp only [executionFrom, verdict, calls_nil, List.append_nil, endingOf,
      op.escapes_foreign escapes]

theorem transcript_execution {started : Started} {i : ℕ} (pos : 1 ≤ i) {b : BreakerState}
    {p : Progress} {r : Except Raised (OperationResult V)} {items : List Item} {remaining : ℕ}
    (left : i + remaining = op.maxAttempts) (run : op.Transcript env started i b p r items) :
    op.executionFrom env (remaining + 1) i b (p.attempts.map ExecutionAttempt.untimed) =
      ⟨calls items, endingOf r⟩ := by
  induction run generalizing remaining with
  | @closes i b p r items closes =>
    rw [closes_execution pos closes, calls_append, calls_attempt, callMade]
  | @retries i b p q d r items rest retries run ih =>
    obtain @⟨e, plan, d, verdict, again, delay, below, at_, duration⟩ := retries
    obtain ⟨n, rfl⟩ : ∃ n, remaining = n + 1 := ⟨remaining - 1, by omega⟩
    have next : i + 1 + n = op.maxAttempts := by omega
    have later := ih (Nat.le_add_left 1 i) next
    rw [noteWait_attempts, untimed_failed] at later
    rw [executionFrom_again verdict again delay _ _ later]
    simp [calls_append, calls_attempt, sleepItems, callMade]

/-- An uninterrupted run makes the calls of its execution and ends as it says. -/
theorem run_execution (aware : AwareTimestamps op) (env : Environment) (s : Session) :
    op.execution env s.breaker =
      ⟨callsOf (op.trace env none s), endingOf (op.outcome env none s)⟩ := by
  obtain ⟨started, rest, run, expands⟩ := run_transcript aware env s
  obtain ⟨remaining, count⟩ := Nat.exists_eq_add_of_le op.maxAttempts_pos
  have whole := transcript_execution (Nat.le_refl 1) count.symm run
  rw [expands_calls expands, runItems, calls_emit, ← whole, execution, count, Nat.add_comm]
  rfl

/-! What an execution depends on. -/

theorem verdict_congr {env' : Environment} (same : SameOutcomes env env') (i : ℕ)
    (b : BreakerState) : op.verdict env' i b = op.verdict env i b := by
  obtain ⟨random, turns, str⟩ := same
  cases env with | mk utcNow perfCounter random' turns' str' mono range =>
  cases env' with | mk utcNow' perfCounter' random'' turns'' str'' mono' range' =>
  simp only at random turns str
  subst random turns str
  rfl

theorem attemptResult_congr {env' : Environment} (same : SameOutcomes env env') (i : ℕ)
    (b : BreakerState) : op.attemptResult env' i b = op.attemptResult env i b := by
  simp only [attemptResult, timedOutcome, same.str, same.breakerTurn]

theorem executionFrom_congr {env' : Environment} (same : SameOutcomes env env') (remaining i : ℕ)
    (b : BreakerState) (attempts : List ExecutionAttempt) :
    op.executionFrom env' remaining i b attempts = op.executionFrom env remaining i b attempts := by
  induction remaining generalizing i b attempts with
  | zero => rfl
  | succ remaining ih =>
    simp only [executionFrom, callMade, verdict_congr same, attemptResult_congr same, ih]

theorem execution_congr {env' : Environment} (same : SameOutcomes env env') (b : BreakerState) :
    op.execution env' b = op.execution env b := executionFrom_congr same _ _ b []

end

end AsyncOperation

end Relprim
