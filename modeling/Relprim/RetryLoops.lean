import Relprim.OperationReference

/-!
The three retry loops: `RetryPolicy.run`, `RetryPolicy.run_async` and the loop of an
AsyncOperation that has a retry policy and nothing else.
-/
namespace Relprim
open Interruptible Interruptible.Program

def retryError (message : String) (attempts : ℕ) (cause : Exc) : Exc :=
  relprimError "RetryError" message { retry := some (attempts, cause) }

namespace RetryPolicy
variable {V : Type} (policy : RetryPolicy)

def exhaustedMessage (count : ℕ) : String := s!"Operation failed after {count} attempt(s)."

def afterLoop : Option Exc → Exc
  | none => runtimeError "RetryPolicy reached an invalid state without an exception."
  | some cause => retryError (exhaustedMessage policy.maxAttempts) policy.maxAttempts cause

/-- The loop of `run`, by the passes that remain. The calls and sleeps are listed in order. -/
def runFrom (random : ℕ → ℚ) (operation : ℕ → Except Exc V) :
    ℕ → ℕ → Option Exc → Except Exc V × List Effect
  | 0, _, lastException => (.error (policy.afterLoop lastException), [])
  | remaining + 1, attempt, _ =>
    match operation attempt with
    | .ok value => (.ok value, [.primary attempt])
    | .error e =>
      if !e.caughtBy policy.retryOn then (.error e, [.primary attempt])
      else if policy.maxAttempts ≤ attempt then
        (.error (policy.afterLoop (some e)), [.primary attempt])
      else
        match policy.backoff.delayForRetry attempt (random attempt) with
        | .error x => (.error x, [.primary attempt])
        | .ok delay =>
          let (result, later) := runFrom random operation remaining (attempt + 1) (some e)
          (result, .primary attempt :: .sleep delay :: later)

def run (random : ℕ → ℚ) (operation : ℕ → Except Exc V) : Except Exc V × List Effect :=
  policy.runFrom random operation policy.maxAttempts 1 none

def runAsyncFrom (random : ℕ → ℚ) (operation : ℕ → Except Exc V) : ℕ → ℕ → Option Exc → Run V
  | 0, _, lastException => Run.throwing (policy.afterLoop lastException)
  | remaining + 1, attempt, _ => do
    match ← Run.tryExcept (do effect (.primary attempt); Run.lift (operation attempt)) with
    | .ok value => return value
    | .error e =>
      if !e.caughtBy policy.retryOn then Run.throwing e.leaveCoroutine
      else if policy.maxAttempts ≤ attempt then Run.throwing (policy.afterLoop (some e))
      else do
        let delay ← Run.lift (policy.backoff.delayForRetry attempt (random attempt))
        effect (.sleep delay)
        runAsyncFrom random operation remaining (attempt + 1) (some e)

def runAsync (random : ℕ → ℚ) (operation : ℕ → Except Exc V) : Run V :=
  policy.runAsyncFrom random operation policy.maxAttempts 1 none

def callsFrom (i : ℕ) : List PyNumber → List Effect
  | [] => [.primary i]
  | d :: later => .primary i :: .sleep d :: callsFrom (i + 1) later

def settled (outcome : Except Exc V) : Except Exc V :=
  match outcome with
  | .ok value => .ok value
  | .error e => .error (if e.caughtBy policy.retryOn then policy.afterLoop (some e) else e)

/-- How AsyncOperation decides about an exception that an operation raises: by isinstance, on
    what leaves the coroutine around the call. -/
def plansRetry (e : Exc) : Bool := e.leaveCoroutine.isInstance policy.retryOn

/-- The delays of a loop from attempt `i` on: it goes on after a failure that it takes for a
    match while attempts are left. -/
inductive Loops (goesOn : Exc → Bool) (random : ℕ → ℚ) (operation : ℕ → Except Exc V) :
    ℕ → List PyNumber → Prop where
  | ends {i : ℕ} (last : ∀ e, operation i = .error e → goesOn e = true → policy.maxAttempts ≤ i) :
      Loops goesOn random operation i []
  | retries {i : ℕ} {e : Exc} {d : PyNumber} {later : List PyNumber}
      (outcome : operation i = .error e) (matched : goesOn e = true)
      (left : i < policy.maxAttempts)
      (delay : policy.backoff.delayForRetry i (random i) = .ok d)
      (rest : Loops goesOn random operation (i + 1) later) :
      Loops goesOn random operation i (d :: later)

inductive Called (operation : ℕ → Except Exc V) : ℕ → Prop where
  | first : Called operation 1
  | next {i : ℕ} {e : Exc} (before : Called operation i) (outcome : operation i = .error e)
      (caught : e.caughtBy policy.retryOn = true) (left : i < policy.maxAttempts) :
      Called operation (i + 1)

/-- `except` and isinstance decide alike on the failure `e` of call `i`, and the failure that
    ends the loop is none that a coroutine replaces. -/
structure Alike (i : ℕ) (e : Exc) : Prop where
  decided : policy.plansRetry e = e.caughtBy policy.retryOn
  kept : e.caughtBy policy.retryOn = false ∨ i = policy.maxAttempts → e.leaveCoroutine = e

variable {policy} {goesOn : Exc → Bool} {random : ℕ → ℚ} {operation : ℕ → Except Exc V}

theorem loops_last {i : ℕ} {delays : List PyNumber} (h : policy.Loops goesOn random operation i delays)
    (bound : i ≤ policy.maxAttempts) {e : Exc} (outcome : operation (i + delays.length) = .error e)
    (matched : goesOn e = true) : i + delays.length = policy.maxAttempts := by
  induction h with
  | ends last => exact Nat.le_antisymm bound (last e outcome matched)
  | @retries i _ d later _ _ left _ rest ih =>
    have next : i + 1 + later.length = i + (d :: later).length := by
      rw [List.length_cons]
      omega
    rw [← next] at outcome ⊢
    exact ih left outcome

theorem loops_exist (goesOn : Exc → Bool) (random : ℕ → ℚ) (operation : ℕ → Except Exc V)
    {remaining i : ℕ} (pos : 1 ≤ i) (left : i + remaining = policy.maxAttempts) :
    ∃ delays, policy.Loops goesOn random operation i delays := by
  induction remaining generalizing i with
  | zero => exact ⟨[], .ends fun _ _ _ => Nat.le_of_eq left.symm⟩
  | succ remaining ih =>
    cases outcome : operation i with
    | ok value => exact ⟨[], .ends fun e failed => by rw [outcome] at failed; cases failed⟩
    | error e =>
      cases matched : goesOn e with
      | false =>
        refine ⟨[], .ends fun x failed again => ?_⟩
        rw [outcome] at failed
        cases failed
        rw [matched] at again
        cases again
      | true =>
        obtain ⟨d, delay⟩ := policy.backoff.delayForRetry_total pos (random i)
        obtain ⟨later, rest⟩ := ih (Nat.le_add_left 1 i) (by omega)
        exact ⟨d :: later, .retries outcome matched (by omega) delay rest⟩

theorem callsFrom_injective {i : ℕ} {ds ds' : List PyNumber} (h : callsFrom i ds = callsFrom i ds') :
    ds = ds' := by
  induction ds generalizing i ds' with
  | nil =>
    cases ds' with
    | nil => rfl
    | cons d later => cases h
  | cons d later ih =>
    cases ds' with
    | nil => cases h
    | cons d' later' =>
      simp only [callsFrom, List.cons.injEq, Effect.sleep.injEq, true_and] at h
      rw [h.1, ih h.2]

/-- Where the decisions are alike, so are the delays. -/
theorem loops_alike {i : ℕ} {delays : List PyNumber}
    (h : policy.Loops (fun e => e.caughtBy policy.retryOn) random operation i delays)
    (called : policy.Called operation i)
    (alike : ∀ j e, policy.Called operation j → operation j = .error e → policy.Alike j e) :
    policy.Loops policy.plansRetry random operation i delays := by
  induction h with
  | @ends i last =>
    refine .ends fun e failed planned => last e failed ?_
    rwa [(alike i e called failed).decided] at planned
  | @retries i e d later outcome caught left delay rest ih =>
    refine .retries outcome ?_ left delay (ih (.next called outcome caught left))
    rw [(alike i e called outcome).decided]
    exact caught

theorem loops_unique {i : ℕ} {ds ds' : List PyNumber}
    (h : policy.Loops goesOn random operation i ds) (h' : policy.Loops goesOn random operation i ds') :
    ds = ds' := by
  induction h generalizing ds' with
  | @ends i last =>
    cases h' with
    | ends => rfl
    | retries outcome matched left => exact absurd (last _ outcome matched) (Nat.not_le.mpr left)
  | @retries i e d later outcome matched left delay rest ih =>
    cases h' with
    | ends last => exact absurd (last _ outcome matched) (Nat.not_le.mpr left)
    | retries outcome' matched' left' delay' rest' =>
      rw [delay] at delay'
      cases delay'
      rw [ih rest']

/-- A call that `run` makes is one of those between its delays; in all but the last of them the
    failure is taken for a match by every loop with these delays. -/
theorem called_loops (goesOn : Exc → Bool) {j : ℕ} (called : policy.Called operation j)
    {delays : List PyNumber}
    (h : policy.Loops (fun e => e.caughtBy policy.retryOn) random operation 1 delays) :
    ∃ front back, delays = front ++ back ∧ j = 1 + front.length ∧
      policy.Loops (fun e => e.caughtBy policy.retryOn) random operation j back ∧
      (policy.Loops goesOn random operation 1 delays → policy.Loops goesOn random operation j back) := by
  induction called with
  | first => exact ⟨[], delays, rfl, rfl, h, id⟩
  | @next i e before outcome caught left ih =>
    obtain ⟨front, back, rfl, rfl, here, other⟩ := ih
    cases here with
    | ends last => exact absurd (last _ outcome caught) (Nat.not_le.mpr left)
    | @retries _ _ d later _ _ _ _ rest =>
      refine ⟨front ++ [d], later, by simp, by simp [Nat.add_assoc], rest, fun whole => ?_⟩
      cases other whole with
      | retries _ _ _ _ rest' => exact rest'

theorem loops_called {i : ℕ} {delays : List PyNumber}
    (h : policy.Loops (fun e => e.caughtBy policy.retryOn) random operation i delays)
    (called : policy.Called operation i) : policy.Called operation (i + delays.length) := by
  induction h with
  | ends last => exact called
  | @retries i e d later outcome caught left delay rest ih =>
    rw [List.length_cons, Nat.add_comm later.length, ← Nat.add_assoc]
    exact ih (.next called outcome caught left)

theorem runFrom_loops {i remaining : ℕ} {delays : List PyNumber}
    (h : policy.Loops (fun e => e.caughtBy policy.retryOn) random operation i delays)
    (left : i + remaining = policy.maxAttempts) (earlier : Option Exc) :
    policy.runFrom random operation (remaining + 1) i earlier =
      (policy.settled (operation (i + delays.length)), callsFrom i delays) := by
  induction h generalizing remaining earlier with
  | @ends i last =>
    unfold runFrom
    cases outcome : operation i with
    | ok value => simp [settled, callsFrom]
    | error e =>
      cases matched : e.caughtBy policy.retryOn with
      | false => simp [settled, callsFrom, matched]
      | true => simp [settled, callsFrom, matched, last e outcome matched]
  | @retries i e d later outcome matched below delay rest ih =>
    obtain ⟨remaining, rfl⟩ := Nat.exists_eq_succ_of_ne_zero (n := remaining) (by omega)
    have left' : i + 1 + remaining = policy.maxAttempts := by omega
    have next := ih left' (some e)
    unfold runFrom
    simp only [outcome, matched, Bool.not_true, Bool.false_eq_true, if_false, delay,
      if_neg (Nat.not_le.mpr below), next]
    simp [callsFrom, Nat.add_assoc, Nat.add_comm 1]

theorem afterLoop_leaves (cause : Exc) :
    (policy.afterLoop (some cause)).leaveCoroutine = policy.afterLoop (some cause) :=
  leaveCoroutine_relprimError _ _ _

theorem runAsyncFrom_loops {i remaining : ℕ} {delays : List PyNumber}
    (h : policy.Loops (fun e => e.caughtBy policy.retryOn) random operation i delays)
    (left : i + remaining = policy.maxAttempts) (earlier : Option Exc) (s : Session) :
    Ends (policy.runAsyncFrom random operation (remaining + 1) i earlier) s
      ((coroutine (policy.settled (operation (i + delays.length)))).mapError .exception) s
      (callsFrom i delays) := by
  have call (i : ℕ) : Ends (Run.tryExcept (do effect (.primary i); Run.lift (operation i)) : Run _)
      s (.ok (operation i)) s [.primary i] := by
    have body : Ends (do effect (.primary i); Run.lift (operation i) : Run V) s
        ((operation i).mapError .exception) s ([.primary i] ++ []) :=
      ends_bind (ends_effect _ s) (ends_fromExcept _ s)
    cases outcome : operation i with
    | ok value =>
      rw [outcome] at body
      exact ends_attempt_ok body
    | error e =>
      rw [outcome] at body
      exact ends_attempt_caught body rfl
  induction h generalizing remaining earlier with
  | @ends i last =>
    have first := call i
    rw [show callsFrom i [] = [.primary i] ++ [] from rfl]
    refine ends_bind first ?_
    cases outcome : operation i with
    | ok value =>
      exact ends_pure value s
    | error e =>
      cases matched : e.caughtBy policy.retryOn with
      | false =>
        simp only [settled, matched]
        exact ends_raise _ s
      | true =>
        simp only [settled, matched, last e outcome matched, if_true, coroutine_error,
          afterLoop_leaves]
        exact ends_raise _ s
  | @retries i e d later outcome matched below delay rest ih =>
    obtain ⟨remaining, rfl⟩ := Nat.exists_eq_succ_of_ne_zero (n := remaining) (by omega)
    have left' : i + 1 + remaining = policy.maxAttempts := by omega
    have next := ih left' (some e)
    have first := call i
    rw [show callsFrom i (d :: later) = [.primary i] ++ ([] ++ ([.sleep d] ++ callsFrom (i + 1) later))
      from rfl]
    refine ends_bind first ?_
    simp only [outcome, matched, Bool.not_true, Bool.false_eq_true, if_false,
      if_neg (Nat.not_le.mpr below)]
    have drawn : Ends (Run.lift (policy.backoff.delayForRetry i (random i))) s (.ok d) s [] := by
      rw [delay]
      exact ends_fromExcept _ s
    refine ends_bind drawn (ends_bind (ends_effect _ s) ?_)
    rw [List.length_cons, Nat.add_comm later.length, ← Nat.add_assoc]
    exact next

theorem retryError_ne (message : String) (attempts : ℕ) (e : Exc) :
    retryError message attempts e ≠ e := by
  intro same
  have larger := congrArg sizeOf same
  simp [retryError, relprimError] at larger
  omega

end RetryPolicy

namespace AsyncOperation
variable {V : Type}

def withRetry (name : String) (named : isBlank name = false) (operation : ℕ → Except Exc V)
    (policy : RetryPolicy) : AsyncOperation V where
  name := name
  operation n := { outcome := operation n }
  retryPolicy := some policy
  name_ok := named

inductive Reflects : Except Exc V → Except Raised (OperationResult V) → Prop where
  | value (v : V) (report : ExecutionReport) : Reflects (.ok v) (.ok ⟨v, report⟩)
  | failure (e : Exc) (message : String) (report : ExecutionReport) :
      Reflects (.error e) (.error (.exception (operationExecutionError message report e)))

section
variable {name : String} {named : isBlank name = false} {operation : ℕ → Except Exc V}
  {policy : RetryPolicy} {env : Environment} {started : Started}

theorem withRetry_attempt (i : ℕ) (b : BreakerState) :
    (withRetry name named operation policy).attemptResult env i b =
      ⟨(coroutine (operation i)).map fun v => (v, noValidationMetadata), b, true⟩ := by
  cases outcome : operation i <;>
    simp [attemptResult, withRetry, timedOutcome, checked, validateValue, outcome, bind,
      Except.bind, pure, Except.pure, Except.map]

theorem withRetry_value {i : ℕ} {b : BreakerState} {v : V} {metadata : Metadata}
    (h : (withRetry name named operation policy).verdict env i b = .value v metadata) :
    operation i = .ok v := by
  have outcome := verdict_value h
  rw [withRetry_attempt] at outcome
  cases called : operation i with
  | ok w =>
    rw [called] at outcome
    cases outcome
    rfl
  | error e =>
    rw [called] at outcome
    cases outcome

theorem withRetry_failure {i : ℕ} (pos : 1 ≤ i) {b : BreakerState} {e' : Exc} {plan : RetryPlan}
    (h : (withRetry name named operation policy).verdict env i b = .failure e' plan) :
    ∃ e, operation i = .error e ∧ e' = e.leaveCoroutine ∧
      (withRetry name named operation policy).Planned env i e' e' plan := by
  obtain ⟨x, outcome, planned⟩ := verdict_failure pos h
  have same : e' = x := by
    cases planned with
    | extraction configured => cases configured
    | _ => rfl
  subst same
  rw [withRetry_attempt] at outcome
  cases called : operation i with
  | ok w =>
    rw [called] at outcome
    cases outcome
  | error e =>
    rw [called] at outcome
    cases outcome
    exact ⟨e, rfl, rfl, planned⟩

theorem withRetry_final {i : ℕ} {e : Exc} {plan : RetryPlan}
    (planned : (withRetry name named operation policy).Planned env i e e plan)
    (final : plan.willRetry = false) (matched : e.isInstance policy.retryOn = true) :
    policy.maxAttempts ≤ i := by
  cases planned with
  | unmatched unlimited other =>
    rw [other policy rfl] at matched
    cases matched
  | last unlimited configured matched last => exact Nat.le_of_not_lt last
  | retried => cases final
  | extraction configured => cases configured
  | single limited => cases limited.configured
  | limitedLast limited => cases limited.configured
  | exceeded limited => cases limited.configured
  | waited limited => cases limited.configured

theorem withRetry_transcript {i : ℕ} (pos : 1 ≤ i) {b : BreakerState} {p : Progress}
    {r : Except Raised (OperationResult V)} {items : List Item}
    (run : (withRetry name named operation policy).Transcript env started i b p r items) :
    ∃ delays, policy.Loops policy.plansRetry env.random operation i delays ∧
      calls items = RetryPolicy.callsFrom i delays ∧
      Reflects (coroutine (operation (i + delays.length))) r := by
  have attempt (i : ℕ) (b : BreakerState) :
      calls ((withRetry name named operation policy).attemptItems env i b) = [.primary i] := by
    rw [calls_attempt, withRetry_attempt]
    rfl
  induction run with
  | @closes i b p r items closes =>
    cases closes with
    | @succeeded v metadata verdict at_ duration total report reported =>
      have outcome := withRetry_value verdict
      refine ⟨[], .ends ?_, ?_, ?_⟩
      · intro e failed
        rw [outcome] at failed
        cases failed
      · simp [calls_append, attempt, successItems, RetryPolicy.callsFrom]
      · exact outcome ▸ .value v report
    | @failed e' plan verdict final unmatched at_ duration total message report reported =>
      obtain ⟨e, outcome, rfl, planned⟩ := withRetry_failure pos verdict
      refine ⟨[], .ends ?_, ?_, ?_⟩
      · intro x failed matched
        rw [outcome] at failed
        cases failed
        exact withRetry_final planned final matched
      · simp [calls_append, attempt, RetryPolicy.callsFrom]
      · exact outcome ▸ .failure e.leaveCoroutine message report
    | fellBack verdict final matched => cases matched
    | fallbackFailed verdict final matched => cases matched
    | refused verdict =>
      obtain ⟨_, _, _, refused⟩ := verdict_refused pos verdict
      cases refused
    | escaped verdict =>
      obtain ⟨_, _, _, ⟨⟨_, configured, _⟩, _⟩, _⟩ := verdict_escape pos verdict
      cases configured
  | @retries i b p q d r items rest retries run ih =>
    obtain ⟨delays, loops, effects, reflects⟩ := ih (Nat.le_add_left 1 i)
    cases retries with
    | intro verdict again delay left at_ duration =>
      obtain ⟨e, outcome, rfl, planned⟩ := withRetry_failure pos verdict
      refine ⟨d :: delays, ?_, ?_, ?_⟩
      · cases planned_retried _ env planned again delay with
        | limited _ limits => cases limits
        | unlimited configured _ matched drawn =>
          cases configured
          exact .retries outcome matched left drawn loops
      · simp [calls_append, attempt, sleepItems, effects, RetryPolicy.callsFrom]
      · rwa [List.length_cons, Nat.add_comm delays.length, ← Nat.add_assoc]

end
end AsyncOperation

/-- The three loops make the same calls with the same sleeps between them. On success they
    return the value of the last call. After a failure that matches, on the last allowed
    attempt, the policy raises a RetryError with the number of calls; any other failure it
    raises itself. An AsyncOperation raises an OperationExecutionError either way. -/
def LoopsAgree {V : Type} (policy : RetryPolicy) (operation : ℕ → Except Exc V) (name : String)
    (named : isBlank name = false) (env : Environment) (s : Session) : Prop :=
  ∃ delays : List PyNumber,
    (policy.run env.random operation).2 = RetryPolicy.callsFrom 1 delays ∧
    Ends (policy.runAsync env.random operation) s
      ((policy.run env.random operation).1.mapError .exception) s
      (RetryPolicy.callsFrom 1 delays) ∧
    callsOf ((AsyncOperation.withRetry name named operation policy).trace env none s) =
      RetryPolicy.callsFrom 1 delays ∧
    AsyncOperation.Reflects (operation (delays.length + 1))
      ((AsyncOperation.withRetry name named operation policy).outcome env none s) ∧
    match operation (delays.length + 1) with
    | .ok v => (policy.run env.random operation).1 = .ok v
    | .error e =>
      if e.isInstance policy.retryOn then
        delays.length + 1 = policy.maxAttempts ∧ (policy.run env.random operation).1 =
          .error (retryError (RetryPolicy.exhaustedMessage (delays.length + 1)) (delays.length + 1) e)
      else (policy.run env.random operation).1 = .error e

theorem reflects_inj {V : Type} {r r' : Except Exc V} {out : Except Raised (OperationResult V)}
    (h : AsyncOperation.Reflects r out) (h' : AsyncOperation.Reflects r' out) : r = r' := by
  cases h with
  | value v report =>
    cases h' with
    | value => rfl
  | failure e message report =>
    generalize same : (.error (.exception (operationExecutionError message report e)) :
      Except Raised (OperationResult V)) = out at h'
    cases h' with
    | value => cases same
    | failure e' message' report' =>
      simp [operationExecutionError, relprimError] at same
      rw [same.2.2]

section
variable {V : Type} {policy : RetryPolicy} {operation : ℕ → Except Exc V} {name : String}
  {named : isBlank name = false} {env : Environment} {s : Session}

theorem loops_run (policy : RetryPolicy) (operation : ℕ → Except Exc V) (name : String)
    (named : isBlank name = false) (env : Environment) (s : Session) :
    ∃ delays planned : List PyNumber,
      policy.Loops (fun e => e.caughtBy policy.retryOn) env.random operation 1 delays ∧
      policy.Loops policy.plansRetry env.random operation 1 planned ∧
      policy.run env.random operation =
        (policy.settled (operation (delays.length + 1)), RetryPolicy.callsFrom 1 delays) ∧
      Ends (policy.runAsync env.random operation) s
        ((coroutine (policy.settled (operation (delays.length + 1)))).mapError .exception) s
        (RetryPolicy.callsFrom 1 delays) ∧
      callsOf ((AsyncOperation.withRetry name named operation policy).trace env none s) =
        RetryPolicy.callsFrom 1 planned ∧
      AsyncOperation.Reflects (coroutine (operation (planned.length + 1)))
        ((AsyncOperation.withRetry name named operation policy).outcome env none s) := by
  have unwatched : AwareTimestamps (AsyncOperation.withRetry name named operation policy) := by
    intro emitter configured
    cases configured
  obtain ⟨started, rest, run, expands⟩ := AsyncOperation.run_transcript unwatched env s
  obtain ⟨planned, loops', effects, reflects⟩ :=
    AsyncOperation.withRetry_transcript (Nat.le_refl 1) run
  obtain ⟨remaining, count⟩ := Nat.exists_eq_add_of_le policy.attempts_pos
  obtain ⟨delays, loops⟩ := RetryPolicy.loops_exist (fun e => e.caughtBy policy.retryOn) env.random
    operation (Nat.le_refl 1) count.symm
  have sync := RetryPolicy.runFrom_loops loops count.symm none
  have async := RetryPolicy.runAsyncFrom_loops loops count.symm none s
  rw [Nat.add_comm remaining 1, ← count, Nat.add_comm 1] at sync async
  rw [Nat.add_comm 1] at reflects
  refine ⟨delays, planned, loops, loops', sync, async, ?_, reflects⟩
  rw [expands_calls expands, AsyncOperation.runItems, calls_emit, effects]

theorem alike_agree
    (alike : ∀ i e, policy.Called operation i → operation i = .error e → policy.Alike i e) :
    LoopsAgree policy operation name named env s := by
  obtain ⟨delays, planned, loops, loops', sync, async, trace, reflects⟩ :=
    loops_run policy operation name named env s
  obtain rfl := RetryPolicy.loops_unique loops' (RetryPolicy.loops_alike loops .first alike)
  have called := RetryPolicy.loops_called loops .first
  have ended (e : Exc) (caught : e.caughtBy policy.retryOn = true)
      (outcome : operation (planned.length + 1) = .error e) :
      planned.length + 1 = policy.maxAttempts := by
    rw [Nat.add_comm] at outcome ⊢
    exact RetryPolicy.loops_last loops policy.attempts_pos outcome caught
  rw [Nat.add_comm 1] at called
  have kept (e : Exc) (outcome : operation (planned.length + 1) = .error e) :
      e.leaveCoroutine = e := by
    apply (alike _ e called outcome).kept
    cases caught : e.caughtBy policy.retryOn with
    | false => exact .inl rfl
    | true => exact .inr (ended e caught outcome)
  refine ⟨planned, by rw [sync], ?_, trace, ?_, ?_⟩
  · rw [sync]
    cases outcome : operation (planned.length + 1) with
    | ok v => simpa [outcome, RetryPolicy.settled] using async
    | error e =>
      cases caught : e.caughtBy policy.retryOn with
      | false => simpa [outcome, RetryPolicy.settled, caught, kept e outcome] using async
      | true => simpa [outcome, RetryPolicy.settled, caught, RetryPolicy.afterLoop_leaves] using async
  · cases outcome : operation (planned.length + 1) with
    | ok v => simpa [outcome] using reflects
    | error e => simpa [outcome, kept e outcome] using reflects
  · rw [sync]
    cases outcome : operation (planned.length + 1) with
    | ok v => rfl
    | error e =>
      have decided := (alike _ e called outcome).decided
      rw [RetryPolicy.plansRetry, kept e outcome] at decided
      cases caught : e.caughtBy policy.retryOn with
      | false => simp [decided, caught, RetryPolicy.settled]
      | true =>
        have last := ended e caught outcome
        simp only [decided, caught, if_true]
        refine ⟨last, ?_⟩
        simp only [RetryPolicy.settled, caught, if_true, RetryPolicy.afterLoop, last]

theorem agree_alike (agree : LoopsAgree policy operation name named env s) (i : ℕ) (e : Exc)
    (called : policy.Called operation i) (outcome : operation i = .error e) :
    policy.Alike i e := by
  obtain ⟨delays, planned, loops, loops', sync, _, trace, reflects⟩ :=
    loops_run policy operation name named env s
  obtain ⟨agreed, calls, _, calls', reflects', last⟩ := agree
  rw [sync] at calls last
  obtain rfl := RetryPolicy.callsFrom_injective calls
  rw [trace] at calls'
  obtain rfl := RetryPolicy.callsFrom_injective calls'
  obtain ⟨front, back, split, numbered, here, other⟩ :=
    RetryPolicy.called_loops policy.plansRetry called loops
  cases back with
  | nil =>
    have ended : i = planned.length + 1 := by
      rw [numbered, split, List.append_nil, Nat.add_comm]
    subst ended
    have kept := reflects_inj reflects reflects'
    rw [outcome, coroutine_error, Except.error.injEq] at kept
    refine ⟨?_, fun _ => kept⟩
    rw [RetryPolicy.plansRetry, kept]
    rw [outcome] at last
    cases matched : e.isInstance policy.retryOn <;> cases caught : e.caughtBy policy.retryOn
    · rfl
    · simp only [matched, Bool.false_eq_true, if_false, RetryPolicy.settled, caught, if_true,
        RetryPolicy.afterLoop, Except.error.injEq] at last
      exact absurd last (RetryPolicy.retryError_ne _ _ e)
    · simp only [matched, if_true, RetryPolicy.settled, caught, Bool.false_eq_true, if_false,
        Except.error.injEq] at last
      exact absurd last.2.symm (RetryPolicy.retryError_ne _ _ e)
    · rfl
  | cons d later =>
    cases here with
    | retries outcome' caught left =>
      rw [outcome] at outcome'
      cases outcome'
      cases other loops' with
      | retries outcome' planned' =>
        rw [outcome] at outcome'
        cases outcome'
        refine ⟨planned'.trans caught.symm, fun final => ?_⟩
        rcases final with uncaught | ended
        · rw [caught] at uncaught
          cases uncaught
        · omega

end

/-- The three loops agree if and only if, for every failure of a call that `run` makes, `except`
    and isinstance decide alike whether it matches, and the failure that ends the loop is none
    that a coroutine replaces. -/
theorem retry_loops_agree_iff {V : Type} (policy : RetryPolicy) (operation : ℕ → Except Exc V)
    (name : String) (named : isBlank name = false) (env : Environment) (s : Session) :
    LoopsAgree policy operation name named env s ↔
      ∀ i e, policy.Called operation i → operation i = .error e → policy.Alike i e :=
  ⟨agree_alike, alike_agree⟩

theorem failing_loops_agree : LoopsAgree ({} : RetryPolicy)
    (fun _ => (.error (runtimeError "down") : Except Exc ℕ)) "call" (by decide) steady {} := by
  refine (retry_loops_agree_iff _ _ _ _ _ _).mpr fun i e _ failed => ?_
  cases failed
  exact ⟨by decide, fun _ => rfl⟩

theorem three_attempts : 1 ≤ 3 := by decide

/-- A failure whose class is registered with an abstract error class, and does not derive from
    it. -/
def gatewayDown : Exc :=
  .mk ⟨"GatewayDown", "client"⟩ [exceptionClass] [(⟨"Transient", "app"⟩, true)] "503" {}

def onTransient : RetryPolicy where
  retryOn := [⟨"Transient", "app"⟩]
  attempts_pos := three_attempts

/-- `run` makes one call, an AsyncOperation makes three. -/
theorem registered_subclass_splits_loops :
    ¬ LoopsAgree onTransient (fun _ => (.error gatewayDown : Except Exc ℕ)) "call" (by decide)
      steady {} := by
  rintro ⟨delays, calls, _, calls', _⟩
  have once : (onTransient.run steady.random
      fun _ => (.error gatewayDown : Except Exc ℕ)).2.length = 1 := by decide +kernel
  have thrice : (callsOf ((AsyncOperation.withRetry "call" (by decide)
      (fun _ => (.error gatewayDown : Except Exc ℕ)) onTransient).trace steady none {})).length =
      5 := by decide +kernel
  rw [calls] at once
  rw [calls', once] at thrice
  cases thrice

end Relprim
