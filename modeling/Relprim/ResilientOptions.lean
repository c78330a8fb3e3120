import Relprim.BackoffFormula
import Relprim.Decorators

/-!
Which options `resilient` accepts, what it raises for the others, and the advanced
policies that the simple options are short for.
-/
namespace Relprim
open Fallible

/-! Values. -/

/-- The durations that `check_seconds` accepts. -/
def Duration (allowZero : Bool) : PyValue → Prop
  | .scalar (.int n) => n.natAbs < floatLimit ∧ if allowZero then 0 ≤ n else 0 < n
  | .scalar (.float (.finite q)) => if allowZero then 0 ≤ q else 0 < q
  | _ => False

def BeyondFloat : PyValue → Prop
  | .scalar (.int n) => floatLimit ≤ n.natAbs
  | _ => False

def ExceptionTypes (value : TypesValue) : Prop :=
  ∃ types : List ExcClass, types ≠ [] ∧ value = .tuple (types.map some)

def Named {O : Type} (operation : Callable O) : Prop :=
  (∃ name, operation.dunderName = some name ∧ isBlank name = false) ∨
    isBlank operation.className = false

/-- What the documentation says of a refusal, or the OverflowError that an oversized int
    raises in `math.isfinite`. -/
def Refusal (oversized : Prop) (e : Exc) : Prop :=
  (∃ message, e = valueError message ∨ e = typeError message) ∨
    oversized ∧ e = overflowError "int too large to convert to float"

/-! Options. -/

structure RetryAccepted {V : Type} (o : ResilientOptions V) : Prop where
  alone : o.retry.isSome → o.retries = none ∧ o.retryOn = none
  complete : o.retryOn.isSome → o.retries.isSome
  retries : ∀ v, o.retries = some v → ∃ n : ℕ, v = .scalar (.int n)
  retryOn : ∀ types, o.retryOn = some types → ExceptionTypes types

structure FallbackAccepted {V : Type} (o : ResilientOptions V) : Prop where
  alone : o.fallback.isSome → o.fallbacks = none
  named : ∀ f, o.fallback = some f → Named f

structure IdempotencyAccepted {V : Type} (o : ResilientOptions V) : Prop where
  alone : o.idempotency.isSome →
    o.idempotencyKey = none ∧ o.idempotencyStore = none ∧ o.idempotencyTtl = none
  complete : o.idempotencyStore.isSome ∨ o.idempotencyTtl.isSome → o.idempotencyKey.isSome
  ttl : ∀ v, o.idempotencyTtl = some v → Duration false v

structure RateLimitAccepted {V : Type} (o : ResilientOptions V) : Prop where
  alone : o.rateLimit.isSome →
    o.rateLimitOn = none ∧ o.retryAfter = none ∧ o.maxRateLimitWait = none
  complete : o.retryAfter.isSome ∨ o.maxRateLimitWait.isSome → o.rateLimitOn.isSome
  types : ∀ types, o.rateLimitOn = some types → ExceptionTypes types
  wait : ∀ v, o.maxRateLimitWait = some v → Duration true v

/-- The options that can be used together, with values that can be used. -/
structure Accepted {V : Type} (o : ResilientOptions V) : Prop where
  name : ∀ name, o.name = some name → isBlank name = false
  retry : RetryAccepted o
  timeout : ∀ v, o.timeout = some (.value v) → Duration false v
  fallback : FallbackAccepted o
  idempotency : IdempotencyAccepted o
  rateLimit : RateLimitAccepted o

def OversizedDuration {V : Type} (o : ResilientOptions V) : Prop :=
  (∃ v, o.timeout = some (.value v) ∧ BeyondFloat v) ∨
    (∃ v, o.idempotencyTtl = some v ∧ BeyondFloat v) ∨
    ∃ v, o.maxRateLimitWait = some v ∧ BeyondFloat v

/-- Every simple option replaced by the policy it stands for. -/
def ResilientOptions.advanced {V : Type} (o : ResilientOptions V) (r : ResolvedPolicies V) :
    ResilientOptions V where
  name := o.name
  retry := r.retryPolicy
  timeout := r.timeoutPolicy.map .policy
  fallbacks := r.fallbackChainPolicy
  circuitBreaker := o.circuitBreaker
  validation := o.validation
  events := o.events
  idempotency := r.idempotencyPolicy
  rateLimit := r.rateLimitPolicy

/-! The checks. -/

theorem decides_check {ok : Bool} {message : String} {Q : Prop} :
    Decides (check ok (valueError message)) (ok = true) (Refusal Q) := by
  cases ok with
  | true => exact .accepts rfl rfl
  | false => exact .refuses rfl (by simp) (.inl ⟨message, .inl rfl⟩)

theorem decides_sign (q : ℚ) (name : String) (allowZero : Bool) {Q : Prop} :
    Decides (if allowZero then
        check (0 ≤ q) (valueError s!"{name} must be greater than or equal to 0.")
      else check (0 < q) (valueError s!"{name} must be greater than 0."))
      (if allowZero then 0 ≤ q else 0 < q) (Refusal Q) := by
  cases allowZero with
  | true => exact decides_congr decides_check (by simp) fun _ h => h
  | false => exact decides_congr decides_check (by simp) fun _ h => h

theorem decides_checkSeconds (v : PyValue) (name : String) (allowZero : Bool) :
    Decides (checkSeconds v name allowZero) (Duration allowZero v) (Refusal (BeyondFloat v)) := by
  rcases v with (s | n | (q | _ | _) | b | _) | name'
  · exact .refuses rfl id (.inl ⟨_, .inr rfl⟩)
  · rcases Nat.lt_or_ge n.natAbs floatLimit with fits | beyond
    · have finite : mathIsfinite (.int n) = .ok true := by rw [mathIsfinite, if_pos fits]
      have sign := decides_sign (n : ℚ) name allowZero (Q := BeyondFloat (.scalar (.int n)))
      have whole : checkSeconds (.scalar (.int n)) name allowZero = (if allowZero then
          check (0 ≤ (n : ℚ)) (valueError s!"{name} must be greater than or equal to 0.")
          else check (0 < (n : ℚ)) (valueError s!"{name} must be greater than 0.")) := by
        simp only [checkSeconds, finite, check_true, bind, Except.bind, pure, Except.pure]
      rw [whole]
      refine decides_congr sign ?_ fun _ h => h
      cases allowZero with
      | true => exact ⟨fun h => ⟨fits, Rat.intCast_nonneg.mp h⟩, fun h => Rat.intCast_nonneg.mpr h.2⟩
      | false => exact ⟨fun h => ⟨fits, Rat.intCast_pos.mp h⟩, fun h => Rat.intCast_pos.mpr h.2⟩
    · have raises : mathIsfinite (.int n) =
          .error (overflowError "int too large to convert to float") := by
        rw [mathIsfinite, if_neg (Nat.not_lt.mpr beyond)]
      have whole : checkSeconds (.scalar (.int n)) name allowZero =
          .error (overflowError "int too large to convert to float") := by
        simp only [checkSeconds, raises, bind, Except.bind, pure, Except.pure]
      rw [whole]
      exact .refuses rfl (fun h => Nat.not_lt.mpr beyond h.1) (.inr ⟨beyond, rfl⟩)
  · exact decides_sign q name allowZero
  · exact .refuses rfl id (.inl ⟨_, .inl rfl⟩)
  · exact .refuses rfl id (.inl ⟨_, .inl rfl⟩)
  · exact .refuses rfl id (.inl ⟨_, .inr rfl⟩)
  · exact .refuses rfl id (.inl ⟨_, .inr rfl⟩)
  · exact .refuses rfl id (.inl ⟨_, .inr rfl⟩)

theorem decides_checkExceptionTypes (value : TypesValue) (name : String) {Q : Prop} :
    Decides (checkExceptionTypes value name) (ExceptionTypes value) (Refusal Q) := by
  by_cases types : ExceptionTypes value
  · obtain ⟨types, some_, rfl⟩ := types
    rw [checkExceptionTypes_ok some_]
    exact .accepts rfl ⟨types, some_, rfl⟩
  · cases found : checkExceptionTypes value name with
    | error e =>
      refine .refuses rfl types ?_
      unfold checkExceptionTypes at found
      split at found
      · cases found
        exact .inl ⟨_, .inr rfl⟩
      · cases found
        exact .inl ⟨_, .inl rfl⟩
      · split at found
        · cases found
        · cases found
          exact .inl ⟨_, .inr rfl⟩
    | ok kept =>
      refine absurd ?_ types
      unfold checkExceptionTypes at found
      split at found
      · cases found
      · cases found
      · split at found
        · rename_i all
          have each := map_eq_map_iff.mpr (mapM_eq_some.mp all)
          rw [List.map_id] at each
          exact ⟨_ :: _, List.cons_ne_nil _ _, by rw [each]; rfl⟩
        · cases found

theorem decides_operationName {O : Type} (operation : Callable O) {Q : Prop} :
    Decides (operationNameFor operation) (Named operation) (Refusal Q) := by
  unfold operationNameFor Named
  cases given : operation.dunderName with
  | none =>
    by_cases blank : isBlank operation.className = true
    · simp only [blank, if_true]
      exact .refuses rfl (by simp) (.inl ⟨_, .inl rfl⟩)
    · simp only [blank]
      exact .accepts rfl (.inr trivial)
  | some name =>
    by_cases empty : isBlank name = true
    · by_cases blank : isBlank operation.className = true
      · simp only [empty, blank, if_true]
        exact .refuses rfl (by simp [empty]) (.inl ⟨_, .inl rfl⟩)
      · simp only [empty, blank, if_true]
        exact .accepts rfl (.inr trivial)
    · simp only [empty]
      exact .accepts rfl (.inl ⟨name, rfl, by simpa using empty⟩)

theorem decides_checkedSeconds (v : PyValue) (name : String) (allowZero : Bool) :
    Decides (checkedSeconds v name allowZero) (Duration allowZero v) (Refusal (BeyondFloat v)) := by
  cases decides_checkSeconds v name allowZero with
  | refuses error no h =>
    refine .refuses ?_ no h
    simp only [checkedSeconds, error, bind, Except.bind]
  | accepts ok h =>
    rcases v with (s | n | (q | _ | _) | b | _) | name'
    case scalar.int | scalar.float.finite =>
      exact .accepts (by simp [checkedSeconds, ok, bind, Except.bind, pure, Except.pure]; rfl) h
    all_goals exact h.elim

theorem checkSeconds_of_duration {v : PyValue} {allowZero : Bool} (h : Duration allowZero v)
    (name : String) : checkSeconds v name allowZero = .ok () := by
  cases decides_checkSeconds v name allowZero with
  | accepts ok _ => exact ok
  | refuses _ no _ => exact absurd h no

theorem checkedSeconds_ok {v : PyValue} {name : String} {allowZero : Bool} {n : PyNumber}
    (h : checkedSeconds v name allowZero = .ok n) :
    v = .scalar n.json ∧ Duration allowZero v := by
  obtain ⟨_, checked, h⟩ := except_bind_ok h
  constructor
  · split at h <;> cases h <;> rfl
  · cases decides_checkSeconds v name allowZero with
    | accepts _ h => exact h
    | refuses error _ _ =>
      rw [error] at checked
      cases checked

theorem operationName_ok {O : Type} {operation : Callable O} {name : String}
    (h : operationNameFor operation = .ok name) : isBlank name = false := by
  unfold operationNameFor at h
  simp only at h
  split at h
  · rename_i inferred found
    cases h
    split at found
    · split at found
      · cases found
      · rename_i named
        cases found
        simpa using named
    · cases found
  · split at h
    · cases h
    · rename_i named
      cases h
      simpa using named

theorem duration_value {n : PyNumber} {allowZero : Bool}
    (h : Duration allowZero (.scalar n.json)) : if allowZero then 0 ≤ n.value else 0 < n.value :=
  checkSeconds_inv (checkSeconds_of_duration h "")

theorem refusal_mono {P Q : Prop} (h : P → Q) {e : Exc} (refused : Refusal P e) : Refusal Q e :=
  refused.imp_right fun both => ⟨h both.1, both.2⟩

theorem timeoutPolicy_new {n : PyNumber} (h : Duration false (.scalar n.json)) :
    ∃ p, TimeoutPolicy.new n = .ok p := by
  have checked := checkSeconds_of_duration h "seconds"
  unfold TimeoutPolicy.new
  split
  · exact ⟨_, rfl⟩
  · rename_i refused
    rw [checked] at refused
    cases refused

theorem idempotencyPolicy_new (key : Except Exc PyValue) (store : Option IdempotencyStore) {ttl : ℚ}
    (h : 0 < ttl) : ∃ p, IdempotencyPolicy.new key store ttl = .ok p := by
  have checked := validateTtl_iff.mpr h
  unfold IdempotencyPolicy.new
  split
  · exact ⟨_, rfl⟩
  · rename_i refused
    rw [checked] at refused
    cases refused

theorem decides_rateLimitPolicy {n : PyNumber} (h : Duration true (.scalar n.json))
    (types : TypesValue) (retryAfter : Option (ℕ → Exc → Except Exc Answer)) {Q : Prop} :
    Decides (RateLimitPolicy.new types retryAfter n) (ExceptionTypes types) (Refusal Q) := by
  have checked := checkSeconds_of_duration h "max_wait_seconds"
  refine decides_congr (decides_bind (R := True) (decides_checkExceptionTypes types _)
    fun kept _ => ?_) (and_iff_left trivial) fun _ h => h
  split
  · exact .accepts rfl trivial
  · rename_i refused
    rw [checked] at refused
    cases refused

section
variable {V : Type} (o : ResilientOptions V)

theorem decides_retry :
    Decides (retryPolicyFrom o.retry o.retries o.retryOn) (RetryAccepted o)
      (Refusal (OversizedDuration o)) := by
  unfold retryPolicyFrom
  cases policy : o.retry with
  | some policy' =>
    cases count : o.retries with
    | some v =>
      refine .refuses rfl (fun h => ?_) (.inl ⟨_, .inl rfl⟩)
      simpa [count] using (h.alone (by simp [policy])).1
    | none =>
      cases types : o.retryOn with
      | some t =>
        refine .refuses rfl (fun h => ?_) (.inl ⟨_, .inl rfl⟩)
        simpa [types] using (h.alone (by simp [policy])).2
      | none => exact .accepts rfl ⟨by simp [count, types], by simp [types], by simp [count],
          by simp [types]⟩
  | none =>
    cases count : o.retries with
    | none =>
      cases types : o.retryOn with
      | some t =>
        refine .refuses rfl (fun h => ?_) (.inl ⟨_, .inl rfl⟩)
        simpa [count] using h.complete (by simp [types])
      | none => exact .accepts rfl ⟨by simp [count, types], by simp [types], by simp [count],
          by simp [types]⟩
    | some v =>
      rcases v with (s | n | x | b | _) | name
      case scalar.int =>
        have accepted : 0 ≤ n ∧
            ExceptionTypes (o.retryOn.getD (.tuple [some exceptionClass])) ↔ RetryAccepted o := by
          constructor
          · rintro ⟨nonneg, classes⟩
            refine ⟨by simp [policy], by simp [count], ?_, ?_⟩
            · intro v same
              rw [count] at same
              cases same
              exact ⟨n.toNat, by rw [Int.toNat_of_nonneg nonneg]⟩
            · intro types given
              rwa [given] at classes
          · intro h
            obtain ⟨m, same⟩ := h.retries _ count
            cases same
            refine ⟨Int.natCast_nonneg m, ?_⟩
            cases given : o.retryOn with
            | none => exact ⟨[exceptionClass], List.cons_ne_nil _ _, rfl⟩
            | some types => exact h.retryOn types given
        refine decides_congr (decides_bind decides_check fun _ _ => decides_congr
          (decides_bind (R := True) (decides_checkExceptionTypes _ _) fun types _ => ?_)
          (and_iff_left trivial) fun _ h => h) ?_ fun _ h => h
        · split
          · exact .accepts rfl trivial
          · exact .accepts rfl trivial
        · simpa using accepted
      all_goals
        refine .refuses rfl (fun h => ?_) (.inl ⟨_, .inr rfl⟩)
        obtain ⟨n, impossible⟩ := h.retries _ count
        cases impossible

theorem decides_timeout :
    Decides (timeoutPolicyFrom o.timeout)
      (∀ v, o.timeout = some (.value v) → Duration false v) (Refusal (OversizedDuration o)) := by
  unfold timeoutPolicyFrom
  cases timeout : o.timeout with
  | none => exact .accepts rfl (by simp)
  | some config =>
    cases config with
    | policy p => exact .accepts rfl (by simp)
    | value v =>
      have only : Duration false v ↔
          ∀ w, some (TimeoutConfig.value v) = some (.value w) → Duration false w := by simp
      have beyond (e : Exc) (h : Refusal (BeyondFloat v) e) : Refusal (OversizedDuration o) e :=
        refusal_mono (fun large => .inl ⟨v, timeout, large⟩) h
      have number : Decides (do
          let timeout ← checkedSeconds v "timeout" false
          let seconds ← timeout.toFloat
          let policy ← TimeoutPolicy.new (.float seconds)
          return some policy) (Duration false v) (Refusal (BeyondFloat v)) := by
        refine decides_congr (decides_bind (R := True) (decides_checkedSeconds v "timeout" false)
          fun n checked => ?_) (and_iff_left trivial) fun _ h => h
        obtain ⟨rfl, seconds⟩ := checkedSeconds_ok checked
        have float : n.toFloat = .ok n.value := by
          cases n with
          | int n => exact PyNumber.toFloat_small seconds.1
          | float q => rfl
        have positive : Duration false (.scalar (PyNumber.float n.value).json) := by
          cases n with
          | int n => exact Rat.intCast_pos.mpr seconds.2
          | float q => exact seconds
        obtain ⟨p, made⟩ := timeoutPolicy_new positive
        exact .accepts (by rw [float]; simp only [bind, Except.bind, made]; rfl) trivial
      rcases v with (s | n | x | b | _) | name
      case scalar.int | scalar.float => exact decides_congr number only beyond
      all_goals exact .refuses rfl (fun h => only.mpr h) (.inl ⟨_, .inr rfl⟩)

theorem decides_fallback :
    Decides (fallbackChainFrom o.fallback o.fallbacks) (FallbackAccepted o)
      (Refusal (OversizedDuration o)) := by
  unfold fallbackChainFrom
  cases chain : o.fallbacks with
  | some chain' =>
    cases simple : o.fallback with
    | some f =>
      refine .refuses rfl (fun h => ?_) (.inl ⟨_, .inl rfl⟩)
      simpa [chain] using h.alone (by simp [simple])
    | none => exact .accepts rfl ⟨by simp [simple], by simp [simple]⟩
  | none =>
    cases simple : o.fallback with
    | none => exact .accepts rfl ⟨by simp [simple], by simp [simple]⟩
    | some f =>
      refine decides_congr (decides_bind (R := True) (decides_operationName f) fun name named => ?_)
        ?_ fun _ h => h
      · have candidate : FallbackCandidate.new name f.operation =
            .ok { name, operation := f.operation, name_ok := operationName_ok named } :=
          dif_pos (operationName_ok named)
        have made : FallbackChain.fromOperations [(name, f.operation)] none = .ok
            { candidates := [{ name, operation := f.operation, name_ok := operationName_ok named }]
              policy := {}
              candidates_ok := List.cons_ne_nil _ _ } := by
          simp only [FallbackChain.fromOperations, List.mapM_cons, List.mapM_nil, candidate, bind,
            Except.bind, pure, Except.pure]
          rfl
        rw [made]
        exact .accepts rfl trivial
      · exact ⟨fun h => ⟨by simp [chain], fun g same => Option.some.inj (simple ▸ same) ▸ h.1⟩,
          fun h => ⟨h.named f simple, trivial⟩⟩

theorem decides_idempotency :
    Decides (idempotencyPolicyFrom o.idempotency o.idempotencyKey o.idempotencyStore
      o.idempotencyTtl) (IdempotencyAccepted o) (Refusal (OversizedDuration o)) := by
  unfold idempotencyPolicyFrom
  cases policy : o.idempotency with
  | some policy' =>
    cases key : o.idempotencyKey with
    | some k =>
      refine .refuses rfl (fun h => ?_) (.inl ⟨_, .inl rfl⟩)
      simpa [key] using (h.alone (by simp [policy])).1
    | none =>
      by_cases others : (o.idempotencyStore.isSome || o.idempotencyTtl.isSome) = true
      · simp only [others, if_true]
        refine .refuses rfl (fun h => ?_) (.inl ⟨_, .inl rfl⟩)
        obtain ⟨_, store, ttl⟩ := h.alone (by simp [policy])
        simp [store, ttl] at others
      · simp only [others]
        have off : o.idempotencyStore = none ∧ o.idempotencyTtl = none := by simpa using others
        exact .accepts rfl ⟨fun _ => ⟨key, off⟩, by simp [off], by simp [off]⟩
  | none =>
    cases key : o.idempotencyKey with
    | none =>
      by_cases others : (o.idempotencyStore.isSome || o.idempotencyTtl.isSome) = true
      · simp only [others, if_true]
        refine .refuses rfl (fun h => ?_) (.inl ⟨_, .inl rfl⟩)
        have needed := h.complete (by simpa using others)
        simp [key] at needed
      · simp only [others]
        have off : o.idempotencyStore = none ∧ o.idempotencyTtl = none := by simpa using others
        exact .accepts rfl ⟨by simp [policy], by simp [off], by simp [off]⟩
    | some k =>
      have accepted : (∀ v, o.idempotencyTtl = some v → Duration false v) ↔
          IdempotencyAccepted o :=
        ⟨fun ttl => ⟨by simp [policy], by simp [key], ttl⟩, fun h => h.ttl⟩
      have goes {n : PyNumber} (seconds : Duration false (.scalar n.json)) : Decides (do
          let policy ← IdempotencyPolicy.new k o.idempotencyStore n.value
          return some policy) True (Refusal (OversizedDuration o)) := by
        obtain ⟨p, made⟩ := idempotencyPolicy_new k o.idempotencyStore (duration_value seconds)
        exact .accepts (by simp only [made, bind, Except.bind]; rfl) trivial
      refine decides_congr (R := IdempotencyAccepted o) ?_ accepted fun _ h => h
      cases ttl : o.idempotencyTtl with
      | none =>
        exact decides_congr (goes (n := .float 3600) (Nat.cast_pos.mpr (by decide : 0 < 3600)))
          (by simp) fun _ h => h
      | some v =>
        refine decides_congr (decides_bind (R := True) (decides_congr
          (decides_checkedSeconds v _ false) Iff.rfl
          fun _ => refusal_mono fun large => .inr (.inl ⟨v, ttl, large⟩)) fun n given => ?_)
          (by simp) fun _ h => h
        obtain ⟨rfl, seconds⟩ := checkedSeconds_ok given
        exact goes seconds

theorem decides_rateLimit :
    Decides (rateLimitPolicyFrom o.rateLimit o.rateLimitOn o.retryAfter o.maxRateLimitWait)
      (RateLimitAccepted o) (Refusal (OversizedDuration o)) := by
  unfold rateLimitPolicyFrom
  cases policy : o.rateLimit with
  | some policy' =>
    cases classes : o.rateLimitOn with
    | some types =>
      refine .refuses rfl (fun h => ?_) (.inl ⟨_, .inl rfl⟩)
      simpa [classes] using (h.alone (by simp [policy])).1
    | none =>
      by_cases others : (o.retryAfter.isSome || o.maxRateLimitWait.isSome) = true
      · simp only [others, if_true]
        refine .refuses rfl (fun h => ?_) (.inl ⟨_, .inl rfl⟩)
        obtain ⟨_, extractor, wait⟩ := h.alone (by simp [policy])
        simp [extractor, wait] at others
      · simp only [others]
        have off : o.retryAfter = none ∧ o.maxRateLimitWait = none := by simpa using others
        exact .accepts rfl ⟨fun _ => ⟨classes, off⟩, by simp [off], by simp [classes], by simp [off]⟩
  | none =>
    cases classes : o.rateLimitOn with
    | none =>
      by_cases others : (o.retryAfter.isSome || o.maxRateLimitWait.isSome) = true
      · simp only [others, if_true]
        refine .refuses rfl (fun h => ?_) (.inl ⟨_, .inl rfl⟩)
        have needed := h.complete (by simpa using others)
        simp [classes] at needed
      · simp only [others]
        have off : o.retryAfter = none ∧ o.maxRateLimitWait = none := by simpa using others
        exact .accepts rfl ⟨by simp [policy], by simp [off], by simp [classes], by simp [off]⟩
    | some types =>
      have accepted : (∀ v, o.maxRateLimitWait = some v → Duration true v) ∧ ExceptionTypes types ↔
          RateLimitAccepted o := by
        constructor
        · rintro ⟨wait, kept⟩
          exact ⟨by simp [policy], by simp [classes],
            fun t same => Option.some.inj (classes ▸ same) ▸ kept, wait⟩
        · intro h
          exact ⟨h.wait, h.types types classes⟩
      have goes {n : PyNumber} (seconds : Duration true (.scalar n.json)) : Decides (do
          let policy ← RateLimitPolicy.new types o.retryAfter n
          return some policy) (ExceptionTypes types) (Refusal (OversizedDuration o)) :=
        decides_congr (decides_bind (R := True)
          (decides_rateLimitPolicy seconds types o.retryAfter) fun p _ => .accepts rfl trivial)
          (and_iff_left trivial) fun _ h => h
      refine decides_congr (R := RateLimitAccepted o) ?_ accepted fun _ h => h
      cases wait : o.maxRateLimitWait with
      | none =>
        exact decides_congr (goes (n := .float 60) (Nat.cast_nonneg 60)) (by simp) fun _ h => h
      | some v =>
        refine decides_congr (decides_bind (R := ExceptionTypes types) (decides_congr
          (decides_checkedSeconds v _ true) Iff.rfl
          fun _ => refusal_mono fun large => .inr (.inr ⟨v, wait, large⟩)) fun n given => ?_)
          (by simp) fun _ h => h
        obtain ⟨rfl, seconds⟩ := checkedSeconds_ok given
        exact goes seconds

theorem decides_resilient :
    Decides (resilient o) (Accepted o) (Refusal (OversizedDuration o)) := by
  have named : Decides (check (!o.name.any isBlank) (valueError "name must not be empty."))
      (∀ name, o.name = some name → isBlank name = false) (Refusal (OversizedDuration o)) := by
    refine decides_congr decides_check ?_ fun _ h => h
    cases o.name <;> simp
  have whole := decides_bind named fun _ _ => decides_bind (decides_retry o) fun retryPolicy _ =>
    decides_bind (decides_timeout o) fun timeoutPolicy _ =>
    decides_bind (decides_fallback o) fun fallbackChainPolicy _ =>
    decides_bind (decides_idempotency o) fun idempotencyPolicy _ =>
    decides_bind (R := True) (decides_rateLimit o) fun rateLimitPolicy _ =>
      .accepts (a := (⟨retryPolicy, timeoutPolicy, fallbackChainPolicy, idempotencyPolicy,
        rateLimitPolicy⟩ : ResolvedPolicies V)) rfl trivial
  refine decides_congr whole ?_ fun _ h => h
  constructor
  · rintro ⟨name, retry, timeout, fallback, idempotency, rateLimit, _⟩
    exact ⟨name, retry, timeout, fallback, idempotency, rateLimit⟩
  · rintro ⟨name, retry, timeout, fallback, idempotency, rateLimit⟩
    exact ⟨name, retry, timeout, fallback, idempotency, rateLimit, trivial⟩

/-! The policies behind the simple options. -/

theorem resilient_advanced {r : ResolvedPolicies V} (h : resilient o = .ok r) :
    resilient (o.advanced r) = .ok r := by
  obtain ⟨_, named, _⟩ := except_bind_ok h
  have retry : retryPolicyFrom r.retryPolicy none none = .ok r.retryPolicy := by
    cases r.retryPolicy <;> rfl
  have timeout : timeoutPolicyFrom (r.timeoutPolicy.map .policy) = .ok r.timeoutPolicy := by
    cases r.timeoutPolicy <;> rfl
  have fallback : fallbackChainFrom none r.fallbackChainPolicy = .ok r.fallbackChainPolicy := by
    cases r.fallbackChainPolicy <;> rfl
  have idempotency : idempotencyPolicyFrom r.idempotencyPolicy none none none =
      .ok r.idempotencyPolicy := by
    cases r.idempotencyPolicy <;> rfl
  have rateLimit : rateLimitPolicyFrom r.rateLimitPolicy none none none =
      .ok r.rateLimitPolicy := by
    cases r.rateLimitPolicy <;> rfl
  simp only [resilient, ResilientOptions.advanced, named, retry, timeout, fallback, idempotency,
    rateLimit, bind, Except.bind]
  rfl

def ResilientOptions.built (r : ResolvedPolicies V) (operation : ℕ → CallOutcome V) (name : String)
    (name_ok : isBlank name = false) : AsyncOperation V where
  name := name
  operation := operation
  retryPolicy := r.retryPolicy
  timeoutPolicy := r.timeoutPolicy
  fallbackChain := r.fallbackChainPolicy
  circuitBreaker := o.circuitBreaker
  validationPolicy := o.validation
  eventEmitter := o.events
  idempotencyPolicy := r.idempotencyPolicy
  rateLimitPolicy := r.rateLimitPolicy
  name_ok := name_ok

/-- An option that is not given leaves the field as it is, which is empty. -/
theorem configured_eq {P : Type} {op : AsyncOperation V} {build : AsyncOperation V → P → AsyncOperation V}
    (set : Option P → AsyncOperation V) (empty : set none = op)
    (given : ∀ p, build op p = set (some p)) (p : Option P) : op.configured build p = set p := by
  cases p with
  | none => exact empty.symm
  | some p => exact given p

theorem decorator_built {r : ResolvedPolicies V} {f : Callable (ℕ → CallOutcome V)}
    {op : AsyncOperation V} (h : decorator o r f = .ok op) :
    o.name.elim (operationNameFor f) .ok = .ok op.name ∧
      op = o.built r f.operation op.name op.name_ok := by
  obtain ⟨name, chosen, h⟩ := except_bind_ok h
  obtain ⟨bare, made, h⟩ := except_bind_ok h
  unfold asyncOperation at made
  split at made
  · rename_i named
    cases made
    simp only at h
    let bare : AsyncOperation V := { name, operation := f.operation, name_ok := named }
    let b₁ := { bare with eventEmitter := o.events }
    let b₂ := { b₁ with circuitBreaker := o.circuitBreaker }
    let b₃ := { b₂ with retryPolicy := r.retryPolicy }
    let b₄ := { b₃ with timeoutPolicy := r.timeoutPolicy }
    let b₅ := { b₄ with validationPolicy := o.validation }
    let b₆ := { b₅ with fallbackChain := r.fallbackChainPolicy }
    let b₇ := { b₆ with idempotencyPolicy := r.idempotencyPolicy }
    rw [configured_eq (fun p => { bare with eventEmitter := p }) rfl fun _ => rfl,
      configured_eq (fun p => { b₁ with circuitBreaker := p }) rfl fun _ => rfl,
      configured_eq (fun p => { b₂ with retryPolicy := p }) rfl fun _ => rfl,
      configured_eq (fun p => { b₃ with timeoutPolicy := p }) rfl fun _ => rfl,
      configured_eq (fun p => { b₄ with validationPolicy := p }) rfl fun _ => rfl,
      configured_eq (fun p => { b₅ with fallbackChain := p }) rfl fun _ => rfl,
      configured_eq (fun p => { b₆ with idempotencyPolicy := p }) rfl fun _ => rfl,
      configured_eq (fun p => { b₇ with rateLimitPolicy := p }) rfl fun _ => rfl] at h
    cases h
    exact ⟨chosen, rfl⟩
  · cases made

/-- `resilient` accepts exactly the options that can be used together with values that can be
    used; it refuses the others with a ValueError or TypeError, or with the OverflowError of an
    oversized duration; and what it accepts is short for advanced policies: with these in place
    of the simple options every function is decorated with the same operation. -/
theorem resilient_options {V : Type} (o : ResilientOptions V) :
    (Accepted o ↔ ∃ r, resilient o = .ok r) ∧
    (∀ e, resilient o = .error e → Refusal (OversizedDuration o) e) ∧
    ∀ r, resilient o = .ok r → resilient (o.advanced r) = .ok r ∧
      ∀ f, decorate (o.advanced r) f = decorate o f ∧
        ∀ op, decorate o f = .ok op → op = o.built r f.operation op.name op.name_ok := by
  refine ⟨?_, ?_, ?_⟩
  · cases decides_resilient o with
    | accepts ok h => exact ⟨fun _ => ⟨_, ok⟩, fun _ => h⟩
    | refuses error no _ =>
      refine ⟨fun h => absurd h no, ?_⟩
      rintro ⟨r, ok⟩
      rw [error] at ok
      cases ok
  · intro e raised
    cases decides_resilient o with
    | accepts ok _ =>
      rw [raised] at ok
      cases ok
    | refuses error _ h =>
      rw [raised] at error
      cases error
      exact h
  · intro r ok
    have again := resilient_advanced o ok
    refine ⟨again, fun f => ⟨?_, fun op decorated => ?_⟩⟩
    · simp only [decorate, again, ok, bind, Except.bind]
      rfl
    · simp only [decorate, ok, bind, Except.bind] at decorated
      exact (decorator_built o decorated).2

end

end Relprim
