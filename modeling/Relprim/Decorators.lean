import Relprim.Operation

/-!
decorators.py, with the constructors and checks that it calls. A function is known by the
names `resilient` can read off it and by what its calls come to; of a store only whether one
is given.
-/
namespace Relprim

/-- What is given for a tuple of exception classes: its items, `none` for one that is no
    subclass of Exception, or another object. -/
inductive TypesValue where
  | tuple (items : List (Option ExcClass))
  | other

def checkExceptionTypes (value : TypesValue) (name : String) :
    Except Exc {types : List ExcClass // types ≠ []} :=
  match value with
  | .other => .error (typeError s!"{name} must be a tuple of Exception subclasses.")
  | .tuple [] => .error (valueError s!"{name} must contain at least one exception type.")
  | .tuple (first :: rest) =>
    match first, rest.mapM id with
    | some type, some types => .ok ⟨type :: types, List.cons_ne_nil _ _⟩
    | _, _ => .error (typeError s!"{name} must contain Exception subclasses.")

theorem checkExceptionTypes_ok {types : List ExcClass} (h : types ≠ []) (name : String) :
    checkExceptionTypes (.tuple (types.map some)) name = .ok ⟨types, h⟩ := by
  cases types with
  | nil => exact absurd rfl h
  | cons type rest =>
    have all : (rest.map some).mapM id = some rest := by
      rw [List.mapM_map]
      exact (List.mapM_pure (m := Option) (f := id)).trans (by simp)
    simp only [List.map_cons, checkExceptionTypes, all]

def checkedSeconds (value : PyValue) (name : String) (allowZero : Bool) : Except Exc PyNumber := do
  checkSeconds value name allowZero
  match value with
  | .scalar (.int n) => return .int n
  | .scalar (.float (.finite q)) => return .float q
  | _ => throw (typeError s!"{name} must be an int or float.")

theorem checkSeconds_inv {n : PyNumber} {name : String} {allowZero : Bool}
    (h : checkSeconds (.scalar n.json) name allowZero = .ok ()) :
    if allowZero then 0 ≤ n.value else 0 < n.value := by
  have sign (q : ℚ) (h : (if allowZero then
        check (0 ≤ q) (valueError s!"{name} must be greater than or equal to 0.")
      else check (0 < q) (valueError s!"{name} must be greater than 0.")) = .ok ()) :
      if allowZero then 0 ≤ q else 0 < q := by
    cases allowZero with
    | true => simpa using check_ok_iff.mp h
    | false => simpa using check_ok_iff.mp h
  cases n with
  | int n =>
    obtain ⟨_, ⟨⟩, h⟩ := Fallible.except_bind_ok h
    obtain ⟨_, _, h⟩ := Fallible.except_bind_ok h
    obtain ⟨_, _, h⟩ := Fallible.except_bind_ok h
    exact sign n h
  | float q =>
    obtain ⟨_, ⟨⟩, h⟩ := Fallible.except_bind_ok h
    obtain ⟨_, _, h⟩ := Fallible.except_bind_ok h
    obtain ⟨_, _, h⟩ := Fallible.except_bind_ok h
    exact sign q h

/-! Constructors. -/

def TimeoutPolicy.new (seconds : PyNumber) : Except Exc TimeoutPolicy :=
  match valid : checkSeconds (.scalar seconds.json) "seconds" false with
  | .ok () => .ok { seconds, seconds_pos := checkSeconds_inv valid }
  | .error e => .error e

def FallbackCandidate.new {O : Type} (name : String) (operation : O) :
    Except Exc (FallbackCandidate O) :=
  if named : isBlank name = false then .ok { name, operation, name_ok := named }
  else .error (valueError "name must not be empty.")

def FallbackChain.fromOperations {O : Type} (operations : List (String × O))
    (policy : Option FallbackPolicy) : Except Exc (FallbackChain O) := do
  let candidates ← operations.mapM fun o => FallbackCandidate.new o.1 o.2
  match candidates with
  | [] => throw (valueError "candidates must contain at least one fallback candidate.")
  | first :: rest =>
    return {
      candidates := first :: rest
      policy := policy.getD {}
      candidates_ok := List.cons_ne_nil first rest }

def IdempotencyPolicy.new (keyFactory : Except Exc PyValue) (store : Option IdempotencyStore)
    (ttlSeconds : ℚ) : Except Exc IdempotencyPolicy :=
  match valid : validateTtl ttlSeconds with
  | .ok () => .ok {
      keyFactory, store := store.getD .made, ttlSeconds, ttl_pos := validateTtl_iff.mp valid }
  | .error e => .error e

def RateLimitPolicy.new (rateLimitOn : TypesValue)
    (retryAfter : Option (ℕ → Exc → Except Exc Answer)) (maxWaitSeconds : PyNumber) :
    Except Exc RateLimitPolicy := do
  let types ← checkExceptionTypes rateLimitOn "rate_limit_on"
  match valid : checkSeconds (.scalar maxWaitSeconds.json) "max_wait_seconds" true with
  | .ok () => return {
      rateLimitOn := types.1
      retryAfter, maxWaitSeconds
      limit_ok := types.2
      wait_nonneg := checkSeconds_inv valid }
  | .error e => throw e

/-! Options. -/

/-- `__name__`, where it is a string, the name of the class, and what its calls come to. -/
structure Callable (O : Type) where
  dunderName : Option String
  className : String
  operation : O

inductive TimeoutConfig where
  | policy (p : TimeoutPolicy)
  | value (v : PyValue)

structure ResilientOptions (V : Type) where
  name : Option String := none
  retries : Option PyValue := none
  retryOn : Option TypesValue := none
  retry : Option RetryPolicy := none
  timeout : Option TimeoutConfig := none
  fallback : Option (Callable (Except Exc V)) := none
  fallbacks : Option (FallbackChain (Except Exc V)) := none
  circuitBreaker : Option CircuitBreaker := none
  validation : Option (ValidationPolicy V) := none
  events : Option EventEmitter := none
  idempotency : Option IdempotencyPolicy := none
  idempotencyKey : Option (Except Exc PyValue) := none
  idempotencyStore : Option IdempotencyStore := none
  idempotencyTtl : Option PyValue := none
  rateLimit : Option RateLimitPolicy := none
  rateLimitOn : Option TypesValue := none
  retryAfter : Option (ℕ → Exc → Except Exc Answer) := none
  maxRateLimitWait : Option PyValue := none

def operationNameFor {O : Type} (operation : Callable O) : Except Exc String :=
  let inferred := match operation.dunderName with
    | some name => if isBlank name then none else some name
    | none => none
  match inferred with
  | some name => .ok name
  | none =>
    if isBlank operation.className then .error (valueError "operation name could not be inferred.")
    else .ok operation.className

def retryPolicyFrom (retry : Option RetryPolicy) (retries : Option PyValue)
    (retryOn : Option TypesValue) : Except Exc (Option RetryPolicy) :=
  match retry, retries with
  | some _, some _ => .error (valueError "retry and retries cannot be used together.")
  | some policy, none =>
    if retryOn.isSome then
      .error (valueError "retry_on cannot be combined with retry; use RetryPolicy.retry_on.")
    else .ok (some policy)
  | none, none =>
    if retryOn.isSome then .error (valueError "retry_on requires retries.") else .ok none
  | none, some (.scalar (.int retries)) => do
    check (0 ≤ retries) (valueError "retries must be greater than or equal to 0.")
    let types ← checkExceptionTypes (retryOn.getD (.tuple [some exceptionClass])) "retry_on"
    if retries = 0 then return none
    return some {
      maxAttempts := retries.toNat + 1
      retryOn := types.1
      attempts_pos := Nat.le_add_left 1 _
      retry_ok := types.2 }
  | none, some _ => .error (typeError "retries must be an int.")

def timeoutPolicyFrom : Option TimeoutConfig → Except Exc (Option TimeoutPolicy)
  | none => .ok none
  | some (.policy policy) => .ok (some policy)
  | some (.value value) =>
    match value with
    | .scalar (.int _) | .scalar (.float _) => do
      let timeout ← checkedSeconds value "timeout" false
      let seconds ← timeout.toFloat
      let policy ← TimeoutPolicy.new (.float seconds)
      return some policy
    | _ => .error (typeError "timeout must be a TimeoutPolicy, int, float or None.")

def fallbackChainFrom {V : Type} (fallback : Option (Callable (Except Exc V)))
    (fallbacks : Option (FallbackChain (Except Exc V))) :
    Except Exc (Option (FallbackChain (Except Exc V))) :=
  match fallbacks, fallback with
  | some _, some _ => .error (valueError "fallback and fallbacks cannot be used together.")
  | some chain, none => .ok (some chain)
  | none, none => .ok none
  | none, some fallback => do
    let name ← operationNameFor fallback
    let chain ← FallbackChain.fromOperations [(name, fallback.operation)] none
    return some chain

def idempotencyPolicyFrom (idempotency : Option IdempotencyPolicy)
    (idempotencyKey : Option (Except Exc PyValue)) (idempotencyStore : Option IdempotencyStore)
    (idempotencyTtl : Option PyValue) : Except Exc (Option IdempotencyPolicy) :=
  match idempotency, idempotencyKey with
  | some policy, none =>
    if idempotencyStore.isSome || idempotencyTtl.isSome then
      .error (valueError ("idempotency cannot be combined with idempotency_key, " ++
        "idempotency_store or idempotency_ttl."))
    else .ok (some policy)
  | some _, some _ =>
    .error (valueError ("idempotency cannot be combined with idempotency_key, " ++
      "idempotency_store or idempotency_ttl."))
  | none, none =>
    if idempotencyStore.isSome || idempotencyTtl.isSome then
      .error (valueError "idempotency_store and idempotency_ttl require idempotency_key.")
    else .ok none
  | none, some key => do
    let ttlSeconds ← match idempotencyTtl with
      | some ttl => checkedSeconds ttl "idempotency_ttl" false
      | none => pure (.float 3600)
    let policy ← IdempotencyPolicy.new key idempotencyStore ttlSeconds.value
    return some policy

def rateLimitPolicyFrom (rateLimit : Option RateLimitPolicy) (rateLimitOn : Option TypesValue)
    (retryAfter : Option (ℕ → Exc → Except Exc Answer)) (maxRateLimitWait : Option PyValue) :
    Except Exc (Option RateLimitPolicy) :=
  match rateLimit, rateLimitOn with
  | some policy, none =>
    if retryAfter.isSome || maxRateLimitWait.isSome then
      .error (valueError
        "rate_limit cannot be combined with rate_limit_on, retry_after or max_rate_limit_wait.")
    else .ok (some policy)
  | some _, some _ =>
    .error (valueError
      "rate_limit cannot be combined with rate_limit_on, retry_after or max_rate_limit_wait.")
  | none, none =>
    if retryAfter.isSome || maxRateLimitWait.isSome then
      .error (valueError "retry_after and max_rate_limit_wait require rate_limit_on.")
    else .ok none
  | none, some types => do
    let maxWaitSeconds ← match maxRateLimitWait with
      | some wait => checkedSeconds wait "max_rate_limit_wait" true
      | none => pure (.float 60)
    let policy ← RateLimitPolicy.new types retryAfter maxWaitSeconds
    return some policy

/-! The builder. -/

namespace Builder
variable {V : Type}

def withRetry (op : AsyncOperation V) (policy : RetryPolicy) : AsyncOperation V :=
  { op with retryPolicy := some policy }

def withTimeout (op : AsyncOperation V) (policy : TimeoutPolicy) : AsyncOperation V :=
  { op with timeoutPolicy := some policy }

def withFallbacks (op : AsyncOperation V) (chain : FallbackChain (Except Exc V)) :
    AsyncOperation V := { op with fallbackChain := some chain }

def withCircuitBreaker (op : AsyncOperation V) (breaker : CircuitBreaker) : AsyncOperation V :=
  { op with circuitBreaker := some breaker }

def withValidation (op : AsyncOperation V) (policy : ValidationPolicy V) : AsyncOperation V :=
  { op with validationPolicy := some policy }

def withEvents (op : AsyncOperation V) (emitter : EventEmitter) : AsyncOperation V :=
  { op with eventEmitter := some emitter }

def withIdempotency (op : AsyncOperation V) (policy : IdempotencyPolicy) : AsyncOperation V :=
  { op with idempotencyPolicy := some policy }

def withRateLimit (op : AsyncOperation V) (policy : RateLimitPolicy) : AsyncOperation V :=
  { op with rateLimitPolicy := some policy }

end Builder

def AsyncOperation.configured {V P : Type} (op : AsyncOperation V)
    (build : AsyncOperation V → P → AsyncOperation V) : Option P → AsyncOperation V
  | some policy => build op policy
  | none => op

def asyncOperation {V : Type} (name : String) (operation : ℕ → CallOutcome V) :
    Except Exc (AsyncOperation V) :=
  if named : isBlank name = false then .ok { name, operation, name_ok := named }
  else .error (valueError "name must not be empty.")

structure ResolvedPolicies (V : Type) where
  retryPolicy : Option RetryPolicy
  timeoutPolicy : Option TimeoutPolicy
  fallbackChainPolicy : Option (FallbackChain (Except Exc V))
  idempotencyPolicy : Option IdempotencyPolicy
  rateLimitPolicy : Option RateLimitPolicy

def resilient {V : Type} (o : ResilientOptions V) : Except Exc (ResolvedPolicies V) := do
  check (!o.name.any isBlank) (valueError "name must not be empty.")
  let retryPolicy ← retryPolicyFrom o.retry o.retries o.retryOn
  let timeoutPolicy ← timeoutPolicyFrom o.timeout
  let fallbackChainPolicy ← fallbackChainFrom o.fallback o.fallbacks
  let idempotencyPolicy ←
    idempotencyPolicyFrom o.idempotency o.idempotencyKey o.idempotencyStore o.idempotencyTtl
  let rateLimitPolicy ←
    rateLimitPolicyFrom o.rateLimit o.rateLimitOn o.retryAfter o.maxRateLimitWait
  return { retryPolicy, timeoutPolicy, fallbackChainPolicy, idempotencyPolicy, rateLimitPolicy }

def decorator {V : Type} (o : ResilientOptions V) (resolved : ResolvedPolicies V)
    (operation : Callable (ℕ → CallOutcome V)) : Except Exc (AsyncOperation V) := do
  let operationName ← o.name.elim (operationNameFor operation) .ok
  let op ← asyncOperation operationName operation.operation
  let op := op.configured Builder.withEvents o.events
  let op := op.configured Builder.withCircuitBreaker o.circuitBreaker
  let op := op.configured Builder.withRetry resolved.retryPolicy
  let op := op.configured Builder.withTimeout resolved.timeoutPolicy
  let op := op.configured Builder.withValidation o.validation
  let op := op.configured Builder.withFallbacks resolved.fallbackChainPolicy
  let op := op.configured Builder.withIdempotency resolved.idempotencyPolicy
  return op.configured Builder.withRateLimit resolved.rateLimitPolicy

/-- `resilient(...)(operation)`. -/
def decorate {V : Type} (o : ResilientOptions V) (operation : Callable (ℕ → CallOutcome V)) :
    Except Exc (AsyncOperation V) := do
  let resolved ← resilient o
  decorator o resolved operation

end Relprim
