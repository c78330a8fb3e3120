import Relprim.Checks

/-!
idempotency.py: entries of the in-memory store and what each critical section
of `execute` does to them. A future is named by the call that created it.
-/
namespace Relprim
open Dictionary

inductive IdempotencyStatus where
  | executed | joined | replayed
  deriving DecidableEq

def IdempotencyStatus.value : IdempotencyStatus → String
  | .executed => "executed"
  | .joined => "joined"
  | .replayed => "replayed"

def validateKey : PyValue → Except Exc String
  | .scalar (.str key) =>
    if isBlank key then .error (valueError "idempotency key must not be empty.") else .ok key
  | _ => .error (typeError "idempotency key must be a string.")

theorem validateKey_str {key k : String} (h : validateKey (.scalar (.str key)) = .ok k) :
    isBlank key = false := by
  simp only [validateKey] at h
  split at h
  · cases h
  · exact Bool.eq_false_iff.mpr ‹_›

def validateTtl (ttlSeconds : ℚ) : Except Exc Unit :=
  checkSeconds (.scalar (.seconds ttlSeconds)) "ttl_seconds" false

theorem validateTtl_iff {ttl : ℚ} : validateTtl ttl = .ok () ↔ 0 < ttl := by
  by_cases positive : 0 < ttl <;>
    simp [validateTtl, checkSeconds, JsonScalar.seconds, mathIsfinite, PyFloat.isfinite, check,
      positive, bind, Except.bind, pure, Except.pure]

structure IdempotencyResult (V : Type) where
  value : V
  key : String
  status : IdempotencyStatus

def IdempotencyResult.cacheHit (r : IdempotencyResult V) : Bool :=
  r.status = .joined || r.status = .replayed

/-- `asyncio.Future` as the store uses it; `ownerCancelled` is `_OwnerCancelled`. -/
inductive FutureState (V : Type) where
  | pending
  | result (value : V)
  | exception (e : Exc)
  | ownerCancelled

def FutureState.done : FutureState V → Bool
  | .pending => false
  | _ => true

structure Entry (Task : Type) where
  future : ℕ
  ownerTask : Task
  expiresAt : Option ℚ := none
  deriving DecidableEq

namespace InMemoryIdempotencyStore
variable {Task V : Type}

abbrev Entries (Task : Type) := Dict String (Entry Task)

def expired (now : ℚ) (e : Entry Task) : Bool :=
  match e.expiresAt with
  | some t => t ≤ now
  | none => false

/-- `_purge_expired_locked`: the entries that remain and the number removed. -/
def purgeExpired (now : ℚ) (es : Entries Task) : Entries Task × ℕ :=
  (keep (fun e => !expired now e) es, es.entries.countP fun p => expired now p.2)

inductive Lookup where
  | own
  | reentry
  | found (future : ℕ)

def lookupLocked [DecidableEq Task] (now : ℚ) (task : Task) (key : String) (future : ℕ)
    (futures : ℕ → FutureState V) (es : Entries Task) : Entries Task × Lookup :=
  let live := (purgeExpired now es).1
  match live.lookup key with
  | none => (live.insert key { future, ownerTask := task }, .own)
  | some e =>
    if !(futures e.future).done && e.ownerTask = task then (live, .reentry)
    else (live, .found e.future)

def removeEntryNow (key : String) (future : ℕ) (es : Entries Task) : Entries Task :=
  match es.lookup key with
  | some e => if e.future = future then es.erase key else es
  | none => es

/-- The owner caches its result: the entry expires `ttlSeconds` after `now`. -/
def publish (now ttlSeconds : ℚ) (key : String) (future : ℕ) (es : Entries Task) : Entries Task :=
  match es.lookup key with
  | some e =>
    if e.future = future then es.insert key { e with expiresAt := some (now + ttlSeconds) } else es
  | none => es

theorem purge_lookup {now : ℚ} {es : Entries Task} {k : String} {e : Entry Task} :
    (purgeExpired now es).1.lookup k = some e ↔ es.lookup k = some e ∧ expired now e = false := by
  rw [purgeExpired, lookup_keep_eq_some]
  simp

theorem purge_lookup_none {now : ℚ} {es : Entries Task} {k : String}
    (h : (purgeExpired now es).1.lookup k = none) {e : Entry Task} (found : es.lookup k = some e) :
    expired now e = true := by
  by_contra live
  have kept := purge_lookup.mpr ⟨found, Bool.eq_false_iff.mpr live⟩
  rw [h] at kept
  cases kept

theorem expired_in_flight {now : ℚ} {e : Entry Task} (h : e.expiresAt = none) :
    expired now e = false := by
  simp [expired, h]

theorem expired_iff {now t : ℚ} {e : Entry Task} (h : e.expiresAt = some t) :
    expired now e = true ↔ t ≤ now := by
  simp [expired, h]

theorem lookupLocked_cases [DecidableEq Task] (now : ℚ) (task : Task) (key : String) (future : ℕ)
    (futures : ℕ → FutureState V) (es : Entries Task) :
    ((∀ e, es.lookup key = some e → expired now e = true) ∧
      lookupLocked now task key future futures es =
        ((purgeExpired now es).1.insert key { future, ownerTask := task }, .own)) ∨
    (∃ e, es.lookup key = some e ∧ expired now e = false ∧ (futures e.future).done = false ∧
      e.ownerTask = task ∧
      lookupLocked now task key future futures es = ((purgeExpired now es).1, .reentry)) ∨
    (∃ e, es.lookup key = some e ∧ expired now e = false ∧
      ((futures e.future).done = true ∨ e.ownerTask ≠ task) ∧
      lookupLocked now task key future futures es = ((purgeExpired now es).1, .found e.future)) := by
  cases live : (purgeExpired now es).1.lookup key with
  | none =>
    exact .inl ⟨fun e found => purge_lookup_none live found, by simp [lookupLocked, live]⟩
  | some e =>
    obtain ⟨found, fresh⟩ := purge_lookup.mp live
    by_cases own : (futures e.future).done = false ∧ e.ownerTask = task
    · exact .inr (.inl ⟨e, found, fresh, own.1, own.2, by simp [lookupLocked, live, own]⟩)
    · have other : (futures e.future).done = true ∨ e.ownerTask ≠ task := by
        by_cases done : (futures e.future).done = true
        · exact .inl done
        · exact .inr fun same => own ⟨Bool.eq_false_iff.mpr done, same⟩
      refine .inr (.inr ⟨e, found, fresh, other, ?_⟩)
      have no : ¬ ((!(futures e.future).done && decide (e.ownerTask = task)) = true) := by
        simpa using own
      simp only [lookupLocked, live, if_neg no]

theorem removeEntryNow_own {key : String} {future : ℕ} {es : Entries Task} {e : Entry Task}
    (found : es.lookup key = some e) (own : e.future = future) :
    removeEntryNow key future es = es.erase key := by
  simp [removeEntryNow, found, own]

theorem publish_own {now ttl : ℚ} {key : String} {future : ℕ} {es : Entries Task}
    {e : Entry Task} (found : es.lookup key = some e) (own : e.future = future) :
    publish now ttl key future es =
      es.insert key { e with expiresAt := some (now + ttl) } := by
  simp [publish, found, own]

end InMemoryIdempotencyStore

/-- The store of a policy: the `n`-th of those the application has, or the
    `InMemoryIdempotencyStore()` made with the policy. -/
inductive IdempotencyStore where
  | given (n : ℕ)
  | made
  deriving DecidableEq

/-- `key_factory` gives the key of the call, as any object. -/
structure IdempotencyPolicy where
  keyFactory : Except Exc PyValue
  store : IdempotencyStore := .made
  ttlSeconds : ℚ := 3600
  ttl_pos : 0 < ttlSeconds := by decide

end Relprim
