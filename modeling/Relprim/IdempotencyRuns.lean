import Relprim.Library.Runs
import Relprim.Idempotency

/-!
One in-memory store shared by any number of tasks. A step runs from one
suspension point of `execute` to the next: the lookup, the end of an owner's
operation, the wake-up or cancellation of a joined caller, a purge, or the
passage of time. The log is the history of executions and of what callers got.
-/
namespace Relprim.IdempotencyRuns
open LabelledRuns InMemoryIdempotencyStore Dictionary
variable {Task V : Type}

inductive Phase where
  | executing
  | waiting (future : ℕ)
  deriving DecidableEq

structure Caller (Task : Type) where
  task : Task
  key : String
  ttl : ℚ
  phase : Phase
  deriving DecidableEq

/-- `started`, `succeeded` and `stopped` are about the execution of call `id`;
    `joined`, `returned` and `raised` about what call `id` itself meets. -/
inductive Event (V : Type) where
  | started (id : ℕ) (key : String)
  | succeeded (id : ℕ) (key : String) (value : V) (at_ ttl : ℚ)
  | stopped (id : ℕ) (key : String) (x : Raised)
  | joined (id : ℕ) (key : String) (owner : ℕ)
  | returned (id : ℕ) (result : IdempotencyResult V) (now : ℚ)
  | raised (id : ℕ) (x : Raised)
  | purged (removed : ℕ)
  | counted (entries : ℕ)

structure Store (Task V : Type) where
  entries : Entries Task
  futures : ℕ → FutureState V
  callers : ℕ → Option (Caller Task)
  nextId : ℕ
  now : ℚ
  log : List (Event V)

inductive Label (Task V : Type) where
  | execute (task : Task) (key : String) (ttl : ℚ)
  | finish (id : ℕ) (outcome : Except Raised V)
  | wake (id : ℕ)
  | cancelJoined (id : ℕ)
  | purgeExpired
  | entryCount
  | advance (d : ℚ)

def initial (start : ℚ) : Store Task V := ⟨∅, fun _ => .pending, fun _ => none, 0, start, []⟩

def leave (s : Store Task V) (id : ℕ) (es : List (Event V)) : Store Task V :=
  { s with callers := Function.update s.callers id none, log := s.log ++ es }

def Executing (s : Store Task V) (id : ℕ) (c : Caller Task) : Prop :=
  s.callers id = some c ∧ c.phase = .executing

def Waiting (s : Store Task V) (id : ℕ) (c : Caller Task) (future : ℕ) : Prop :=
  s.callers id = some c ∧ c.phase = .waiting future

def finish (s : Store Task V) (id : ℕ) (c : Caller Task) : Except Raised V → Store Task V
  | .ok v =>
    leave { s with
      entries := publish s.now c.ttl c.key id s.entries
      futures := if (s.futures id).done then s.futures
        else Function.update s.futures id (.result v) }
      id [.succeeded id c.key v s.now c.ttl, .returned id ⟨v, c.key, .executed⟩ s.now]
  | .error .cancelled =>
    leave { s with
      entries := removeEntryNow c.key id s.entries
      futures := if (s.futures id).done then s.futures
        else Function.update s.futures id .ownerCancelled }
      id [.stopped id c.key .cancelled, .raised id .cancelled]
  | .error (.exception e) =>
    leave { s with
      entries := removeEntryNow c.key id s.entries
      futures := if (s.futures id).done then s.futures
        else Function.update s.futures id (.exception e) }
      id [.stopped id c.key (.exception e), .raised id (.exception e)]
  -- Neither `except` clause catches any other BaseException.
  | .error (.baseException t) =>
    leave s id [.stopped id c.key (.baseException t), .raised id (.baseException t)]

section
variable [DecidableEq Task]

/-- One turn of the loop in `execute`, up to the suspension or the end of the call.
    A future found done is awaited in the same turn, since awaiting it does not suspend. -/
def enter (s : Store Task V) (id : ℕ) (c : Caller Task) : Store Task V :=
  match lookupLocked s.now c.task c.key id s.futures s.entries with
  | (es, .own) =>
    { s with
      entries := es
      callers := Function.update s.callers id (some { c with phase := .executing })
      log := s.log ++ [.started id c.key] }
  | (es, .reentry) =>
    leave { s with entries := es } id [.raised id (.exception (idempotencyReentryError c.key))]
  | (es, .found f) =>
    match s.futures f with
    | .result v =>
      leave { s with entries := es } id [.returned id ⟨v, c.key, .replayed⟩ s.now]
    | .exception e => leave { s with entries := es } id [.raised id (.exception e)]
    | .pending | .ownerCancelled =>
      { s with
        entries := es
        callers := Function.update s.callers id (some { c with phase := .waiting f })
        log := s.log ++ [.joined id c.key f] }

def wake (s : Store Task V) (id : ℕ) (c : Caller Task) (future : ℕ) : Option (Store Task V) :=
  match s.futures future with
  | .pending => none
  | .result v => some (leave s id [.returned id ⟨v, c.key, .joined⟩ s.now])
  | .exception e => some (leave s id [.raised id (.exception e)])
  | .ownerCancelled => some (enter s id c)

def step (s : Store Task V) : Label Task V → Option (Store Task V)
  | .execute task key ttl =>
    let s' := { s with nextId := s.nextId + 1 }
    match validateKey (.scalar (.str key)), validateTtl ttl with
    | .error e, _ => some { s' with log := s.log ++ [.raised s.nextId (.exception e)] }
    | .ok _, .error e => some { s' with log := s.log ++ [.raised s.nextId (.exception e)] }
    | .ok _, .ok _ => some (enter s' s.nextId ⟨task, key, ttl, .executing⟩)
  | .finish id outcome =>
    match s.callers id with
    | some c => if c.phase = .executing then some (finish s id c outcome) else none
    | none => none
  | .wake id =>
    match s.callers id with
    | some c => match c.phase with
      | .waiting future => wake s id c future
      | .executing => none
    | none => none
  | .cancelJoined id =>
    match s.callers id with
    | some c => match c.phase with
      | .waiting _ => some (leave s id [.raised id .cancelled])
      | .executing => none
    | none => none
  | .purgeExpired =>
    let (es, removed) := InMemoryIdempotencyStore.purgeExpired s.now s.entries
    some { s with entries := es, log := s.log ++ [.purged removed] }
  | .entryCount =>
    let (es, _) := InMemoryIdempotencyStore.purgeExpired s.now s.entries
    some { s with entries := es, log := s.log ++ [.counted es.entries.length] }
  | .advance d => if 0 ≤ d then some { s with now := s.now + d } else none

theorem enter_cases (s : Store Task V) (id : ℕ) (c : Caller Task) :
    ((∀ e, s.entries.lookup c.key = some e → expired s.now e = true) ∧
      enter s id c = { s with
        entries := (InMemoryIdempotencyStore.purgeExpired s.now s.entries).1.insert c.key
          { future := id, ownerTask := c.task }
        callers := Function.update s.callers id (some { c with phase := .executing })
        log := s.log ++ [.started id c.key] }) ∨
    (∃ e, s.entries.lookup c.key = some e ∧ expired s.now e = false ∧
      (s.futures e.future).done = false ∧ e.ownerTask = c.task ∧
      enter s id c = leave { s with
        entries := (InMemoryIdempotencyStore.purgeExpired s.now s.entries).1 } id
        [.raised id (.exception (idempotencyReentryError c.key))]) ∨
    (∃ e, s.entries.lookup c.key = some e ∧ expired s.now e = false ∧
      ((∃ v, s.futures e.future = .result v ∧
        enter s id c = leave { s with
          entries := (InMemoryIdempotencyStore.purgeExpired s.now s.entries).1 } id
          [.returned id ⟨v, c.key, .replayed⟩ s.now]) ∨
      (∃ x, s.futures e.future = .exception x ∧
        enter s id c = leave { s with
          entries := (InMemoryIdempotencyStore.purgeExpired s.now s.entries).1 } id
          [.raised id (.exception x)]) ∨
      (((s.futures e.future = .pending ∧ e.ownerTask ≠ c.task) ∨
          s.futures e.future = .ownerCancelled) ∧
        enter s id c = { s with
          entries := (InMemoryIdempotencyStore.purgeExpired s.now s.entries).1
          callers := Function.update s.callers id (some { c with phase := .waiting e.future })
          log := s.log ++ [.joined id c.key e.future] }))) := by
  rcases lookupLocked_cases s.now c.task c.key id s.futures s.entries with
    ⟨free, eq⟩ | ⟨e, found, fresh, busy, own, eq⟩ | ⟨e, found, fresh, other, eq⟩
  · exact .inl ⟨free, by simp only [enter, eq]⟩
  · exact .inr (.inl ⟨e, found, fresh, busy, own, by simp only [enter, eq]⟩)
  · refine .inr (.inr ⟨e, found, fresh, ?_⟩)
    cases state : s.futures e.future with
    | result v => exact .inl ⟨v, rfl, by simp only [enter, eq, state]⟩
    | exception x => exact .inr (.inl ⟨x, rfl, by simp only [enter, eq, state]⟩)
    | pending =>
      rw [state] at other
      have foreign : e.ownerTask ≠ c.task := by simpa [FutureState.done] using other
      exact .inr (.inr ⟨.inl ⟨rfl, foreign⟩, by simp only [enter, eq, state]⟩)
    | ownerCancelled => exact .inr (.inr ⟨.inr rfl, by simp only [enter, eq, state]⟩)

inductive StepShape (s : Store Task V) : Label Task V → Store Task V → Prop where
  | refused (task : Task) (key : String) (ttl : ℚ) (x : Raised) :
      StepShape s (.execute task key ttl)
        { s with nextId := s.nextId + 1, log := s.log ++ [.raised s.nextId x] }
  | enters (task : Task) {key : String} {ttl : ℚ} (named : isBlank key = false)
      (positive : 0 < ttl) : StepShape s (.execute task key ttl)
        (enter { s with nextId := s.nextId + 1 } s.nextId ⟨task, key, ttl, .executing⟩)
  | finishes {id : ℕ} {c : Caller Task} (o : Except Raised V) (executing : Executing s id c) :
      StepShape s (.finish id o) (finish s id c o)
  | wakes {id : ℕ} {c : Caller Task} {f : ℕ} {t : Store Task V} (waiting : Waiting s id c f)
      (woken : wake s id c f = some t) : StepShape s (.wake id) t
  | cancels {id : ℕ} {c : Caller Task} {f : ℕ} (waiting : Waiting s id c f) :
      StepShape s (.cancelJoined id) (leave s id [.raised id .cancelled])
  | purges {l : Label Task V} (e : Event V)
      (counts : (∃ n, e = .purged n) ∨ ∃ n, e = .counted n) :
      StepShape s l { s with
        entries := (InMemoryIdempotencyStore.purgeExpired s.now s.entries).1, log := s.log ++ [e] }
  | advances (d : ℚ) (nonneg : 0 ≤ d) : StepShape s (.advance d) { s with now := s.now + d }

theorem step_shape {s t : Store Task V} {l : Label Task V} (h : step s l = some t) :
    StepShape s l t := by
  cases l with
  | execute task key ttl =>
    simp only [step] at h
    split at h
    · cases h
      exact .refused task key ttl _
    · cases h
      exact .refused task key ttl _
    · rename_i named positive
      cases h
      exact .enters task (validateKey_str named) (validateTtl_iff.mp positive)
  | finish id o =>
    simp only [step] at h
    split at h
    · rename_i c found
      split at h
      · cases h
        exact .finishes o ⟨found, ‹_›⟩
      · cases h
    · cases h
  | wake id =>
    simp only [step] at h
    split at h
    · rename_i c found
      split at h
      · exact .wakes ⟨found, ‹_›⟩ h
      · cases h
    · cases h
  | cancelJoined id =>
    simp only [step] at h
    split at h
    · rename_i c found
      split at h
      · cases h
        exact .cancels ⟨found, ‹_›⟩
      · cases h
    · cases h
  | purgeExpired =>
    cases h
    exact .purges _ (.inl ⟨_, rfl⟩)
  | entryCount =>
    cases h
    exact .purges _ (.inr ⟨_, rfl⟩)
  | advance d =>
    simp only [step] at h
    split at h
    · cases h
      exact .advances d ‹_›
    · cases h

theorem step_execute {s : Store Task V} {task : Task} {key : String} {ttl : ℚ}
    (named : isBlank key = false) (positive : 0 < ttl) :
    step s (.execute task key ttl) =
      some (enter { s with nextId := s.nextId + 1 } s.nextId ⟨task, key, ttl, .executing⟩) := by
  simp [step, validateKey, named, validateTtl_iff.mpr positive]

theorem step_finish {s : Store Task V} {id : ℕ} {c : Caller Task} (h : Executing s id c)
    (o : Except Raised V) : step s (.finish id o) = some (finish s id c o) := by
  simp [step, h.1, h.2]

theorem step_wake {s : Store Task V} {id : ℕ} {c : Caller Task} {f : ℕ} (h : Waiting s id c f) :
    step s (.wake id) = wake s id c f := by
  simp [step, h.1, h.2]

end

end Relprim.IdempotencyRuns
