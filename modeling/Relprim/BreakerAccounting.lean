import Relprim.BreakerProbes

/-!
State consistency and failure accounting: the three states with their fields, the
count of recorded failures since the last restart, and the completion at which a
closed breaker opens.
-/
namespace Relprim.BreakerRuns
open LabelledRuns CircuitBreaker

/-- What a step is for the count of failures. -/
inductive Account where
  | restart | failure | other
  deriving DecidableEq

def Label.succeeds : Label → Bool
  | .complete _ (.ok _) => true
  | _ => false

def Label.isReset : Label → Bool
  | .reset => true
  | _ => false

def recordedFailure (cb : CircuitBreaker) : Label → Bool
  | .complete _ (.error (.exception e)) => cb.records e
  | _ => false

def unrecordedEnd (cb : CircuitBreaker) : Label → Bool
  | .complete _ (.error (.exception e)) => !cb.records e
  | .complete _ (.error _) => true
  | _ => false

/-- The count starts again at a reset, at a (re)closing and at a success completed
    while CLOSED. -/
def account (cb : CircuitBreaker) (s : System) (l : Label) (t : System) : Account :=
  if l.isReset || (s.breaker.state ≠ .closed && t.breaker.state = .closed) ||
      (s.breaker.state = .closed && l.succeeds) then .restart
  else if recordedFailure cb l then .failure
  else .other

def accounts (cb : CircuitBreaker) (start : ℚ) (ls : List Label) : List Account :=
  trace (step cb) (account cb) (initial start) ls

def failuresSince (hs : List Account) : ℕ :=
  (hs.reverse.takeWhile fun a => a ≠ .restart).count .failure

@[simp] theorem failuresSince_restart (hs : List Account) :
    failuresSince (hs ++ [.restart]) = 0 := by
  simp [failuresSince]

@[simp] theorem failuresSince_failure (hs : List Account) :
    failuresSince (hs ++ [.failure]) = failuresSince hs + 1 := by
  simp [failuresSince]

@[simp] theorem failuresSince_other (hs : List Account) :
    failuresSince (hs ++ [.other]) = failuresSince hs := by
  simp [failuresSince]

/-- The fields that go with each state. -/
structure Consistent (cb : CircuitBreaker) (b : BreakerState) : Prop where
  closed : b.state = .closed → b.openedAt = none ∧ b.failureCount < cb.failureThreshold
  other : b.state ≠ .closed → b.openedAt.isSome = true ∧ b.failureCount = cb.failureThreshold

theorem consistent_initial (cb : CircuitBreaker) : Consistent cb {} where
  closed _ := ⟨rfl, cb.threshold_pos⟩
  other h := absurd rfl h

theorem consistent_flag {cb : CircuitBreaker} {b : BreakerState} (h : Consistent cb b)
    (flag : Bool) : Consistent cb { b with halfOpenProbeInFlight := flag } :=
  ⟨h.closed, h.other⟩

theorem consistent_openAt {cb : CircuitBreaker} {b : BreakerState} (now : ℚ)
    (full : b.failureCount = cb.failureThreshold) : Consistent cb (openAt now b) where
  closed h := by cases h
  other _ := ⟨rfl, full⟩

theorem consistent_arrive {cb : CircuitBreaker} {s : System} (h : Consistent cb s.breaker) :
    Consistent cb (arrive cb s).breaker ∧
      (arrive cb s).breaker.failureCount = s.breaker.failureCount ∧
      ((arrive cb s).breaker.state = .closed ↔ s.breaker.state = .closed) := by
  rcases arrive_cases cb s with ⟨eq, _⟩ | ⟨_, eq⟩ | ⟨state, eq⟩ | ⟨_, _, eq⟩
  · rw [eq]
    exact ⟨h, rfl, Iff.rfl⟩
  · rw [eq]
    exact ⟨h, rfl, Iff.rfl⟩
  · rw [eq]
    have full := h.other (by simp [state])
    exact ⟨⟨fun closed => (by cases closed), fun _ => full⟩, rfl, by simp [accept, state]⟩
  · rw [eq]
    exact ⟨consistent_flag h true, rfl, Iff.rfl⟩

theorem consistent_complete {cb : CircuitBreaker} {b : BreakerState} (h : Consistent cb b)
    (now : ℚ) (probe : Bool) (o : Except Raised Unit) :
    Consistent cb (cb.afterCall now probe o b) := by
  rcases cb.afterCall_cases now probe o b with
    ⟨_, eq⟩ | ⟨e, _, recorded, eq⟩ | ⟨e, _, _, eq⟩ | ⟨x, _, _, eq⟩
  · rw [eq]
    cases state : b.state with
    | halfOpen => simpa [afterSuccess, state, close] using consistent_initial cb
    | opened => simpa [afterSuccess, state] using h
    | closed =>
      simp only [afterSuccess, state]
      exact ⟨fun _ => ⟨(h.closed state).1, cb.threshold_pos⟩, fun other => absurd rfl other⟩
  · rw [eq]
    by_cases half : b.state = .halfOpen
    · rw [cb.afterFailure_halfOpen recorded half]
      exact consistent_openAt now (h.other (by simp [half])).2
    · rcases cb.afterFailure_recorded now recorded half with
        ⟨_, same⟩ | ⟨state, less, same⟩ | ⟨state, full, same⟩
      · rw [same]
        exact h
      · rw [same]
        exact ⟨fun _ => ⟨(h.closed state).1, less⟩, fun other => absurd state other⟩
      · rw [same]
        have less := (h.closed state).2
        exact consistent_openAt now (by simp only; omega)
  · rw [eq]
    split
    · exact consistent_flag h false
    · exact h
  · rw [eq]
    cases probe with
    | true => exact consistent_flag h false
    | false => exact h

theorem consistent_step {cb : CircuitBreaker} {s t : System} {l : Label}
    (h : Consistent cb s.breaker) (hs : step cb s l = some t) : Consistent cb t.breaker := by
  rcases step_cases hs with ⟨_, rfl⟩ | ⟨c, _, o, _, rfl⟩ | ⟨_, rfl⟩ | ⟨d, _, _, rfl⟩
  · exact (consistent_arrive h).1
  · exact consistent_complete h s.now c.probe o
  · exact consistent_initial cb
  · exact h

/-! The account of one step. -/

/-- An exception that is not recorded and a cancellation leave the count, and do not
    close or open anything. -/
theorem unrecorded_keeps {cb : CircuitBreaker} {s t : System} {l : Label}
    (unrecorded : unrecordedEnd cb l = true) (h : step cb s l = some t) :
    t.breaker.failureCount = s.breaker.failureCount ∧ t.breaker.state = s.breaker.state := by
  rcases step_cases h with ⟨rfl, _⟩ | ⟨c, _, o, rfl, rfl⟩ | ⟨rfl, _⟩ | ⟨_, _, rfl, _⟩
  · cases unrecorded
  · rcases cb.afterCall_cases s.now c.probe o s.breaker with
      ⟨rfl, _⟩ | ⟨e, rfl, recorded, _⟩ | ⟨e, _, _, eq⟩ | ⟨x, _, _, eq⟩
    · cases unrecorded
    · simp [unrecordedEnd, recorded] at unrecorded
    · simp only [complete, eq]
      split <;> exact ⟨rfl, rfl⟩
    · simp only [complete, eq, release]
      split <;> exact ⟨rfl, rfl⟩
  · cases unrecorded
  · cases unrecorded

theorem account_other {cb : CircuitBreaker} {s t : System} {l : Label}
    (same : t.breaker.state = .closed ↔ s.breaker.state = .closed) (reset : l.isReset = false)
    (success : l.succeeds = false) (failure : recordedFailure cb l = false) :
    account cb s l t = .other := by
  by_cases state : s.breaker.state = .closed <;> simp [account, same, state, reset, success, failure]

theorem account_failure {cb : CircuitBreaker} {s : System} {e : Exc} (t : System) (id : ℕ)
    (closed : s.breaker.state = .closed) (recorded : cb.records e = true) :
    account cb s (.complete id (.error (.exception e))) t = .failure := by
  simp [account, Label.isReset, Label.succeeds, recordedFailure, closed, recorded]

theorem account_restart {cb : CircuitBreaker} {s t : System} (id : ℕ)
    (closed : t.breaker.state = .closed) : account cb s (.complete id (.ok ())) t = .restart := by
  by_cases state : s.breaker.state = .closed <;>
    simp [account, Label.isReset, Label.succeeds, closed, state]

def Counts (s : System) (hs : List Account) : Prop :=
  s.breaker.state = .closed → s.breaker.failureCount = failuresSince hs

theorem counts_same {cb : CircuitBreaker} {s t : System} {l : Label} {hs : List Account}
    (h : Counts s hs) (count : t.breaker.failureCount = s.breaker.failureCount)
    (state : t.breaker.state = .closed ↔ s.breaker.state = .closed) (reset : l.isReset = false)
    (success : l.succeeds = false) (failure : recordedFailure cb l = false) :
    Counts t (hs ++ [account cb s l t]) := by
  intro closed
  rw [account_other state reset success failure, failuresSince_other, count]
  exact h (state.mp closed)

theorem counts_success {cb : CircuitBreaker} {s : System} {hs : List Account} (c : Call) :
    Counts (complete cb s c (.ok ()))
      (hs ++ [account cb s (.complete c.id (.ok ())) (complete cb s c (.ok ()))]) := by
  intro closed
  rw [account_restart c.id closed, failuresSince_restart]
  change (afterSuccess s.breaker).state = .closed at closed
  change (afterSuccess s.breaker).failureCount = 0
  cases state : s.breaker.state <;> simp_all [afterSuccess, close]

theorem counts_failure {cb : CircuitBreaker} {s : System} {hs : List Account} (h : Counts s hs)
    (c : Call) {e : Exc} (recorded : cb.records e = true) :
    Counts (complete cb s c (.error (.exception e)))
      (hs ++ [account cb s (.complete c.id (.error (.exception e)))
        (complete cb s c (.error (.exception e)))]) := by
  intro closed
  change (cb.afterFailure s.now e s.breaker).state = .closed at closed
  by_cases half : s.breaker.state = .halfOpen
  · rw [cb.afterFailure_halfOpen recorded half] at closed
    cases closed
  · rcases cb.afterFailure_recorded s.now recorded half with
      ⟨state, same⟩ | ⟨state, _, same⟩ | ⟨_, _, same⟩
    · rw [same, state] at closed
      cases closed
    · rw [account_failure _ c.id state recorded, failuresSince_failure, ← h state]
      change (cb.afterFailure s.now e s.breaker).failureCount = _
      rw [same]
    · rw [same] at closed
      cases closed

theorem counts_step {cb : CircuitBreaker} {s t : System} {l : Label} {hs : List Account}
    (consistent : Consistent cb s.breaker) (h : Counts s hs) (hs' : step cb s l = some t) :
    Counts t (hs ++ [account cb s l t]) := by
  rcases step_cases hs' with ⟨rfl, rfl⟩ | ⟨c, _, o, rfl, rfl⟩ | ⟨rfl, rfl⟩ | ⟨_, _, rfl, rfl⟩
  · obtain ⟨_, count, state⟩ := consistent_arrive consistent
    exact counts_same h count state rfl rfl rfl
  · cases o with
    | ok => exact counts_success c
    | error x =>
      by_cases unrecorded : unrecordedEnd cb (.complete c.id (.error x)) = true
      · obtain ⟨count, state⟩ := unrecorded_keeps unrecorded hs'
        have failure : recordedFailure cb (.complete c.id (.error x)) = false := by
          cases x <;> simp_all [unrecordedEnd, recordedFailure]
        exact counts_same h count (by rw [state]) rfl rfl failure
      · cases x with
        | exception e => exact counts_failure h c (by simpa [unrecordedEnd] using unrecorded)
        | cancelled => exact absurd rfl unrecorded
        | baseException t => exact absurd rfl unrecorded
  · intro _
    rw [show account cb s .reset _ = .restart from rfl, failuresSince_restart]
    rfl
  · exact counts_same h rfl Iff.rfl rfl rfl rfl

theorem counts_run {cb : CircuitBreaker} {start : ℚ} {ls : List Label} {s : System}
    (h : run (step cb) (initial start) ls = some s) :
    Consistent cb s.breaker ∧ Counts s (accounts cb start ls) :=
  invariant_trace (I := fun s hs => Consistent cb s.breaker ∧ Counts s hs)
    ⟨consistent_initial cb, fun _ => rfl⟩
    (fun _ _ _ _ _ inv hs => ⟨consistent_step inv.1 hs, counts_step inv.1 inv.2 hs⟩) h

theorem stays_closed {cb : CircuitBreaker} {s t : System} {l : Label}
    (consistent : Consistent cb s.breaker) (closed : s.breaker.state = .closed)
    (failure : recordedFailure cb l = false) (h : step cb s l = some t) :
    t.breaker.state = .closed := by
  rcases step_cases h with ⟨rfl, rfl⟩ | ⟨c, _, o, rfl, rfl⟩ | ⟨rfl, rfl⟩ | ⟨_, _, rfl, rfl⟩
  · exact (consistent_arrive consistent).2.2.mpr closed
  · cases o with
    | ok =>
      change (afterSuccess s.breaker).state = .closed
      simp [afterSuccess, closed]
    | error x =>
      have unrecorded : unrecordedEnd cb (.complete c.id (.error x)) = true := by
        cases x <;> simp_all [unrecordedEnd, recordedFailure]
      exact (unrecorded_keeps unrecorded h).2.trans closed
  · rfl
  · exact closed

theorem recordedFailure_inv {cb : CircuitBreaker} {l : Label} (h : recordedFailure cb l = true) :
    ∃ id e, l = .complete id (.error (.exception e)) ∧ cb.records e = true := by
  unfold recordedFailure at h
  split at h
  · exact ⟨_, _, rfl, h⟩
  · cases h

/-- A CLOSED breaker opens at the completion that brings the count to the threshold,
    and at no other step. -/
theorem opens_iff {cb : CircuitBreaker} {s t : System} {l : Label} {hs : List Account}
    (consistent : Consistent cb s.breaker) (counts : Counts s hs)
    (closed : s.breaker.state = .closed) (h : step cb s l = some t) :
    t.breaker.state = .opened ↔
      recordedFailure cb l = true ∧
        failuresSince (hs ++ [account cb s l t]) = cb.failureThreshold := by
  have less := (consistent.closed closed).2
  by_cases failure : recordedFailure cb l = true
  · obtain ⟨id, e, rfl, recorded⟩ := recordedFailure_inv failure
    rw [account_failure _ id closed recorded, failuresSince_failure, ← counts closed]
    rcases step_cases h with ⟨no, _⟩ | ⟨c, _, o, same, rfl⟩ | ⟨no, _⟩ | ⟨_, _, no, _⟩
    · cases no
    · cases same
      change (cb.afterFailure s.now e s.breaker).state = .opened ↔ _
      have half : s.breaker.state ≠ .halfOpen := by simp [closed]
      rcases cb.afterFailure_recorded s.now recorded half with
        ⟨state, _⟩ | ⟨_, below, eq⟩ | ⟨_, full, eq⟩
      · simp [closed] at state
      · rw [eq]
        simp only [closed, failure, true_and]
        constructor
        · intro impossible
          cases impossible
        · intro reached
          omega
      · rw [eq]
        simp only [openAt, failure, true_and, true_iff]
        omega
    · cases no
    · cases no
  · have still := stays_closed consistent closed (Bool.eq_false_iff.mpr failure) h
    simp [still, failure]

/-- In the state any run reaches: CLOSED exactly when `openedAt` is unset and exactly when
    the count is below the threshold, which it otherwise equals; a CLOSED breaker has
    counted the recorded failures since the latest restart, opens at precisely the one that
    reaches the threshold, and unrecorded endings never change the count. -/
theorem state_consistent_and_failures_counted (cb : CircuitBreaker) (start : ℚ)
    (ls : List Label) (s : System) (h : run (step cb) (initial start) ls = some s) :
    (s.breaker.state = .closed ↔ s.breaker.openedAt = none) ∧
    (s.breaker.state = .closed ↔ s.breaker.failureCount < cb.failureThreshold) ∧
    (s.breaker.state ≠ .closed →
      s.breaker.openedAt.isSome = true ∧ s.breaker.failureCount = cb.failureThreshold) ∧
    (s.breaker.state = .closed →
      s.breaker.failureCount = failuresSince (accounts cb start ls)) ∧
    (∀ l t, step cb s l = some t → s.breaker.state = .closed →
      (t.breaker.state = .opened ↔ recordedFailure cb l = true ∧
        failuresSince (accounts cb start (ls ++ [l])) = cb.failureThreshold)) ∧
    (∀ l t, step cb s l = some t → unrecordedEnd cb l = true →
      t.breaker.failureCount = s.breaker.failureCount) := by
  obtain ⟨consistent, counts⟩ := counts_run h
  refine ⟨?_, ?_, consistent.other, counts, ?_, ?_⟩
  · constructor
    · exact fun closed => (consistent.closed closed).1
    · intro unset
      by_contra state
      have set := (consistent.other state).1
      simp [unset] at set
  · constructor
    · exact fun closed => (consistent.closed closed).2
    · intro below
      by_contra state
      have full := (consistent.other state).2
      omega
  · intro l t hs closed
    rw [accounts, trace_snoc h hs]
    exact opens_iff consistent counts closed hs
  · exact fun l t hs unrecorded => (unrecorded_keeps unrecorded hs).1

def patient : CircuitBreaker :=
  { fragile with failureThreshold := 3, threshold_pos := Nat.succ_pos 2 }

def interruptedFailures : List Label :=
  [.arrive, .arrive, .arrive, .complete 0 timeoutFailure, .complete 1 (.ok ()),
    .complete 2 timeoutFailure]

theorem one_failure_since_success :
    ∃ s, run (step patient) (initial 0) interruptedFailures = some s ∧
      s.breaker.state = .closed ∧ failuresSince (accounts patient 0 interruptedFailures) = 1 ∧
      s.breaker.failureCount = failuresSince (accounts patient 0 interruptedFailures) := by
  have done : (run (step patient) (initial 0) interruptedFailures).any (fun s =>
      s.breaker.state = .closed) = true := by decide +kernel
  obtain ⟨s, hs, closed⟩ := (Option.any_eq_true _ _).mp done
  have state : s.breaker.state = .closed := by simpa using closed
  have counted := (state_consistent_and_failures_counted patient 0 _ s hs).2.2.2.1 state
  exact ⟨s, hs, state, by decide +kernel, counted⟩

end Relprim.BreakerRuns
