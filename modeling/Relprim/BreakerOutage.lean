import Relprim.BreakerOpening
import Relprim.BreakerAccounting

/-!
A breaker in front of a dependency that is down: every call that ends, ends with a failure that
the breaker records. How many calls it lets through, before it opens and afterwards.
-/
namespace Relprim.BreakerRuns
open LabelledRuns CircuitBreaker

inductive Down (cb : CircuitBreaker) : Label → Prop where
  | arrive : Down cb .arrive
  | advance (d : ℚ) : Down cb (.advance d)
  | failed {id : ℕ} {e : Exc} (recorded : cb.records e = true) :
      Down cb (.complete id (.error (.exception e)))

theorem length_removed {calls : List Call} (distinct : (calls.map Call.id).Nodup) {c : Call}
    (member : c ∈ calls) : (calls.filter fun d => d.id ≠ c.id).length + 1 = calls.length := by
  induction calls with
  | nil => cases member
  | cons d rest ih =>
    obtain ⟨fresh, others⟩ := List.nodup_cons.mp distinct
    rcases List.mem_cons.mp member with rfl | later
    · have kept : rest.filter (fun d => d.id ≠ c.id) = rest := by
        rw [List.filter_eq_self]
        intro d here
        have other : d.id ≠ c.id := fun same => fresh (same ▸ List.mem_map_of_mem here)
        simpa using other
      rw [List.filter_cons_of_neg (by simp), kept, List.length_cons]
    · have other : d.id ≠ c.id := fun same => fresh (same ▸ List.mem_map_of_mem later)
      rw [List.filter_cons_of_pos (by simpa using other), List.length_cons, ih others later,
        List.length_cons]

/-- CLOSED all along: each of the admitted calls is still in flight or has been counted. -/
structure NotYetOpened (cb : CircuitBreaker) (s : System) : Prop where
  state : s.breaker.state = .closed
  distinct : (s.inFlight.map Call.id).Nodup
  ids : ∀ c ∈ s.inFlight, c.id < s.nextId
  count : s.breaker.failureCount + s.inFlight.length = s.nextId
  below : s.breaker.failureCount < cb.failureThreshold

theorem notYetOpened_initial (cb : CircuitBreaker) (start : ℚ) :
    NotYetOpened cb (initial start) where
  state := rfl
  distinct := List.nodup_nil
  ids := by simp [initial]
  count := rfl
  below := cb.threshold_pos

/-- It has opened at clock value `t`, when it had admitted `n` calls, and since then at most one
    call for each recovery timeout. -/
structure Outage (cb : CircuitBreaker) (t : ℚ) (n : ℕ) (s : System) : Prop where
  more : n ≤ s.nextId
  opened : s.breaker.state = .opened → ∃ u, s.breaker.openedAt = some u ∧ u ≤ s.now ∧
    t + ((s.nextId : ℚ) - n) * cb.recoveryTimeoutSeconds ≤ u
  probing : s.breaker.state ≠ .opened →
    s.breaker.state = .halfOpen ∧ s.breaker.halfOpenProbeInFlight = true ∧
      t + ((s.nextId : ℚ) - n) * cb.recoveryTimeoutSeconds ≤ s.now

theorem Outage.rate {cb : CircuitBreaker} {t : ℚ} {n : ℕ} {s : System} (h : Outage cb t n s) :
    ((s.nextId : ℚ) - n) * cb.recoveryTimeoutSeconds ≤ s.now - t := by
  by_cases state : s.breaker.state = .opened
  · obtain ⟨u, _, past, rate⟩ := h.opened state
    linarith
  · have rate := (h.probing state).2.2
    linarith

/-- The failure that fills the count opens the breaker, and every other step leaves it CLOSED. -/
theorem notYetOpened_step {cb : CircuitBreaker} {s u : System} {l : Label}
    (h : NotYetOpened cb s) (down : Down cb l) (step : step cb s l = some u) :
    NotYetOpened cb u ∨
      (u.breaker.state = .opened ∧ u.breaker.openedAt = some u.now ∧
        u.nextId = cb.failureThreshold + u.inFlight.length ∧ Outage cb u.now u.nextId u) := by
  rcases step_cases step with ⟨rfl, rfl⟩ | ⟨c, member, o, rfl, rfl⟩ | ⟨rfl, _⟩ | ⟨d, nonneg, rfl, rfl⟩
  · rcases arrive_cases cb s with ⟨_, e, rejected⟩ | ⟨state, eq⟩ | ⟨state, _⟩ | ⟨state, _⟩
    · rw [cb.beforeCall_closed h.state] at rejected
      cases rejected
    · refine .inl ?_
      rw [eq]
      constructor
      · exact h.state
      · refine List.nodup_cons.mpr ⟨fun member => ?_, h.distinct⟩
        obtain ⟨c, here, same⟩ := List.mem_map.mp member
        exact absurd same (Nat.ne_of_lt (h.ids c here))
      · intro c member
        rcases List.mem_cons.mp member with rfl | old
        · exact Nat.lt_succ_self _
        · exact Nat.lt_succ_of_lt (h.ids c old)
      · have count := h.count
        simp only [accept, List.length_cons]
        omega
      · exact h.below
    · rw [h.state] at state
      cases state
    · rw [h.state] at state
      cases state
  · cases down with
    | @failed _ e recorded =>
    have removed := length_removed h.distinct member
    have count := h.count
    have distinct : ((s.inFlight.filter fun d => d.id ≠ c.id).map Call.id).Nodup :=
      h.distinct.sublist (List.filter_sublist.map _)
    have ids : ∀ d ∈ s.inFlight.filter fun d => d.id ≠ c.id, d.id < s.nextId :=
      fun d kept => h.ids d (List.mem_filter.mp kept).1
    rcases cb.afterFailure_recorded s.now recorded (b := s.breaker) (by simp [h.state]) with
      ⟨state, _⟩ | ⟨_, left, counted⟩ | ⟨_, full, opens⟩
    · rw [h.state] at state
      cases state
    · refine .inl ⟨?_, distinct, ids, ?_, ?_⟩
      · simp only [complete, afterCall, counted]
        exact h.state
      · simp only [complete, afterCall, counted]
        omega
      · simp only [complete, afterCall, counted]
        exact left
    · have below := h.below
      have state : (complete cb s c (.error (.exception e))).breaker.state = .opened := by
        simp only [complete, afterCall, opens, openAt]
      have openedNow : (complete cb s c (.error (.exception e))).breaker.openedAt = some s.now := by
        simp only [complete, afterCall, opens, openAt]
      refine .inr ⟨state, openedNow, ?_, Nat.le_refl _, ?_, ?_⟩
      · simp only [complete]
        omega
      · intro _
        refine ⟨s.now, openedNow, le_refl _, ?_⟩
        simp [complete]
      · intro other
        exact absurd state other
  · cases down
  · refine .inl { h with }

/-- After the opening only the passing of a whole recovery timeout admits another call. -/
theorem outage_step {cb : CircuitBreaker} {t : ℚ} {n : ℕ} {s u : System} {l : Label}
    (h : Outage cb t n s) (down : Down cb l) (step : step cb s l = some u) : Outage cb t n u := by
  rcases step_cases step with ⟨rfl, rfl⟩ | ⟨c, member, o, rfl, rfl⟩ | ⟨rfl, _⟩ | ⟨d, nonneg, rfl, rfl⟩
  · rcases cb.beforeCall_cases s.now s.breaker with
      ⟨state, _⟩ | ⟨state, ⟨v, opened, late⟩, eq⟩ | ⟨_, _, e, eq⟩ | ⟨state, free, _⟩ | ⟨_, _, e, eq⟩
    · have probing := (h.probing (by simp [state])).1
      rw [state] at probing
      cases probing
    · obtain ⟨w, same, _, rate⟩ := h.opened state
      rw [opened] at same
      cases same
      refine ⟨?_, ?_, ?_⟩
      · simp only [arrive, eq, accept]
        exact Nat.le_succ_of_le h.more
      · simp [arrive, eq, accept]
      · intro _
        refine ⟨by simp [arrive, eq, accept], by simp [arrive, eq, accept], ?_⟩
        simp only [arrive, eq, accept]
        push_cast
        linarith
    · have same : arrive cb s = s := by simp [arrive, eq]
      rw [same]
      exact h
    · have taken := (h.probing (by simp [state])).2.1
      rw [free] at taken
      cases taken
    · have same : arrive cb s = s := by simp [arrive, eq]
      rw [same]
      exact h
  · cases down with
    | @failed _ e recorded =>
    by_cases state : s.breaker.state = .opened
    · rcases cb.afterFailure_recorded s.now recorded (b := s.breaker) (by simp [state]) with
        ⟨_, same⟩ | ⟨closed, _⟩ | ⟨closed, _⟩
      · refine ⟨h.more, ?_, ?_⟩
        · simpa only [complete, afterCall, same] using h.opened
        · simpa only [complete, afterCall, same] using h.probing
      · rw [state] at closed
        cases closed
      · rw [state] at closed
        cases closed
    · obtain ⟨half, _, rate⟩ := h.probing state
      have opens : cb.afterFailure s.now _ _ = _ := cb.afterFailure_halfOpen recorded half
      refine ⟨h.more, fun _ => ⟨s.now, ?_, le_refl _, rate⟩, fun other => ?_⟩
      · simp only [complete, afterCall, opens, openAt]
      · simp [complete, afterCall, opens, openAt] at other
  · cases down
  · refine ⟨h.more, fun state => ?_, fun state => ?_⟩
    · obtain ⟨u, opened, past, rate⟩ := h.opened state
      exact ⟨u, opened, past.trans (le_add_of_nonneg_right nonneg), rate⟩
    · obtain ⟨half, taken, rate⟩ := h.probing state
      exact ⟨half, taken, rate.trans (le_add_of_nonneg_right nonneg)⟩

/-- While a dependency is down, whatever calls arrive and fail in whatever order: the breaker is
    CLOSED and fewer calls than the threshold have failed, or it opened when as many as the
    threshold had failed and the others were in flight, and since then it has let through at most
    one call for each recovery timeout that has passed. -/
theorem outage_load (cb : CircuitBreaker) (start : ℚ) {ls : List Label} {s : System}
    (down : ∀ l ∈ ls, Down cb l) (h : run (step cb) (initial start) ls = some s) :
    (s.breaker.state = .closed ∧ s.nextId < cb.failureThreshold + s.inFlight.length) ∨
    ∃ before after opened, ls = before ++ after ∧
      run (step cb) (initial start) before = some opened ∧
      opened.breaker.state = .opened ∧ opened.breaker.openedAt = some opened.now ∧
      opened.nextId = cb.failureThreshold + opened.inFlight.length ∧
      opened.nextId ≤ s.nextId ∧
      ((s.nextId : ℚ) - opened.nextId) * cb.recoveryTimeoutSeconds ≤ s.now - opened.now := by
  have whole : NotYetOpened cb s ∨ ∃ before after opened, ls = before ++ after ∧
      run (step cb) (initial start) before = some opened ∧
      opened.breaker.state = .opened ∧ opened.breaker.openedAt = some opened.now ∧
      opened.nextId = cb.failureThreshold + opened.inFlight.length ∧
      Outage cb opened.now opened.nextId s := by
    induction ls using List.reverseRecOn generalizing s with
    | nil =>
      cases h
      exact .inl (notYetOpened_initial cb start)
    | append_singleton ls l ih =>
      obtain ⟨u, before, last⟩ := run_snoc.mp h
      have failing := down l (by simp)
      rcases ih (fun m member => down m (List.mem_append_left _ member)) before with
        waiting | ⟨front, back, opened, rfl, reached, state, since, count, outage⟩
      · rcases notYetOpened_step waiting failing last with still | ⟨state, since, count, outage⟩
        · exact .inl still
        · exact .inr ⟨ls ++ [l], [], s, by simp, h, state, since, count, outage⟩
      · exact .inr ⟨front, back ++ [l], opened, by simp, reached, state, since, count,
          outage_step outage failing last⟩
  rcases whole with waiting | ⟨before, after, opened, split, reached, state, since, count, outage⟩
  · refine .inl ⟨waiting.state, ?_⟩
    have count := waiting.count
    have below := waiting.below
    omega
  · exact .inr ⟨before, after, opened, split, reached, state, since, count, outage.more,
      outage.rate⟩

/-- The breaker opens with a call in flight, whose failure comes while the next is probing. -/
def refusals : List Label :=
  [.arrive, .arrive, .complete 0 timeoutFailure, .arrive, .advance 4, .arrive, .advance 1, .arrive,
    .complete 1 timeoutFailure, .complete 2 timeoutFailure, .advance 7, .arrive]

theorem refusals_load :
    ∃ s, run (step fragile) (initial 0) refusals = some s ∧ s.nextId = 4 ∧
      ((s.breaker.state = .closed ∧ s.nextId < fragile.failureThreshold + s.inFlight.length) ∨
      ∃ before after opened, refusals = before ++ after ∧
        run (step fragile) (initial 0) before = some opened ∧
        opened.breaker.state = .opened ∧ opened.breaker.openedAt = some opened.now ∧
        opened.nextId = fragile.failureThreshold + opened.inFlight.length ∧
        opened.nextId ≤ s.nextId ∧
        ((s.nextId : ℚ) - opened.nextId) * fragile.recoveryTimeoutSeconds ≤ s.now - opened.now) := by
  have done : (run (step fragile) (initial 0) refusals).any (fun s => s.nextId = 4) = true := by
    decide +kernel
  obtain ⟨s, reached, four⟩ := (Option.any_eq_true _ _).mp done
  have recorded : fragile.records (builtinError "TimeoutError" "down") = true := by decide +kernel
  have down : ∀ l ∈ refusals, Down fragile l := by
    simp only [refusals, List.forall_mem_cons]
    exact ⟨.arrive, .arrive, .failed recorded, .arrive, .advance 4, .arrive, .advance 1, .arrive,
      .failed recorded, .failed recorded, .advance 7, .arrive, nofun⟩
  exact ⟨s, reached, by simpa using four, outage_load fragile 0 down reached⟩

/-! A dependency that is up again. -/

inductive Up : Label → Prop where
  | arrive : Up .arrive
  | advance (d : ℚ) : Up (.advance d)
  | succeeded (id : ℕ) : Up (.complete id (.ok ()))

/-- What successes make of a breaker that had admitted `n` calls: a call admitted since then
    finds it open no more, and one that has ended has closed it. -/
structure Healing (n : ℕ) (s : System) : Prop where
  more : n ≤ s.nextId
  opened : n < s.nextId → s.breaker.state ≠ .opened
  ended : ∀ id, n ≤ id → id < s.nextId → (∀ c ∈ s.inFlight, c.id ≠ id) →
    s.breaker.state = .closed ∧ s.breaker.failureCount = 0

theorem healing_start (s : System) : Healing s.nextId s where
  more := Nat.le_refl _
  opened below := absurd below (Nat.lt_irrefl _)
  ended _ from_ below := absurd from_ (Nat.not_le.mpr below)

theorem afterSuccess_state (b : BreakerState) :
    (b.state = .opened → afterSuccess b = b) ∧
    (b.state ≠ .opened → (afterSuccess b).state = .closed ∧ (afterSuccess b).failureCount = 0) := by
  cases state : b.state <;> simp [afterSuccess, close, state]

theorem healing_step {cb : CircuitBreaker} {n : ℕ} {s t : System} {l : Label} (h : Healing n s)
    (up : Up l) (step : step cb s l = some t) : Healing n t := by
  rcases step_cases step with ⟨rfl, rfl⟩ | ⟨c, member, o, rfl, rfl⟩ | ⟨rfl, _⟩ | ⟨d, _, rfl, rfl⟩
  · have before {c : Call} (new : c.id = s.nextId) (id : ℕ) (from_ : n ≤ id)
        (below : id < s.nextId + 1) (gone : ∀ d ∈ c :: s.inFlight, d.id ≠ id) :
        s.breaker.state = .closed ∧ s.breaker.failureCount = 0 := by
      have other : id ≠ s.nextId := fun same => gone c List.mem_cons_self (new.trans same.symm)
      exact h.ended id from_ (by omega) fun d here => gone d (List.mem_cons_of_mem _ here)
    rcases arrive_cases cb s with ⟨eq, _⟩ | ⟨state, eq⟩ | ⟨state, eq⟩ | ⟨state, _, eq⟩
    · rw [eq]
      exact h
    · rw [eq]
      refine ⟨Nat.le_succ_of_le h.more, fun _ => by simp [accept, state], ?_⟩
      exact fun id from_ below gone => before rfl id from_ below gone
    · rw [eq]
      refine ⟨Nat.le_succ_of_le h.more, fun _ => by simp [accept], ?_⟩
      intro id from_ below gone
      have closed := (before rfl id from_ below gone).1
      rw [state] at closed
      cases closed
    · rw [eq]
      refine ⟨Nat.le_succ_of_le h.more, fun _ => by simp [accept, state], ?_⟩
      intro id from_ below gone
      have closed := (before rfl id from_ below gone).1
      rw [state] at closed
      cases closed
  · cases up
    obtain ⟨same, closes⟩ := afterSuccess_state s.breaker
    by_cases state : s.breaker.state = .opened
    · have none : ¬ n < s.nextId := fun some => h.opened some state
      refine ⟨h.more, fun below => absurd below none, fun id from_ below => ?_⟩
      exact absurd (Nat.lt_of_le_of_lt from_ below) none
    · obtain ⟨closed, count⟩ := closes state
      refine ⟨h.more, fun _ => ?_, fun _ _ _ _ => ⟨closed, count⟩⟩
      simp only [complete, afterCall, closed]
      intro opened
      cases opened
  · cases up
  · exact { h with }

theorem healing_run {cb : CircuitBreaker} {s t : System} {ls : List Label} (up : ∀ l ∈ ls, Up l)
    (h : run (step cb) s ls = some t) : Healing s.nextId t := by
  induction ls using List.reverseRecOn generalizing t with
  | nil =>
    cases h
    exact healing_start s
  | append_singleton ls l ih =>
    obtain ⟨u, before, last⟩ := run_snoc.mp h
    exact healing_step (ih (fun m member => up m (List.mem_append_left _ member)) before)
      (up l (by simp)) last

/-- Once a dependency is up again, from whatever state: after the first call that the breaker
    lets through it is never OPEN again, and when one of the calls let through since then has
    ended, whichever it is, the breaker is CLOSED with no failure counted and admits all calls. -/
theorem first_success_closes (cb : CircuitBreaker) {s t : System} {ls : List Label}
    (up : ∀ l ∈ ls, Up l) (h : run (step cb) s ls = some t) :
    (s.nextId < t.nextId → t.breaker.state ≠ .opened) ∧
    ∀ id, s.nextId ≤ id → id < t.nextId → (∀ c ∈ t.inFlight, c.id ≠ id) →
      t.breaker.state = .closed ∧ t.breaker.failureCount = 0 ∧ AdmitsNext cb t := by
  have healing := healing_run up h
  refine ⟨healing.opened, fun id from_ below gone => ?_⟩
  obtain ⟨closed, count⟩ := healing.ended id from_ below gone
  exact ⟨closed, count, false, t.breaker, cb.beforeCall_closed closed⟩

def healed : List Label := [.arrive, .arrive, .complete 3 (.ok ()), .arrive]

theorem healed_closes : ∃ s t, run (step fragile) (initial 0) refusals.dropLast = some s ∧
    run (step fragile) s healed = some t ∧ s.breaker.state = .opened ∧
      t.breaker.state = .closed ∧ AdmitsNext fragile t := by
  have done : ((run (step fragile) (initial 0) refusals.dropLast).any fun s =>
      s.nextId = 3 && s.breaker.state = .opened && (run (step fragile) s healed).any fun t =>
        3 < t.nextId && t.inFlight.all fun c => c.id ≠ 3) = true := by
    decide +kernel
  obtain ⟨s, reached, found⟩ := (Option.any_eq_true _ _).mp done
  simp only [Bool.and_eq_true, decide_eq_true_eq] at found
  obtain ⟨⟨three, opened⟩, later⟩ := found
  obtain ⟨t, continued, ended⟩ := (Option.any_eq_true _ _).mp later
  simp only [Bool.and_eq_true, decide_eq_true_eq, List.all_eq_true] at ended
  have up : ∀ l ∈ healed, Up l := by
    simp only [healed, List.forall_mem_cons]
    exact ⟨.arrive, .arrive, .succeeded 3, .arrive, nofun⟩
  obtain ⟨closed, _, admits⟩ := (first_success_closes fragile up continued).2 3
    (Nat.le_of_eq three) ended.1 ended.2
  exact ⟨s, t, reached, continued, opened, closed, admits⟩

end Relprim.BreakerRuns
