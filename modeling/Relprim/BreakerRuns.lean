import Relprim.Library.Runs
import Relprim.CircuitBreaker

/-!
One breaker shared by any number of concurrent calls. A step is one critical
section: the arrival of a call, the end of an admitted one, `reset`, or the
passage of time. The calls in flight, the number of HALF_OPEN periods entered
and the latest probe are history the breaker itself does not keep.
-/
namespace Relprim.BreakerRuns
open LabelledRuns CircuitBreaker

/-- `probe` is what `beforeCall` returned, `period` the HALF_OPEN period then current. -/
structure Call where
  id : ℕ
  probe : Bool
  period : ℕ
  deriving DecidableEq

structure System where
  breaker : BreakerState
  now : ℚ
  inFlight : List Call
  nextId : ℕ
  period : ℕ
  lastProbe : Option Call

inductive Label where
  | arrive
  | complete (id : ℕ) (outcome : Except Raised Unit)
  | reset
  | advance (d : ℚ)

def initial (start : ℚ) : System := ⟨{}, start, [], 0, 0, none⟩

def accept (s : System) (b : BreakerState) (c : Call) : System :=
  { s with
    breaker := b
    inFlight := c :: s.inFlight
    nextId := s.nextId + 1
    period := c.period
    lastProbe := if c.probe then some c else s.lastProbe }

def arrive (cb : CircuitBreaker) (s : System) : System :=
  match cb.beforeCall s.now s.breaker with
  | (.error _, b) => { s with breaker := b }
  | (.ok probe, b) =>
    let entered := s.breaker.state = .opened ∧ b.state = .halfOpen
    accept s b ⟨s.nextId, probe, if entered then s.period + 1 else s.period⟩

def complete (cb : CircuitBreaker) (s : System) (c : Call) (o : Except Raised Unit) : System :=
  { s with
    breaker := cb.afterCall s.now c.probe o s.breaker
    inFlight := s.inFlight.filter fun d => d.id ≠ c.id }

def step (cb : CircuitBreaker) (s : System) : Label → Option System
  | .arrive => some (arrive cb s)
  | .complete id o => (s.inFlight.find? fun c => c.id = id).map fun c => complete cb s c o
  | .reset => some { s with breaker := close s.breaker }
  | .advance d => if 0 ≤ d then some { s with now := s.now + d } else none

def ofPeriod (s : System) (c : Call) : Bool := c.probe && c.period = s.period

theorem arrive_cases (cb : CircuitBreaker) (s : System) :
    (arrive cb s = s ∧ ∃ e, cb.beforeCall s.now s.breaker = (.error e, s.breaker)) ∨
    (s.breaker.state = .closed ∧ arrive cb s = accept s s.breaker ⟨s.nextId, false, s.period⟩) ∨
    (s.breaker.state = .opened ∧
      arrive cb s = accept s { s.breaker with state := .halfOpen, halfOpenProbeInFlight := true }
        ⟨s.nextId, true, s.period + 1⟩) ∨
    (s.breaker.state = .halfOpen ∧ s.breaker.halfOpenProbeInFlight = false ∧
      arrive cb s = accept s { s.breaker with halfOpenProbeInFlight := true }
        ⟨s.nextId, true, s.period⟩) := by
  rcases cb.beforeCall_cases s.now s.breaker with
    ⟨state, eq⟩ | ⟨state, _, eq⟩ | ⟨_, _, e, eq⟩ | ⟨state, free, eq⟩ | ⟨_, _, e, eq⟩
  · exact .inr (.inl ⟨state, by simp [arrive, eq, state]⟩)
  · exact .inr (.inr (.inl ⟨state, by simp [arrive, eq, state]⟩))
  · exact .inl ⟨by simp [arrive, eq], e, eq⟩
  · exact .inr (.inr (.inr ⟨state, free, by simp [arrive, eq, state]⟩))
  · exact .inl ⟨by simp [arrive, eq], e, eq⟩

theorem step_cases {cb : CircuitBreaker} {s t : System} {l : Label} (h : step cb s l = some t) :
    (l = .arrive ∧ t = arrive cb s) ∨
    (∃ c ∈ s.inFlight, ∃ o, l = .complete c.id o ∧ t = complete cb s c o) ∨
    (l = .reset ∧ t = { s with breaker := close s.breaker }) ∨
    (∃ d, 0 ≤ d ∧ l = .advance d ∧ t = { s with now := s.now + d }) := by
  cases l with
  | arrive => exact .inl ⟨rfl, (Option.some.inj h).symm⟩
  | complete id o =>
    simp only [step, Option.map_eq_some_iff] at h
    obtain ⟨c, found, rfl⟩ := h
    have same : c.id = id := by simpa using List.find?_some found
    subst same
    exact .inr (.inl ⟨c, List.mem_of_find?_eq_some found, o, rfl, rfl⟩)
  | reset => exact .inr (.inr (.inl ⟨rfl, (Option.some.inj h).symm⟩))
  | advance d =>
    simp only [step] at h
    split at h
    · exact .inr (.inr (.inr ⟨d, ‹_›, rfl, (Option.some.inj h).symm⟩))
    · cases h

/-! The probe flag. -/

/-- Only the cancellation of a call that is no probe leaves a taken slot taken. -/
theorem afterCall_keeps_flag {cb : CircuitBreaker} {now : ℚ} {probe : Bool}
    {o : Except Raised Unit} {b : BreakerState}
    (only : b.halfOpenProbeInFlight = true → b.state = .halfOpen)
    (h : (cb.afterCall now probe o b).halfOpenProbeInFlight = true) :
    probe = false ∧ b.halfOpenProbeInFlight = true ∧ cb.afterCall now probe o b = b := by
  rcases cb.afterCall_cases now probe o b with
    ⟨_, eq⟩ | ⟨e, _, recorded, eq⟩ | ⟨e, _, _, eq⟩ | ⟨x, _, _, eq⟩
  · rw [eq] at h
    cases state : b.state <;> simp_all [afterSuccess, close]
  · rw [eq] at h
    by_cases state : b.state = .halfOpen
    · rw [cb.afterFailure_halfOpen recorded state] at h
      simp [openAt] at h
    · rcases cb.afterFailure_recorded now recorded state with
        ⟨_, same⟩ | ⟨_, _, same⟩ | ⟨_, _, same⟩ <;> rw [same] at h <;> simp_all [openAt]
  · rw [eq] at h
    split at h
    · simp at h
    · rename_i other
      exact absurd (only h) other
  · rw [eq] at h ⊢
    cases probe with
    | true => simp [release] at h
    | false => exact ⟨rfl, h, rfl⟩

theorem afterCall_halfOpen {cb : CircuitBreaker} {now : ℚ} {probe : Bool}
    {o : Except Raised Unit} {b : BreakerState}
    (h : (cb.afterCall now probe o b).state = .halfOpen) : b.state = .halfOpen := by
  rcases cb.afterCall_cases now probe o b with
    ⟨_, eq⟩ | ⟨e, _, recorded, eq⟩ | ⟨e, _, _, eq⟩ | ⟨x, _, _, eq⟩
  · rw [eq] at h
    cases state : b.state <;> simp_all [afterSuccess, close]
  · rw [eq] at h
    by_contra state
    rcases cb.afterFailure_recorded now recorded state with
      ⟨_, same⟩ | ⟨_, _, same⟩ | ⟨_, _, same⟩ <;> rw [same] at h <;> simp_all [openAt]
  · rw [eq] at h
    split at h
    · assumption
    · exact h
  · rw [eq] at h
    unfold release at h
    split at h <;> exact h

theorem afterCall_opened {cb : CircuitBreaker} {now : ℚ} {probe : Bool}
    {o : Except Raised Unit} {b : BreakerState}
    (h : (cb.afterCall now probe o b).state = .opened) :
    (b.state = .opened ∧ (cb.afterCall now probe o b).openedAt = b.openedAt) ∨
    (cb.afterCall now probe o b).openedAt = some now := by
  rcases cb.afterCall_cases now probe o b with
    ⟨_, eq⟩ | ⟨e, _, recorded, eq⟩ | ⟨e, _, _, eq⟩ | ⟨x, _, _, eq⟩
  · rw [eq] at h ⊢
    cases state : b.state <;> simp_all [afterSuccess, close]
  · rw [eq] at h ⊢
    by_cases state : b.state = .halfOpen
    · rw [cb.afterFailure_halfOpen recorded state]
      exact .inr rfl
    · rcases cb.afterFailure_recorded now recorded state with
        ⟨_, same⟩ | ⟨_, _, same⟩ | ⟨_, _, same⟩ <;> rw [same] at h ⊢ <;> simp_all [openAt]
  · rw [eq] at h ⊢
    split at h
    · simp_all
    · rename_i other
      simp [h]
  · rw [eq] at h ⊢
    unfold release at h ⊢
    split at h <;> simp_all

/-! What holds in every reachable state. -/

structure WellFormed (s : System) : Prop where
  ids_lt : ∀ c ∈ s.inFlight, c.id < s.nextId
  ids_inj : ∀ c ∈ s.inFlight, ∀ d ∈ s.inFlight, c.id = d.id → c = d
  periods : ∀ c ∈ s.inFlight, c.period ≤ s.period
  flag : s.breaker.halfOpenProbeInFlight = true → s.breaker.state = .halfOpen
  opened : s.breaker.state = .opened → ∃ t, s.breaker.openedAt = some t ∧ t ≤ s.now
  slot : s.breaker.halfOpenProbeInFlight = true →
    ∃ c ∈ s.inFlight, s.lastProbe = some c ∧ ofPeriod s c = true

theorem wellFormed_initial (start : ℚ) : WellFormed (initial start) where
  ids_lt := by simp [initial]
  ids_inj := by simp [initial]
  periods := by simp [initial]
  flag := by simp [initial]
  opened := by simp [initial]
  slot := by simp [initial]

theorem admit_ids {s : System} (w : WellFormed s) (b : BreakerState) (probe : Bool) (p : ℕ)
    (later : s.period ≤ p) :
    (∀ c ∈ (accept s b ⟨s.nextId, probe, p⟩).inFlight, c.id < s.nextId + 1) ∧
    (∀ c ∈ (accept s b ⟨s.nextId, probe, p⟩).inFlight,
      ∀ d ∈ (accept s b ⟨s.nextId, probe, p⟩).inFlight, c.id = d.id → c = d) ∧
    (∀ c ∈ (accept s b ⟨s.nextId, probe, p⟩).inFlight, c.period ≤ p) := by
  simp only [accept, List.mem_cons]
  refine ⟨?_, ?_, ?_⟩
  · rintro c (rfl | old)
    · exact Nat.lt_succ_self _
    · exact Nat.lt_succ_of_lt (w.ids_lt c old)
  · rintro c (rfl | old) d (rfl | old') same
    · rfl
    · exact absurd same (Nat.ne_of_gt (w.ids_lt d old'))
    · exact absurd same (Nat.ne_of_lt (w.ids_lt c old))
    · exact w.ids_inj c old d old' same
  · rintro c (rfl | old)
    · exact Nat.le_refl _
    · exact Nat.le_trans (w.periods c old) later

theorem wellFormed_arrive (cb : CircuitBreaker) {s : System} (w : WellFormed s) :
    WellFormed (arrive cb s) := by
  rcases arrive_cases cb s with ⟨eq, _⟩ | ⟨state, eq⟩ | ⟨state, eq⟩ | ⟨state, free, eq⟩
  · rw [eq]
    exact w
  · rw [eq]
    obtain ⟨lt, inj, periods⟩ := admit_ids w s.breaker false s.period (Nat.le_refl _)
    refine ⟨lt, inj, periods, w.flag, w.opened, ?_⟩
    intro taken
    exact absurd (w.flag taken) (by simp [state])
  · rw [eq]
    obtain ⟨lt, inj, periods⟩ := admit_ids w
      { s.breaker with state := .halfOpen, halfOpenProbeInFlight := true } true (s.period + 1)
      (Nat.le_succ _)
    exact ⟨lt, inj, periods, fun _ => rfl, by simp [accept],
      fun _ => ⟨_, List.mem_cons_self, rfl, by simp [ofPeriod, accept]⟩⟩
  · rw [eq]
    obtain ⟨lt, inj, periods⟩ := admit_ids w
      { s.breaker with halfOpenProbeInFlight := true } true s.period (Nat.le_refl _)
    exact ⟨lt, inj, periods, fun _ => state, by simp [accept, state],
      fun _ => ⟨_, List.mem_cons_self, rfl, by simp [ofPeriod, accept]⟩⟩

theorem wellFormed_complete (cb : CircuitBreaker) {s : System} (w : WellFormed s) {c : Call}
    (member : c ∈ s.inFlight) (o : Except Raised Unit) : WellFormed (complete cb s c o) where
  ids_lt d hd := w.ids_lt d (List.mem_filter.mp hd).1
  ids_inj d hd e he := w.ids_inj d (List.mem_filter.mp hd).1 e (List.mem_filter.mp he).1
  periods d hd := w.periods d (List.mem_filter.mp hd).1
  flag taken := by
    obtain ⟨_, before, same⟩ := afterCall_keeps_flag w.flag taken
    exact (congrArg BreakerState.state same).trans (w.flag before)
  opened state := by
    rcases afterCall_opened state with ⟨before, same⟩ | fresh
    · obtain ⟨t, at_t, le⟩ := w.opened before
      exact ⟨t, same.trans at_t, le⟩
    · exact ⟨s.now, fresh, le_refl _⟩
  slot taken := by
    obtain ⟨plain, before, _⟩ := afterCall_keeps_flag w.flag taken
    obtain ⟨d, hd, last, current⟩ := w.slot before
    -- The call that ended was no probe, so it is not the one holding the slot.
    have other : d.id ≠ c.id := by
      intro same
      have eq := w.ids_inj d hd c member same
      subst eq
      simp [ofPeriod, plain] at current
    exact ⟨d, List.mem_filter.mpr ⟨hd, by simpa using other⟩, last, current⟩

theorem wellFormed_step {cb : CircuitBreaker} {s : System} {l : Label} {t : System}
    (w : WellFormed s) (h : step cb s l = some t) : WellFormed t := by
  rcases step_cases h with
    ⟨_, rfl⟩ | ⟨c, member, o, _, rfl⟩ | ⟨_, rfl⟩ | ⟨d, nonneg, _, rfl⟩
  · exact wellFormed_arrive cb w
  · exact wellFormed_complete cb w member o
  · exact ⟨w.ids_lt, w.ids_inj, w.periods, by simp [close], by simp [close], by simp [close]⟩
  · refine ⟨w.ids_lt, w.ids_inj, w.periods, w.flag, ?_, w.slot⟩
    intro state
    obtain ⟨t, at_t, le⟩ := w.opened state
    exact ⟨t, at_t, le_trans le (le_add_of_nonneg_right nonneg)⟩

theorem wellFormed_reachable {cb : CircuitBreaker} {start : ℚ} {s : System}
    (h : Reachable (step cb) (initial start) s) : WellFormed s :=
  invariant_reachable (wellFormed_initial start) (fun _ _ _ w hs => wellFormed_step w hs) h

end Relprim.BreakerRuns
