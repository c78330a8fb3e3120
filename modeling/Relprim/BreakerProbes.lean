import Mathlib.Tactic.Linarith
import Relprim.BreakerRuns

/-!
The half-open probe: how many are in flight, whose completion decides the
verdict, and that the slot is never leaked. A call admitted in an earlier
period can end at any later time; the conditions below say exactly which of
these late completions disturb a HALF_OPEN breaker.
-/
namespace Relprim.BreakerRuns
open LabelledRuns CircuitBreaker

/-- At most one probe of the current HALF_OPEN period is in flight. -/
def SingleProbe (s : System) : Prop :=
  s.breaker.state = .halfOpen → (s.inFlight.filter (ofPeriod s)).length ≤ 1

/-- The way a call that does not hold the slot ends does not free it: it is no
    unrecorded failure and no cancellation of an older probe. -/
def keepsSlot (cb : CircuitBreaker) (c : Call) : Except Raised Unit → Bool
  | .ok _ => true
  | .error (.exception e) => cb.records e
  | .error _ => !c.probe

def SlotRespected (cb : CircuitBreaker) (s : System) : Label → Prop
  | .complete id o =>
    s.breaker.halfOpenProbeInFlight = true →
      ∀ c ∈ s.inFlight, c.id = id → ofPeriod s c = false → keepsSlot cb c o = true
  | _ => True

instance (cb : CircuitBreaker) (s : System) : ∀ l, Decidable (SlotRespected cb s l)
  | .complete id o => inferInstanceAs (Decidable (_ = true →
      ∀ c ∈ s.inFlight, c.id = id → ofPeriod s c = false → keepsSlot cb c o = true))
  | .arrive | .reset | .advance _ => .isTrue trivial

def FlagCounts (s : System) : Prop :=
  s.breaker.state = .halfOpen →
    (s.inFlight.filter (ofPeriod s)).length = if s.breaker.halfOpenProbeInFlight then 1 else 0

theorem remaining_probes {s : System} (w : WellFormed s) {c : Call} (member : c ∈ s.inFlight) :
    (s.inFlight.filter fun d => d.id ≠ c.id).filter (ofPeriod s) =
      (s.inFlight.filter (ofPeriod s)).filter fun d => d ≠ c := by
  rw [List.filter_filter, List.filter_filter]
  apply List.filter_congr
  intro d hd
  have same : decide (d.id ≠ c.id) = decide (d ≠ c) := by
    by_cases eq : d = c
    · simp [eq]
    · have ids : d.id ≠ c.id := fun h => eq (w.ids_inj d hd c member h)
      simp [eq, ids]
  rw [same, Bool.and_comm]

theorem remaining_other {s : System} (w : WellFormed s) {c : Call} (member : c ∈ s.inFlight)
    (other : ofPeriod s c = false) :
    (s.inFlight.filter fun d => d.id ≠ c.id).filter (ofPeriod s) =
      s.inFlight.filter (ofPeriod s) := by
  rw [remaining_probes w member, List.filter_eq_self]
  intro d hd
  have current := (List.mem_filter.mp hd).2
  have ne : d ≠ c := by
    rintro rfl
    simp [other] at current
  simpa using ne

theorem remaining_own {s : System} (w : WellFormed s) {c : Call} (member : c ∈ s.inFlight)
    (own : ofPeriod s c = true) (single : (s.inFlight.filter (ofPeriod s)).length = 1) :
    (s.inFlight.filter fun d => d.id ≠ c.id).filter (ofPeriod s) = [] := by
  obtain ⟨d, eq⟩ := List.length_eq_one_iff.mp single
  have mem : c ∈ s.inFlight.filter (ofPeriod s) := List.mem_filter.mpr ⟨member, own⟩
  rw [eq, List.mem_singleton] at mem
  rw [remaining_probes w member, eq, mem]
  simp

theorem none_of_next_period {s : System} (w : WellFormed s) :
    ∀ c ∈ s.inFlight, c.probe = true → ¬ c.period = s.period + 1 := by
  intro c hc _
  have := w.periods c hc
  omega

theorem flagCounts_arrive {cb : CircuitBreaker} {s : System} (w : WellFormed s)
    (f : FlagCounts s) : FlagCounts (arrive cb s) := by
  rcases arrive_cases cb s with ⟨eq, _⟩ | ⟨state, eq⟩ | ⟨_, eq⟩ | ⟨state, free, eq⟩
  · rw [eq]
    exact f
  · rw [eq]
    intro half
    exact absurd half (by simp [accept, state])
  · rw [eq]
    intro _
    simpa [accept, ofPeriod] using none_of_next_period w
  · rw [eq]
    intro _
    have none := f state
    simp only [free, Bool.false_eq_true, if_false] at none
    simpa [accept, ofPeriod] using none

theorem flagCounts_complete {cb : CircuitBreaker} {s : System} (w : WellFormed s)
    (f : FlagCounts s) {c : Call} (member : c ∈ s.inFlight) {o : Except Raised Unit}
    (ok : SlotRespected cb s (.complete c.id o)) : FlagCounts (complete cb s c o) := by
  intro half
  have before : s.breaker.state = .halfOpen := afterCall_halfOpen half
  have count := f before
  change ((s.inFlight.filter fun d => d.id ≠ c.id).filter (ofPeriod s)).length = _
  cases own : ofPeriod s c with
  | true =>
    have mem : c ∈ s.inFlight.filter (ofPeriod s) := List.mem_filter.mpr ⟨member, own⟩
    have taken : s.breaker.halfOpenProbeInFlight = true := by
      by_contra free
      rw [if_neg free] at count
      simp [List.length_eq_zero_iff.mp count] at mem
    rw [if_pos taken] at count
    have released : (complete cb s c o).breaker.halfOpenProbeInFlight = false := by
      by_contra kept
      obtain ⟨plain, _, _⟩ := afterCall_keeps_flag w.flag (Bool.not_eq_false _ ▸ kept)
      simp [ofPeriod, plain] at own
    rw [remaining_own w member own count, released]
    rfl
  | false =>
    rw [remaining_other w member own, count]
    suffices same : (complete cb s c o).breaker.halfOpenProbeInFlight =
        s.breaker.halfOpenProbeInFlight by rw [same]
    cases taken : s.breaker.halfOpenProbeInFlight with
    | false =>
      by_contra kept
      obtain ⟨_, flag, _⟩ := afterCall_keeps_flag w.flag (Bool.not_eq_false _ ▸ kept)
      rw [taken] at flag
      cases flag
    | true =>
      have respected := ok taken c member rfl own
      rcases cb.afterCall_cases s.now c.probe o s.breaker with
        ⟨_, eq⟩ | ⟨e, _, recorded, eq⟩ | ⟨e, rfl, unrecorded, _⟩ | ⟨x, rfl, kind, eq⟩
      · simp [complete, eq, afterSuccess, before, close] at half
      · simp [complete, eq, cb.afterFailure_halfOpen recorded before, openAt] at half
      · simp [keepsSlot, unrecorded] at respected
      · have plain : c.probe = false := by
          cases x <;> simp_all [Raised.exception?, keepsSlot]
        rw [plain] at eq
        simp [complete, plain, eq, release, taken]

theorem flagCounts_step {cb : CircuitBreaker} {s : System} {l : Label} {t : System}
    (w : WellFormed s) (f : FlagCounts s) (ok : SlotRespected cb s l)
    (h : step cb s l = some t) : FlagCounts t := by
  rcases step_cases h with ⟨_, rfl⟩ | ⟨c, member, o, rfl, rfl⟩ | ⟨_, rfl⟩ | ⟨_, _, _, rfl⟩
  · exact flagCounts_arrive w f
  · exact flagCounts_complete w f member ok
  · intro half
    cases half
  · exact f

theorem singleProbe_of_flagCounts {s : System} (f : FlagCounts s) : SingleProbe s := by
  intro half
  have count := f half
  split at count <;> omega

theorem flagCounts_along {cb : CircuitBreaker} {start : ℚ} {ls : List Label} {s : System}
    (respected : Along (step cb) (SlotRespected cb) (initial start) ls)
    (h : run (step cb) (initial start) ls = some s) : WellFormed s ∧ FlagCounts s :=
  invariant_along (I := fun s => WellFormed s ∧ FlagCounts s)
    (fun _ _ _ inv ok hs => ⟨wellFormed_step inv.1 hs, flagCounts_step inv.1 inv.2 ok hs⟩)
    ⟨wellFormed_initial start, fun half => by cases half⟩ respected h

/-- As long as no late completion frees a slot it does not hold, a HALF_OPEN
    period has at most one probe in flight. -/
theorem single_probe_when_slot_respected (cb : CircuitBreaker) (start : ℚ) (ls : List Label)
    (s : System) (respected : Along (step cb) (SlotRespected cb) (initial start) ls)
    (h : run (step cb) (initial start) ls = some s) : SingleProbe s :=
  singleProbe_of_flagCounts (flagCounts_along respected h).2

def fragile : CircuitBreaker where
  name := "provider"
  failureThreshold := 1
  recoveryTimeoutSeconds := 5
  recordFailureOn := [timeoutErrorClass]

def timeoutFailure : Except Raised Unit := .error (.exception (builtinError "TimeoutError" "down"))
def otherFailure : Except Raised Unit := .error (.exception (valueError "bad input"))

theorem single_probe_after_recovery :
    ∃ s, run (step fragile) (initial 0) [.arrive, .complete 0 timeoutFailure, .advance 5, .arrive,
        .complete 1 otherFailure, .arrive] = some s ∧ SingleProbe s := by
  have done : (run (step fragile) (initial 0) [.arrive, .complete 0 timeoutFailure, .advance 5,
      .arrive, .complete 1 otherFailure, .arrive]).isSome = true := by decide +kernel
  obtain ⟨s, hs⟩ := Option.isSome_iff_exists.mp done
  exact ⟨s, hs, single_probe_when_slot_respected fragile 0 _ s (by decide +kernel) hs⟩

/-- The unrecorded failure of a call admitted while CLOSED frees the slot of the
    probe in flight, and the next call becomes a second probe. -/
theorem late_unrecorded_failure_admits_second_probe :
    ¬ ∀ (cb : CircuitBreaker) (start : ℚ) (ls : List Label) (s : System),
      run (step cb) (initial start) ls = some s → SingleProbe s := by
  intro claim
  have two : (run (step fragile) (initial 0) [.arrive, .arrive, .complete 1 timeoutFailure,
      .advance 5, .arrive, .complete 0 otherFailure, .arrive]).any (fun s =>
        s.breaker.state = .halfOpen && (s.inFlight.filter (ofPeriod s)).length = 2) = true := by
    decide +kernel
  obtain ⟨s, hs, found⟩ := (Option.any_eq_true _ _).mp two
  simp only [Bool.and_eq_true, decide_eq_true_eq] at found
  have := claim fragile 0 _ s hs found.1
  omega

/-- The condition is sharp: the first step that breaks it lets the next call in as
    a second probe. -/
theorem second_probe_after_disrespect {cb : CircuitBreaker} {s t : System} {l : Label}
    (w : WellFormed s) (f : FlagCounts s) (broken : ¬ SlotRespected cb s l)
    (h : step cb s l = some t) : ¬ SingleProbe (arrive cb t) := by
  rcases step_cases h with ⟨rfl, _⟩ | ⟨c, member, o, rfl, rfl⟩ | ⟨rfl, _⟩ | ⟨_, _, rfl, _⟩
  · exact absurd trivial broken
  · simp only [SlotRespected, not_forall] at broken
    obtain ⟨taken, d, hd, ids, other, frees⟩ := broken
    have same := w.ids_inj d hd c member ids
    subst same
    have half := w.flag taken
    have freed : (complete cb s d o).breaker =
        { s.breaker with halfOpenProbeInFlight := false } := by
      rcases cb.afterCall_cases s.now d.probe o s.breaker with
        ⟨rfl, _⟩ | ⟨e, rfl, recorded, _⟩ | ⟨e, rfl, _, eq⟩ | ⟨x, rfl, kind, eq⟩
      · exact absurd rfl frees
      · exact absurd recorded frees
      · simpa [complete, half] using eq
      · have probe : d.probe = true := by
          cases x <;> simp_all [Raised.exception?, keepsSlot]
        rw [probe] at eq
        simpa [complete, probe, release] using eq
    have count := f half
    rw [if_pos taken, ← remaining_other w hd other] at count
    have admitted : arrive cb (complete cb s d o) = accept (complete cb s d o)
        { (complete cb s d o).breaker with halfOpenProbeInFlight := true }
        ⟨s.nextId, true, s.period⟩ := by
      rcases arrive_cases cb (complete cb s d o) with
        ⟨_, e, rejected⟩ | ⟨state, _⟩ | ⟨state, _⟩ | ⟨_, _, eq⟩
      · rw [cb.beforeCall_slot_free (by rw [freed]; exact half) (by rw [freed])] at rejected
        cases congrArg Prod.fst rejected
      · exact absurd state (by simp [freed, half])
      · exact absurd state (by simp [freed, half])
      · exact eq
    intro single
    rw [admitted] at single
    have le := single (by simp [accept, freed, half])
    have new : ofPeriod s ⟨s.nextId, true, s.period⟩ = true := by simp [ofPeriod]
    change (List.filter (ofPeriod s) (_ :: (complete cb s d o).inFlight)).length ≤ 1 at le
    rw [List.filter_cons_of_pos new, List.length_cons] at le
    change ((complete cb s d o).inFlight.filter (ofPeriod s)).length = 1 at count
    omega
  · exact absurd trivial broken
  · exact absurd trivial broken

/-! The verdict of a HALF_OPEN period. -/

/-- Out of HALF_OPEN a step closes the breaker only by `reset` or the success of a
    probe of the period, opens it only by a recorded failure of such a probe, and
    the end of any other call leaves the breaker as it was. -/
def ProbeDecides (cb : CircuitBreaker) (s : System) (l : Label) : Prop :=
  s.breaker.state = .halfOpen → ∀ t, step cb s l = some t →
    (t.breaker.state = .closed →
      l = .reset ∨ ∃ c ∈ s.inFlight, ofPeriod s c = true ∧ l = .complete c.id (.ok ())) ∧
    (t.breaker.state = .opened → ∃ c ∈ s.inFlight, ofPeriod s c = true ∧
      ∃ e, cb.records e = true ∧ l = .complete c.id (.error (.exception e))) ∧
    (∀ c ∈ s.inFlight, ∀ o, l = .complete c.id o → ofPeriod s c = false → t.breaker = s.breaker)

/-- The way a call ends that changes nothing in HALF_OPEN when it is no probe of the
    period: an unrecorded failure or the end of an older probe while the slot is free,
    or the cancellation of a call that is no probe at all. -/
def bystands (cb : CircuitBreaker) (slotTaken : Bool) (c : Call) : Except Raised Unit → Bool
  | .ok _ => false
  | .error (.exception e) => !cb.records e && !slotTaken
  | .error _ => !(c.probe && slotTaken)

def BystandersQuiet (cb : CircuitBreaker) (s : System) : Label → Prop
  | .complete id o =>
    s.breaker.state = .halfOpen → ∀ c ∈ s.inFlight, c.id = id → ofPeriod s c = false →
      bystands cb s.breaker.halfOpenProbeInFlight c o = true
  | _ => True

instance (cb : CircuitBreaker) (s : System) : ∀ l, Decidable (BystandersQuiet cb s l)
  | .complete id o => inferInstanceAs (Decidable (s.breaker.state = .halfOpen →
      ∀ c ∈ s.inFlight, c.id = id → ofPeriod s c = false →
        bystands cb s.breaker.halfOpenProbeInFlight c o = true))
  | .arrive | .reset | .advance _ => .isTrue trivial

/-- In HALF_OPEN the end of a call leaves the breaker unchanged exactly when the call
    bystands, whether or not it is a probe of the period. -/
theorem afterCall_unchanged_iff {cb : CircuitBreaker} {s : System} (c : Call)
    (half : s.breaker.state = .halfOpen) (o : Except Raised Unit) :
    cb.afterCall s.now c.probe o s.breaker = s.breaker ↔
      bystands cb s.breaker.halfOpenProbeInFlight c o = true := by
  have flagged (x : Bool) : ({ s.breaker with halfOpenProbeInFlight := x } : BreakerState) =
      s.breaker ↔ s.breaker.halfOpenProbeInFlight = x := by
    constructor
    · intro h
      rw [← h]
    · rintro rfl
      rfl
  rcases cb.afterCall_cases s.now c.probe o s.breaker with
    ⟨rfl, eq⟩ | ⟨e, rfl, recorded, eq⟩ | ⟨e, rfl, unrecorded, eq⟩ | ⟨x, rfl, kind, eq⟩
  · rw [eq]
    have changed : (afterSuccess s.breaker).state = .closed := by simp [afterSuccess, half, close]
    constructor
    · intro h
      rw [h, half] at changed
      cases changed
    · intro h
      cases h
  · rw [eq, cb.afterFailure_halfOpen recorded half]
    constructor
    · intro h
      have changed := congrArg BreakerState.state h
      rw [half] at changed
      cases changed
    · intro h
      simp [bystands, recorded] at h
  · rw [eq, if_pos half, flagged]
    simp [bystands, unrecorded]
  · rw [eq]
    have quiet : bystands cb s.breaker.halfOpenProbeInFlight c (.error x) =
        !(c.probe && s.breaker.halfOpenProbeInFlight) := by
      cases x <;> simp_all [Raised.exception?, bystands]
    rw [quiet]
    cases probe : c.probe with
    | false => simp [release]
    | true => simp [release, flagged]

theorem step_complete (cb : CircuitBreaker) {s : System} (w : WellFormed s) {c : Call}
    (member : c ∈ s.inFlight) (o : Except Raised Unit) :
    step cb s (.complete c.id o) = some (complete cb s c o) := by
  have found : s.inFlight.find? (fun d => d.id = c.id) = some c := by
    cases search : s.inFlight.find? (fun d => d.id = c.id) with
    | none => exact absurd (List.find?_eq_none.mp search c member) (by simp)
    | some d =>
      have same : d.id = c.id := by simpa using List.find?_some search
      rw [w.ids_inj d (List.mem_of_find?_eq_some search) c member same]
  simp [step, found]

theorem afterCall_leaves_halfOpen (cb : CircuitBreaker) (now : ℚ) (probe : Bool)
    (o : Except Raised Unit) {b : BreakerState} (half : b.state = .halfOpen) :
    ((cb.afterCall now probe o b).state = .closed → o = .ok ()) ∧
    ((cb.afterCall now probe o b).state = .opened →
      ∃ e, cb.records e = true ∧ o = .error (.exception e)) := by
  rcases cb.afterCall_cases now probe o b with
    ⟨rfl, eq⟩ | ⟨e, rfl, recorded, eq⟩ | ⟨e, rfl, _, eq⟩ | ⟨x, rfl, _, eq⟩
  · rw [eq]
    exact ⟨fun _ => rfl, by simp [afterSuccess, half, close]⟩
  · rw [eq, cb.afterFailure_halfOpen recorded half]
    exact ⟨by simp [openAt], fun _ => ⟨e, recorded, rfl⟩⟩
  · rw [eq, if_pos half]
    simp [half]
  · rw [eq]
    cases probe <;> simp [release, half]

theorem probeDecides_iff {cb : CircuitBreaker} {s : System} {l : Label} (w : WellFormed s) :
    ProbeDecides cb s l ↔ BystandersQuiet cb s l := by
  constructor
  · cases l with
    | complete id o =>
      intro decides half c member ids other
      subst ids
      have unchanged := (decides half _ (step_complete cb w member o)).2.2 c member o rfl other
      exact (afterCall_unchanged_iff c half o).mp unchanged
    | arrive => exact fun _ => trivial
    | reset => exact fun _ => trivial
    | advance d => exact fun _ => trivial
  · intro quiet half t h
    rcases step_cases h with ⟨rfl, rfl⟩ | ⟨c, member, o, rfl, rfl⟩ | ⟨rfl, rfl⟩ | ⟨d, _, rfl, rfl⟩
    · have still : (arrive cb s).breaker.state = .halfOpen := by
        rcases arrive_cases cb s with ⟨eq, _⟩ | ⟨state, _⟩ | ⟨_, eq⟩ | ⟨_, _, eq⟩
        · rw [eq]
          exact half
        · exact absurd state (by simp [half])
        · rw [eq]
          rfl
        · rw [eq]
          exact half
      exact ⟨by simp [still], by simp [still], by simp⟩
    · obtain ⟨closes, opens⟩ := afterCall_leaves_halfOpen cb s.now c.probe o half
      have own (changed : (complete cb s c o).breaker.state ≠ .halfOpen) :
          ofPeriod s c = true := by
        by_contra other
        have same := (afterCall_unchanged_iff c half o).mpr
          (quiet half c member rfl (Bool.eq_false_iff.mpr other))
        exact changed ((congrArg BreakerState.state same).trans half)
      refine ⟨?_, ?_, ?_⟩
      · intro closed
        have ended := closes closed
        subst ended
        exact .inr ⟨c, member, own (by simp [closed]), rfl⟩
      · intro opened
        obtain ⟨e, recorded, ended⟩ := opens opened
        exact ⟨c, member, own (by simp [opened]), e, recorded, by rw [ended]⟩
      · intro d hd o' same other
        obtain ⟨ids, rfl⟩ := Label.complete.inj same
        have eq := w.ids_inj c member d hd ids
        subst eq
        exact (afterCall_unchanged_iff c half o).mpr (quiet half c member rfl other)
    · exact ⟨fun _ => .inl rfl, by simp [close], by simp⟩
    · exact ⟨by simp [half], by simp [half], by simp⟩

/-- Along every run, every transition out of HALF_OPEN is the verdict of a probe of
    that period exactly when every other call that ends in the run bystands. -/
theorem half_open_verdict_iff_bystanders_quiet (cb : CircuitBreaker) (start : ℚ)
    (ls : List Label) :
    Along (step cb) (ProbeDecides cb) (initial start) ls ↔
      Along (step cb) (BystandersQuiet cb) (initial start) ls :=
  along_congr (fun _ _ _ w hs => wellFormed_step w hs) (fun _ _ w => probeDecides_iff w)
    (wellFormed_initial start) ls

/-- The success of a call admitted while CLOSED closes the recovering breaker, while
    the probe is still in flight. -/
theorem late_success_closes_half_open :
    ¬ ∀ (cb : CircuitBreaker) (start : ℚ) (ls : List Label),
      Along (step cb) (ProbeDecides cb) (initial start) ls := by
  intro claim
  have quiet := (half_open_verdict_iff_bystanders_quiet fragile 0 _).mp
    (claim fragile 0 [.arrive, .arrive, .complete 1 timeoutFailure, .advance 5, .arrive,
      .complete 0 (.ok ())])
  revert quiet
  decide +kernel

/-! The probe slot is never leaked. -/

def AdmitsNext (cb : CircuitBreaker) (s : System) : Prop :=
  ∃ probe b, cb.beforeCall s.now s.breaker = (.ok probe, b)

def AdmitsAfterRecovery (cb : CircuitBreaker) (s : System) : Prop :=
  ∀ d, cb.recoveryTimeoutSeconds ≤ d → ∃ t, step cb s (.advance d) = some t ∧ AdmitsNext cb t

theorem admits_slot_free {cb : CircuitBreaker} {s : System} (half : s.breaker.state = .halfOpen)
    (free : s.breaker.halfOpenProbeInFlight = false) : AdmitsNext cb s :=
  ⟨_, _, cb.beforeCall_slot_free half free⟩

theorem admits_after_recovery {cb : CircuitBreaker} {s : System} (w : WellFormed s)
    (state : s.breaker.state = .opened) : AdmitsAfterRecovery cb s := by
  intro d enough
  obtain ⟨t, opened, le⟩ := w.opened state
  have nonneg : 0 ≤ d := le_trans (le_of_lt cb.timeout_pos) enough
  have ready : cb.recoveryTimeoutSeconds ≤ s.now + d - t := by linarith
  refine ⟨{ s with now := s.now + d }, by rw [step, if_pos nonneg], ?_⟩
  exact ⟨_, _, cb.beforeCall_recovered state opened ready⟩

theorem admits_of_flag_free {cb : CircuitBreaker} {s : System} (w : WellFormed s)
    (free : s.breaker.halfOpenProbeInFlight = false) :
    AdmitsNext cb s ∨ AdmitsAfterRecovery cb s := by
  cases state : s.breaker.state with
  | closed => exact .inl ⟨_, _, cb.beforeCall_closed state⟩
  | opened => exact .inr (admits_after_recovery w state)
  | halfOpen => exact .inl (admits_slot_free state free)

theorem probe_end_frees_slot {cb : CircuitBreaker} {s : System} (w : WellFormed s) {c : Call}
    (probe : c.probe = true) (o : Except Raised Unit) :
    (complete cb s c o).breaker.halfOpenProbeInFlight = false := by
  by_contra kept
  obtain ⟨plain, _, _⟩ := afterCall_keeps_flag w.flag (Bool.not_eq_false _ ▸ kept)
  rw [plain] at probe
  cases probe

/-- In every reachable state a taken slot belongs to the latest probe, in flight in a
    HALF_OPEN breaker; a HALF_OPEN breaker without a probe in flight admits the next
    call; and every state admits the next call, admits it once the recovery timeout has
    passed, or does one of these as soon as the latest probe ends, however it ends. -/
theorem probe_slot_never_leaked (cb : CircuitBreaker) (start : ℚ) (s : System)
    (h : Reachable (step cb) (initial start) s) :
    (s.breaker.halfOpenProbeInFlight = true →
      s.breaker.state = .halfOpen ∧
        ∃ c ∈ s.inFlight, c.probe = true ∧ s.lastProbe = some c) ∧
    (s.breaker.state = .halfOpen → (∀ c ∈ s.inFlight, c.probe = false) → AdmitsNext cb s) ∧
    (AdmitsNext cb s ∨ AdmitsAfterRecovery cb s ∨
      ∃ c ∈ s.inFlight, s.lastProbe = some c ∧ ∀ o, ∃ t,
        step cb s (.complete c.id o) = some t ∧ (AdmitsNext cb t ∨ AdmitsAfterRecovery cb t)) := by
  have w := wellFormed_reachable h
  refine ⟨?_, ?_, ?_⟩
  · intro taken
    obtain ⟨c, member, last, current⟩ := w.slot taken
    exact ⟨w.flag taken, c, member, (Bool.and_eq_true_iff.mp current).1, last⟩
  · intro half none
    apply admits_slot_free half
    by_contra taken
    obtain ⟨c, member, _, current⟩ := w.slot (Bool.not_eq_false _ ▸ taken)
    rw [ofPeriod, none c member] at current
    cases current
  · cases free : s.breaker.halfOpenProbeInFlight with
    | false =>
      rcases admits_of_flag_free w free with now | later
      · exact .inl now
      · exact .inr (.inl later)
    | true =>
      obtain ⟨c, member, last, current⟩ := w.slot free
      refine .inr (.inr ⟨c, member, last, ?_⟩)
      intro o
      have probe := (Bool.and_eq_true_iff.mp current).1
      exact ⟨_, step_complete cb w member o, admits_of_flag_free (wellFormed_complete cb w member o)
        (probe_end_frees_slot w probe o)⟩

theorem probe_slot_of_fragile :
    ∃ s, run (step fragile) (initial 0) [.arrive, .complete 0 timeoutFailure, .advance 5,
        .arrive] = some s ∧ s.breaker.halfOpenProbeInFlight = true ∧
      s.breaker.state = .halfOpen ∧ ∃ c ∈ s.inFlight, c.probe = true ∧ s.lastProbe = some c := by
  have done : (run (step fragile) (initial 0) [.arrive, .complete 0 timeoutFailure, .advance 5,
      .arrive]).any (fun s => s.breaker.halfOpenProbeInFlight) = true := by decide +kernel
  obtain ⟨s, hs, taken⟩ := (Option.any_eq_true _ _).mp done
  exact ⟨s, hs, taken, (probe_slot_never_leaked fragile 0 s ⟨_, hs⟩).1 taken⟩

end Relprim.BreakerRuns
