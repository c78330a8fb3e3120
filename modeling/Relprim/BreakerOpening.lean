import Mathlib.Data.List.ReduceOption
import Mathlib.Tactic.Linarith
import Mathlib.Tactic.Ring
import Relprim.BreakerProbes

/-!
An open breaker is closed to traffic until the recovery timeout has passed, and the
hint of a rejection is the time that is left. Late completions of calls admitted
before the opening never move it; only a new opening does.
-/
namespace Relprim.BreakerRuns
open LabelledRuns CircuitBreaker

/-- The clock value at which a step opens the breaker, if it does. -/
def opening (s : System) (_ : Label) (t : System) : Option ℚ :=
  if s.breaker.state ≠ .opened ∧ t.breaker.state = .opened then some t.now else none

def openings (cb : CircuitBreaker) (start : ℚ) (ls : List Label) : List ℚ :=
  (trace (step cb) opening (initial start) ls).reduceOption

def retryAfterSeconds (e : Exc) : Option PyFloat := e.fields.breaker.bind BreakerFields.retryAfterSeconds

theorem beforeCall_early {cb : CircuitBreaker} {now t : ℚ} {b : BreakerState}
    (state : b.state = .opened) (opened : b.openedAt = some t)
    (early : now < t + cb.recoveryTimeoutSeconds) :
    cb.beforeCall now b =
      (.error (cb.openError b (some (t + cb.recoveryTimeoutSeconds - now))), b) := by
  have waits : ¬ cb.recoveryTimeoutSeconds ≤ now - t := by linarith
  have left : max 0 (cb.recoveryTimeoutSeconds - (now - t)) =
      t + cb.recoveryTimeoutSeconds - now := by
    rw [max_eq_right (by linarith)]
    ring
  simp only [beforeCall, state, opened, ge_iff_le, if_neg waits, left]

theorem not_admits_early {cb : CircuitBreaker} {s : System} {t : ℚ}
    (state : s.breaker.state = .opened) (opened : s.breaker.openedAt = some t)
    (early : s.now < t + cb.recoveryTimeoutSeconds) : ¬ AdmitsNext cb s := by
  rintro ⟨probe, b, admitted⟩
  rw [beforeCall_early state opened early] at admitted
  cases congrArg Prod.fst admitted

theorem afterCall_of_opened (cb : CircuitBreaker) (now : ℚ) (probe : Bool)
    (o : Except Raised Unit) {b : BreakerState} (h : b.state = .opened) :
    (cb.afterCall now probe o b).state = .opened ∧
      (cb.afterCall now probe o b).openedAt = b.openedAt := by
  rcases cb.afterCall_cases now probe o b with
    ⟨_, eq⟩ | ⟨e, _, recorded, eq⟩ | ⟨e, _, _, eq⟩ | ⟨x, _, _, eq⟩
  · rw [eq]
    simp [afterSuccess, h]
  · rw [eq]
    rcases cb.afterFailure_recorded now recorded (b := b) (by simp [h]) with
      ⟨_, same⟩ | ⟨state, _⟩ | ⟨state, _⟩
    · rw [same]
      exact ⟨h, rfl⟩
    · simp [h] at state
    · simp [h] at state
  · rw [eq, if_neg (by simp [h])]
    exact ⟨h, rfl⟩
  · rw [eq]
    cases probe <;> exact ⟨h, rfl⟩

/-- What a step other than `reset` does to the opening: it keeps it, it leaves OPEN after
    the recovery timeout, or it opens the breaker now. -/
theorem opening_step {cb : CircuitBreaker} {s t : System} {l : Label}
    (noReset : l ≠ .reset) (h : step cb s l = some t) :
    s.now ≤ t.now ∧
    (s.breaker.state = .opened → t.breaker.state = .opened →
      t.breaker.openedAt = s.breaker.openedAt) ∧
    (s.breaker.state = .opened → t.breaker.state ≠ .opened → ∀ u, s.breaker.openedAt = some u →
      u + cb.recoveryTimeoutSeconds ≤ t.now) ∧
    (s.breaker.state ≠ .opened → t.breaker.state = .opened →
      t.breaker.openedAt = some t.now) := by
  rcases step_cases h with ⟨rfl, rfl⟩ | ⟨c, _, o, rfl, rfl⟩ | ⟨rfl, _⟩ | ⟨d, nonneg, rfl, rfl⟩
  · rcases cb.beforeCall_cases s.now s.breaker with
      ⟨state, eq⟩ | ⟨state, ⟨u, opened, late⟩, eq⟩ | ⟨state, _, e, eq⟩ | ⟨state, _, eq⟩ |
      ⟨state, _, e, eq⟩
    · simp [arrive, eq, accept, state]
    · simp only [arrive, eq, accept, state, opened]
      refine ⟨le_refl _, fun _ impossible => (by cases impossible), ?_, by simp⟩
      intro _ _ v same
      cases same
      linarith
    · simp [arrive, eq, state]
    · simp [arrive, eq, accept, state]
    · simp [arrive, eq, state]
  · refine ⟨le_refl _, ?_, ?_, ?_⟩
    · exact fun state _ => (afterCall_of_opened cb s.now c.probe o state).2
    · exact fun state left => absurd (afterCall_of_opened cb s.now c.probe o state).1 left
    · intro state opened
      rcases afterCall_opened opened with ⟨was, _⟩ | fresh
      · exact absurd was state
      · exact fresh
  · exact absurd rfl noReset
  · refine ⟨le_add_of_nonneg_right nonneg, fun _ _ => rfl, ?_, ?_⟩
    · exact fun state left => absurd state left
    · exact fun left state => absurd state left

/-- While OPEN, the latest opening is `openedAt`; otherwise the recovery timeout of every
    opening has passed. -/
structure OpenedWhen (cb : CircuitBreaker) (s : System) (ts : List ℚ) : Prop where
  opened : s.breaker.state = .opened → ∃ t, s.breaker.openedAt = some t ∧ ts.getLast? = some t ∧
    ∀ u ∈ ts, u ≤ t
  other : s.breaker.state ≠ .opened → ∀ t ∈ ts, t + cb.recoveryTimeoutSeconds ≤ s.now

theorem openedWhen_step {cb : CircuitBreaker} {s t : System} {l : Label} {ts : List ℚ}
    (inv : OpenedWhen cb s ts) (noReset : l ≠ .reset)
    (h : step cb s l = some t) : OpenedWhen cb t (ts ++ (opening s l t).toList) := by
  obtain ⟨later, keeps, leaves, opens⟩ := opening_step noReset h
  by_cases before : s.breaker.state = .opened
  · obtain ⟨u, at_u, last, latest⟩ := inv.opened before
    have none : opening s l t = none := if_neg fun new => new.1 before
    rw [none, Option.toList_none, List.append_nil]
    constructor
    · exact fun after => ⟨u, (keeps before after).trans at_u, last, latest⟩
    · intro after v hv
      have passed := leaves before after u at_u
      have order := latest v hv
      linarith
  · by_cases after : t.breaker.state = .opened
    · have now : opening s l t = some t.now := if_pos ⟨before, after⟩
      rw [now, Option.toList_some]
      constructor
      · refine fun _ => ⟨t.now, opens before after, by simp, ?_⟩
        intro u hu
        rcases List.mem_append.mp hu with old | new
        · have passed := inv.other before u old
          have positive := cb.timeout_pos
          linarith
        · rw [List.mem_singleton.mp new]
      · exact fun left => absurd after left
    · have none : opening s l t = none := if_neg fun new => after new.2
      rw [none, Option.toList_none, List.append_nil]
      constructor
      · exact fun opened => absurd opened after
      · exact fun _ u hu => le_trans (inv.other before u hu) later

theorem openedWhen_run {cb : CircuitBreaker} {start : ℚ} {ls : List Label} {s : System}
    (noReset : Label.reset ∉ ls) (h : run (step cb) (initial start) ls = some s) :
    OpenedWhen cb s (openings cb start ls) := by
  apply invariant_trace (I := fun s (hs : List (Option ℚ)) => OpenedWhen cb s hs.reduceOption) _ _ h
  · exact ⟨fun state => (by cases state), fun _ _ none => (by cases none)⟩
  · intro l member s hs t inv step
    rw [List.reduceOption_append, List.reduceOption_singleton]
    have other : l ≠ .reset := fun same => noReset (same ▸ member)
    exact openedWhen_step inv other step

/-- In a run without `reset`, a call is admitted only once the recovery timeout of every
    opening so far has passed; a rejection while OPEN carries the time left since the
    latest opening, which is positive; and with no other event a call is admitted as a
    probe when exactly that time has passed, and rejected before. -/
theorem open_rejects_until_recovery (cb : CircuitBreaker) (start : ℚ) (ls : List Label)
    (s : System) (noReset : Label.reset ∉ ls) (h : run (step cb) (initial start) ls = some s) :
    (AdmitsNext cb s → ∀ t ∈ openings cb start ls, t + cb.recoveryTimeoutSeconds ≤ s.now) ∧
    ∀ e b, s.breaker.state = .opened → cb.beforeCall s.now s.breaker = (.error e, b) →
      ∃ t left, (openings cb start ls).getLast? = some t ∧
        left = t + cb.recoveryTimeoutSeconds - s.now ∧ 0 < left ∧
        retryAfterSeconds e = some (.finite left) ∧
        (∃ u, step cb s (.advance left) = some u ∧
          ∃ b, cb.beforeCall u.now u.breaker = (.ok true, b)) ∧
        ∀ d, 0 ≤ d → d < left → ∃ u, step cb s (.advance d) = some u ∧ ¬ AdmitsNext cb u := by
  have inv := openedWhen_run noReset h
  constructor
  · intro admits t ht
    by_cases state : s.breaker.state = .opened
    · obtain ⟨u, at_u, _, latest⟩ := inv.opened state
      by_contra early
      have order := latest t ht
      exact not_admits_early state at_u (by linarith) admits
    · exact inv.other state t ht
  · intro e b state rejected
    obtain ⟨t, at_t, last, _⟩ := inv.opened state
    have early : s.now < t + cb.recoveryTimeoutSeconds := by
      by_contra late
      rw [cb.beforeCall_recovered state at_t (by linarith)] at rejected
      cases congrArg Prod.fst rejected
    rw [beforeCall_early state at_t early] at rejected
    cases rejected
    refine ⟨t, _, last, rfl, by linarith, rfl, ?_, ?_⟩
    · refine ⟨{ s with now := s.now + (t + cb.recoveryTimeoutSeconds - s.now) },
        by rw [step, if_pos (by linarith)], _, cb.beforeCall_recovered state at_t ?_⟩
      simp only
      linarith
    · intro d nonneg less
      refine ⟨{ s with now := s.now + d }, by rw [step, if_pos nonneg], ?_⟩
      exact not_admits_early state at_t (by simp only; linarith)

def timedOutRun : List Label := [.arrive, .advance 1, .complete 0 timeoutFailure, .advance 2]

theorem fragile_rejects_until_six :
    ∃ s, run (step fragile) (initial 0) timedOutRun = some s ∧
      (openings fragile 0 timedOutRun).getLast? = some 1 ∧
      ∃ e, (fragile.beforeCall s.now s.breaker).1 = .error e ∧ retryAfterSeconds e = some (.finite 3) := by
  have done : (run (step fragile) (initial 0) timedOutRun).any (fun s =>
      s.breaker.state = .opened && s.now = 3 && (fragile.beforeCall s.now s.breaker).1.toOption = none) =
        true := by decide +kernel
  obtain ⟨s, hs, found⟩ := (Option.any_eq_true _ _).mp done
  simp only [Bool.and_eq_true, decide_eq_true_eq] at found
  obtain ⟨⟨state, now⟩, rejects⟩ := found
  have first : (openings fragile 0 timedOutRun).getLast? = some 1 := by decide +kernel
  rcases eq : fragile.beforeCall s.now s.breaker with ⟨admitted | probe, b⟩
  · obtain ⟨t, left, last, rfl, _, hint, _⟩ := (open_rejects_until_recovery fragile 0 _ s
      (by simp [timedOutRun]) hs).2 admitted b state eq
    cases first.symm.trans last
    refine ⟨s, hs, first, admitted, by rw [eq], hint.trans ?_⟩
    rw [now]
    decide +kernel
  · rw [eq] at rejects
    cases rejects

end Relprim.BreakerRuns
