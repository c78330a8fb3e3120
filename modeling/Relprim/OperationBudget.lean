import Mathlib.Algebra.Order.BigOperators.Group.List
import Relprim.BackoffFormula
import Relprim.FallbackAccounting
import Relprim.HintContainment
import Relprim.OperationReference

/-!
What a run can use up: attempts, sleeps and candidates within the limits of its
policies. The bound is proved on the whole trace and holds on every prefix of it, so
that a run has it too that is aborted by a sink, by the sleeper or by a BaseException.
-/
namespace Relprim
open Interruptible Dictionary

namespace ExponentialBackoff
variable (b : ExponentialBackoff)

theorem growth_nonneg (n : ℕ) : 0 ≤ b.growth n :=
  mul_nonneg b.base_nonneg (pow_nonneg (le_trans zero_le_one b.one_le) (n - 1))

theorem cappedDelay_range (n : ℕ) :
    0 ≤ (b.cappedDelay n).value ∧ (b.cappedDelay n).value ≤ b.maxDelaySeconds.value := by
  have cap : 0 ≤ b.maxDelaySeconds.value := le_trans b.base_nonneg b.base_le
  rcases b.cappedDelay_value n with ⟨_, same⟩ | ⟨_, same⟩ <;> rw [same]
  · exact ⟨le_min (b.growth_nonneg n) cap, min_le_right _ _⟩
  · exact ⟨cap, le_refl _⟩

theorem delayForRetry_range {n : ℕ} {random : ℚ} {d : PyNumber}
    (range : 0 ≤ random ∧ random < 1) (h : b.delayForRetry n random = .ok d) :
    0 ≤ d.value ∧ d.value ≤ b.maxDelaySeconds.value := by
  obtain ⟨nonneg, capped⟩ := b.cappedDelay_range n
  unfold delayForRetry at h
  split at h
  · cases h
  · simp only at h
    split at h
    · cases h
      refine ⟨mul_nonneg nonneg range.1, ?_⟩
      calc (b.cappedDelay n).value * random ≤ (b.cappedDelay n).value :=
            mul_le_of_le_one_right nonneg (le_of_lt range.2)
        _ ≤ b.maxDelaySeconds.value := capped
    · cases h
      exact ⟨nonneg, capped⟩

end ExponentialBackoff

def primaries (es : List Effect) : List ℕ :=
  es.filterMap fun
    | .primary attempt => some attempt
    | _ => none

def sleeps (es : List Effect) : List PyNumber :=
  es.filterMap fun
    | .sleep d => some d
    | _ => none

namespace AsyncOperation
variable {V : Type} (op : AsyncOperation V) (env : Environment)

def longestWait : ℚ :=
  match op.retryPolicy, op.rateLimitPolicy with
  | none, _ => 0
  | some policy, none => policy.backoff.maxDelaySeconds.value
  | some policy, some limit => max policy.backoff.maxDelaySeconds.value limit.maxWaitSeconds.value

theorem longestWait_nonneg : 0 ≤ op.longestWait := by
  unfold longestWait
  split
  · exact le_refl _
  · rename_i policy _ _
    exact le_trans policy.backoff.base_nonneg policy.backoff.base_le
  · rename_i limit _ _
    exact le_trans limit.wait_nonneg (le_max_right _ _)

def candidateCount : ℕ :=
  match op.fallbackChain with
  | some chain => chain.candidates.length
  | none => 0

/-- The calls and sleeps of a run from attempt `first` on, or of the part of it before it is
    aborted: attempt `i` comes after the sleeps of the attempts before it. -/
structure WithinBudget (first : ℕ) (es : List Effect) : Prop where
  above : ∀ i ∈ primaries es, first ≤ i
  order : (primaries es).Pairwise (· < ·)
  paced : ∀ n i, es[n]? = some (.primary i) →
    i ≤ op.maxAttempts ∧ (sleeps (es.take n)).length + first = i
  slept : (sleeps es).length + first ≤ op.maxAttempts
  short : ∀ d ∈ sleeps es, 0 ≤ d.value ∧ d.value ≤ op.longestWait
  candidates : ∃ m ≤ op.candidateCount, candidatesCalled es = List.range m
  final : ∀ n i, es[n]? = some (.candidate i) →
    primaries (es.drop n) = [] ∧ sleeps (es.drop n) = []

theorem taken_getElem {A : Type} {es : List A} {k n : ℕ} {e : A} (h : (es.take k)[n]? = some e) :
    n < k ∧ es[n]? = some e := by
  rw [List.getElem?_take] at h
  split at h
  · exact ⟨‹_›, h⟩
  · cases h

/-- What `WithinBudget` allows is allowed of every prefix. -/
theorem WithinBudget.take {op : AsyncOperation V} {first : ℕ} {es : List Effect}
    (h : op.WithinBudget first es) (k : ℕ) : op.WithinBudget first (es.take k) where
  above i member := h.above i (((List.take_sublist k es).filterMap _).subset member)
  order := h.order.sublist ((List.take_sublist k es).filterMap _)
  paced n i found := by
    obtain ⟨inside, found⟩ := taken_getElem found
    rw [List.take_take, Nat.min_eq_left (Nat.le_of_lt inside)]
    exact h.paced n i found
  slept := le_trans (Nat.add_le_add_right ((List.take_sublist k es).filterMap _).length_le _) h.slept
  short d member := h.short d (((List.take_sublist k es).filterMap _).subset member)
  candidates := by
    obtain ⟨m, few, all⟩ := h.candidates
    have begins : candidatesCalled (es.take k) <+: List.range m := by
      rw [← all]
      exact (List.take_prefix k es).filterMap _
    refine ⟨(candidatesCalled (es.take k)).length, ?_, ?_⟩
    · exact le_trans (by simpa using begins.length_le) few
    · have cut := List.prefix_iff_eq_take.mp begins
      rw [List.take_range, Nat.min_eq_left (by simpa using begins.length_le)] at cut
      exact cut
  final n i found := by
    obtain ⟨_, found⟩ := taken_getElem found
    obtain ⟨called, slept⟩ := h.final n i found
    have part : (es.take k).drop n <+: es.drop n := by
      rw [List.drop_take]
      exact List.take_prefix _ _
    constructor
    · exact List.prefix_nil.mp (called ▸ part.filterMap _)
    · exact List.prefix_nil.mp (slept ▸ part.filterMap _)

/-- The calls of a run from attempt `i` on. The breaker can reject the call of an attempt. -/
inductive Paced : ℕ → List Effect → Prop where
  | last {i m : ℕ} (called : Bool) (bound : i ≤ op.maxAttempts) (few : m ≤ op.candidateCount) :
      Paced i ((if called then [.primary i] else []) ++ (List.range m).map .candidate)
  | next {i : ℕ} {d : PyNumber} {rest : List Effect} (called : Bool) (left : i < op.maxAttempts)
      (nonneg : 0 ≤ d.value) (short : d.value ≤ op.longestWait) (later : Paced (i + 1) rest) :
      Paced i ((if called then [.primary i] else []) ++ .sleep d :: rest)

theorem retried_range {i : ℕ} {e : Exc} {d : PyNumber} (h : op.RetriedAfter env i e d) :
    0 ≤ d.value ∧ d.value ≤ op.longestWait := by
  cases h with
  | @limited policy limit hint _ source configured limits matched hinted selected within =>
    have wait : op.longestWait =
        max policy.backoff.maxDelaySeconds.value limit.maxWaitSeconds.value := by
      simp [longestWait, configured, limits]
    rw [wait]
    refine ⟨?_, le_trans within (le_max_right _ _)⟩
    cases selected with
    | provider q =>
      cases hinted with
      | answered asked hints => exact hints_nonneg hints
    | backoff delay => exact (policy.backoff.delayForRetry_range (env.random_range i) delay).1
  | @unlimited policy _ configured free matched delay =>
    obtain ⟨nonneg, capped⟩ := policy.backoff.delayForRetry_range (env.random_range i) delay
    refine ⟨nonneg, le_trans capped ?_⟩
    unfold longestWait
    rw [configured]
    cases op.rateLimitPolicy with
    | none => exact le_refl _
    | some limit => exact le_max_left _ _

theorem chainEnds_called {A : Type} {p : FallbackPolicy} {outcomes : List (Except Exc A)} {n : ℕ}
    {r : Except Exc A} (h : ChainEnds p outcomes n r) : n ≤ outcomes.length := by
  cases h with
  | succeeded split => simp [split]
  | unmatched split => simp [split]
  | exhausted all => simp [all]

theorem candidateOutcomes_length (candidates : List (FallbackCandidate (Except Exc V)))
    (index : ℕ) : (op.candidateOutcomes candidates index).length = candidates.length := by
  induction candidates generalizing index with
  | nil => rfl
  | cons candidate rest ih => simp [candidateOutcomes, ih]

theorem chain_called {e : Exc} {chain : FallbackChain (Except Exc V)}
    (matched : op.chainFor e = some chain) : (op.chainResult chain).called ≤ op.candidateCount := by
  obtain ⟨configured, _⟩ := Option.filter_eq_some_iff.mp matched
  have few := chainEnds_called (op.chainResult_ends chain)
  rw [candidateOutcomes_length] at few
  simpa [candidateCount, configured] using few

theorem closes_called {op : AsyncOperation V} {env : Environment} {started : Started} {i : ℕ}
    {b : BreakerState} {p : Progress} {r : Except Raised (OperationResult V)} {items : List Item}
    (closes : op.Closes env started i b p r items) :
    ∃ m ≤ op.candidateCount, calls items = (List.range m).map .candidate := by
  cases closes with
  | succeeded => exact ⟨0, Nat.zero_le _, by simp [successItems, calls_append]⟩
  | failed => exact ⟨0, Nat.zero_le _, by simp [calls_append]⟩
  | fellBack verdict final matched =>
    exact ⟨_, op.chain_called matched, by simp [fallbackSuccessItems, calls_append]⟩
  | fallbackFailed verdict final matched =>
    exact ⟨_, op.chain_called matched, by simp [fallbackFailureItems, calls_append]⟩
  | refused => exact ⟨0, Nat.zero_le _, by simp [calls_append]⟩
  | escaped => exact ⟨0, Nat.zero_le _, rfl⟩

theorem transcript_paced {op : AsyncOperation V} {env : Environment} {started : Started} {i : ℕ}
    (pos : 1 ≤ i) (bound : i ≤ op.maxAttempts) {b : BreakerState} {p : Progress}
    {r : Except Raised (OperationResult V)} {items : List Item}
    (run : op.Transcript env started i b p r items) : op.Paced i (calls items) := by
  induction run with
  | closes closes =>
    obtain ⟨m, few, called⟩ := closes_called closes
    rw [calls_append, calls_attempt, called]
    exact .last _ bound few
  | retries retries _ ih =>
    cases retries with
    | intro verdict again delay left at_ duration =>
      obtain ⟨e, _, planned⟩ := verdict_failure pos verdict
      obtain ⟨nonneg, short⟩ := op.retried_range env (op.planned_retried env planned again delay)
      rw [calls_append, calls_append, calls_attempt]
      simpa [calls_append, sleepItems] using
        Paced.next (op.attemptResult env _ _).called left nonneg short
          (ih (Nat.le_add_left 1 _) left)

@[simp] theorem primaries_candidates (m : ℕ) :
    primaries ((List.range m).map .candidate) = [] := by
  simp [primaries, List.filterMap_map]

@[simp] theorem sleeps_candidates (m : ℕ) : sleeps ((List.range m).map .candidate) = [] := by
  simp [sleeps, List.filterMap_map]

@[simp] theorem candidatesCalled_candidates (m : ℕ) :
    candidatesCalled ((List.range m).map .candidate) = List.range m := by
  simp [candidatesCalled, List.filterMap_map]

theorem withinBudget_call {op : AsyncOperation V} {i : ℕ} {es : List Effect} (called : Bool)
    (bound : i ≤ op.maxAttempts) (above : ∀ j ∈ primaries es, i < j)
    (h : op.WithinBudget i es) :
    op.WithinBudget i ((if called then [.primary i] else []) ++ es) := by
  cases called with
  | false => exact h
  | true =>
    constructor
    · intro j member
      rcases List.mem_cons.mp member with rfl | later
      · exact Nat.le_refl j
      · exact h.above j later
    · exact List.pairwise_cons.mpr ⟨above, h.order⟩
    · intro n j found
      cases n with
      | zero =>
        cases found
        exact ⟨bound, Nat.zero_add i⟩
      | succ n => exact h.paced n j found
    · exact h.slept
    · exact h.short
    · exact h.candidates
    · intro n j found
      cases n with
      | zero => cases found
      | succ n => exact h.final n j found

theorem withinBudget_of_paced {op : AsyncOperation V} {i : ℕ} {es : List Effect} (h : op.Paced i es) :
    op.WithinBudget i es := by
  induction h with
  | @last i m called bound few =>
    apply withinBudget_call called bound (by simp)
    refine ⟨by simp, by simp, ?_, by simpa using bound, by simp, ⟨m, few, by simp⟩, ?_⟩
    · intro n j found
      simp at found
    · intro n j _
      have nothing := List.drop_subset n ((List.range m).map Effect.candidate)
      constructor
      · exact List.filterMap_eq_nil_iff.mpr fun e member => by
          obtain ⟨_, _, rfl⟩ := List.mem_map.mp (nothing member)
          rfl
      · exact List.filterMap_eq_nil_iff.mpr fun e member => by
          obtain ⟨_, _, rfl⟩ := List.mem_map.mp (nothing member)
          rfl
  | @next i d rest called left nonneg short later ih =>
    apply withinBudget_call called (Nat.le_of_lt left)
    · intro j member
      exact ih.above j member
    · constructor
      · intro j member
        exact Nat.le_of_succ_le (ih.above j member)
      · exact ih.order
      · intro n j found
        cases n with
        | zero => cases found
        | succ n =>
          obtain ⟨bound, count⟩ := ih.paced n j found
          refine ⟨bound, ?_⟩
          rw [← count]
          simp [sleeps, Nat.add_assoc, Nat.add_comm 1]
      · have count := ih.slept
        simp only [sleeps] at count ⊢
        simp
        omega
      · intro d' member
        rcases List.mem_cons.mp member with rfl | later
        · exact ⟨nonneg, short⟩
        · exact ih.short d' later
      · exact ih.candidates
      · intro n j found
        cases n with
        | zero => cases found
        | succ n => exact ih.final n j found

end AsyncOperation

/-- What a run does: all of it, or what it does up to the effect that ends it. -/
inductive Does {V : Type} (op : AsyncOperation V) (env : Environment) (s : Session) :
    List Effect → Prop where
  | whole : Does op env s (op.trace env none s)
  | aborted {n : ℕ} {x : Raised} {e : Effect} (at_ : (op.trace env none s)[n]? = some e)
      (may : endsAt e x) : Does op env s (op.trace env (some (n, x)) s)

theorem Does.prefix {V : Type} {op : AsyncOperation V} {env : Environment} {s : Session}
    {es : List Effect} (h : Does op env s es) : ∃ n, es = (op.trace env none s).take n := by
  cases h with
  | whole => exact ⟨_, (List.take_of_length_le (Nat.le_refl _)).symm⟩
  | aborted at_ may =>
    exact ⟨_, ((op.clean_run env).cut _ _ s [] _ (Nat.zero_le _) at_ may).2⟩

theorem callsOf_take (es : List Effect) (n : ℕ) :
    ∃ k, callsOf (es.take n) = (callsOf es).take k := by
  have begins : callsOf (es.take n) <+: callsOf es := (List.take_prefix n es).filter _
  exact ⟨_, List.prefix_iff_eq_take.mp begins⟩

/-- A run, aborted or not, calls the operation at most once for each attempt number, in order,
    each attempt after one sleep for each attempt before it; no sleep is longer than the
    policies allow; and after the first candidate it only calls further candidates, in order. -/
theorem run_within_budget {V : Type} (op : AsyncOperation V) (env : Environment) (s : Session)
    (aware : AwareTimestamps op) (es : List Effect) (does : Does op env s es) :
    op.WithinBudget 1 (callsOf es) ∧ ((sleeps (callsOf es)).map PyNumber.value).sum ≤
      (op.maxAttempts - 1 : ℕ) * op.longestWait := by
  obtain ⟨started, rest, run, expands⟩ := AsyncOperation.run_transcript aware env s
  have paced := AsyncOperation.transcript_paced (Nat.le_refl 1) op.maxAttempts_pos run
  have whole : callsOf (op.trace env none s) = calls rest := by
    rw [expands_calls expands, AsyncOperation.runItems, calls_emit]
  have within : op.WithinBudget 1 (callsOf es) := by
    obtain ⟨n, rfl⟩ := does.prefix
    obtain ⟨k, same⟩ := callsOf_take (op.trace env none s) n
    rw [same, whole]
    exact (AsyncOperation.withinBudget_of_paced paced).take k
  refine ⟨within, ?_⟩
  have each : ∀ w ∈ (sleeps (callsOf es)).map PyNumber.value, w ≤ op.longestWait := by
    intro w member
    obtain ⟨d, slept, rfl⟩ := List.mem_map.mp member
    exact (within.short d slept).2
  have bound := List.sum_le_card_nsmul _ _ each
  rw [List.length_map, nsmul_eq_mul] at bound
  refine le_trans bound (mul_le_mul_of_nonneg_right ?_ op.longestWait_nonneg)
  have few := within.slept
  exact_mod_cast (by omega : (sleeps (callsOf es)).length ≤ op.maxAttempts - 1)

/-- Cancelled in its one sleep, it makes no second attempt. -/
theorem limitedOnce_within_budget : ∃ es, Does limitedOnce steady {} es ∧ primaries es = [1] ∧
    (sleeps es).length = 1 ∧ limitedOnce.WithinBudget 1 (callsOf es) := by
  have reached : (limitedOnce.trace steady none {})[11]?.isSome = true := by
    decide +kernel
  obtain ⟨e, at_⟩ := Option.isSome_iff_exists.mp reached
  have cancelled : Does limitedOnce steady {} (limitedOnce.trace steady (some (11, .cancelled)) {}) :=
    .aborted at_ (endsAt_of_abortsAt (by cases e <;> trivial))
  refine ⟨_, cancelled, ?_, ?_, (run_within_budget limitedOnce steady {} limitedOnce_aware _
    cancelled).1⟩
  · decide +kernel
  · decide +kernel

end Relprim
