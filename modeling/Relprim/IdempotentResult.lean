import Relprim.OperationBlocks

/-!
What `run` makes of an idempotency result: the report of the execution with the
idempotency keys on top. The constructor accepts it, since the report of every
result that a run returns has been accepted before, and no such report has these
keys already.
-/
namespace Relprim
open Interruptible Interruptible.Program Dictionary Fallible
variable {V : Type}

def idempotencyMetadata (r : IdempotencyResult V) : Metadata := ofPairs [
  ("idempotency_enabled", .bool true),
  ("idempotency_status", .str r.status.value),
  ("idempotency_cache_hit", .bool r.cacheHit)]

def idempotencyKeys : List String :=
  ["idempotency_enabled", "idempotency_status", "idempotency_cache_hit"]

theorem idempotencyMetadata_lookup (r : IdempotencyResult V) (k : String) :
    (idempotencyMetadata r).lookup k =
      if k = "idempotency_enabled" then some (.bool true)
      else if k = "idempotency_status" then some (.str r.status.value)
      else if k = "idempotency_cache_hit" then some (.bool r.cacheHit)
      else none := by
  rw [idempotencyMetadata, lookup_ofPairs]
  simp only [List.lookup_cons, List.lookup_nil]
  grind

def operationResultWithIdempotencyMetadata (r : IdempotencyResult (OperationResult V)) :
    Except Exc (OperationResult V) := do
  let original := r.value.report
  let report ← ExecutionReport.new {
    operationName := original.operationName
    status := original.status
    startedAt := original.startedAt
    durationSeconds := original.durationSeconds
    attempts := original.attempts
    metadata := update original.metadata (idempotencyMetadata r) }
  return { value := r.value.value, report }

/-- `IdempotencyPolicy.run` as far as the store: the key of the call. -/
def IdempotencyPolicy.key (p : IdempotencyPolicy) : Except Exc String := do
  let key ← p.keyFactory
  validateKey key

theorem freezeJsonScalars_inv {d e : Dict String JsonScalar} {name : String}
    (h : freezeJsonScalars d name = .ok e) : finiteValues d ∧ e = d := by
  obtain ⟨_, finite, same⟩ := except_bind_ok h
  constructor
  · exact check_ok_iff.mp finite
  · cases same
    rfl

/-- What the constructor has accepted it accepts with any other finite metadata. -/
theorem report_new_inv {r r' : ExecutionReport} (h : ExecutionReport.new r = .ok r') :
    r' = r ∧ finiteValues r.metadata ∧ ∀ m, finiteValues m →
      ExecutionReport.new { r with metadata := m } = .ok { r with metadata := m } := by
  unfold ExecutionReport.new at h
  obtain ⟨_, named, h⟩ := except_bind_ok h
  obtain ⟨_, duration, h⟩ := except_bind_ok h
  split at h
  · cases h
  · rename_i last ends
    obtain ⟨_, first, h⟩ := except_bind_ok h
    obtain ⟨_, second, h⟩ := except_bind_ok h
    obtain ⟨_, aware, h⟩ := except_bind_ok h
    obtain ⟨_, frozen, h⟩ := except_bind_ok h
    obtain ⟨finite, rfl⟩ := freezeJsonScalars_inv frozen
    cases h
    refine ⟨rfl, finite, ?_⟩
    intro m allowed
    have ends' : ({ r with metadata := m } : ExecutionReport).lastAttempt = some last := ends
    simp only [ExecutionReport.new, named, duration, ends', first, second, aware,
      freezeJsonScalars_ok allowed, bind, Except.bind]
    rfl

/-! What a run returns. -/

def Plain (m : Metadata) : Prop := ∀ k ∈ idempotencyKeys, k ∉ m

theorem plain_ofPairs {ps : List (String × JsonScalar)}
    (h : ∀ k ∈ idempotencyKeys, k ∉ ps.map Prod.fst) : Plain (ofPairs ps) :=
  fun k member present => h k member (mem_ofPairs.mp present)

theorem plain_update {d e : Metadata} (hd : Plain d) (he : Plain e) : Plain (update d e) :=
  fun k member present => (mem_update.mp present).elim (hd k member) (he k member)

def Reported (r : OperationResult V) : Prop :=
  (∃ draft, ExecutionReport.new draft = .ok r.report) ∧ Plain r.report.metadata

def PassReported : Pass V → Prop
  | .again _ => True
  | .returned r => Reported r

namespace AsyncOperation
variable (op : AsyncOperation V) (env : Environment)

theorem plain_checked {occasion : Occasion} {value : V} {m : Metadata}
    (h : op.validateValue occasion value = .ok m) : Plain m := by
  have whole : op.checked (.ok value) occasion = .ok (value, m) := by
    simp [checked, h, bind, Except.bind, pure, Except.pure]
  rcases op.checked_metadata whole with rfl | ⟨result, rfl⟩
  · exact plain_ofPairs (by decide)
  · exact plain_ofPairs (by simp [idempotencyKeys])

theorem yields_validated (occasion : Occasion) (value : V) :
    Yields (do
      let metadata ← Run.lift (coroutine (op.validateValue occasion value))
      return (value, metadata) : Run (V × Metadata)) fun r => Plain r.2 := by
  refine yields_bind (P := Plain) (yields_fromExcept ?_) ?_
  · intro m h
    cases validated : op.validateValue occasion value with
    | error e => simp [validated, Except.mapError] at h
    | ok metadata =>
      simp only [validated, coroutine_ok, Except.mapError, Except.ok.injEq] at h
      exact h ▸ op.plain_checked validated
  · exact fun m plain => yields_pure plain

theorem yields_singleAttempt (attempt : ℕ) :
    Yields (op.runSingleAttempt env attempt) fun r => Plain r.2 := by
  have call : Yields (op.runSingleAttemptWithoutCircuitBreaker env attempt) fun r => Plain r.2 :=
    yields_bind (yields_any _) fun _ _ => yields_bind (yields_any _) fun value _ =>
      op.yields_validated _ value
  unfold runSingleAttempt
  split
  · exact yields_bind (yields_any _) fun _ _ => yields_onExit call
  · exact call

theorem yields_chain (p : FallbackPolicy) (count : ℕ)
    (candidates : List (FallbackCandidate (Except Exc V))) (index : ℕ) (failures : List Exc) :
    Yields (FallbackChain.runFrom p count (op.validatedCandidates candidates index) index failures)
      fun r => Plain r.value.2 := by
  induction candidates generalizing index failures with
  | nil => exact yields_raise
  | cons candidate rest ih =>
    have body : Yields (op.runCandidate index candidate.operation) fun r => Plain r.2 :=
      yields_bind (yields_any _) fun _ _ => yields_bind (yields_any _) fun value _ =>
        op.yields_validated _ value
    refine yields_bind (yields_attempt body) ?_
    intro r plain
    cases r with
    | ok value => exact yields_pure (plain value rfl)
    | error e =>
      simp only
      split
      · exact yields_raise
      · exact ih (index + 1) (failures ++ [e])

theorem yields_succeed (started : Started) (progress : Progress) {metadata : Metadata} (value : V)
    (plain : Plain metadata) :
    Yields (op.succeed env started progress metadata value) PassReported := by
  have built : Yields (op.buildReport env started .succeeded progress metadata) fun r =>
      (∃ draft, ExecutionReport.new draft = .ok r) ∧ Plain r.metadata := by
    refine yields_bind (yields_any _) fun duration _ => yields_fromExcept ?_
    intro report h
    let draft := op.reportDraft started.at_ duration .succeeded progress metadata
    have accepted : ExecutionReport.new draft = .ok report := by
      cases built : ExecutionReport.new draft with
      | error e => simp [draft, built, Except.mapError] at h
      | ok r => simpa [draft, built, Except.mapError] using h
    obtain ⟨rfl, _⟩ := report_new_inv accepted
    refine ⟨⟨draft, accepted⟩, ?_⟩
    have empty : Plain ∅ := fun k _ present => by cases present
    exact plain_update (plain_update empty plain) (plain_ofPairs (by simp [idempotencyKeys]))
  refine yields_bind built fun report reported => ?_
  exact yields_bind (yields_any _) fun _ _ => yields_pure reported

theorem yields_fail (started : Started) (progress : Progress) (status : AttemptStatus)
    (metadata : Metadata) (message : String) (e : Exc) :
    Yields (op.fail env started progress status metadata message e) PassReported :=
  yields_bind (yields_any _) fun _ _ => yields_bind (yields_any _) fun _ _ => yields_raise

theorem yields_runFallback (started : Started) (progress : Progress)
    (chain : FallbackChain (Except Exc V)) :
    Yields (op.runFallback env started progress chain) PassReported := by
  refine yields_bind (yields_any _) fun startedAt _ => yields_bind (yields_any _) fun monotonic _ =>
    yields_bind (yields_any _) fun _ _ => ?_
  refine yields_bind (yields_attempt (op.yields_chain _ _ chain.candidates 0 [])) ?_
  intro r plain
  cases r with
  | error e =>
    exact yields_bind (yields_any _) fun _ _ => yields_bind (yields_any _) fun _ _ =>
      yields_bind (yields_any _) fun _ _ => yields_bind (yields_any _) fun _ _ =>
      yields_bind (yields_any _) fun _ _ => op.yields_fail env _ _ _ _ _ _
  | ok result =>
    have marked : Plain (fallbackSuccessMetadata result result.value.2) :=
      plain_update (plain_ofPairs (by simp [idempotencyKeys])) (plain result rfl)
    exact yields_bind (yields_any _) fun _ _ => yields_bind (yields_any _) fun _ _ =>
      yields_bind (yields_any _) fun _ _ => yields_bind (yields_any _) fun _ _ =>
      yields_bind (yields_any _) fun _ _ => yields_bind (yields_any _) fun _ _ =>
      op.yields_succeed env _ _ _ marked

theorem yields_runAttempt (started : Started) (attempt : ℕ) (progress : Progress) :
    Yields (op.runAttempt env started attempt progress) PassReported := by
  refine yields_bind (yields_any _) fun startedAt _ => yields_bind (yields_any _) fun monotonic _ =>
    yields_bind (yields_any _) fun _ _ => ?_
  refine yields_bind (yields_attempt (op.yields_singleAttempt env attempt)) ?_
  intro r plain
  cases r with
  | error e =>
    refine yields_bind (yields_any _) fun planned _ => yields_bind (yields_any _) fun _ _ => ?_
    split
    · exact yields_bind (yields_any _) fun _ _ => yields_pure trivial
    · split
      · exact op.yields_runFallback env started _ _
      · exact op.yields_fail env _ _ _ _ _ _
  | ok value =>
    have marked : Plain (primarySuccessMetadata value.2) :=
      plain_update (plain_ofPairs (by decide)) (plain value rfl)
    exact yields_bind (yields_any _) fun _ _ => yields_bind (yields_any _) fun _ _ =>
      yields_bind (yields_any _) fun _ _ => yields_bind (yields_any _) fun _ _ =>
      op.yields_succeed env _ _ _ marked

theorem yields_runAttempts (started : Started) (remaining attempt : ℕ) (progress : Progress) :
    Yields (op.runAttempts env started remaining attempt progress) Reported := by
  induction remaining generalizing attempt progress with
  | zero => exact yields_raise
  | succ remaining ih =>
    refine yields_bind (op.yields_runAttempt env started attempt progress) ?_
    intro pass reported
    cases pass with
    | again progress => exact ih (attempt + 1) progress
    | returned r => exact yields_pure reported

theorem yields_run : Yields (op.runWithoutIdempotency env) Reported :=
  yields_bind (yields_any _) fun _ _ => yields_bind (yields_any _) fun _ _ =>
    yields_bind (yields_any _) fun _ _ => op.yields_runAttempts env _ _ _ _

end AsyncOperation

/-! The result with the idempotency keys. -/

/-- A result with a report that its constructor accepted can be given the idempotency
    keys; they come on top of the report, which keeps everything else. -/
theorem idempotency_metadata_added {r : IdempotencyResult (OperationResult V)}
    (h : Reported r.value) : ∃ result,
      operationResultWithIdempotencyMetadata r = .ok result ∧
      result.value = r.value.value ∧
      result.report = { r.value.report with
        metadata := update r.value.report.metadata (idempotencyMetadata r) } := by
  obtain ⟨⟨draft, accepted⟩, _⟩ := h
  obtain ⟨same, finite, again⟩ := report_new_inv accepted
  rw [← same] at finite again
  have added := again (update r.value.report.metadata (idempotencyMetadata r))
    (finite_update finite (finite_ofPairs (by simp)))
  refine ⟨⟨r.value.value, { r.value.report with
    metadata := update r.value.report.metadata (idempotencyMetadata r) }⟩, ?_, rfl, rfl⟩
  simp only [operationResultWithIdempotencyMetadata, added, bind, Except.bind]
  rfl

end Relprim
