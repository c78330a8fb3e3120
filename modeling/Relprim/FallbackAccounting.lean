import Relprim.EventGrammar

/-!
What the fallback attempt says about its candidates: the count of failures in its
metadata and the `validation.failed` events, against the candidates that were called.
-/
namespace Relprim
open Dictionary Fallible

structure CandidateCall (V : Type) where
  candidate : FallbackCandidate (Except Exc V)
  index : ℕ
  failure : Option Exc

def failuresOf {V : Type} (calls : List (CandidateCall V)) : List Exc :=
  calls.filterMap CandidateCall.failure

/-- A failure that is a ValidationFailedError, under the name of its candidate. -/
def announced (name : String) (e : Exc) : Option (String × ValidationFields) :=
  e.fields.validation.map fun failed => (name, failed)

namespace AsyncOperation
variable {V : Type} (op : AsyncOperation V)

/-- The calls of a chain from the candidate at `index` on: up to the first that succeeds, or
    whose failure does not match. -/
def callsMade (p : FallbackPolicy) :
    List (FallbackCandidate (Except Exc V)) → ℕ → List (CandidateCall V)
  | [], _ => []
  | candidate :: rest, index =>
    match op.checked candidate.operation (.candidate index) with
    | .ok _ => [⟨candidate, index, none⟩]
    | .error e => ⟨candidate, index, some e⟩ ::
        if p.shouldFallback e then callsMade p rest (index + 1) else []

/-- How the validation policy rejected the value of the candidate at `index`, if it did. -/
def rejection (index : ℕ) (candidate : FallbackCandidate (Except Exc V)) :
    Option ValidationFields :=
  match candidate.operation, op.validationPolicy with
  | .ok value, some policy =>
    match policy.validate (.candidate index) value with
    | .ok result => if result.valid then none else (validationError result).fields.validation
    | .error _ => none
  | _, _ => none

def rejections (calls : List (CandidateCall V)) : List (String × ValidationFields) :=
  calls.filterMap fun c => (op.rejection c.index c.candidate).map fun failed => (c.candidate.name, failed)

/-- Every failure matches `fallback_on`, and a ValidationFailedError is a rejection by the
    validation policy; or a nested chain's FallbackChainError, which does not match, carries
    as many failures as candidates have failed, and those of them that are
    ValidationFailedErrors tell of just the rejected candidates. -/
inductive Accountable (chain : FallbackChain (Except Exc V)) (calls : List (CandidateCall V)) : Prop where
  | matched (matched : ∀ e ∈ failuresOf calls, chain.policy.shouldFallback e = true)
      (own : ∀ c ∈ calls, ∀ e, c.failure = some e → e.fields.validation.isSome = true →
        (op.rejection c.index c.candidate).isSome = true) : Accountable chain calls
  | nested {x : Exc} {failures : List Exc} (member : x ∈ failuresOf calls)
      (unmatched : chain.policy.shouldFallback x = false) (carried : x.fields.failures = some failures)
      (count : failures.length = (failuresOf calls).length)
      (same : (chain.candidates.zip failures).filterMap (fun p => announced p.1.name p.2) =
        op.rejections calls) : Accountable chain calls

/-- Every failure matches `fallback_on`; or a nested chain's FallbackChainError, which does not
    match, carries as many failures as candidates have failed. -/
inductive Tallied (chain : FallbackChain (Except Exc V)) (calls : List (CandidateCall V)) : Prop where
  | matched (matched : ∀ e ∈ failuresOf calls, chain.policy.shouldFallback e = true) :
      Tallied chain calls
  | nested {x : Exc} {failures : List Exc} (member : x ∈ failuresOf calls)
      (unmatched : chain.policy.shouldFallback x = false) (carried : x.fields.failures = some failures)
      (count : failures.length = (failuresOf calls).length) : Tallied chain calls

inductive ChainShape (p : FallbackPolicy) (earlier failures : List Exc) :
    Except Exc (FallbackResult (V × Metadata)) → Prop where
  | succeeded {result : FallbackResult (V × Metadata)} (all : result.failures = earlier ++ failures)
      (matched : ∀ e ∈ failures, p.shouldFallback e = true) : ChainShape p earlier failures (.ok result)
  | exhausted {x : Exc} (all : x.fields.failures = some (earlier ++ failures))
      (matched : ∀ e ∈ failures, p.shouldFallback e = true) : ChainShape p earlier failures (.error x)
  | stopped {x : Exc} {front : List Exc} (last : failures = front ++ [x])
      (matched : ∀ e ∈ front, p.shouldFallback e = true) (unmatched : p.shouldFallback x = false) :
      ChainShape p earlier failures (.error x)

variable {op}

theorem rejection_failure {index : ℕ} {candidate : FallbackCandidate (Except Exc V)}
    {failed : ValidationFields} (h : op.rejection index candidate = some failed) :
    ∃ e, op.checked candidate.operation (.candidate index) = .error e ∧
      e.fields.validation = some failed := by
  unfold rejection at h
  cases returned : candidate.operation with
  | error e => simp [returned] at h
  | ok value =>
    cases configured : op.validationPolicy with
    | none => simp [returned, configured] at h
    | some policy =>
      cases result : policy.validate (.candidate index) value with
      | error e => simp [returned, configured, result] at h
      | ok result' =>
        cases valid : result'.valid with
        | true => simp [returned, configured, result, valid] at h
        | false =>
          simp only [returned, configured, result, valid] at h
          refine ⟨validationError result', ?_, h⟩
          simp [checked, validateValue, configured, result, valid, validationError,
            validationFailedError, bind, Except.bind, throw, throwThe, MonadExceptOf.throw]

theorem chainFrom_shape (p : FallbackPolicy) (count : ℕ)
    (candidates : List (FallbackCandidate (Except Exc V))) (index : ℕ) (earlier : List Exc) :
    ChainShape p earlier (failuresOf (op.callsMade p candidates index))
      (op.chainFrom p count candidates index earlier).outcome := by
  induction candidates generalizing index earlier with
  | nil =>
    refine .exhausted ?_ (by simp [failuresOf, callsMade])
    change some earlier = some (earlier ++ [])
    rw [List.append_nil]
  | cons candidate rest ih =>
    unfold callsMade chainFrom
    cases out : op.checked candidate.operation (.candidate index) with
    | ok value => exact .succeeded (by simp [failuresOf]) (by simp [failuresOf])
    | error e =>
      cases here : p.shouldFallback e with
      | false =>
        simp only [here, Bool.not_false, if_true, Bool.false_eq_true, if_false]
        have last : failuresOf [(⟨candidate, index, some e⟩ : CandidateCall V)] = [] ++ [e] := rfl
        exact .stopped last (by simp) here
      | true =>
        have later := ih (index + 1) (earlier ++ [e])
        simp only [here, Bool.not_true, Bool.false_eq_true, if_false, if_true]
        have failures : failuresOf (⟨candidate, index, some e⟩ :: op.callsMade p rest (index + 1)) =
            e :: failuresOf (op.callsMade p rest (index + 1)) := rfl
        rw [failures]
        generalize failuresOf (op.callsMade p rest (index + 1)) = more at later ⊢
        generalize (op.chainFrom p count rest (index + 1) (earlier ++ [e])).outcome = outcome
          at later ⊢
        cases later with
        | succeeded all matched =>
          exact .succeeded (by simpa using all) (by simpa [here] using matched)
        | exhausted all matched =>
          exact .exhausted (by simpa using all) (by simpa [here] using matched)
        | @stopped x front last matched unmatched =>
          have extended : e :: more = (e :: front) ++ [x] := by rw [last, List.cons_append]
          exact .stopped extended (by simpa [here] using matched) unmatched

/-- The failures of a chain belong to its first candidates. -/
theorem zip_failures (p : FallbackPolicy) (candidates : List (FallbackCandidate (Except Exc V)))
    (index : ℕ) :
    (candidates.zip (failuresOf (op.callsMade p candidates index))).filterMap
        (fun pair => announced pair.1.name pair.2) =
      (op.callsMade p candidates index).filterMap fun c =>
        c.failure.bind (announced c.candidate.name) := by
  induction candidates generalizing index with
  | nil => rfl
  | cons candidate rest ih =>
    unfold callsMade
    cases out : op.checked candidate.operation (.candidate index) with
    | ok value => rfl
    | error e =>
      have later := ih (index + 1)
      cases here : p.shouldFallback e with
      | true =>
        simp only [here, failuresOf, List.filterMap_cons, List.zip_cons_cons, Option.bind_some,
          if_true] at later ⊢
        rw [later]
      | false => simp [here, failuresOf, List.filterMap_cons]

def reportedFailures : Except Exc (FallbackResult (V × Metadata)) → ℕ
  | .ok result => result.failures.length
  | .error x => (x.fields.failures.map List.length).getD 0

def rejectedPayload (attempt : ℕ) (r : String × ValidationFields) : EventPayload :=
  fallbackValidationFailedPayload attempt r.2 (some r.1)

def chainAnnounced (chain : FallbackChain (Except Exc V)) (attempt : ℕ) :
    Except Exc (FallbackResult (V × Metadata)) → List EventPayload
  | .ok result => ((chain.candidates.zip result.failures).filterMap fun p =>
      announced p.1.name p.2).map (rejectedPayload attempt)
  | .error x =>
    match x.fields.failures, x.fields.validation with
    | some failures, _ => ((chain.candidates.zip failures).filterMap fun p =>
        announced p.1.name p.2).map (rejectedPayload attempt)
    | none, some failed => [fallbackValidationFailedPayload attempt failed none]
    | none, none => []

theorem rejectedPayload_inj (attempt : ℕ) : Function.Injective (rejectedPayload attempt) := by
  rintro ⟨name, validator, reason⟩ ⟨name', validator', reason'⟩ same
  have key (k : String) := congrArg (AList.lookup k) same
  have named := key "fallback_candidate_name"
  have validated := key "validator_name"
  have reasoned := key "reason"
  simp [rejectedPayload, fallbackValidationFailedPayload, lookup_ofPairs, List.lookup_cons,
    JsonScalar.ofOption] at named validated reasoned
  rw [named, validated, reasoned]

theorem call_failure {p : FallbackPolicy} {candidates : List (FallbackCandidate (Except Exc V))}
    {index : ℕ} {c : CandidateCall V} (h : c ∈ op.callsMade p candidates index) {e : Exc}
    (failed : op.checked c.candidate.operation (.candidate c.index) = .error e) :
    c.failure = some e := by
  induction candidates generalizing index with
  | nil => cases h
  | cons candidate rest ih =>
    unfold callsMade at h
    cases out : op.checked candidate.operation (.candidate index) with
    | ok value =>
      simp only [out, List.mem_singleton] at h
      subst h
      cases out.symm.trans failed
    | error x =>
      simp only [out] at h
      rcases List.mem_cons.mp h with rfl | later
      · cases out.symm.trans failed
        rfl
      · split at later
        · exact ih later
        · cases later

/-- The failures of the calls and the rejections agree where every ValidationFailedError is
    a rejection. -/
theorem announced_iff_own (p : FallbackPolicy)
    (candidates : List (FallbackCandidate (Except Exc V)))
    (index : ℕ) :
    ((op.callsMade p candidates index).filterMap fun c =>
        c.failure.bind (announced c.candidate.name)) = op.rejections (op.callsMade p candidates index) ↔
      ∀ c ∈ op.callsMade p candidates index, ∀ e, c.failure = some e →
        e.fields.validation.isSome = true → (op.rejection c.index c.candidate).isSome = true := by
  rw [rejections, filterMap_eq_iff]
  · constructor
    · intro same c member e failed validated
      have here := same c member
      obtain ⟨fields, found⟩ := Option.isSome_iff_exists.mp validated
      cases rejected : op.rejection c.index c.candidate with
      | some _ => rfl
      | none => simp [failed, announced, found, rejected] at here
    · intro own c member
      cases rejected : op.rejection c.index c.candidate with
      | some fields =>
        obtain ⟨e, checked, found⟩ := rejection_failure rejected
        simp [call_failure member checked, announced, found]
      | none =>
        cases failed : c.failure with
        | none => rfl
        | some e =>
          cases found : e.fields.validation with
          | none => simp [announced, found]
          | some fields =>
            have rejection := own c member e failed (by rw [found]; rfl)
            rw [rejected] at rejection
            cases rejection
  · intro c member pair selected
    obtain ⟨fields, rejected, rfl⟩ := Option.map_eq_some_iff.mp selected
    obtain ⟨e, checked, found⟩ := rejection_failure rejected
    simp [call_failure member checked, announced, found]

theorem unmatched_last {p : FallbackPolicy} {front : List Exc} {x y : Exc}
    (matched : ∀ e ∈ front, p.shouldFallback e = true) (member : y ∈ front ++ [x])
    (unmatched : p.shouldFallback y = false) : y = x := by
  rcases List.mem_append.mp member with earlier | final
  · rw [matched y earlier] at unmatched
    cases unmatched
  · exact List.mem_singleton.mp final

theorem chain_tallied_iff (chain : FallbackChain (Except Exc V)) :
    reportedFailures (op.chainResult chain).outcome =
        (failuresOf (op.callsMade chain.policy chain.candidates 0)).length ↔
      Tallied chain (op.callsMade chain.policy chain.candidates 0) := by
  have shape := op.chainFrom_shape chain.policy chain.candidates.length chain.candidates 0 []
  change ChainShape chain.policy [] _ (op.chainResult chain).outcome at shape
  generalize op.callsMade chain.policy chain.candidates 0 = calls at shape ⊢
  generalize (op.chainResult chain).outcome = outcome at shape ⊢
  cases shape with
  | succeeded all matched =>
    exact ⟨fun _ => .matched matched, fun _ => by simp only [reportedFailures, all, List.nil_append]⟩
  | exhausted all matched =>
    refine ⟨fun _ => .matched matched, fun _ => ?_⟩
    simp only [reportedFailures, all, List.nil_append, Option.map_some, Option.getD_some]
  | @stopped x front last matched unmatched =>
    have member : x ∈ failuresOf calls := by simp [last]
    constructor
    · intro count
      cases carried : x.fields.failures with
      | none => simp [reportedFailures, carried, last] at count
      | some failures =>
        simp only [reportedFailures, carried, Option.map_some, Option.getD_some] at count
        exact .nested member unmatched carried count
    · intro tallied
      cases tallied with
      | matched all =>
        rw [all x member] at unmatched
        cases unmatched
      | @nested y failures member' unmatched' carried count =>
        obtain rfl := unmatched_last matched (last ▸ member') unmatched'
        simp only [reportedFailures, carried, Option.map_some, Option.getD_some]
        exact count

/-- What a chain that ended is said to have done is what its candidates did, if and only if
    its failures are accountable. -/
theorem chain_accounted_iff (chain : FallbackChain (Except Exc V)) (attempt : ℕ) :
    (reportedFailures (op.chainResult chain).outcome =
        (failuresOf (op.callsMade chain.policy chain.candidates 0)).length ∧
      chainAnnounced chain attempt (op.chainResult chain).outcome =
        (op.rejections (op.callsMade chain.policy chain.candidates 0)).map (rejectedPayload attempt)) ↔
      op.Accountable chain (op.callsMade chain.policy chain.candidates 0) := by
  have shape := op.chainFrom_shape chain.policy chain.candidates.length chain.candidates 0 []
  change ChainShape chain.policy [] _ (op.chainResult chain).outcome at shape
  have zipped := op.zip_failures chain.policy chain.candidates 0
  have own := op.announced_iff_own chain.policy chain.candidates 0
  generalize op.callsMade chain.policy chain.candidates 0 = calls at shape zipped own ⊢
  generalize (op.chainResult chain).outcome = outcome at shape ⊢
  have whole (failures : List Exc) (all : failures = [] ++ failuresOf calls)
      (matched : ∀ e ∈ failuresOf calls, chain.policy.shouldFallback e = true) :
      (failures.length = (failuresOf calls).length ∧
        ((chain.candidates.zip failures).filterMap fun p => announced p.1.name p.2).map
          (rejectedPayload attempt) = (op.rejections calls).map (rejectedPayload attempt)) ↔
      op.Accountable chain calls := by
    rw [all, List.nil_append, zipped, (List.map_injective_iff.mpr (rejectedPayload_inj attempt)).eq_iff,
      own]
    constructor
    · exact fun facts => .matched matched facts.2
    · intro accountable
      cases accountable with
      | matched _ own => exact ⟨rfl, own⟩
      | nested member unmatched =>
        rw [matched _ member] at unmatched
        cases unmatched
  cases shape with
  | succeeded all matched => exact whole _ all matched
  | @exhausted x all matched =>
    have carried := whole _ rfl matched
    simp only [reportedFailures, chainAnnounced, all]
    exact carried
  | @stopped x front last matched unmatched =>
    have member : x ∈ failuresOf calls := by simp [last]
    constructor
    · rintro ⟨count, events⟩
      cases carried : x.fields.failures with
      | none =>
        simp [reportedFailures, carried, last] at count
      | some failures =>
        simp only [reportedFailures, chainAnnounced, carried, Option.map_some, Option.getD_some] at count events
        exact .nested member unmatched carried count
          ((List.map_injective_iff.mpr (rejectedPayload_inj attempt)) events)
    · intro accountable
      cases accountable with
      | matched all =>
        rw [all x member] at unmatched
        cases unmatched
      | @nested y failures member' unmatched' carried count same =>
        obtain rfl := unmatched_last matched (last ▸ member') unmatched'
        simp only [reportedFailures, chainAnnounced, carried, Option.map_some, Option.getD_some]
        exact ⟨count, congrArg _ same⟩

/-! The events and the metadata of a run. -/

/-- The payloads of the `validation.failed` events between the start and the end of the
    fallback. -/
def fallbackRejected (events : List (EventType × EventPayload)) : List EventPayload :=
  (((events.dropWhile fun e => e.1 ≠ .fallbackStarted).takeWhile fun e =>
    e.1 ≠ .fallbackSucceeded && e.1 ≠ .fallbackFailed).filter fun e =>
      e.1 = .validationFailed).map Prod.snd

def candidatesCalled (es : List Effect) : List ℕ :=
  es.filterMap fun
    | .candidate i => some i
    | _ => none

theorem candidatesCalled_append (es ds : List Effect) :
    candidatesCalled (es ++ ds) = candidatesCalled es ++ candidatesCalled ds :=
  List.filterMap_append

theorem candidatesCalled_callsOf (es : List Effect) :
    candidatesCalled (callsOf es) = candidatesCalled es := by
  induction es with
  | nil => rfl
  | cons e es ih =>
    have split (ds : List Effect) : candidatesCalled (e :: ds) =
        candidatesCalled [e] ++ candidatesCalled ds := candidatesCalled_append [e] ds
    cases e with
    | deliver sink event =>
      rw [split, ← ih]
      rfl
    | _ =>
      rw [split, ← ih, ← split]
      rfl

theorem chainFrom_called (p : FallbackPolicy) (count : ℕ)
    (candidates : List (FallbackCandidate (Except Exc V))) (index : ℕ) (earlier : List Exc) :
    (op.callsMade p candidates index).map CandidateCall.index =
      List.range' index (op.chainFrom p count candidates index earlier).called := by
  induction candidates generalizing index earlier with
  | nil => rfl
  | cons candidate rest ih =>
    unfold callsMade chainFrom
    cases out : op.checked candidate.operation (.candidate index) with
    | ok value => rfl
    | error e =>
      cases here : p.shouldFallback e with
      | false =>
        simp only [here, Bool.not_false, if_true, Bool.false_eq_true, if_false]
        rfl
      | true =>
        simp only [here, Bool.not_true, Bool.false_eq_true, if_false, if_true, List.map_cons,
          List.range'_succ]
        rw [ih (index + 1) (earlier ++ [e])]

structure BeforeFallback (items : List Item) : Prop where
  emits : ∀ e ∈ emissions items, e.1 ≠ .fallbackStarted
  calls : candidatesCalled (calls items) = []

theorem before_append {items jtems : List Item} (first : BeforeFallback items)
    (second : BeforeFallback jtems) : BeforeFallback (items ++ jtems) := by
  constructor
  · intro e member
    rw [emissions_append] at member
    exact (List.mem_append.mp member).elim (first.emits e) (second.emits e)
  · rw [calls_append, candidatesCalled_append, first.calls, second.calls]
    rfl

theorem before_nil : BeforeFallback [] := ⟨by simp, rfl⟩

theorem before_emit {type : EventType} (other : type ≠ .fallbackStarted) (payload : EventPayload) :
    BeforeFallback [.emit type payload] :=
  ⟨by simpa using other, rfl⟩

theorem before_attempt (op : AsyncOperation V) (env : Environment) (i : ℕ) (b : BreakerState) :
    BeforeFallback (op.attemptItems env i b) := by
  apply before_append (before_emit (by simp) (op.attemptStartedPayload i))
  split
  · exact ⟨by simp, rfl⟩
  · exact before_nil

theorem before_failure (op : AsyncOperation V) (i : ℕ) (duration : ℚ) (e : Exc) (plan : RetryPlan) :
    BeforeFallback (op.failureItems i duration e plan) := by
  have exceeded : BeforeFallback (op.waitExceededItems i plan) := by
    unfold waitExceededItems
    split
    · exact before_emit (by simp) _
    · exact before_nil
  have limited : BeforeFallback (op.rateLimitItems i e plan) := by
    unfold rateLimitItems
    split
    · exact before_append (before_emit (by simp) (op.rateLimitDetectedPayload i e plan)) exceeded
    · exact before_nil
  have validated : BeforeFallback (validationFailedItems i e) := by
    unfold validationFailedItems
    split
    · exact before_nil
    · exact before_emit (by simp) _
  have rejected : BeforeFallback (breakerItems i e) := by
    unfold breakerItems
    split
    · exact before_nil
    · exact before_emit (by simp) _
  exact before_append limited (before_append validated
    (before_append rejected (before_emit (by simp) _)))

theorem before_sleep (i : ℕ) (plan : RetryPlan) (d : PyNumber) :
    BeforeFallback (sleepItems i plan d) :=
  ⟨by simp [sleepItems], rfl⟩

theorem fallbackRejected_before {items jtems : List Item} (h : BeforeFallback items) :
    fallbackRejected (emissions (items ++ jtems)) = fallbackRejected (emissions jtems) := by
  have skipped : (emissions items ++ emissions jtems).dropWhile (fun e => e.1 ≠ .fallbackStarted) =
      (emissions jtems).dropWhile fun e => e.1 ≠ .fallbackStarted := by
    rw [List.dropWhile_append_of_pos]
    simpa using h.emits
  rw [emissions_append, fallbackRejected, skipped]
  rfl

theorem fallbackRejected_block (payload : EventPayload) (rejected : List EventPayload)
    {others tail : List (EventType × EventPayload)} {last : EventType × EventPayload}
    (other : ∀ e ∈ others, e.1 = .validationSucceeded)
    (ends : last.1 = .fallbackSucceeded ∨ last.1 = .fallbackFailed) :
    fallbackRejected ((.fallbackStarted, payload) ::
      (rejected.map (fun p => (.validationFailed, p)) ++ (others ++ last :: tail))) = rejected := by
  have stop : (last :: tail).takeWhile (fun e => e.1 ≠ .fallbackSucceeded && e.1 ≠ .fallbackFailed) =
      [] := by
    apply List.takeWhile_cons_of_neg
    rcases ends with h | h <;> simp [h]
  have rest : (others ++ last :: tail).takeWhile
      (fun e => e.1 ≠ .fallbackSucceeded && e.1 ≠ .fallbackFailed) = others := by
    rw [List.takeWhile_append_of_pos, stop, List.append_nil]
    intro e member
    simp [other e member]
  have quiet : others.filter (fun e => decide (e.1 = .validationFailed)) = [] := by
    rw [List.filter_eq_nil_iff]
    intro e member
    simp [other e member]
  simp only [fallbackRejected]
  rw [List.dropWhile_cons_of_neg (by simp), List.takeWhile_cons_of_pos (by simp),
    List.takeWhile_append_of_pos (by simp), rest]
  simp [List.filter_append, quiet, List.filter_map, Function.comp_def]

theorem emissions_candidates (attempt : ℕ)
    (pairs : List (FallbackCandidate (Except Exc V) × Exc)) :
    emissions (candidateValidationItems attempt pairs) =
      ((pairs.filterMap fun p => announced p.1.name p.2).map (rejectedPayload attempt)).map
        fun p => (.validationFailed, p) := by
  induction pairs with
  | nil => rfl
  | cons pair rest ih =>
    obtain ⟨candidate, failure⟩ := pair
    unfold candidateValidationItems
    rw [emissions_append, ih]
    cases found : failure.fields.validation with
    | none => simp [announced, found]
    | some failed => simp [announced, found, rejectedPayload]

theorem emissions_chain (chain : FallbackChain (Except Exc V)) (attempt : ℕ) (x : Exc) :
    emissions (chainValidationItems chain attempt x) =
      (chainAnnounced (V := V) chain attempt (.error x)).map fun p => (.validationFailed, p) := by
  unfold chainValidationItems
  simp only [chainAnnounced]
  cases carried : x.fields.failures with
  | some failures =>
    simp only
    exact emissions_candidates attempt _
  | none => cases found : x.fields.validation <;> simp

/-! The fallback attempt of a run. -/

theorem count_success {result : FallbackResult (V × Metadata)}
    {chain : FallbackChain (Except Exc V)}
    (out : (op.chainResult chain).outcome = .ok result) :
    (fallbackSuccessMetadata result result.value.2).lookup "fallback_failure_count" =
      some (.int result.failures.length) := by
  obtain ⟨_, _, checked⟩ := chainFrom_checked out
  have unset : result.value.2.lookup "fallback_failure_count" = none := by
    rcases op.checked_metadata checked with same | ⟨validated, same⟩ <;> rw [same]
    · simp [noValidationMetadata, lookup_ofPairs, List.lookup_cons]
    · simp [validationSuccessMetadata, lookup_ofPairs, List.lookup_cons]
  rw [fallbackSuccessMetadata, lookup_update, unset]
  simp [lookup_ofPairs, List.lookup_cons, FallbackResult.failureCount]

theorem count_failure (x : Exc) :
    (fallbackFailureMetadata x).lookup "fallback_failure_count" =
      some (.int ((x.fields.failures.map List.length).getD 0)) := by
  have unset (m : Metadata) (h : m.lookup "fallback_failure_count" = none) (ps : Metadata) :
      (update ps m).lookup "fallback_failure_count" = ps.lookup "fallback_failure_count" := by
    rw [lookup_update, h, Option.none_or]
  unfold fallbackFailureMetadata
  cases carried : x.fields.failures <;> simp only <;> split <;>
    rw [unset _ (by simp [validationFailureMetadata, noValidationMetadata, lookup_ofPairs,
      List.lookup_cons])] <;> simp [lookup_ofPairs, List.lookup_cons]

structure Accounts (op : AsyncOperation V) (chain : FallbackChain (Except Exc V))
    (items : List Item)
    (report : ExecutionReport) (attempt : ExecutionAttempt) : Prop where
  configured : op.fallbackChain = some chain
  count : attempt.metadata.lookup "fallback_failure_count" =
    some (.int (reportedFailures (op.chainResult chain).outcome))
  events : fallbackRejected (emissions items) =
    chainAnnounced chain report.attempts.length (op.chainResult chain).outcome
  called : candidatesCalled (calls items) =
    (op.callsMade chain.policy chain.candidates 0).map CandidateCall.index

theorem accounts_before {chain : FallbackChain (Except Exc V)} {items jtems : List Item}
    {report : ExecutionReport} {attempt : ExecutionAttempt} (before : BeforeFallback items)
    (h : op.Accounts chain jtems report attempt) : op.Accounts chain (items ++ jtems) report attempt where
  configured := h.configured
  count := h.count
  events := (fallbackRejected_before before).trans h.events
  called := by
    rw [calls_append, candidatesCalled_append, before.calls, List.nil_append]
    exact h.called

variable {env : Environment} {started : Started}

theorem emissions_validated (m : Metadata) (payload : EventPayload) :
    ∀ e ∈ emissions (validationSucceededItems m payload), e.1 = .validationSucceeded := by
  unfold validationSucceededItems
  split <;> simp

theorem closes_accounts {i : ℕ} (pos : 1 ≤ i) {b : BreakerState} {p : Progress} {t : Tally}
    (looping : Looping i p t) {r : Except Raised (OperationResult V)} {items : List Item}
    (closes : op.Closes env started i b p r items) {report : ExecutionReport}
    (found : reportOf r = some report) {attempt : ExecutionAttempt} (member : attempt ∈ report.attempts)
    (fallback : attempt.fallback = true) : ∃ chain, op.Accounts chain items report attempt := by
  have primary (at_ : DateTime) (duration : ℚ) (e : Exc) (plan : RetryPlan)
      (member : attempt ∈ (p.failed i at_ duration e plan).attempts) : False := by
    have failed := failed_failed looping.failed i at_ duration e plan attempt member
    rw [failed.1] at fallback
    cases fallback
  have last_number {at_ : DateTime} {duration : ℚ} {e : Exc} {plan : RetryPlan} {k : ℕ}
      (numbered : k = (p.failed i at_ duration e plan).attempts.length + 1)
      {record : ExecutionAttempt} {total : ℚ} {status : ExecutionStatus} {metadata : Metadata} :
      (op.reportDraft started.at_ total status ((p.failed i at_ duration e plan).record record)
        metadata).attempts.length = k := by
    simp [reportDraft, Progress.record, numbered]
  have called (chain : FallbackChain (Except Exc V)) :
      candidatesCalled ((List.range (op.chainResult chain).called).map .candidate) =
        (op.callsMade chain.policy chain.candidates 0).map CandidateCall.index := by
    rw [op.chainFrom_called chain.policy chain.candidates.length chain.candidates 0 [],
      ← List.range_eq_range']
    simp [candidatesCalled, List.filterMap_map, chainResult]
  cases closes with
  | succeeded verdict at_ duration total reported =>
    cases found
    subst reported
    rcases List.mem_append.mp member with earlier | last
    · rw [(looping.failed attempt earlier).1] at fallback
      cases fallback
    · rw [List.mem_singleton.mp last] at fallback
      cases fallback
  | failed verdict final unmatched at_ duration total message reported =>
    cases found
    subst reported
    exact (primary at_ duration _ _ member).elim
  | @fellBack e plan verdict final chain matched result out k at_ duration numbered at_' duration'
      total report' reported =>
    cases found
    subst reported
    rcases List.mem_append.mp member with earlier | last
    · exact (primary at_ duration _ _ earlier).elim
    · rw [List.mem_singleton.mp last]
      refine ⟨chain, accounts_before (before_failure op i duration e plan) ⟨?_, ?_, ?_, ?_⟩⟩
      · exact (Option.filter_eq_some_iff.mp matched).1
      · rw [out]
        exact count_success out
      · rw [out, last_number numbered, emissions_append, emissions_append, emissions_fallback,
          fallbackSuccessItems, emissions_append, emissions_append,
          emissions_candidates, List.append_assoc, List.append_assoc]
        exact fallbackRejected_block _ _ (emissions_validated _ _) (.inl rfl)
      · simp [calls_append, called, fallbackSuccessItems]
  | @fallbackFailed e plan verdict final chain matched x out k at_ duration numbered at_' duration'
      total message report' reported =>
    cases found
    subst reported
    rcases List.mem_append.mp member with earlier | last
    · exact (primary at_ duration _ _ earlier).elim
    · rw [List.mem_singleton.mp last]
      refine ⟨chain, accounts_before (before_failure op i duration e plan) ⟨?_, ?_, ?_, ?_⟩⟩
      · exact (Option.filter_eq_some_iff.mp matched).1
      · rw [out]
        exact count_failure x
      · rw [out, last_number numbered, emissions_append, emissions_append, emissions_fallback,
          fallbackFailureItems, emissions_append, emissions_chain,
          List.append_assoc]
        exact @fallbackRejected_block _ _ [] _ (.fallbackFailed, _) (List.forall_mem_nil _) (.inr rfl)
      · simp [calls_append, called, fallbackFailureItems]
  | refused verdict => cases found
  | escaped verdict =>
    rw [escape_unreported pos verdict] at found
    cases found

theorem transcript_accounts {i : ℕ} (pos : 1 ≤ i) {b : BreakerState} {p : Progress} {t : Tally}
    (looping : Looping i p t) {r : Except Raised (OperationResult V)} {items : List Item}
    (run : op.Transcript env started i b p r items) {report : ExecutionReport}
    (found : reportOf r = some report) {attempt : ExecutionAttempt} (member : attempt ∈ report.attempts)
    (fallback : attempt.fallback = true) : ∃ chain, op.Accounts chain items report attempt := by
  induction run generalizing t with
  | @closes i b p r items closes =>
    obtain ⟨chain, accounts⟩ := closes_accounts pos looping closes found member fallback
    exact ⟨chain, accounts_before (before_attempt op env i b) accounts⟩
  | @retries i b p q d r items rest retries run ih =>
    obtain ⟨chain, accounts⟩ := ih (Nat.le_add_left 1 i) (looping_retries looping retries) found
    cases retries with
    | @intro e plan _ verdict again delay left at_ duration =>
      have before := before_append (before_failure op i duration e plan) (before_sleep i plan d)
      exact ⟨chain, accounts_before (before_attempt op env i b) (accounts_before before accounts)⟩

end AsyncOperation

/-- The candidates called are those of the chain up to its end. The count in the metadata of
    the fallback attempt is that of the candidates that were called and failed if and only if
    they are tallied. Where the operation has a sink, the count is this and the
    `validation.failed` events of the fallback, in every sink, name just the candidates whose
    values were rejected, in order, if and only if the failures are accountable. -/
theorem fallback_accounted_iff {V : Type} (op : AsyncOperation V) (env : Environment) (s : Session)
    (aware : AwareTimestamps op)
    {chain : FallbackChain (Except Exc V)} (configured : op.fallbackChain = some chain)
    {report : ExecutionReport} (found : reportOf (op.outcome env none s) = some report)
    {attempt : ExecutionAttempt} (member : attempt ∈ report.attempts) (fallback : attempt.fallback = true) :
    AsyncOperation.candidatesCalled (op.trace env none s) =
        (op.callsMade chain.policy chain.candidates 0).map CandidateCall.index ∧
    (attempt.metadata.lookup "fallback_failure_count" =
        some (.int (failuresOf (op.callsMade chain.policy chain.candidates 0)).length) ↔
      AsyncOperation.Tallied chain (op.callsMade chain.policy chain.candidates 0)) ∧
    (0 < op.sinkCount → ((attempt.metadata.lookup "fallback_failure_count" =
        some (.int (failuresOf (op.callsMade chain.policy chain.candidates 0)).length) ∧
      ∀ j < op.sinkCount, AsyncOperation.fallbackRejected (op.published env s j) =
        (op.rejections (op.callsMade chain.policy chain.candidates 0)).map
          (AsyncOperation.rejectedPayload report.attempts.length)) ↔
      op.Accountable chain (op.callsMade chain.policy chain.candidates 0))) := by
  obtain ⟨started, rest, run, expands⟩ := AsyncOperation.run_transcript aware env s
  obtain ⟨chain', accounts⟩ := AsyncOperation.transcript_accounts (Nat.le_refl 1)
    (looping_start op.operationStartedPayload) run found member fallback
  have same := accounts.configured
  rw [configured] at same
  cases same
  have published (j : ℕ) (sink : j < op.sinkCount) :
      AsyncOperation.fallbackRejected (op.published env s j) =
        AsyncOperation.chainAnnounced chain report.attempts.length (op.chainResult chain).outcome := by
    rw [AsyncOperation.published, expands_delivered expands sink, ← accounts.events]
    exact AsyncOperation.fallbackRejected_before
      (AsyncOperation.before_emit (by simp) op.operationStartedPayload)
  have counted (n : ℕ) : attempt.metadata.lookup "fallback_failure_count" = some (.int n) ↔
      AsyncOperation.reportedFailures (op.chainResult chain).outcome = n := by
    rw [accounts.count]
    simp
  refine ⟨?_, ?_, fun watched => ?_⟩
  · rw [← AsyncOperation.candidatesCalled_callsOf, expands_calls expands, ← accounts.called]
    rfl
  · rw [counted, AsyncOperation.chain_tallied_iff]
  rw [← AsyncOperation.chain_accounted_iff chain report.attempts.length, counted]
  refine and_congr_right fun _ => ⟨fun events => ?_, fun events j sink => ?_⟩
  · exact (published 0 watched).symm.trans (events 0 watched)
  · exact (published j sink).trans events

def fallbackAttempts (op : AsyncOperation ℕ) : List ExecutionAttempt :=
  ((reportOf (op.outcome steady none {})).map (·.attempts)).elim [] (·.filter (·.fallback))

def nonzero : Validator ℕ := fun _ value =>
  if value = 0 then .ok { valid := false, validatorName := "nonzero", reason := some "is 0" }
  else .ok { valid := true, validatorName := "nonzero" }

/-- The value of the first candidate is 0, and the second fails. -/
def cacheAndBackup : FallbackChain (Except Exc ℕ) where
  candidates := [
    { name := "cache", operation := .ok 0 },
    { name := "backup", operation := .error (runtimeError "down") }]
  policy := { fallback_ok := exceptions_given }
  candidates_ok := List.cons_ne_nil _ _

def cached : AsyncOperation ℕ := { observed with
  validationPolicy := some ⟨[nonzero], List.cons_ne_nil _ _⟩
  fallbackChain := some cacheAndBackup }

/-- Both failures are counted, and the value of the first candidate was rejected. -/
theorem cached_accounted : ∃ (report : ExecutionReport) (attempt : ExecutionAttempt),
    reportOf (cached.outcome steady none {}) = some report ∧ attempt ∈ report.attempts ∧
      attempt.metadata.lookup "fallback_failure_count" = some (.int 2) ∧
      AsyncOperation.fallbackRejected (cached.published steady {} 0) =
        [AsyncOperation.rejectedPayload report.attempts.length ("cache", ⟨"nonzero", "is 0"⟩)] := by
  have attempted : (fallbackAttempts cached).length = 1 := by decide +kernel
  have aware : AwareTimestamps cached := by
    rintro emitter member n
    cases member
    rfl
  obtain ⟨attempt, only⟩ := List.length_eq_one_iff.mp attempted
  cases found : reportOf (cached.outcome steady none {}) with
  | none =>
    rw [fallbackAttempts, found] at only
    cases only
  | some report =>
    rw [fallbackAttempts, found] at only
    have member : attempt ∈ report.attempts.filter (·.fallback) := by
      change report.attempts.filter (·.fallback) = [attempt] at only
      rw [only]
      exact List.mem_singleton_self attempt
    obtain ⟨member, fallback⟩ := List.mem_filter.mp member
    obtain ⟨_, _, accounted⟩ := fallback_accounted_iff cached steady {} aware
      rfl found member fallback
    obtain ⟨count, events⟩ := (accounted (by decide)).mpr (.matched (by decide) (by
      intro c called e failed validated
      rcases List.mem_cons.mp called with rfl | later
      · rfl
      · cases List.mem_singleton.mp later
        cases failed
        cases validated))
    exact ⟨report, attempt, rfl, member, count, events 0 (by decide)⟩

def runtimeErrors : List ExcClass := [⟨"RuntimeError", "builtins"⟩]

def backup (e : Exc) : FallbackChain (Except Exc ℕ) where
  candidates := [{ name := "backup", operation := .error e }]
  policy := { fallbackOn := runtimeErrors }
  candidates_ok := List.cons_ne_nil _ _

def backedUp (e : Exc) : AsyncOperation ℕ := { observed with fallbackChain := some (backup e) }

/-- A TypeError does not match: the candidate was called and failed, and is not counted. -/
theorem unmatched_failure_uncounted :
    AsyncOperation.candidatesCalled ((backedUp (typeError "unset")).trace steady none {}) = [0] ∧
      failuresOf ((backedUp (typeError "unset")).callsMade (backup (typeError "unset")).policy
        (backup (typeError "unset")).candidates 0) = [typeError "unset"] ∧
      (fallbackAttempts (backedUp (typeError "unset"))).map
        (fun a => a.metadata.lookup "fallback_failure_count") = [some (.int 0)] :=
  ⟨by decide +kernel, rfl, by decide +kernel⟩

end Relprim
