import Relprim.IdempotencyOwners

/-!
What the end of an operation does for its key and for those who joined it:
nobody is stranded, except by an owner that ends with a BaseException which
neither `except` clause of `execute` catches.
-/
namespace Relprim.IdempotencyRuns
open LabelledRuns InMemoryIdempotencyStore Dictionary
variable {Task V : Type}

/-- Each entry is in flight with its owner inside `operation()`, or holds a value and an
    expiry; each pending future that is waited for has an owner inside `operation()`. -/
structure Settled (s : Store Task V) : Prop where
  entry : ∀ k e, s.entries.lookup k = some e →
    (e.expiresAt = none ∧ ∃ c, Executing s e.future c ∧ c.key = k ∧ c.task = e.ownerTask) ∨
    (∃ v t, e.expiresAt = some t ∧ s.futures e.future = .result v)
  waiting : ∀ i c f, Waiting s i c f → s.futures f = .pending →
    ∃ d, Executing s f d ∧ d.key = c.key

section
variable [DecidableEq Task]

def Receives (s : Store Task V) (i : ℕ) (c : Caller Task) : Except Raised V → Prop
  | .ok v => step s (.wake i) = some (leave s i [.returned i ⟨v, c.key, .joined⟩ s.now])
  | .error .cancelled => LooksUp s (.wake i) i c
  | .error x => step s (.wake i) = some (leave s i [.raised i x])

/-- The step that ends an operation frees its key or caches a value under it with an
    expiry, and each caller that joined it receives its outcome whenever it runs again. -/
def Released (s : Store Task V) (l : Label Task V) (t : Store Task V) : Prop :=
  ∀ id o c, l = .finish id o → Executing s id c →
    (t.entries.lookup c.key = none ∨
      ∃ e x v, o = .ok v ∧ t.entries.lookup c.key = some e ∧ e.future = id ∧
        e.expiresAt = some x) ∧
    ∀ ls u i d, run step t ls = some u → Waiting u i d id → Receives u i d o

/-- The operation does not end with a BaseException that is neither an Exception nor
    CancelledError. -/
def Caught (s : Store Task V) : Label Task V → Prop
  | .finish id (.error (.baseException _)) => ∀ c, ¬ Executing s id c
  | _ => True

end

def Owned (s : Store Task V) : Prop :=
  ∀ k e, s.entries.lookup k = some e → e.expiresAt = none → ∃ c, Executing s e.future c

theorem settled_iff_owned {s : Store Task V} (h : Coherent s) : Settled s ↔ Owned s := by
  constructor
  · intro settled k e found unset
    rcases settled.entry k e found with ⟨_, c, executing, _⟩ | ⟨_, t, expires, _⟩
    · exact ⟨c, executing⟩
    · cases unset.symm.trans expires
  · intro owned
    have running (k : String) (e : Entry Task) (found : s.entries.lookup k = some e)
        (unset : e.expiresAt = none) :
        ∃ c, Executing s e.future c ∧ c.key = k ∧ c.task = e.ownerTask := by
      obtain ⟨c, executing⟩ := owned k e found unset
      have stored := (h.owner e.future c executing).1
      have key := h.entry_inj c.key k _ e stored found rfl
      rw [key, found] at stored
      exact ⟨c, executing, key, (congrArg Entry.ownerTask (Option.some.inj stored)).symm⟩
    constructor
    · intro k e found
      rcases h.entry k e found with ⟨unset, _⟩ | completed
      · exact .inl ⟨unset, running k e found unset⟩
      · exact .inr completed
    · intro i c f waiting pending
      obtain ⟨e, found, rfl, _⟩ := h.waiting i c f waiting pending
      rcases h.entry c.key e found with ⟨unset, _⟩ | ⟨v, t, _, result⟩
      · obtain ⟨d, executing, key, _⟩ := running c.key e found unset
        exact ⟨d, executing, key⟩
      · cases pending.symm.trans result

theorem owned_of_kept {s t : Store Task V} (h : Owned s)
    (kept : ∀ k e, t.entries.lookup k = some e → e.expiresAt = none →
      s.entries.lookup k = some e ∧ ∀ c, Executing s e.future c → Executing t e.future c) :
    Owned t := by
  intro k e found unset
  obtain ⟨old, still⟩ := kept k e found unset
  obtain ⟨c, executing⟩ := h k e old unset
  exact ⟨c, still c executing⟩

theorem executing_other {s t : Store Task V} {id i : ℕ} {c : Caller Task}
    {x : Option (Caller Task)} (other : i ≠ id) (h : Executing s i c)
    (callers : t.callers = Function.update s.callers id x) : Executing t i c :=
  ⟨by rw [callers, Function.update_of_ne other]; exact h.1, h.2⟩

theorem owned_of_bystander {s t : Store Task V} {id : ℕ} {x : Option (Caller Task)} (h : Owned s)
    (bystander : ∀ c, ¬ Executing s id c)
    (callers : t.callers = Function.update s.callers id x)
    (entries : ∀ k e, t.entries.lookup k = some e → s.entries.lookup k = some e) : Owned t := by
  refine owned_of_kept h fun k e found _ => ⟨entries k e found, fun c executing => ?_⟩
  have other : e.future ≠ id := fun same => bystander c (same ▸ executing)
  exact executing_other other executing callers

theorem waiting_bystander {s : Store Task V} {id f : ℕ} {c : Caller Task} (h : Waiting s id c f)
    (d : Caller Task) : ¬ Executing s id d := by
  intro executing
  cases h.1.symm.trans executing.1
  cases h.2.symm.trans executing.2

theorem owned_finish {s : Store Task V} (coherent : Coherent s) (h : Owned s) {id : ℕ}
    {c : Caller Task} (executing : Executing s id c) {o : Except Raised V}
    (caught : ∀ x, o ≠ .error (.baseException x)) : Owned (finish s id c o) := by
  obtain ⟨stored, _⟩ := coherent.owner id c executing
  have others (entries : Entries Task) (elsewhere : ∀ k e, entries.lookup k = some e →
      e.expiresAt = none → k ≠ c.key ∧ s.entries.lookup k = some e)
      (same : (finish s id c o).entries = entries) : Owned (finish s id c o) := by
    apply owned_of_kept h
    intro k e found unset
    obtain ⟨other, old⟩ := elsewhere k e (same ▸ found) unset
    refine ⟨old, fun d running => executing_other ?_ running (finish_callers s id c o)⟩
    exact fun eq => other (coherent.entry_inj k c.key e _ old stored eq)
  have erased (same : (finish s id c o).entries = removeEntryNow c.key id s.entries) :
      Owned (finish s id c o) := by
    refine others _ ?_ (same.trans (removeEntryNow_own stored rfl))
    intro k e found _
    rw [lookup_erase] at found
    split at found
    · cases found
    · exact ⟨‹_›, found⟩
  cases o with
  | ok v =>
    refine others _ ?_ (publish_own stored rfl)
    intro k e found unset
    rw [lookup_insert] at found
    split at found
    · cases found
      cases unset
    · exact ⟨‹_›, found⟩
  | error x =>
    cases x with
    | cancelled => exact erased rfl
    | exception e => exact erased rfl
    | baseException t => exact absurd rfl (caught t)

def outcomeState : Except Raised V → FutureState V
  | .ok v => .result v
  | .error .cancelled => .ownerCancelled
  | .error (.exception e) => .exception e
  | .error (.baseException _) => .pending

theorem finish_futures {s : Store Task V} {id : ℕ} (c : Caller Task)
    (pending : s.futures id = .pending) (o : Except Raised V) :
    (finish s id c o).futures = Function.update s.futures id (outcomeState o) := by
  have open_ : (s.futures id).done = false := by simp [pending, FutureState.done]
  cases o with
  | ok v => simp [finish, leave, open_, outcomeState]
  | error x =>
    cases x with
    | cancelled => simp [finish, leave, open_, outcomeState]
    | exception e => simp [finish, leave, open_, outcomeState]
    | baseException t => simp [finish, leave, outcomeState, ← pending]

section
variable [DecidableEq Task]

theorem owned_enter {s : Store Task V} (h : Owned s) {id : ℕ} (bystander : ∀ c, ¬ Executing s id c)
    (c : Caller Task) : Owned (enter s id c) := by
  have purged (k : String) (e : Entry Task)
      (found : (InMemoryIdempotencyStore.purgeExpired s.now s.entries).1.lookup k = some e) :
      s.entries.lookup k = some e := (purge_lookup.mp found).1
  rcases enter_cases s id c with
    ⟨_, eq⟩ | ⟨e, _, _, _, _, eq⟩ | ⟨e, _, _, ⟨v, _, eq⟩ | ⟨x, _, eq⟩ | ⟨_, eq⟩⟩ <;> rw [eq]
  · intro k e found unset
    simp only [lookup_insert] at found
    split at found
    · cases found
      exact ⟨{ c with phase := .executing }, by simp [Executing]⟩
    · obtain ⟨d, running⟩ := h k e (purged k e found) unset
      have other : e.future ≠ id := fun same => bystander d (same ▸ running)
      exact ⟨d, executing_other other running rfl⟩
  · exact owned_of_bystander h bystander rfl purged
  · exact owned_of_bystander h bystander rfl purged
  · exact owned_of_bystander h bystander rfl purged
  · exact owned_of_bystander h bystander rfl purged

theorem owned_step {s t : Store Task V} (coherent : Coherent s) (h : Owned s) {l : Label Task V}
    (caught : Caught s l) (hs : step s l = some t) : Owned t := by
  cases step_shape hs with
  | refused => exact h
  | enters task named positive =>
    refine owned_enter (s := { s with nextId := s.nextId + 1 }) h ?_ _
    intro c executing
    cases executing.1.symm.trans (coherent.fresh_caller _ (Nat.le_refl _))
  | finishes o executing =>
    apply owned_finish coherent h executing
    rintro x rfl
    exact caught _ executing
  | wakes waiting woken =>
    have bystander := waiting_bystander waiting
    unfold wake at woken
    split at woken
    · cases woken
    · cases woken
      exact owned_of_bystander h bystander rfl fun _ _ found => found
    · cases woken
      exact owned_of_bystander h bystander rfl fun _ _ found => found
    · cases woken
      exact owned_enter h bystander _
  | cancels waiting =>
    exact owned_of_bystander h (waiting_bystander waiting) rfl fun _ _ found => found
  | purges => exact owned_of_kept h fun k e found _ => ⟨(purge_lookup.mp found).1, fun _ hc => hc⟩
  | advances => exact h

theorem enter_futures (s : Store Task V) (id : ℕ) (c : Caller Task) :
    (enter s id c).futures = s.futures := by
  rcases enter_cases s id c with
    ⟨_, eq⟩ | ⟨e, _, _, _, _, eq⟩ | ⟨e, _, _, ⟨v, _, eq⟩ | ⟨x, _, eq⟩ | ⟨_, eq⟩⟩ <;>
    rw [eq] <;> rfl

/-- A resolved future keeps its outcome. -/
theorem future_step {s t : Store Task V} (coherent : Coherent s) {l : Label Task V}
    (hs : step s l = some t) {f : ℕ} (resolved : s.futures f ≠ .pending) :
    t.futures f = s.futures f := by
  cases step_shape hs with
  | refused => rfl
  | enters => rw [enter_futures]
  | finishes o executing =>
    obtain ⟨_, pending⟩ := coherent.owner _ _ executing
    rw [finish_futures _ pending]
    refine Function.update_of_ne ?_ _ _
    rintro rfl
    exact resolved pending
  | wakes waiting woken =>
    unfold wake at woken
    split at woken
    · cases woken
    · cases woken
      rfl
    · cases woken
      rfl
    · cases woken
      rw [enter_futures]
  | cancels => rfl
  | purges => rfl
  | advances => rfl

theorem future_run {s t : Store Task V} (coherent : Coherent s) {ls : List (Label Task V)}
    (h : run step s ls = some t) {f : ℕ} (resolved : s.futures f ≠ .pending) :
    t.futures f = s.futures f := by
  have both : Coherent t ∧ t.futures f = s.futures f := by
    refine invariant_run (I := fun u => Coherent u ∧ u.futures f = s.futures f) ?_
      ⟨coherent, rfl⟩ h
    rintro u l v ⟨cu, same⟩ hv
    exact ⟨coherent_step cu hv, (future_step cu hv (same ▸ resolved)).trans same⟩
  exact both.2

theorem receives_of_state {s : Store Task V} {i f : ℕ} {c : Caller Task} (waiting : Waiting s i c f)
    {o : Except Raised V} (state : s.futures f = outcomeState o) (resolved : s.futures f ≠ .pending) :
    Receives s i c o := by
  cases o with
  | ok v => rw [Receives, step_wake waiting, wake, state, outcomeState]
  | error x =>
    cases x with
    | cancelled => exact .retries waiting state
    | exception e =>
      show step s (.wake i) = _
      rw [step_wake waiting, wake, state, outcomeState]
    | baseException t => exact absurd state resolved

theorem released_of_caught {s t : Store Task V} (coherent : Coherent s) {l : Label Task V}
    (caught : Caught s l) (hs : step s l = some t) : Released s l t := by
  rintro id o c rfl executing
  obtain ⟨stored, pending⟩ := coherent.owner id c executing
  cases (step_finish executing o).symm.trans hs
  have resolved : outcomeState o ≠ .pending := by
    cases o with
    | ok v => simp [outcomeState]
    | error x =>
      cases x with
      | cancelled => simp [outcomeState]
      | exception e => simp [outcomeState]
      | baseException t => exact absurd executing (caught c)
  have erased (same : (finish s id c o).entries = removeEntryNow c.key id s.entries) :
      (finish s id c o).entries.lookup c.key = none := by
    rw [same, removeEntryNow_own stored rfl, lookup_erase, if_pos rfl]
  constructor
  · cases o with
    | ok v =>
      refine .inr ⟨⟨id, c.task, some (s.now + c.ttl)⟩, s.now + c.ttl, v, rfl, ?_, rfl, rfl⟩
      exact (congrArg (AList.lookup c.key) (publish_own stored rfl)).trans
        (by rw [lookup_insert, if_pos rfl])
    | error x =>
      cases x with
      | cancelled => exact .inl (erased rfl)
      | exception e => exact .inl (erased rfl)
      | baseException t => exact absurd executing (caught c)
  · intro ls u i d later waiting
    have state : (finish s id c o).futures id = outcomeState o := by
      rw [finish_futures c pending, Function.update_self]
    have kept := future_run (coherent_finish coherent executing o) later
      (f := id) (by rw [state]; exact resolved)
    exact receives_of_state waiting (kept.trans state) (by rw [kept, state]; exact resolved)

theorem caught_of_released {s : Store Task V} (coherent : Coherent s) {l : Label Task V}
    (released : ∀ t, step s l = some t → Released s l t) : Caught s l := by
  unfold Caught
  split
  · rename_i id x
    intro c executing
    obtain ⟨stored, _⟩ := coherent.owner id c executing
    rcases (released _ (step_finish executing _) id _ c rfl executing).1 with
      none | ⟨e, t, v, impossible, _⟩
    · cases stored.symm.trans none
    · cases impossible
  · trivial

/-- Along any run nobody is stranded, in the state each step leads to and in how each
    ended operation treats its key and those who joined it, exactly when no operation ends
    with a BaseException that is neither an Exception nor CancelledError. -/
theorem nobody_stranded_iff_caught (start : ℚ) (ls : List (Label Task V)) :
    Along step (fun s l => ∀ t, step s l = some t → Settled t ∧ Released s l t)
      (initial start) ls ↔ Along step Caught (initial start) ls := by
  have main (s : Store Task V) (coherent : Coherent s) (owned : Owned s) :
      Along step (fun s l => ∀ t, step s l = some t → Settled t ∧ Released s l t) s ls ↔
        Along step Caught s ls := by
    induction ls generalizing s with
    | nil => exact Iff.rfl
    | cons l ls ih =>
      constructor
      · rintro ⟨now, later⟩
        have caught := caught_of_released coherent fun t hs => (now t hs).2
        exact ⟨caught, fun t hs => (ih t (coherent_step coherent hs)
          (owned_step coherent owned caught hs)).mp (later t hs)⟩
      · rintro ⟨caught, later⟩
        refine ⟨fun t hs => ?_, fun t hs => (ih t (coherent_step coherent hs)
          (owned_step coherent owned caught hs)).mpr (later t hs)⟩
        exact ⟨(settled_iff_owned (coherent_step coherent hs)).mpr
          (owned_step coherent owned caught hs), released_of_caught coherent caught hs⟩
  exact main _ (coherent_initial start) (fun k e found => by simp [initial] at found)

/-- Task 1 owns the key, task 2 joins, and the operation of task 1 ends with SystemExit. -/
def strandedRun : List (Label ℕ ℕ) :=
  [.execute 1 "k" 60, .execute 2 "k" 60, .finish 0 (.error (.baseException ⟨"SystemExit", "builtins"⟩))]

/-- The key stays in flight without an owner, and the joined caller never runs again. -/
theorem systemExit_strands_joined_caller : ∃ s : Store ℕ ℕ,
    run step (initial 0) strandedRun = some s ∧ ¬ Settled s ∧
    (∃ c, Waiting s 1 c 0) ∧ step s (.wake 1) = none := by
  have done : (run step (initial 0 : Store ℕ ℕ) strandedRun).any (fun s =>
      (s.callers 0).isNone && (s.entries.lookup "k" = some ⟨0, 1, none⟩) &&
        s.callers 1 = some ⟨2, "k", 60, .waiting 0⟩ && (step s (.wake 1)).isNone) = true := by
    decide +kernel
  obtain ⟨s, hs, facts⟩ := (Option.any_eq_true _ _).mp done
  simp only [Bool.and_eq_true, decide_eq_true_eq, Option.isNone_iff_eq_none] at facts
  obtain ⟨⟨⟨gone, stored⟩, waiting⟩, stuck⟩ := facts
  refine ⟨s, hs, ?_, ⟨_, waiting, rfl⟩, stuck⟩
  intro settled
  rcases settled.entry "k" _ stored with ⟨_, c, executing, _⟩ | ⟨_, t, expires, _⟩
  · cases gone.symm.trans executing.1
  · cases expires

end

end Relprim.IdempotencyRuns
