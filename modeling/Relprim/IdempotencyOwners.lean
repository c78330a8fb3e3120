import Relprim.IdempotencyInvariant

/-!
Who runs an operation: mutual exclusion per key, and re-entry by the owner.
-/
namespace Relprim.IdempotencyRuns
open LabelledRuns InMemoryIdempotencyStore Dictionary
variable {Task V : Type}

/-- With this label call `id`, as caller `c`, enters the critical section of `execute`. -/
inductive LooksUp (s : Store Task V) : Label Task V → ℕ → Caller Task → Prop where
  | arrives (task : Task) {key : String} {ttl : ℚ} (named : isBlank key = false)
      (positive : 0 < ttl) : LooksUp s (.execute task key ttl) s.nextId ⟨task, key, ttl, .executing⟩
  | retries {id : ℕ} {c : Caller Task} {f : ℕ} (waiting : Waiting s id c f)
      (released : s.futures f = .ownerCancelled) : LooksUp s (.wake id) id c

theorem executing_unique {s : Store Task V} (h : Coherent s) {i j : ℕ} {c d : Caller Task}
    (hi : Executing s i c) (hj : Executing s j d) (same : c.key = d.key) : i = j := by
  have first := (h.owner i c hi).1
  have second := (h.owner j d hj).1
  rw [same, second] at first
  exact (congrArg Entry.future (Option.some.inj first)).symm

theorem waited_entry_foreign {s : Store Task V} (h : Coherent s) {i : ℕ} {c : Caller Task} {f : ℕ}
    (hi : Waiting s i c f) (pending : s.futures f = .pending) {k : String} {e : Entry Task}
    (found : s.entries.lookup k = some e) (same : e.future = f) : e.ownerTask ≠ c.task := by
  obtain ⟨d, stored, own, foreign⟩ := h.waiting i c f hi pending
  have keys := h.entry_inj k c.key e d found stored (same.trans own.symm)
  rw [keys, stored] at found
  cases found
  exact foreign

/-- A waiting call never waits for an operation of its own task. -/
theorem waited_owner_foreign {s : Store Task V} (h : Coherent s) {i j : ℕ} {c d : Caller Task}
    (hi : Waiting s i c j) (hj : Executing s j d) : d.task ≠ c.task := by
  obtain ⟨stored, pending⟩ := h.owner j d hj
  exact waited_entry_foreign h hi pending stored rfl

theorem caller_remains {callers : ℕ → Option (Caller Task)} {id i : ℕ} {c : Caller Task}
    (h : Function.update callers id none i = some c) : callers i = some c := by
  rcases caller_update h with ⟨_, none⟩ | ⟨_, old⟩
  · cases none
  · exact old

theorem finish_callers (s : Store Task V) (id : ℕ) (c : Caller Task) (o : Except Raised V) :
    (finish s id c o).callers = Function.update s.callers id none := by
  cases o with
  | ok v => rfl
  | error x => cases x <;> rfl

section
variable [DecidableEq Task]

theorem looksUp_step {s : Store Task V} {l : Label Task V} {id : ℕ} {c : Caller Task}
    (h : LooksUp s l id c) : ∃ n, step s l = some (enter { s with nextId := n } id c) := by
  cases h with
  | arrives task named positive => exact ⟨_, step_execute named positive⟩
  | retries waiting released =>
    refine ⟨s.nextId, ?_⟩
    rw [step_wake waiting, wake, released]

theorem executing_enter {s : Store Task V} {i id : ℕ} {c d : Caller Task}
    (h : Executing (enter s id d) i c) :
    Executing s i c ∨ (i = id ∧ c.key = d.key ∧
      ∀ e, s.entries.lookup d.key = some e → expired s.now e = true) := by
  rcases enter_cases s id d with
    ⟨free, eq⟩ | ⟨e, _, _, _, _, eq⟩ | ⟨e, _, _, ⟨v, _, eq⟩ | ⟨x, _, eq⟩ | ⟨_, eq⟩⟩ <;>
    rw [eq] at h
  · rcases caller_update h.1 with ⟨same, new⟩ | ⟨_, old⟩
    · cases new
      exact .inr ⟨same, rfl, free⟩
    · exact .inl ⟨old, h.2⟩
  · exact .inl ⟨caller_remains h.1, h.2⟩
  · exact .inl ⟨caller_remains h.1, h.2⟩
  · exact .inl ⟨caller_remains h.1, h.2⟩
  · rcases caller_update h.1 with ⟨_, new⟩ | ⟨_, old⟩
    · cases new
      cases h.2
    · exact .inl ⟨old, h.2⟩

/-- The only step that starts an operation is a lookup that finds no live entry. -/
theorem started_by_lookup {s t : Store Task V} {l : Label Task V} (hs : step s l = some t) {i : ℕ}
    {c : Caller Task} (after : Executing t i c) (before : ¬ Executing s i c) :
    (∃ d, LooksUp s l i d ∧ d.key = c.key) ∧
      ∀ e, s.entries.lookup c.key = some e → expired s.now e = true := by
  cases step_shape hs with
  | refused => exact absurd after before
  | enters task named positive =>
    rcases executing_enter after with old | ⟨rfl, keys, free⟩
    · exact absurd old before
    · exact ⟨⟨_, .arrives task named positive, keys.symm⟩, keys ▸ free⟩
  | finishes o executing => exact absurd ⟨caller_remains (finish_callers s _ _ o ▸ after.1), after.2⟩ before
  | @wakes id d f _ waiting woken =>
    unfold wake at woken
    split at woken
    · cases woken
    · cases woken
      exact absurd ⟨caller_remains after.1, after.2⟩ before
    · cases woken
      exact absurd ⟨caller_remains after.1, after.2⟩ before
    · rename_i released
      cases woken
      rcases executing_enter after with old | ⟨rfl, keys, free⟩
      · exact absurd old before
      · exact ⟨⟨d, .retries waiting released, keys.symm⟩, keys ▸ free⟩
  | cancels waiting => exact absurd ⟨caller_remains after.1, after.2⟩ before
  | purges => exact absurd after before
  | advances => exact absurd after before

def afterReentry (s : Store Task V) (id n : ℕ) (key : String) : Store Task V :=
  leave { s with nextId := n, entries := (InMemoryIdempotencyStore.purgeExpired s.now s.entries).1 }
    id [.raised id (.exception (idempotencyReentryError key))]

theorem reentry_refused {s : Store Task V} (h : Coherent s) {l : Label Task V} {id j : ℕ}
    {c d : Caller Task} (looks : LooksUp s l id c) (executing : Executing s j d)
    (keys : d.key = c.key) (own : d.task = c.task) :
    ∃ n, step s l = some (afterReentry s id n c.key) := by
  obtain ⟨n, hs⟩ := looksUp_step looks
  obtain ⟨stored, pending⟩ := h.owner j d executing
  rw [keys] at stored
  have live : expired s.now (⟨j, d.task, none⟩ : Entry Task) = false := expired_in_flight rfl
  refine ⟨n, hs.trans (congrArg some ?_)⟩
  rcases enter_cases { s with nextId := n } id c with
    ⟨free, _⟩ | ⟨e, _, _, _, _, eq⟩ | ⟨e, found, _, ⟨v, result, _⟩ | ⟨x, failed, _⟩ | ⟨why, _⟩⟩
  · rw [free _ stored] at live
    cases live
  · exact eq
  · cases stored.symm.trans found
    cases pending.symm.trans result
  · cases stored.symm.trans found
    cases pending.symm.trans failed
  · cases stored.symm.trans found
    rcases why with ⟨_, foreign⟩ | cancelled
    · exact absurd own foreign
    · cases pending.symm.trans cancelled

/-- In every reachable state at most one call executes each key. A call begins to execute
    only by a lookup that finds no entry of its key but expired ones. A lookup by the task
    that executes the key raises IdempotencyReentryError; it drops expired entries, as
    every lookup does, and changes nothing else. No call waits on a pending future that
    its own task owns. -/
theorem mutual_exclusion (start : ℚ) (s : Store Task V) (h : Reachable step (initial start) s) :
    (∀ i j c d, Executing s i c → Executing s j d → c.key = d.key → i = j) ∧
    (∀ l t i c, step s l = some t → Executing t i c → ¬ Executing s i c →
      (∃ d, LooksUp s l i d ∧ d.key = c.key) ∧ (∀ j d, Executing s j d → d.key ≠ c.key) ∧
        ∀ e, s.entries.lookup c.key = some e → ∃ x, e.expiresAt = some x ∧ x ≤ s.now) ∧
    (∀ l i c j d, LooksUp s l i c → Executing s j d → d.key = c.key → d.task = c.task →
      ∃ t, step s l = some t ∧
        t.log = s.log ++ [.raised i (.exception (idempotencyReentryError c.key))] ∧
        t.entries = (InMemoryIdempotencyStore.purgeExpired s.now s.entries).1 ∧
        t.futures = s.futures ∧ ∀ k, k ≠ i → t.callers k = s.callers k) ∧
    (∀ i c f, Waiting s i c f → s.futures f = .pending →
      (∀ k e, s.entries.lookup k = some e → e.future = f → e.ownerTask ≠ c.task) ∧
        ∀ d, Executing s f d → d.task ≠ c.task) := by
  have coherent := coherent_reachable h
  refine ⟨fun i j c d hi hj => executing_unique coherent hi hj, ?_, ?_, ?_⟩
  · intro l t i c hs after before
    obtain ⟨looks, free⟩ := started_by_lookup hs after before
    refine ⟨looks, ?_, ?_⟩
    · intro j d hj same
      have stored := (coherent.owner j d hj).1
      have live : expired s.now (⟨j, d.task, none⟩ : Entry Task) = false := expired_in_flight rfl
      rw [free _ (same ▸ stored)] at live
      cases live
    · intro e found
      have late := free e found
      cases unset : e.expiresAt with
      | none =>
        rw [expired_in_flight unset] at late
        cases late
      | some x => exact ⟨x, rfl, (expired_iff unset).mp late⟩
  · intro l i c j d looks executing keys own
    obtain ⟨n, hs⟩ := reentry_refused coherent looks executing keys own
    exact ⟨_, hs, rfl, rfl, rfl, fun k other => by simp [afterReentry, leave, other]⟩
  · intro i c f hi pending
    exact ⟨fun k e found same => waited_entry_foreign coherent hi pending found same,
      fun d hd => waited_owner_foreign coherent hi hd⟩

/-- Task 1 caches key "b" for 5 s and is inside the operation of key "a" when "b" expires. -/
def nestedRun : List (Label ℕ ℕ) :=
  [.execute 1 "b" 5, .finish 0 (.ok 7), .execute 1 "a" 5, .advance 5]

theorem nestedRun_state : ∃ s : Store ℕ ℕ, run step (initial 0) nestedRun = some s ∧
    Executing s 1 ⟨1, "a", 5, .executing⟩ ∧ (s.entries.lookup "b").isSome = true ∧
    (InMemoryIdempotencyStore.purgeExpired s.now s.entries).1.lookup "b" = none := by
  have done : (run step (initial 0 : Store ℕ ℕ) nestedRun).any (fun s =>
      s.callers 1 = some ⟨1, "a", 5, .executing⟩ && (s.entries.lookup "b").isSome &&
        ((InMemoryIdempotencyStore.purgeExpired s.now s.entries).1.lookup "b").isNone) = true := by
    decide +kernel
  obtain ⟨s, hs, facts⟩ := (Option.any_eq_true _ _).mp done
  simp only [Bool.and_eq_true, decide_eq_true_eq, Option.isNone_iff_eq_none] at facts
  exact ⟨s, hs, ⟨facts.1.1, rfl⟩, facts.1.2, facts.2⟩

theorem mutual_exclusion_nested : ∃ s t : Store ℕ ℕ, run step (initial 0) nestedRun = some s ∧
    step s (.execute 1 "a" 5) = some t ∧
    t.log = s.log ++ [.raised s.nextId (.exception (idempotencyReentryError "a"))] ∧
    t.futures = s.futures := by
  obtain ⟨s, hs, executing, _, _⟩ := nestedRun_state
  obtain ⟨t, step_eq, log, _, futures, _⟩ := (mutual_exclusion 0 s ⟨_, hs⟩).2.2.1 _ _ _ _ _
    (.arrives 1 (by decide : isBlank "a" = false) (by decide : (0 : ℚ) < 5)) executing rfl rfl
  exact ⟨s, t, hs, step_eq, log, futures⟩

/-- The literal statement fails: a refused re-entry can change the store. -/
theorem reentry_drops_expired_entry : ∃ s t : Store ℕ ℕ, run step (initial 0) nestedRun = some s ∧
    Executing s 1 ⟨1, "a", 5, .executing⟩ ∧ step s (.execute 1 "a" 5) = some t ∧
    t.log = s.log ++ [.raised s.nextId (.exception (idempotencyReentryError "a"))] ∧
    t.entries ≠ s.entries := by
  obtain ⟨s, hs, executing, present, dropped⟩ := nestedRun_state
  have coherent := coherent_reachable ⟨_, hs⟩
  obtain ⟨n, step_eq⟩ := reentry_refused coherent
    (.arrives 1 (by decide : isBlank "a" = false) (by decide : (0 : ℚ) < 5)) executing rfl rfl
  refine ⟨s, _, hs, executing, step_eq, rfl, ?_⟩
  intro same
  have kept : (afterReentry s s.nextId n "a").entries.lookup "b" = none := dropped
  rw [same] at kept
  rw [kept] at present
  cases present

end

end Relprim.IdempotencyRuns
