import Relprim.IdempotencyRuns

/-!
What ties every entry of the store to its future, its owner and its phase, in
every reachable state and whatever way owners end.
-/
namespace Relprim.IdempotencyRuns
open LabelledRuns InMemoryIdempotencyStore Dictionary
variable {Task V : Type}

/-- `owner`: the key of a running operation holds its unexpiring entry. `entry`: an
    entry is in flight with a pending future, or completed with a value and an expiry.
    `waiting`: a pending future that is waited for is the one stored under the key, and
    another task created it. -/
structure Coherent (s : Store Task V) : Prop where
  fresh_caller : ∀ i, s.nextId ≤ i → s.callers i = none
  fresh_future : ∀ i, s.nextId ≤ i → s.futures i = .pending
  fresh_entry : ∀ k e, s.entries.lookup k = some e → e.future < s.nextId
  entry_inj : ∀ k k' e e', s.entries.lookup k = some e → s.entries.lookup k' = some e' →
    e.future = e'.future → k = k'
  owner : ∀ i c, Executing s i c →
    s.entries.lookup c.key = some ⟨i, c.task, none⟩ ∧ s.futures i = .pending
  entry : ∀ k e, s.entries.lookup k = some e →
    (e.expiresAt = none ∧ s.futures e.future = .pending) ∨
    (∃ v t, e.expiresAt = some t ∧ s.futures e.future = .result v)
  waiting : ∀ i c f, Waiting s i c f → s.futures f = .pending →
    ∃ e, s.entries.lookup c.key = some e ∧ e.future = f ∧ e.ownerTask ≠ c.task
  unowned : ∀ i c f, Waiting s i c f →
    s.futures i = .pending ∧ ∀ k e, s.entries.lookup k = some e → e.future ≠ i

structure Idle (s : Store Task V) (id : ℕ) : Prop where
  known : id < s.nextId
  pending : s.futures id = .pending
  no_entry : ∀ k e, s.entries.lookup k = some e → e.future ≠ id

theorem coherent_initial (start : ℚ) : Coherent (initial start : Store Task V) where
  fresh_caller _ _ := rfl
  fresh_future _ _ := rfl
  fresh_entry k e h := by simp [initial] at h
  entry_inj k _ e _ h := by simp [initial] at h
  owner i c h := by simp [Executing, initial] at h
  entry k e h := by simp [initial] at h
  waiting i c f h := by simp [Waiting, initial] at h
  unowned i c f h := by simp [Waiting, initial] at h

theorem coherent_log {s : Store Task V} (h : Coherent s) (log : List (Event V)) :
    Coherent { s with log } :=
  ⟨h.fresh_caller, h.fresh_future, h.fresh_entry, h.entry_inj, h.owner, h.entry, h.waiting,
    h.unowned⟩

theorem coherent_next {s : Store Task V} (h : Coherent s) :
    Coherent { s with nextId := s.nextId + 1 } :=
  ⟨fun i hi => h.fresh_caller i (Nat.le_of_succ_le hi),
    fun i hi => h.fresh_future i (Nat.le_of_succ_le hi),
    fun k e hk => Nat.lt_succ_of_lt (h.fresh_entry k e hk), h.entry_inj, h.owner, h.entry,
    h.waiting, h.unowned⟩

theorem coherent_advance {s : Store Task V} (h : Coherent s) (now : ℚ) :
    Coherent { s with now } :=
  ⟨h.fresh_caller, h.fresh_future, h.fresh_entry, h.entry_inj, h.owner, h.entry, h.waiting,
    h.unowned⟩

/-- The entry of a pending future survives every purge. -/
theorem purge_keeps_pending {s : Store Task V} (h : Coherent s) {k : String} {e : Entry Task}
    (found : s.entries.lookup k = some e) (pending : s.futures e.future = .pending) (now : ℚ) :
    (InMemoryIdempotencyStore.purgeExpired now s.entries).1.lookup k = some e := by
  rcases h.entry k e found with ⟨unset, _⟩ | ⟨v, t, _, result⟩
  · exact purge_lookup.mpr ⟨found, expired_in_flight unset⟩
  · rw [pending] at result
    cases result

theorem coherent_purge {s : Store Task V} (h : Coherent s) (now : ℚ) :
    Coherent { s with entries := (InMemoryIdempotencyStore.purgeExpired now s.entries).1 } where
  fresh_caller := h.fresh_caller
  fresh_future := h.fresh_future
  fresh_entry k e hk := h.fresh_entry k e (purge_lookup.mp hk).1
  entry_inj k k' e e' hk hk' same :=
    h.entry_inj k k' e e' (purge_lookup.mp hk).1 (purge_lookup.mp hk').1 same
  owner i c hi := by
    obtain ⟨found, pending⟩ := h.owner i c hi
    exact ⟨purge_keeps_pending h found pending now, pending⟩
  entry k e hk := h.entry k e (purge_lookup.mp hk).1
  waiting i c f hi pending := by
    obtain ⟨e, found, rfl, foreign⟩ := h.waiting i c f hi pending
    exact ⟨e, purge_keeps_pending h found pending now, rfl, foreign⟩
  unowned i c f hi := by
    obtain ⟨pending, none⟩ := h.unowned i c f hi
    exact ⟨pending, fun k e hk => none k e (purge_lookup.mp hk).1⟩

theorem caller_update {callers : ℕ → Option (Caller Task)} {id i : ℕ}
    {x : Option (Caller Task)} {c : Caller Task} (h : Function.update callers id x i = some c) :
    (i = id ∧ x = some c) ∨ (i ≠ id ∧ callers i = some c) := by
  by_cases same : i = id
  · subst same
    exact .inl ⟨rfl, by simpa using h⟩
  · exact .inr ⟨same, by simpa [same] using h⟩

theorem coherent_leave {s : Store Task V} (h : Coherent s) (id : ℕ) (es : List (Event V)) :
    Coherent (leave s id es) where
  fresh_caller i hi := by
    simp only [leave, Function.update_apply]
    split
    · rfl
    · exact h.fresh_caller i hi
  fresh_future := h.fresh_future
  fresh_entry := h.fresh_entry
  entry_inj := h.entry_inj
  owner i c hi := by
    rcases caller_update hi.1 with ⟨_, none⟩ | ⟨_, old⟩
    · cases none
    · exact h.owner i c ⟨old, hi.2⟩
  entry := h.entry
  waiting i c f hi := by
    rcases caller_update hi.1 with ⟨_, none⟩ | ⟨_, old⟩
    · cases none
    · exact h.waiting i c f ⟨old, hi.2⟩
  unowned i c f hi := by
    rcases caller_update hi.1 with ⟨_, none⟩ | ⟨_, old⟩
    · cases none
    · exact h.unowned i c f ⟨old, hi.2⟩

theorem coherent_own {s : Store Task V} (h : Coherent s) {id : ℕ} (idle : Idle s id)
    (c : Caller Task) (free : s.entries.lookup c.key = none) :
    Coherent { s with
      entries := s.entries.insert c.key { future := id, ownerTask := c.task }
      callers := Function.update s.callers id (some { c with phase := .executing }) } where
  fresh_caller i hi := by
    have ne : i ≠ id := fun same => absurd idle.known (Nat.not_lt.mpr (same ▸ hi))
    simpa [ne] using h.fresh_caller i hi
  fresh_future := h.fresh_future
  fresh_entry k e hk := by
    simp only [lookup_insert] at hk
    split at hk
    · cases hk
      exact idle.known
    · exact h.fresh_entry k e hk
  entry_inj k k' e e' hk hk' same := by
    simp only [lookup_insert] at hk hk'
    split at hk <;> split at hk'
    · simp_all
    · cases hk
      exact absurd same.symm (idle.no_entry k' e' hk')
    · cases hk'
      exact absurd same (idle.no_entry k e hk)
    · exact h.entry_inj k k' e e' hk hk' same
  owner i d hi := by
    rcases caller_update hi.1 with ⟨rfl, new⟩ | ⟨_, old⟩
    · cases new
      exact ⟨by simp, idle.pending⟩
    · obtain ⟨found, pending⟩ := h.owner i d ⟨old, hi.2⟩
      have other : d.key ≠ c.key := by
        intro same
        rw [same, free] at found
        cases found
      exact ⟨by simpa [lookup_insert, other] using found, pending⟩
  entry k e hk := by
    simp only [lookup_insert] at hk
    split at hk
    · cases hk
      exact .inl ⟨rfl, idle.pending⟩
    · exact h.entry k e hk
  waiting i d f hi pending := by
    rcases caller_update hi.1 with ⟨_, new⟩ | ⟨_, old⟩
    · cases new
      cases hi.2
    · obtain ⟨e, found, rfl, foreign⟩ := h.waiting i d f ⟨old, hi.2⟩ pending
      have other : d.key ≠ c.key := by
        intro same
        rw [same, free] at found
        cases found
      exact ⟨e, by simpa [lookup_insert, other] using found, rfl, foreign⟩
  unowned i d f hi := by
    rcases caller_update hi.1 with ⟨_, new⟩ | ⟨ne, old⟩
    · cases new
      cases hi.2
    · obtain ⟨pending, none⟩ := h.unowned i d f ⟨old, hi.2⟩
      refine ⟨pending, fun k e hk => ?_⟩
      simp only [lookup_insert] at hk
      split at hk
      · cases hk
        exact Ne.symm ne
      · exact none k e hk

theorem coherent_wait {s : Store Task V} (h : Coherent s) {id : ℕ} (idle : Idle s id)
    (c : Caller Task) {e : Entry Task} (found : s.entries.lookup c.key = some e)
    (foreign : s.futures e.future = .pending → e.ownerTask ≠ c.task) :
    Coherent { s with
      callers := Function.update s.callers id (some { c with phase := .waiting e.future }) } where
  fresh_caller i hi := by
    have ne : i ≠ id := fun same => absurd idle.known (Nat.not_lt.mpr (same ▸ hi))
    simpa [ne] using h.fresh_caller i hi
  fresh_future := h.fresh_future
  fresh_entry := h.fresh_entry
  entry_inj := h.entry_inj
  owner i d hi := by
    rcases caller_update hi.1 with ⟨_, new⟩ | ⟨_, old⟩
    · cases new
      cases hi.2
    · exact h.owner i d ⟨old, hi.2⟩
  entry := h.entry
  waiting i d f hi pending := by
    rcases caller_update hi.1 with ⟨_, new⟩ | ⟨_, old⟩
    · cases new
      cases hi.2
      exact ⟨e, found, rfl, foreign pending⟩
    · exact h.waiting i d f ⟨old, hi.2⟩ pending
  unowned i d f hi := by
    rcases caller_update hi.1 with ⟨rfl, _⟩ | ⟨_, old⟩
    · exact ⟨idle.pending, idle.no_entry⟩
    · exact h.unowned i d f ⟨old, hi.2⟩

theorem idle_purge {s : Store Task V} {id : ℕ} (idle : Idle s id) (now : ℚ) :
    Idle { s with entries := (InMemoryIdempotencyStore.purgeExpired now s.entries).1 } id :=
  ⟨idle.known, idle.pending, fun k e hk => idle.no_entry k e (purge_lookup.mp hk).1⟩

/-- The owner `id` ends: its future is resolved, and its key is free or holds its value. -/
theorem coherent_settle {s : Store Task V} (h : Coherent s) {id : ℕ} {c : Caller Task}
    (executing : Executing s id c) (entries : Entries Task) (x : FutureState V)
    (unresolved : x ≠ .pending)
    (own : entries.lookup c.key = none ∨
      ∃ v t, entries.lookup c.key = some ⟨id, c.task, some t⟩ ∧ x = .result v)
    (others : ∀ k, k ≠ c.key → entries.lookup k = s.entries.lookup k) (es : List (Event V)) :
    Coherent (leave { s with entries, futures := Function.update s.futures id x } id es) := by
  obtain ⟨stored, _⟩ := h.owner id c executing
  have known := h.fresh_entry c.key _ stored
  -- An entry of the new store is the one just settled, or an old one of another future.
  have cases_of (k : String) (e : Entry Task) (hk : entries.lookup k = some e) :
      (k = c.key ∧ ∃ v t, e = ⟨id, c.task, some t⟩ ∧ x = .result v) ∨
      (k ≠ c.key ∧ s.entries.lookup k = some e ∧ e.future ≠ id) := by
    by_cases same : k = c.key
    · subst same
      rcases own with none | ⟨v, t, found, hx⟩
      · rw [none] at hk
        cases hk
      · rw [found] at hk
        cases hk
        exact .inl ⟨rfl, v, t, rfl, hx⟩
    · have old := (others k same).symm.trans hk
      exact .inr ⟨same, old, fun eq => same (h.entry_inj k c.key e _ old stored eq)⟩
  refine ⟨?_, ?_, ?_, ?_, ?_, ?_, ?_, ?_⟩
  · intro i hi
    simp only [leave, Function.update_apply]
    split
    · rfl
    · exact h.fresh_caller i hi
  · intro i hi
    have ne : i ≠ id := fun same => absurd known (Nat.not_lt.mpr (same ▸ hi))
    simpa [leave, ne] using h.fresh_future i hi
  · intro k e hk
    rcases cases_of k e hk with ⟨rfl, v, t, rfl, _⟩ | ⟨_, old, _⟩
    · exact known
    · exact h.fresh_entry k e old
  · intro k k' e e' hk hk' same
    rcases cases_of k e hk with ⟨rfl, v, t, rfl, _⟩ | ⟨_, old, other⟩ <;>
      rcases cases_of k' e' hk' with ⟨rfl, v', t', rfl, _⟩ | ⟨_, old', other'⟩
    · rfl
    · exact absurd same.symm other'
    · exact absurd same other
    · exact h.entry_inj k k' e e' old old' same
  · intro i d hi
    rcases caller_update hi.1 with ⟨_, none⟩ | ⟨ne, old⟩
    · cases none
    · obtain ⟨found, pending⟩ := h.owner i d ⟨old, hi.2⟩
      have other : d.key ≠ c.key := by
        intro same
        rw [same, stored] at found
        exact ne (congrArg Entry.future (Option.some.inj found)).symm
      exact ⟨(others d.key other).trans found, by simpa [leave, ne] using pending⟩
  · intro k e hk
    rcases cases_of k e hk with ⟨rfl, v, t, rfl, rfl⟩ | ⟨_, old, other⟩
    · exact .inr ⟨v, t, rfl, by simp [leave]⟩
    · simpa [leave, other] using h.entry k e old
  · intro i d f hi pending
    rcases caller_update hi.1 with ⟨_, none⟩ | ⟨_, old⟩
    · cases none
    · have ne : f ≠ id := by
        rintro rfl
        exact unresolved (by simpa [leave] using pending)
      obtain ⟨e, found, rfl, foreign⟩ :=
        h.waiting i d f ⟨old, hi.2⟩ (by simpa [leave, ne] using pending)
      have other : d.key ≠ c.key := by
        intro same
        rw [same, stored] at found
        exact ne (congrArg Entry.future (Option.some.inj found)).symm
      exact ⟨e, (others d.key other).trans found, rfl, foreign⟩
  · intro i d f hi
    rcases caller_update hi.1 with ⟨_, none⟩ | ⟨ne, old⟩
    · cases none
    · obtain ⟨pending, none⟩ := h.unowned i d f ⟨old, hi.2⟩
      refine ⟨by simpa [leave, ne] using pending, fun k e hk => ?_⟩
      rcases cases_of k e hk with ⟨rfl, v, t, rfl, _⟩ | ⟨_, old, _⟩
      · exact Ne.symm ne
      · exact none k e old

theorem coherent_finish {s : Store Task V} (h : Coherent s) {id : ℕ} {c : Caller Task}
    (executing : Executing s id c) (o : Except Raised V) : Coherent (finish s id c o) := by
  obtain ⟨stored, pending⟩ := h.owner id c executing
  have open_ : (s.futures id).done = false := by simp [pending, FutureState.done]
  have erased (x : FutureState V) (hx : x ≠ .pending) (es : List (Event V)) :
      Coherent (leave { s with
        entries := removeEntryNow c.key id s.entries
        futures := Function.update s.futures id x } id es) := by
    rw [removeEntryNow_own stored rfl]
    refine coherent_settle h executing _ x hx (.inl ?_) ?_ es
    · simp
    · intro k other
      simp [other]
  cases o with
  | ok v =>
    simp only [finish, open_, publish_own stored rfl]
    refine coherent_settle h executing _ (.result v) (by simp)
      (.inr ⟨v, s.now + c.ttl, by simp, rfl⟩) ?_ _
    · intro k other
      simp [other]
  | error x =>
    cases x with
    | cancelled =>
      simp only [finish, open_]
      exact erased .ownerCancelled (by simp) _
    | exception e =>
      simp only [finish, open_]
      exact erased (.exception e) (by simp) _
    | baseException t => exact coherent_leave h id _

theorem idle_next {s : Store Task V} (h : Coherent s) :
    Idle { s with nextId := s.nextId + 1 } s.nextId where
  known := Nat.lt_succ_self _
  pending := h.fresh_future s.nextId (Nat.le_refl _)
  no_entry k e hk := Nat.ne_of_lt (h.fresh_entry k e hk)

theorem idle_waiting {s : Store Task V} (h : Coherent s) {id : ℕ} {c : Caller Task} {f : ℕ}
    (waiting : Waiting s id c f) : Idle s id where
  known := by
    by_contra late
    have := h.fresh_caller id (Nat.not_lt.mp late)
    rw [waiting.1] at this
    cases this
  pending := (h.unowned id c f waiting).1
  no_entry := (h.unowned id c f waiting).2

section
variable [DecidableEq Task]

theorem coherent_enter {s : Store Task V} (h : Coherent s) {id : ℕ} (idle : Idle s id)
    (c : Caller Task) : Coherent (enter s id c) := by
  have purged := coherent_purge h s.now
  rcases enter_cases s id c with
    ⟨free, eq⟩ | ⟨e, _, _, _, _, eq⟩ | ⟨e, found, fresh, ⟨v, _, eq⟩ | ⟨x, _, eq⟩ | ⟨why, eq⟩⟩
  · rw [eq]
    refine coherent_log (coherent_own purged (idle_purge idle s.now) c ?_) _
    by_contra some
    obtain ⟨e, found⟩ := Option.ne_none_iff_exists'.mp some
    obtain ⟨found, live⟩ := purge_lookup.mp found
    rw [free e found] at live
    cases live
  · rw [eq]
    exact coherent_leave purged id _
  · rw [eq]
    exact coherent_leave purged id _
  · rw [eq]
    exact coherent_leave purged id _
  · rw [eq]
    refine coherent_log (coherent_wait purged (idle_purge idle s.now) c
      (purge_lookup.mpr ⟨found, fresh⟩) ?_) _
    intro pending
    rcases why with ⟨_, foreign⟩ | cancelled
    · exact foreign
    · rw [cancelled] at pending
      cases pending

theorem coherent_step {s t : Store Task V} {l : Label Task V} (h : Coherent s)
    (hs : step s l = some t) : Coherent t := by
  cases step_shape hs with
  | refused task key ttl x => exact coherent_log (coherent_next h) _
  | enters => exact coherent_enter (coherent_next h) (idle_next h) _
  | finishes o executing => exact coherent_finish h executing o
  | @wakes id c f _ waiting woken =>
    unfold wake at woken
    split at woken
    · cases woken
    · cases woken
      exact coherent_leave h id _
    · cases woken
      exact coherent_leave h id _
    · cases woken
      exact coherent_enter h (idle_waiting h waiting) c
  | @cancels id c f waiting => exact coherent_leave h id _
  | purges e counts => exact coherent_log (coherent_purge h s.now) _
  | advances d nonneg => exact coherent_advance h _

theorem coherent_reachable {start : ℚ} {s : Store Task V}
    (h : Reachable step (initial start) s) : Coherent s :=
  invariant_reachable (coherent_initial start) (fun _ _ _ inv hs => coherent_step inv hs) h

end

end Relprim.IdempotencyRuns
