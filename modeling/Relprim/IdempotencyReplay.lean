import Mathlib.Tactic.Linarith
import Relprim.IdempotencyOwners

/-!
Where the value of a joined or replayed result comes from, read off the history
of executions: agreement with the execution joined, and the lifetime of a
cached value.
-/
namespace Relprim.IdempotencyRuns
open LabelledRuns InMemoryIdempotencyStore Dictionary
variable {Task V : Type}

def Event.executionKey : Event V → Option String
  | .started _ key | .succeeded _ key _ _ _ | .stopped _ key _ => some key
  | _ => none

def lastExecution (key : String) (log : List (Event V)) : Option (Event V) :=
  (log.filter fun e => e.executionKey = some key).getLast?

def InFlight (log : List (Event V)) (f : ℕ) (key : String) : Prop :=
  .started f key ∈ log ∧ (∀ k v t ttl, .succeeded f k v t ttl ∉ log) ∧ ∀ k x, .stopped f k x ∉ log

/-- Call `i` joined execution `f` of `key` in the history `before ++ after`, and joined
    nothing since. -/
def JoinedAt (log before after : List (Event V)) (i f : ℕ) (key : String) : Prop :=
  log = before ++ .joined i key f :: after ∧ ∀ k g, .joined i k g ∉ after

/-- What a result owes to the history before it. A joined value is that of the execution in
    flight when the caller last joined. A replayed value is that of the latest execution of
    the key, which succeeded at most its ttl ago and never failed. -/
def Faithful (log : List (Event V)) : Event V → Prop
  | .returned i ⟨v, key, .joined⟩ _ => ∃ before after f,
      JoinedAt log before after i f key ∧ InFlight before f key ∧
        ∃ t ttl, .succeeded f key v t ttl ∈ after
  | .returned _ ⟨v, key, .replayed⟩ now => ∃ f t ttl,
      lastExecution key log = some (.succeeded f key v t ttl) ∧ t ≤ now ∧ now < t + ttl ∧
        ∀ k x, .stopped f k x ∉ log
  | _ => True

/-- The store and its history. `gone`: an execution that ended without a value has no
    caller left to give it one. -/
structure Chronicle (s : Store Task V) : Prop where
  value : ∀ f k v t ttl, .succeeded f k v t ttl ∈ s.log → s.futures f = .result v
  gone : ∀ f k x, .stopped f k x ∈ s.log →
    f < s.nextId ∧ s.callers f = none ∧ ∀ v, s.futures f ≠ .result v
  started : ∀ k e, s.entries.lookup k = some e → .started e.future k ∈ s.log
  cached : ∀ k e x, s.entries.lookup k = some e → e.expiresAt = some x → ∃ v t ttl,
    lastExecution k s.log = some (.succeeded e.future k v t ttl) ∧ x = t + ttl ∧ t ≤ s.now
  latest : ∀ f k v t ttl, lastExecution k s.log = some (.succeeded f k v t ttl) →
    t ≤ s.now ∧ (s.now < t + ttl → ∃ task, s.entries.lookup k = some ⟨f, task, some (t + ttl)⟩)
  joined : ∀ i c f, Waiting s i c f → ∃ before after, JoinedAt s.log before after i f c.key ∧
    .started f c.key ∈ before ∧ (∀ k v t ttl, .succeeded f k v t ttl ∉ before) ∧
    ∀ v, s.futures f = .result v → ∃ t ttl, .succeeded f c.key v t ttl ∈ after

def Event.quiet : Event V → Bool
  | .returned .. | .raised .. | .purged _ | .counted _ => true
  | _ => false

theorem lastExecution_append (k : String) (log es : List (Event V)) :
    lastExecution k (log ++ es) = (lastExecution k es).or (lastExecution k log) := by
  rw [lastExecution, List.filter_append, List.getLast?_append]
  rfl

theorem lastExecution_mem {k : String} {log : List (Event V)} {e : Event V}
    (h : lastExecution k log = some e) : e ∈ log :=
  (List.mem_filter.mp (List.mem_of_getLast? h)).1

theorem lastExecution_other {k : String} {log es : List (Event V)}
    (other : ∀ e ∈ es, e.executionKey ≠ some k) :
    lastExecution k (log ++ es) = lastExecution k log := by
  have none : lastExecution k es = none := by
    rw [lastExecution, List.getLast?_eq_none_iff, List.filter_eq_nil_iff]
    intro e he
    simpa using other e he
  rw [lastExecution_append, none, Option.none_or]

theorem joinedAt_append {log before after es : List (Event V)} {i f : ℕ} {key : String}
    (h : JoinedAt log before after i f key) (other : ∀ k g, .joined i k g ∉ es) :
    JoinedAt (log ++ es) before (after ++ es) i f key := by
  refine ⟨by rw [h.1, List.append_assoc, List.cons_append], fun k g member => ?_⟩
  rcases List.mem_append.mp member with old | new
  · exact h.2 k g old
  · exact other k g new

theorem before_subset {log before after : List (Event V)} {i f : ℕ} {key : String}
    (h : JoinedAt log before after i f key) {e : Event V} (member : e ∈ before) : e ∈ log := by
  rw [h.1]
  exact List.mem_append_left _ member

theorem chronicle_initial (start : ℚ) : Chronicle (initial start : Store Task V) where
  value f k v t ttl h := by simp [initial] at h
  gone f k x h := by simp [initial] at h
  started k e h := by simp [initial] at h
  cached k e x h := by simp [initial] at h
  latest f k v t ttl h := by simp [initial, lastExecution] at h
  joined i c f h := by simp [Waiting, initial] at h

theorem chronicle_next {s : Store Task V} (h : Chronicle s) :
    Chronicle { s with nextId := s.nextId + 1 } :=
  ⟨h.value, fun f k x ended => ⟨Nat.lt_succ_of_lt (h.gone f k x ended).1, (h.gone f k x ended).2⟩,
    h.started, h.cached, h.latest, h.joined⟩

theorem chronicle_advance {s : Store Task V} (h : Chronicle s) {d : ℚ} (nonneg : 0 ≤ d) :
    Chronicle { s with now := s.now + d } where
  value := h.value
  gone := h.gone
  started := h.started
  cached k e x found expires := by
    obtain ⟨v, t, ttl, last, sum, past⟩ := h.cached k e x found expires
    exact ⟨v, t, ttl, last, sum, by simpa using by linarith⟩
  latest f k v t ttl last := by
    obtain ⟨past, stored⟩ := h.latest f k v t ttl last
    refine ⟨show t ≤ s.now + d by linarith, fun (early : s.now + d < t + ttl) => ?_⟩
    exact stored (by linarith)
  joined := h.joined

theorem chronicle_purge {s : Store Task V} (h : Chronicle s) :
    Chronicle { s with entries := (InMemoryIdempotencyStore.purgeExpired s.now s.entries).1 } where
  value := h.value
  gone := h.gone
  started k e found := h.started k e (purge_lookup.mp found).1
  cached k e x found := h.cached k e x (purge_lookup.mp found).1
  latest f k v t ttl last := by
    obtain ⟨past, stored⟩ := h.latest f k v t ttl last
    refine ⟨past, fun early => ?_⟩
    obtain ⟨task, found⟩ := stored early
    refine ⟨task, purge_lookup.mpr ⟨found, ?_⟩⟩
    simpa [expired] using early
  joined := h.joined

theorem quiet_execution {e : Event V} (h : e.quiet = true) (k : String) :
    e.executionKey ≠ some k := by
  cases e <;> simp_all [Event.quiet, Event.executionKey]

theorem chronicle_quiet {s : Store Task V} (h : Chronicle s) {a : List (Event V)}
    (quiet : ∀ e ∈ a, e.quiet = true) : Chronicle { s with log := s.log ++ a } where
  value f k v t ttl member := by
    rcases List.mem_append.mp member with old | new
    · exact h.value f k v t ttl old
    · cases quiet _ new
  gone f k x member := by
    rcases List.mem_append.mp member with old | new
    · exact h.gone f k x old
    · cases quiet _ new
  started k e found := List.mem_append_left _ (h.started k e found)
  cached k e x found expires := by
    rw [lastExecution_other fun e he => quiet_execution (quiet e he) k]
    exact h.cached k e x found expires
  latest f k v t ttl last := by
    rw [lastExecution_other fun e he => quiet_execution (quiet e he) k] at last
    exact h.latest f k v t ttl last
  joined i c f waiting := by
    obtain ⟨before, after, at_, started, fresh, value⟩ := h.joined i c f waiting
    refine ⟨before, after ++ a, joinedAt_append at_ ?_, started, fresh, fun v result => ?_⟩
    · intro k g member
      cases quiet _ member
    · obtain ⟨t, ttl, member⟩ := value v result
      exact ⟨t, ttl, List.mem_append_left _ member⟩

theorem chronicle_removed {s : Store Task V} (h : Chronicle s) (id : ℕ) :
    Chronicle { s with callers := Function.update s.callers id none } where
  value := h.value
  gone f k x ended := by
    obtain ⟨known, left, none⟩ := h.gone f k x ended
    refine ⟨known, ?_, none⟩
    simp only [Function.update_apply]
    split
    · rfl
    · exact left
  started := h.started
  cached := h.cached
  latest := h.latest
  joined i c f waiting := h.joined i c f ⟨caller_remains waiting.1, waiting.2⟩

theorem chronicle_leave {s : Store Task V} (h : Chronicle s) (id : ℕ) {es : List (Event V)}
    (quiet : ∀ e ∈ es, e.quiet = true) : Chronicle (leave s id es) :=
  chronicle_quiet (chronicle_removed h id) quiet

/-- A call that has not ended an execution becomes the owner of its key. -/
theorem chronicle_own {s : Store Task V} (h : Chronicle s) {id : ℕ} (c : Caller Task)
    (new : ∀ k x, .stopped id k x ∉ s.log) :
    Chronicle { s with
      entries := s.entries.insert c.key { future := id, ownerTask := c.task }
      callers := Function.update s.callers id (some { c with phase := .executing })
      log := s.log ++ [.started id c.key] } where
  value f k v t ttl member := by
    rcases List.mem_append.mp member with old | start
    · exact h.value f k v t ttl old
    · simp at start
  gone f k x member := by
    rcases List.mem_append.mp member with old | start
    · obtain ⟨known, left, none⟩ := h.gone f k x old
      have other : f ≠ id := by
        rintro rfl
        exact new k x old
      exact ⟨known, by simpa [other] using left, none⟩
    · simp at start
  started k e found := by
    rw [lookup_insert] at found
    split at found
    · rename_i same
      cases found
      simp [same]
    · exact List.mem_append_left _ (h.started k e found)
  cached k e x found expires := by
    rw [lookup_insert] at found
    split at found
    · cases found
      cases expires
    · rename_i other
      rw [lastExecution_other (by simpa [Event.executionKey] using Ne.symm other)]
      exact h.cached k e x found expires
  latest f k v t ttl last := by
    by_cases same : k = c.key
    · subst same
      simp [lastExecution, Event.executionKey] at last
    · rw [lastExecution_other (by simpa [Event.executionKey] using Ne.symm same)] at last
      simpa [lookup_insert, same] using h.latest f k v t ttl last
  joined i d f waiting := by
    rcases caller_update waiting.1 with ⟨_, start⟩ | ⟨_, old⟩
    · cases start
      cases waiting.2
    · obtain ⟨before, after, at_, started, fresh, value⟩ := h.joined i d f ⟨old, waiting.2⟩
      refine ⟨before, _, joinedAt_append at_ (by simp), started, fresh, fun v result => ?_⟩
      obtain ⟨t, ttl, member⟩ := value v result
      exact ⟨t, ttl, List.mem_append_left _ member⟩

theorem chronicle_wait {s : Store Task V} (h : Chronicle s) {id : ℕ} (c : Caller Task)
    (new : ∀ k x, .stopped id k x ∉ s.log) {e : Entry Task}
    (found : s.entries.lookup c.key = some e) (open_ : ∀ v, s.futures e.future ≠ .result v) :
    Chronicle { s with
      callers := Function.update s.callers id (some { c with phase := .waiting e.future })
      log := s.log ++ [.joined id c.key e.future] } where
  value f k v t ttl member := by
    rcases List.mem_append.mp member with old | join
    · exact h.value f k v t ttl old
    · simp at join
  gone f k x member := by
    rcases List.mem_append.mp member with old | join
    · obtain ⟨known, left, none⟩ := h.gone f k x old
      have other : f ≠ id := by
        rintro rfl
        exact new k x old
      exact ⟨known, by simpa [other] using left, none⟩
    · simp at join
  started k e found := List.mem_append_left _ (h.started k e found)
  cached k e x found expires := by
    rw [lastExecution_other (by simp [Event.executionKey])]
    exact h.cached k e x found expires
  latest f k v t ttl last := by
    rw [lastExecution_other (by simp [Event.executionKey])] at last
    exact h.latest f k v t ttl last
  joined i d f waiting := by
    rcases caller_update waiting.1 with ⟨rfl, join⟩ | ⟨ne, old⟩
    · cases join
      cases waiting.2
      refine ⟨s.log, [], ⟨rfl, by simp⟩, h.started _ _ found, ?_, fun v result => ?_⟩
      · intro k v t ttl ended
        exact open_ v (h.value _ _ _ _ _ ended)
      · exact absurd result (open_ v)
    · obtain ⟨before, after, at_, started, fresh, value⟩ := h.joined i d f ⟨old, waiting.2⟩
      refine ⟨before, _, joinedAt_append at_ (by simp [ne]), started, fresh, fun v result => ?_⟩
      obtain ⟨t, ttl, member⟩ := value v result
      exact ⟨t, ttl, List.mem_append_left _ member⟩

theorem coherent_id_lt {s : Store Task V} (h : Coherent s) {id : ℕ} {c : Caller Task}
    (present : s.callers id = some c) : id < s.nextId := by
  by_contra late
  cases present.symm.trans (h.fresh_caller id (Nat.not_lt.mp late))

theorem chronicle_succeed {s : Store Task V} (coherent : Coherent s) (h : Chronicle s) {id : ℕ}
    {c : Caller Task} (executing : Executing s id c) (v : V) :
    Chronicle { s with
      entries := s.entries.insert c.key ⟨id, c.task, some (s.now + c.ttl)⟩
      futures := Function.update s.futures id (.result v)
      callers := Function.update s.callers id none
      log := s.log ++ [.succeeded id c.key v s.now c.ttl] } := by
  obtain ⟨stored, pending⟩ := coherent.owner id c executing
  have other_value (f : ℕ) (w : V) (result : s.futures f = .result w) : f ≠ id := by
    rintro rfl
    cases pending.symm.trans result
  refine ⟨?_, ?_, ?_, ?_, ?_, ?_⟩
  · intro f k w t ttl member
    rcases List.mem_append.mp member with old | end_
    · have result := h.value f k w t ttl old
      simpa [other_value f w result] using result
    · simp at end_
      simp [end_]
  · intro f k x member
    rcases List.mem_append.mp member with old | end_
    · obtain ⟨known, left, none⟩ := h.gone f k x old
      have other : f ≠ id := by
        rintro rfl
        cases left.symm.trans executing.1
      exact ⟨known, by simpa [other] using left, by simpa [other] using none⟩
    · simp at end_
  · intro k e found
    apply List.mem_append_left _
    rw [lookup_insert] at found
    split at found
    · rename_i same
      cases found
      have start := h.started c.key _ stored
      exact same ▸ start
    · exact h.started k e found
  · intro k e x found expires
    rw [lookup_insert] at found
    split at found
    · rename_i same
      subst same
      cases found
      cases expires
      exact ⟨v, s.now, c.ttl, by simp [lastExecution, Event.executionKey], rfl, le_refl _⟩
    · rename_i other
      rw [lastExecution_other (by simpa [Event.executionKey] using Ne.symm other)]
      exact h.cached k e x found expires
  · intro f k w t ttl last
    by_cases same : k = c.key
    · subst same
      simp [lastExecution, Event.executionKey] at last
      obtain ⟨rfl, rfl, rfl, rfl⟩ := last
      exact ⟨le_refl _, fun _ => ⟨c.task, by simp⟩⟩
    · rw [lastExecution_other (by simpa [Event.executionKey] using Ne.symm same)] at last
      simpa [lookup_insert, same] using h.latest f k w t ttl last
  · intro i d f waiting
    have old : Waiting s i d f := ⟨caller_remains waiting.1, waiting.2⟩
    obtain ⟨before, after, at_, started, fresh, value⟩ := h.joined i d f old
    refine ⟨before, _, joinedAt_append at_ (by simp), started, fresh, fun w result => ?_⟩
    by_cases same : f = id
    · subst same
      obtain ⟨e, found, own, _⟩ := coherent.waiting i d f old pending
      have key := coherent.entry_inj d.key c.key e _ found stored own
      have value : v = w := by simpa using result
      exact ⟨s.now, c.ttl, by simp [key, value]⟩
    · obtain ⟨t, ttl, member⟩ := value w (by simpa [same] using result)
      exact ⟨t, ttl, List.mem_append_left _ member⟩

/-- The owner ends without a value; its key keeps no value to replay. -/
theorem chronicle_stop {s : Store Task V} (coherent : Coherent s) (h : Chronicle s) {id : ℕ}
    {c : Caller Task} (executing : Executing s id c) (entries : Entries Task)
    (others : ∀ k, k ≠ c.key → entries.lookup k = s.entries.lookup k)
    (own : ∀ e, entries.lookup c.key = some e → e = ⟨id, c.task, none⟩)
    (state : FutureState V) (unset : ∀ v, state ≠ .result v) (x : Raised) :
    Chronicle { s with
      entries := entries
      futures := Function.update s.futures id state
      callers := Function.update s.callers id none
      log := s.log ++ [.stopped id c.key x] } := by
  obtain ⟨stored, pending⟩ := coherent.owner id c executing
  have other_value (f : ℕ) (w : V) (result : s.futures f = .result w) : f ≠ id := by
    rintro rfl
    cases pending.symm.trans result
  refine ⟨?_, ?_, ?_, ?_, ?_, ?_⟩
  · intro f k w t ttl member
    rcases List.mem_append.mp member with old | end_
    · have result := h.value f k w t ttl old
      simpa [other_value f w result] using result
    · simp at end_
  · intro f k y member
    rcases List.mem_append.mp member with old | end_
    · obtain ⟨known, left, none⟩ := h.gone f k y old
      have other : f ≠ id := by
        rintro rfl
        cases left.symm.trans executing.1
      exact ⟨known, by simpa [other] using left, by simpa [other] using none⟩
    · simp at end_
      obtain ⟨rfl, _, _⟩ := end_
      exact ⟨coherent_id_lt coherent executing.1, by simp, by simpa using unset⟩
  · intro k e found
    apply List.mem_append_left _
    by_cases same : k = c.key
    · subst same
      rw [own e found]
      exact h.started c.key _ stored
    · exact h.started k e ((others k same).symm.trans found)
  · intro k e y found expires
    have other : k ≠ c.key := by
      rintro rfl
      cases (own e found) ▸ expires
    rw [lastExecution_other (by simpa [Event.executionKey] using Ne.symm other)]
    exact h.cached k e y ((others k other).symm.trans found) expires
  · intro f k w t ttl last
    by_cases same : k = c.key
    · subst same
      simp [lastExecution, Event.executionKey] at last
    · rw [lastExecution_other (by simpa [Event.executionKey] using Ne.symm same)] at last
      simpa [others k same] using h.latest f k w t ttl last
  · intro i d f waiting
    have old : Waiting s i d f := ⟨caller_remains waiting.1, waiting.2⟩
    obtain ⟨before, after, at_, started, fresh, value⟩ := h.joined i d f old
    refine ⟨before, _, joinedAt_append at_ (by simp), started, fresh, fun w result => ?_⟩
    have other : f ≠ id := by
      rintro rfl
      exact unset w (by simpa using result)
    obtain ⟨t, ttl, member⟩ := value w (by simpa [other] using result)
    exact ⟨t, ttl, List.mem_append_left _ member⟩

theorem chronicle_finish {s : Store Task V} (coherent : Coherent s) (h : Chronicle s) {id : ℕ}
    {c : Caller Task} (executing : Executing s id c) (o : Except Raised V) :
    Chronicle (finish s id c o) := by
  obtain ⟨stored, pending⟩ := coherent.owner id c executing
  have open_ : (s.futures id).done = false := by simp [pending, FutureState.done]
  have erased (k : String) (other : k ≠ c.key) :
      (s.entries.erase c.key).lookup k = s.entries.lookup k := by
    rw [lookup_erase, if_neg other]
  have stopped (state : FutureState V) (unset : ∀ v, state ≠ .result v) (x : Raised) :=
    chronicle_quiet (a := [.raised id x]) (chronicle_stop coherent h executing
      (s.entries.erase c.key) erased (by simp) state unset x) (by simp [Event.quiet])
  cases o with
  | ok v =>
    have next := chronicle_quiet (a := [.returned id ⟨v, c.key, .executed⟩ s.now])
      (chronicle_succeed coherent h executing v) (by simp [Event.quiet])
    simpa [finish, leave, open_, publish_own stored rfl] using next
  | error x =>
    cases x with
    | cancelled =>
      have next := stopped .ownerCancelled (by simp) .cancelled
      simpa [finish, leave, open_, removeEntryNow_own stored rfl] using next
    | exception e =>
      have next := stopped (.exception e) (by simp) (.exception e)
      simpa [finish, leave, open_, removeEntryNow_own stored rfl] using next
    | baseException t =>
      have next := chronicle_quiet (a := [.raised id (.baseException t)])
        (chronicle_stop coherent h executing s.entries (fun _ _ => rfl)
          (fun e found => (Option.some.inj (stored.symm.trans found)).symm) (s.futures id)
          (by simp [pending]) (.baseException t)) (by simp [Event.quiet])
      simpa [finish, leave] using next

theorem arriving_new {s : Store Task V} (h : Chronicle s) (k : String) (x : Raised) :
    .stopped s.nextId k x ∉ s.log :=
  fun ended => absurd (h.gone _ k x ended).1 (Nat.lt_irrefl _)

theorem waiting_new {s : Store Task V} (h : Chronicle s) {id f : ℕ} {c : Caller Task}
    (waiting : Waiting s id c f) (k : String) (x : Raised) : .stopped id k x ∉ s.log := by
  intro ended
  cases waiting.1.symm.trans (h.gone id k x ended).2.1

/-- A live entry whose future holds a value caches the latest execution of its key. -/
theorem cached_value {s : Store Task V} (coherent : Coherent s) (h : Chronicle s) {k : String}
    {e : Entry Task} (found : s.entries.lookup k = some e) (fresh : expired s.now e = false) {v : V}
    (result : s.futures e.future = .result v) : ∃ t ttl,
      lastExecution k s.log = some (.succeeded e.future k v t ttl) ∧ t ≤ s.now ∧ s.now < t + ttl := by
  rcases coherent.entry k e found with ⟨_, pending⟩ | ⟨_, x, expires, _⟩
  · cases pending.symm.trans result
  · obtain ⟨w, t, ttl, last, rfl, past⟩ := h.cached k e x found expires
    have same := h.value _ _ _ _ _ (lastExecution_mem last)
    cases same.symm.trans result
    refine ⟨t, ttl, last, past, not_le.mp fun late => ?_⟩
    rw [(expired_iff expires).mpr late] at fresh
    cases fresh

theorem joined_value {s : Store Task V} (h : Chronicle s) {i f : ℕ} {c : Caller Task}
    (waiting : Waiting s i c f) {v : V} (result : s.futures f = .result v) (now : ℚ) :
    Faithful s.log (.returned i ⟨v, c.key, .joined⟩ now) := by
  obtain ⟨before, after, at_, started, fresh, value⟩ := h.joined i c f waiting
  obtain ⟨t, ttl, member⟩ := value v result
  refine ⟨before, after, f, at_, ⟨started, fresh, fun k x ended => ?_⟩, t, ttl, member⟩
  exact (h.gone f k x (before_subset at_ ended)).2.2 v result

theorem faithful_finish {s : Store Task V} (faithful : Justified Faithful s.log) (id : ℕ)
    (c : Caller Task) (o : Except Raised V) : Justified Faithful (finish s id c o).log := by
  have both (e e' : Event V) (first : Faithful s.log e) (second : Faithful (s.log ++ [e]) e') :
      Justified Faithful (s.log ++ [e, e']) := by
    simpa using justified_snoc (justified_snoc faithful first) second
  cases o with
  | ok v => exact both _ _ trivial trivial
  | error x =>
    cases x with
    | cancelled => exact both _ _ trivial trivial
    | exception e => exact both _ _ trivial trivial
    | baseException t => exact both _ _ trivial trivial

section
variable [DecidableEq Task]

theorem chronicle_enter {s : Store Task V} (h : Chronicle s) {id : ℕ}
    (new : ∀ k x, .stopped id k x ∉ s.log) (c : Caller Task) : Chronicle (enter s id c) := by
  have purged := chronicle_purge h
  rcases enter_cases s id c with
    ⟨_, eq⟩ | ⟨e, _, _, _, _, eq⟩ | ⟨e, found, fresh, ⟨v, _, eq⟩ | ⟨x, _, eq⟩ | ⟨why, eq⟩⟩ <;>
    rw [eq]
  · exact chronicle_own purged c new
  · exact chronicle_leave purged id (by simp [Event.quiet])
  · exact chronicle_leave purged id (by simp [Event.quiet])
  · exact chronicle_leave purged id (by simp [Event.quiet])
  · apply chronicle_wait purged c new (purge_lookup.mpr ⟨found, fresh⟩)
    intro v result
    rcases why with ⟨pending, _⟩ | cancelled
    · cases pending.symm.trans result
    · cases cancelled.symm.trans result

theorem chronicle_step {s t : Store Task V} (coherent : Coherent s) (h : Chronicle s)
    {l : Label Task V} (hs : step s l = some t) : Chronicle t := by
  cases step_shape hs with
  | refused => exact chronicle_quiet (chronicle_next h) (by simp [Event.quiet])
  | enters => exact chronicle_enter (chronicle_next h) (fun k x => arriving_new h k x) _
  | finishes o executing => exact chronicle_finish coherent h executing o
  | @wakes id c f _ waiting woken =>
    unfold wake at woken
    split at woken
    · cases woken
    · cases woken
      exact chronicle_leave h id (by simp [Event.quiet])
    · cases woken
      exact chronicle_leave h id (by simp [Event.quiet])
    · cases woken
      exact chronicle_enter h (waiting_new h waiting) c
  | @cancels id c f waiting => exact chronicle_leave h id (by simp [Event.quiet])
  | purges e counts =>
    apply chronicle_quiet (chronicle_purge h)
    rcases counts with ⟨n, rfl⟩ | ⟨n, rfl⟩ <;> simp [Event.quiet]
  | advances d nonneg => exact chronicle_advance h nonneg

theorem chronicle_reachable {start : ℚ} {s : Store Task V}
    (h : Reachable step (initial start) s) : Coherent s ∧ Chronicle s :=
  invariant_reachable (I := fun s => Coherent s ∧ Chronicle s)
    ⟨coherent_initial start, chronicle_initial start⟩
    (fun _ _ _ inv hs => ⟨coherent_step inv.1 hs, chronicle_step inv.1 inv.2 hs⟩) h

theorem faithful_enter {s : Store Task V} (coherent : Coherent s) (h : Chronicle s)
    (faithful : Justified Faithful s.log) (id : ℕ) (c : Caller Task) :
    Justified Faithful (enter s id c).log := by
  rcases enter_cases s id c with
    ⟨_, eq⟩ | ⟨e, _, _, _, _, eq⟩ | ⟨e, found, fresh, ⟨v, result, eq⟩ | ⟨x, _, eq⟩ | ⟨_, eq⟩⟩ <;>
    rw [eq]
  · exact justified_snoc faithful trivial
  · exact justified_snoc faithful trivial
  · apply justified_snoc faithful
    obtain ⟨t, ttl, last, past, early⟩ := cached_value coherent h found fresh result
    exact ⟨e.future, t, ttl, last, past, early, fun k x ended => (h.gone _ k x ended).2.2 v result⟩
  · exact justified_snoc faithful trivial
  · exact justified_snoc faithful trivial

theorem faithful_step {s t : Store Task V} (coherent : Coherent s) (h : Chronicle s)
    (faithful : Justified Faithful s.log) {l : Label Task V} (hs : step s l = some t) :
    Justified Faithful t.log := by
  cases step_shape hs with
  | refused => exact justified_snoc faithful trivial
  | enters => exact faithful_enter (coherent_next coherent) (chronicle_next h) faithful _ _
  | finishes o executing => exact faithful_finish faithful _ _ o
  | wakes waiting woken =>
    unfold wake at woken
    split at woken
    · cases woken
    · cases woken
      exact justified_snoc faithful (joined_value h waiting ‹_› _)
    · cases woken
      exact justified_snoc faithful trivial
    · cases woken
      exact faithful_enter coherent h faithful _ _
  | cancels => exact justified_snoc faithful trivial
  | purges e counts =>
    apply justified_snoc faithful
    rcases counts with ⟨n, rfl⟩ | ⟨n, rfl⟩ <;> exact trivial
  | advances => exact faithful

theorem faithful_reachable {start : ℚ} {s : Store Task V}
    (h : Reachable step (initial start) s) : Justified Faithful s.log := by
  have all := invariant_reachable
    (I := fun s : Store Task V => (Coherent s ∧ Chronicle s) ∧ Justified Faithful s.log)
    ⟨⟨coherent_initial start, chronicle_initial start⟩, justified_nil _⟩
    (fun _ _ _ inv hs => ⟨⟨coherent_step inv.1.1 hs, chronicle_step inv.1.1 inv.1.2 hs⟩,
      faithful_step inv.1.1 inv.1.2 inv.2 hs⟩) h
  exact all.2

/-- A lookup within the ttl of the latest execution, which succeeded, replays its value. -/
theorem replay_step {s : Store Task V} (h : Chronicle s)
    {l : Label Task V} {i f : ℕ} {c : Caller Task} (looks : LooksUp s l i c) {v : V} {t ttl : ℚ}
    (last : lastExecution c.key s.log = some (.succeeded f c.key v t ttl))
    (early : s.now < t + ttl) : ∃ u, step s l = some u ∧
      u.log = s.log ++ [.returned i ⟨v, c.key, .replayed⟩ s.now] := by
  obtain ⟨n, hs⟩ := looksUp_step looks
  obtain ⟨task, stored⟩ := (h.latest f c.key v t ttl last).2 early
  have result := h.value _ _ _ _ _ (lastExecution_mem last)
  refine ⟨_, hs, ?_⟩
  rcases enter_cases { s with nextId := n } i c with
    ⟨free, _⟩ | ⟨e, found, _, busy, _, _⟩ | ⟨e, found, _, ⟨w, value, eq⟩ | ⟨x, failed, _⟩ | ⟨why, _⟩⟩
  · have late := (expired_iff (t := t + ttl) rfl).mp (free _ stored)
    exact absurd early (not_lt.mpr late)
  · cases stored.symm.trans found
    change (s.futures f).done = false at busy
    rw [result] at busy
    cases busy
  · cases stored.symm.trans found
    cases result.symm.trans value
    rw [eq]
    rfl
  · cases stored.symm.trans found
    cases result.symm.trans failed
  · cases stored.symm.trans found
    rcases why with ⟨pending, _⟩ | cancelled
    · cases result.symm.trans pending
    · cases result.symm.trans cancelled

/-- In every reachable state every joined or replayed result in the history is faithful to
    it, no execution ever has two values, and a lookup within the ttl of the latest
    execution, if it succeeded, replays its value and starts nothing. -/
theorem results_agree (start : ℚ) (s : Store Task V) (h : Reachable step (initial start) s) :
    Justified Faithful s.log ∧
    (∀ f k v t ttl k' v' t' ttl', .succeeded f k v t ttl ∈ s.log →
      .succeeded f k' v' t' ttl' ∈ s.log → v = v') ∧
    (∀ l i c f v t ttl, LooksUp s l i c →
      lastExecution c.key s.log = some (.succeeded f c.key v t ttl) →
      t ≤ s.now ∧ (s.now < t + ttl → ∃ u, step s l = some u ∧
        u.log = s.log ++ [.returned i ⟨v, c.key, .replayed⟩ s.now])) := by
  obtain ⟨coherent, chronicle⟩ := chronicle_reachable h
  refine ⟨faithful_reachable h, ?_, ?_⟩
  · intro f k v t ttl k' v' t' ttl' first second
    have same := (chronicle.value _ _ _ _ _ first).symm.trans (chronicle.value _ _ _ _ _ second)
    cases same
    rfl
  · intro l i c f v t ttl looks last
    exact ⟨(chronicle.latest f c.key v t ttl last).1,
      fun early => replay_step chronicle looks last early⟩

def sharedRun : List (Label ℕ ℕ) :=
  [.execute 1 "k" 60, .execute 2 "k" 5, .finish 0 (.ok 7), .wake 1, .advance 30]

theorem results_agree_shared : ∃ s u : Store ℕ ℕ, run step (initial 0) sharedRun = some s ∧
    Justified Faithful s.log ∧ .returned 1 ⟨7, "k", .joined⟩ 0 ∈ s.log ∧
    step s (.execute 3 "k" 5) = some u ∧
    u.log = s.log ++ [.returned s.nextId ⟨7, "k", .replayed⟩ s.now] := by
  have done : ∃ s : Store ℕ ℕ, run step (initial 0) sharedRun = some s := ⟨_, rfl⟩
  have log : (run step (initial 0 : Store ℕ ℕ) sharedRun).map Store.log =
      some [.started 0 "k", .joined 1 "k" 0, .succeeded 0 "k" 7 0 60,
        .returned 0 ⟨7, "k", .executed⟩ 0, .returned 1 ⟨7, "k", .joined⟩ 0] := rfl
  have time : ((run step (initial 0 : Store ℕ ℕ) sharedRun).any (fun s => s.now < 0 + 60)) = true := by
    decide +kernel
  obtain ⟨s, hs⟩ := done
  rw [hs] at log time
  have agree := results_agree 0 s ⟨_, hs⟩
  have last : lastExecution "k" s.log = some (.succeeded 0 "k" 7 0 60) := by
    rw [Option.some.inj log]
    rfl
  obtain ⟨u, step_eq, replayed⟩ := (agree.2.2 _ _ _ _ _ _ _
    (.arrives 3 (by decide : isBlank "k" = false) (by decide : (0 : ℚ) < 5)) last).2
    (by simpa using time)
  exact ⟨s, u, hs, agree.1, by simp [Option.some.inj log], step_eq, replayed⟩

end

end Relprim.IdempotencyRuns
