import Relprim.IdempotencyInvariant

/-!
What the calls on one key observe does not depend on the calls on other keys, nor on
purges. Deleting those from a run renumbers the calls that remain; the two runs are
related by a simulation that compares the live entries of the key, since the stores
may hold different sets of expired ones.
-/
namespace Relprim.IdempotencyRuns
open LabelledRuns InMemoryIdempotencyStore Dictionary
variable {Task V : Type}

/-! The projection of a run to one key. -/

def Label.executed : Label Task V → Option String
  | .execute _ key _ => some key
  | _ => none

def executedKeys (ls : List (Label Task V)) : List String := ls.filterMap Label.executed

/-- The number of call `i` when only the calls on `key` are counted. -/
def rank (key : String) (keys : List String) (i : ℕ) : ℕ := (keys.take i).count key

def Label.rename (f : ℕ → ℕ) : Label Task V → Label Task V
  | .execute task key ttl => .execute task key ttl
  | .finish id o => .finish (f id) o
  | .wake id => .wake (f id)
  | .cancelJoined id => .cancelJoined (f id)
  | .purgeExpired => .purgeExpired
  | .entryCount => .entryCount
  | .advance d => .advance d

def Label.concerns (key : String) (keys : List String) : Label Task V → Bool
  | .execute _ k _ => k = key
  | .finish id _ | .wake id | .cancelJoined id => keys[id]? = some key
  | .purgeExpired | .entryCount => false
  | .advance _ => true

/-- The run without the steps that concern other keys and without the purges. -/
def deleteOthers (key : String) (ls : List (Label Task V)) : List (Label Task V) :=
  (ls.filter (Label.concerns key (executedKeys ls))).map (Label.rename (rank key (executedKeys ls)))

def Event.call : Event V → Option ℕ
  | .started id _ | .succeeded id _ _ _ _ | .stopped id _ _ | .joined id _ _ | .returned id _ _
  | .raised id _ => some id
  | .purged _ | .counted _ => none

def Event.rename (f : ℕ → ℕ) : Event V → Event V
  | .started id key => .started (f id) key
  | .succeeded id key v t ttl => .succeeded (f id) key v t ttl
  | .stopped id key x => .stopped (f id) key x
  | .joined id key owner => .joined (f id) key (f owner)
  | .returned id r now => .returned (f id) r now
  | .raised id x => .raised (f id) x
  | .purged n => .purged n
  | .counted n => .counted n

def observe (key : String) (keys : List String) (e : Event V) : Option (Event V) :=
  if (e.call.bind fun id => keys[id]?) = some key then some (e.rename (rank key keys)) else none

/-- What the calls on `key` observe: which of them ran the operation, with what outcome,
    what each was returned or raised, and when. -/
def observations (key : String) (keys : List String) (log : List (Event V)) : List (Event V) :=
  log.filterMap (observe key keys)

theorem rank_own {key : String} {keys : List String} {i : ℕ} (h : keys[i]? = some key) :
    rank key keys (i + 1) = rank key keys i + 1 := by
  simp [rank, List.take_add_one, h]

theorem rank_other {key : String} {keys : List String} {i : ℕ} (h : keys[i]? ≠ some key) :
    rank key keys (i + 1) = rank key keys i := by
  cases found : keys[i]? with
  | none => simp [rank, List.take_add_one, found]
  | some k =>
    have other : k ≠ key := fun same => h (same ▸ found)
    simp [rank, List.take_add_one, found, other]

theorem rank_mono (key : String) (keys : List String) : Monotone (rank key keys) := by
  apply monotone_nat_of_le_succ
  intro i
  by_cases own : keys[i]? = some key
  · rw [rank_own own]
    exact Nat.le_succ _
  · rw [rank_other own]

theorem rank_lt {key : String} {keys : List String} {i j : ℕ} (h : keys[i]? = some key)
    (less : i < j) : rank key keys i < rank key keys j := by
  have next := rank_mono key keys (Nat.succ_le_of_lt less)
  rw [Nat.succ_eq_add_one, rank_own h] at next
  omega

theorem rank_inj {key : String} {keys : List String} {i j : ℕ} (hi : keys[i]? = some key)
    (hj : keys[j]? = some key) (same : rank key keys i = rank key keys j) : i = j := by
  rcases Nat.lt_trichotomy i j with less | equal | more
  · have := rank_lt hi less
    omega
  · exact equal
  · have := rank_lt hj more
    omega

/-! The live entry of a key. -/

def liveAt (now : ℚ) (es : Entries Task) (key : String) : Option (Entry Task) :=
  (InMemoryIdempotencyStore.purgeExpired now es).1.lookup key

theorem liveAt_eq (now : ℚ) (es : Entries Task) (key : String) :
    liveAt now es key = (es.lookup key).filter fun e => !expired now e :=
  lookup_keep _ _ _

theorem liveAt_purge (now : ℚ) (es : Entries Task) (key : String) :
    liveAt now (InMemoryIdempotencyStore.purgeExpired now es).1 key = liveAt now es key := by
  rw [liveAt_eq now (InMemoryIdempotencyStore.purgeExpired now es).1]
  change (liveAt now es key).filter _ = _
  rw [liveAt_eq, Option.filter_filter]
  simp

theorem liveAt_insert (now : ℚ) (es : Entries Task) (a key : String) (e : Entry Task) :
    liveAt now (es.insert a e) key =
      if key = a then (some e).filter (fun e => !expired now e) else liveAt now es key := by
  rw [liveAt_eq, lookup_insert]
  split
  · rfl
  · rw [liveAt_eq]

theorem liveAt_erase (now : ℚ) (es : Entries Task) (a key : String) :
    liveAt now (es.erase a) key = if key = a then none else liveAt now es key := by
  rw [liveAt_eq, lookup_erase]
  split
  · rfl
  · rw [liveAt_eq]

theorem liveAt_later {now later : ℚ} (le : now ≤ later) (es : Entries Task) (key : String) :
    liveAt later es key = (liveAt now es key).filter fun e => !expired later e := by
  rw [liveAt_eq, liveAt_eq, Option.filter_filter]
  congr 1
  funext e
  cases e with
  | mk future owner expires =>
    cases expires with
    | none => rfl
    | some t =>
      by_cases live : t ≤ later
      · simp [expired, live]
      · have before : ¬ t ≤ now := fun h => live (le_trans h le)
        simp [expired, live, before]

/-! The simulation. -/

structure Keyed (keys : List String) (s : Store Task V) : Prop where
  callers : ∀ i c, s.callers i = some c → keys[i]? = some c.key
  waiting : ∀ i c f, Waiting s i c f → keys[f]? = some c.key
  entries : ∀ k e, s.entries.lookup k = some e → keys[e.future]? = some k

def Phase.rename (f : ℕ → ℕ) : Phase → Phase
  | .executing => .executing
  | .waiting future => .waiting (f future)

def Caller.rename (f : ℕ → ℕ) (c : Caller Task) : Caller Task :=
  { c with phase := c.phase.rename f }

def renameEntry (f : ℕ → ℕ) (e : Entry Task) : Entry Task := { e with future := f e.future }

/-- `t` is `s` as the calls on `key` see it. -/
structure Projects (key : String) (keys : List String) (s t : Store Task V) : Prop where
  next : t.nextId = rank key keys s.nextId
  now : t.now = s.now
  callers : ∀ i, keys[i]? = some key →
    t.callers (rank key keys i) = (s.callers i).map (Caller.rename (rank key keys))
  futures : ∀ i, keys[i]? = some key → t.futures (rank key keys i) = s.futures i
  live : liveAt t.now t.entries key =
    (liveAt s.now s.entries key).map (renameEntry (rank key keys))
  log : t.log = observations key keys s.log

theorem observations_append (key : String) (keys : List String) (log es : List (Event V)) :
    observations key keys (log ++ es) = observations key keys log ++ observations key keys es :=
  List.filterMap_append

theorem observations_other {key : String} {keys : List String} {es : List (Event V)}
    (other : ∀ e ∈ es, (e.call.bind fun id => keys[id]?) ≠ some key) :
    observations key keys es = [] := by
  rw [observations, List.filterMap_eq_nil_iff]
  intro e he
  rw [observe, if_neg (other e he)]

theorem observations_own {key : String} {keys : List String} {es : List (Event V)}
    (own : ∀ e ∈ es, (e.call.bind fun id => keys[id]?) = some key) :
    observations key keys es = es.map (Event.rename (rank key keys)) := by
  induction es with
  | nil => rfl
  | cons e es ih =>
    rw [observations, List.filterMap_cons]
    simp only [observe, if_pos (own e List.mem_cons_self)]
    rw [List.map_cons, ← ih fun d hd => own d (List.mem_cons_of_mem _ hd)]
    rfl

theorem projects_initial (key : String) (keys : List String) (start : ℚ) :
    Projects key keys (initial start : Store Task V) (initial start) where
  next := by simp [initial, rank]
  now := rfl
  callers _ _ := rfl
  futures _ _ := rfl
  live := by simp [initial, liveAt_eq]
  log := rfl

/-! Steps of other keys, which `t` does not take. -/

/-- `s'` differs from `s` only in what belongs to other keys. -/
structure Untouched (key : String) (keys : List String) (s s' : Store Task V) : Prop where
  next : rank key keys s'.nextId = rank key keys s.nextId
  now : s'.now = s.now
  callers : ∀ i, keys[i]? = some key → s'.callers i = s.callers i
  futures : ∀ i, keys[i]? = some key → s'.futures i = s.futures i
  live : liveAt s'.now s'.entries key = liveAt s.now s.entries key
  log : observations key keys s'.log = observations key keys s.log

theorem projects_untouched {key : String} {keys : List String} {s s' t : Store Task V}
    (h : Projects key keys s t) (u : Untouched key keys s s') : Projects key keys s' t where
  next := h.next.trans u.next.symm
  now := h.now.trans u.now.symm
  callers i hi := by rw [u.callers i hi, h.callers i hi]
  futures i hi := by rw [u.futures i hi, h.futures i hi]
  live := by rw [u.live, h.live]
  log := by rw [u.log, h.log]

section
variable {key : String} {keys : List String}

theorem update_other {A : Type} {f : ℕ → A} {id i : ℕ} {a : A} (other : keys[id]? ≠ some key)
    (own : keys[i]? = some key) : Function.update f id a i = f i := by
  apply Function.update_of_ne
  intro same
  exact other (same ▸ own)

theorem log_other {id : ℕ} {log es : List (Event V)} (other : keys[id]? ≠ some key)
    (about : ∀ e ∈ es, e.call = some id) :
    observations key keys (log ++ es) = observations key keys log := by
  have none : observations key keys es = [] := by
    apply observations_other
    intro e he
    simpa [about e he] using other
  rw [observations_append, none, List.append_nil]

theorem untouched_caller {s : Store Task V} {id : ℕ} {es : List (Event V)}
    (other : keys[id]? ≠ some key) (x : Option (Caller Task)) (about : ∀ e ∈ es, e.call = some id) :
    Untouched key keys s
      { s with callers := Function.update s.callers id x, log := s.log ++ es } where
  next := rfl
  now := rfl
  callers _ hi := update_other other hi
  futures _ _ := rfl
  live := rfl
  log := log_other other about

theorem Untouched.trans {s s' s'' : Store Task V} (first : Untouched key keys s s')
    (second : Untouched key keys s' s'') : Untouched key keys s s'' where
  next := second.next.trans first.next
  now := second.now.trans first.now
  callers i hi := (second.callers i hi).trans (first.callers i hi)
  futures i hi := (second.futures i hi).trans (first.futures i hi)
  live := second.live.trans first.live
  log := second.log.trans first.log

theorem untouched_store {s : Store Task V} {entries : Entries Task} {f : ℕ → FutureState V}
    (live : liveAt s.now entries key = liveAt s.now s.entries key)
    (same : ∀ i, keys[i]? = some key → f i = s.futures i) :
    Untouched key keys s { s with entries, futures := f } where
  next := rfl
  now := rfl
  callers _ _ := rfl
  futures := same
  live := live
  log := rfl

theorem live_publish (now ttl : ℚ) {k : String} (id : ℕ) (es : Entries Task) (other : k ≠ key) :
    liveAt now (publish now ttl k id es) key = liveAt now es key := by
  unfold publish
  split
  · split
    · rw [liveAt_insert, if_neg other.symm]
    · rfl
  · rfl

theorem live_remove (now : ℚ) {k : String} (id : ℕ) (es : Entries Task) (other : k ≠ key) :
    liveAt now (removeEntryNow k id es) key = liveAt now es key := by
  unfold removeEntryNow
  split
  · split
    · rw [liveAt_erase, if_neg other.symm]
    · rfl
  · rfl

theorem settled_other {s : Store Task V} {id i : ℕ} {x : FutureState V}
    (other : keys[id]? ≠ some key) (own : keys[i]? = some key) :
    (if (s.futures id).done then s.futures else Function.update s.futures id x) i =
      s.futures i := by
  split
  · rfl
  · exact update_other other own

theorem untouched_finish {s : Store Task V} {id : ℕ} {c : Caller Task}
    (filed : keys[id]? = some c.key) (other : c.key ≠ key) (o : Except Raised V) :
    Untouched key keys s (finish s id c o) := by
  have foreign : keys[id]? ≠ some key := by simpa [filed] using other
  cases o with
  | ok v =>
    exact (untouched_store (live_publish s.now c.ttl id s.entries other)
      fun _ hi => settled_other foreign hi).trans (untouched_caller foreign none (by simp [Event.call]))
  | error x =>
    cases x with
    | exception e =>
      exact (untouched_store (live_remove s.now id s.entries other)
        fun _ hi => settled_other foreign hi).trans (untouched_caller foreign none (by simp [Event.call]))
    | cancelled =>
      exact (untouched_store (live_remove s.now id s.entries other)
        fun _ hi => settled_other foreign hi).trans (untouched_caller foreign none (by simp [Event.call]))
    | baseException t => exact untouched_caller foreign none (by simp [Event.call])

theorem untouched_purge (s : Store Task V) : Untouched key keys s
    { s with entries := (InMemoryIdempotencyStore.purgeExpired s.now s.entries).1 } :=
  untouched_store (f := s.futures) (liveAt_purge _ _ _) fun _ _ => rfl

theorem untouched_purged (s : Store Task V) {e : Event V}
    (counts : (∃ n, e = .purged n) ∨ ∃ n, e = .counted n) : Untouched key keys s
    { s with
      entries := (InMemoryIdempotencyStore.purgeExpired s.now s.entries).1
      log := s.log ++ [e] } := by
  apply (untouched_purge s).trans
  refine ⟨rfl, rfl, fun _ _ => rfl, fun _ _ => rfl, rfl, ?_⟩
  have none : observations key keys [e] = [] := by
    rcases counts with ⟨n, rfl⟩ | ⟨n, rfl⟩ <;> exact observations_other (by simp [Event.call])
  rw [observations_append, none, List.append_nil]

theorem untouched_enter [DecidableEq Task] {s : Store Task V} {id : ℕ} {c : Caller Task}
    (filed : keys[id]? = some c.key) (other : c.key ≠ key) :
    Untouched key keys s (enter s id c) := by
  have foreign : keys[id]? ≠ some key := by simpa [filed] using other
  rcases enter_cases s id c with
    ⟨_, eq⟩ | ⟨e, _, _, _, _, eq⟩ | ⟨e, _, _, ⟨v, _, eq⟩ | ⟨x, _, eq⟩ | ⟨_, eq⟩⟩
  · rw [eq]
    have live : liveAt s.now ((InMemoryIdempotencyStore.purgeExpired s.now s.entries).1.insert c.key
        { future := id, ownerTask := c.task }) key = liveAt s.now s.entries key := by
      rw [liveAt_insert, if_neg other.symm, liveAt_purge]
    exact (untouched_store (f := s.futures) live fun _ _ => rfl).trans
      (untouched_caller foreign _ (by simp [Event.call]))
  · rw [eq]
    exact (untouched_purge s).trans (untouched_caller foreign none (by simp [Event.call]))
  · rw [eq]
    exact (untouched_purge s).trans (untouched_caller foreign none (by simp [Event.call]))
  · rw [eq]
    exact (untouched_purge s).trans (untouched_caller foreign none (by simp [Event.call]))
  · rw [eq]
    exact (untouched_purge s).trans (untouched_caller foreign _ (by simp [Event.call]))

/-! Steps of the key, which both runs take. -/

theorem update_own {A : Type} {f g : ℕ → A} {id i : ℕ} {a : A} (ownId : keys[id]? = some key)
    (own : keys[i]? = some key) (same : g (rank key keys i) = f i) :
    Function.update g (rank key keys id) a (rank key keys i) = Function.update f id a i := by
  by_cases equal : i = id
  · rw [equal, Function.update_self, Function.update_self]
  · have apart : rank key keys i ≠ rank key keys id := fun h => equal (rank_inj own ownId h)
    rw [Function.update_of_ne apart, Function.update_of_ne equal, same]

theorem log_own {id : ℕ} {log es : List (Event V)} (own : keys[id]? = some key)
    (about : ∀ e ∈ es, e.call = some id) :
    observations key keys (log ++ es) =
      observations key keys log ++ es.map (Event.rename (rank key keys)) := by
  have all : observations key keys es = es.map (Event.rename (rank key keys)) := by
    apply observations_own
    intro e he
    simpa [about e he] using own
  rw [observations_append, all]

theorem projects_caller {s t : Store Task V} (h : Projects key keys s t) {id : ℕ}
    (own : keys[id]? = some key) (x : Option (Caller Task)) {l : List (Event V)}
    (about : ∀ e ∈ l, e.call = some id) :
    Projects key keys { s with callers := Function.update s.callers id x, log := s.log ++ l }
      { t with
        callers := Function.update t.callers (rank key keys id)
          (x.map (Caller.rename (rank key keys)))
        log := t.log ++ l.map (Event.rename (rank key keys)) } where
  next := h.next
  now := h.now
  callers i hi := by
    have renamed := update_own (f := fun i => (s.callers i).map (Caller.rename (rank key keys)))
      (a := x.map (Caller.rename (rank key keys))) own hi (h.callers i hi)
    refine renamed.trans ?_
    by_cases equal : i = id <;> simp [equal]
  futures := h.futures
  live := h.live
  log := by rw [log_own own about, h.log]

theorem projects_log {s t : Store Task V} (h : Projects key keys s t) {id : ℕ}
    (own : keys[id]? = some key) {l : List (Event V)} (about : ∀ e ∈ l, e.call = some id) :
    Projects key keys { s with log := s.log ++ l }
      { t with log := t.log ++ l.map (Event.rename (rank key keys)) } :=
  ⟨h.next, h.now, h.callers, h.futures, h.live, by rw [log_own own about, h.log]⟩

theorem projects_store {s t : Store Task V} (h : Projects key keys s t) {es ds : Entries Task}
    {f g : ℕ → FutureState V}
    (live : liveAt t.now ds key = (liveAt s.now es key).map (renameEntry (rank key keys)))
    (futures : ∀ i, keys[i]? = some key → g (rank key keys i) = f i) :
    Projects key keys { s with entries := es, futures := f }
      { t with entries := ds, futures := g } :=
  ⟨h.next, h.now, h.callers, futures, live, h.log⟩

theorem projects_purge {s t : Store Task V} (h : Projects key keys s t) :
    Projects key keys
      { s with entries := (InMemoryIdempotencyStore.purgeExpired s.now s.entries).1 }
      { t with entries := (InMemoryIdempotencyStore.purgeExpired t.now t.entries).1 } :=
  projects_store (f := s.futures) (g := t.futures) h
    (by rw [liveAt_purge, liveAt_purge, h.live]) h.futures

theorem enter_free [DecidableEq Task] {s : Store Task V} (id : ℕ) {c : Caller Task}
    (free : liveAt s.now s.entries c.key = none) :
    enter s id c = { s with
      entries := (InMemoryIdempotencyStore.purgeExpired s.now s.entries).1.insert c.key
        { future := id, ownerTask := c.task }
      callers := Function.update s.callers id (some { c with phase := .executing })
      log := s.log ++ [.started id c.key] } := by
  have lookup : (InMemoryIdempotencyStore.purgeExpired s.now s.entries).1.lookup c.key = none := free
  simp only [enter, lookupLocked, lookup]

/-- What a call meets at a live entry is decided by its future and, while that is
    pending, by its owner. -/
theorem enter_live [DecidableEq Task] {s : Store Task V} (id : ℕ) {c : Caller Task}
    {e : Entry Task} (live : liveAt s.now s.entries c.key = some e) :
    enter s id c =
      let purged := { s with
        entries := (InMemoryIdempotencyStore.purgeExpired s.now s.entries).1 }
      let waits := { purged with
        callers := Function.update s.callers id (some { c with phase := .waiting e.future })
        log := s.log ++ [.joined id c.key e.future] }
      match s.futures e.future with
      | .pending =>
        if e.ownerTask = c.task then
          leave purged id [.raised id (.exception (idempotencyReentryError c.key))]
        else waits
      | .result v => leave purged id [.returned id ⟨v, c.key, .replayed⟩ s.now]
      | .exception x => leave purged id [.raised id (.exception x)]
      | .ownerCancelled => waits := by
  have lookup : (InMemoryIdempotencyStore.purgeExpired s.now s.entries).1.lookup c.key = some e :=
    live
  cases state : s.futures e.future with
  | pending =>
    by_cases own : e.ownerTask = c.task <;>
      simp [enter, lookupLocked, lookup, state, own, FutureState.done]
  | result v => simp [enter, lookupLocked, lookup, state, FutureState.done]
  | exception x => simp [enter, lookupLocked, lookup, state, FutureState.done]
  | ownerCancelled => simp [enter, lookupLocked, lookup, state, FutureState.done]

theorem projects_enter [DecidableEq Task] {s t : Store Task V} (h : Projects key keys s t)
    (keyed : Keyed keys s) {id : ℕ} {c : Caller Task} (own : keys[id]? = some key)
    (filed : c.key = key) :
    Projects key keys (enter s id c)
      (enter t (rank key keys id) (c.rename (rank key keys))) := by
  subst filed
  cases live : liveAt s.now s.entries c.key with
  | none =>
    have free : liveAt t.now t.entries c.key = none := by rw [h.live, live]; rfl
    rw [enter_free id live, enter_free (c := c.rename _) (rank c.key keys id) free]
    have stored : Projects c.key keys
        { s with
          entries := (InMemoryIdempotencyStore.purgeExpired s.now s.entries).1.insert c.key
            { future := id, ownerTask := c.task } }
        { t with
          entries := (InMemoryIdempotencyStore.purgeExpired t.now t.entries).1.insert c.key
            { future := rank c.key keys id, ownerTask := c.task } } := by
      apply projects_store (f := s.futures) (g := t.futures) h _ h.futures
      rw [liveAt_insert, liveAt_insert, if_pos rfl, if_pos rfl]
      rfl
    exact projects_caller stored own (some { c with phase := .executing })
      (l := [.started id c.key]) (by simp [Event.call])
  | some e =>
    have there : liveAt t.now t.entries c.key = some (renameEntry (rank c.key keys) e) := by
      rw [h.live, live]
      rfl
    have found : s.entries.lookup c.key = some e := by
      rw [liveAt_eq, Option.filter_eq_some_iff] at live
      exact live.1
    have future := h.futures e.future (keyed.entries c.key e found)
    rw [enter_live id live, enter_live (c := c.rename _) (rank c.key keys id) there]
    change Projects c.key keys _ (match t.futures (rank c.key keys e.future) with
      | .pending => _ | .result _ => _ | .exception _ => _ | .ownerCancelled => _)
    rw [future]
    have purged := projects_purge h
    cases state : s.futures e.future with
    | pending =>
      by_cases mine : e.ownerTask = c.task
      · simp only [mine, if_true, renameEntry, Caller.rename]
        exact projects_caller purged own none (by simp [Event.call])
      · simp only [mine, if_false, renameEntry, Caller.rename]
        exact projects_caller purged own (some { c with phase := .waiting e.future })
          (l := [.joined id c.key e.future]) (by simp [Event.call])
    | result v =>
      rw [h.now] at purged ⊢
      exact projects_caller purged own none (l := [.returned id ⟨v, c.key, .replayed⟩ s.now])
        (by simp [Event.call])
    | exception x => exact projects_caller purged own none (by simp [Event.call])
    | ownerCancelled =>
      exact projects_caller purged own (some { c with phase := .waiting e.future })
        (l := [.joined id c.key e.future]) (by simp [Event.call])

/-- Whether an entry has expired does not depend on the number of its call. -/
theorem filter_rename (now : ℚ) (f : ℕ → ℕ) (o : Option (Entry Task)) :
    (o.map (renameEntry f)).filter (fun e => !expired now e) =
      (o.filter fun e => !expired now e).map (renameEntry f) := by
  cases o with
  | none => rfl
  | some e =>
    rw [Option.map_some, Option.filter_some, Option.filter_some]
    change (if !expired now e then _ else _) = _
    split <;> rfl

theorem projects_advance {s t : Store Task V} (h : Projects key keys s t) {d : ℚ}
    (nonneg : 0 ≤ d) :
    Projects key keys { s with now := s.now + d } { t with now := t.now + d } where
  next := h.next
  now := by rw [h.now]
  callers := h.callers
  futures := h.futures
  live := by
    simp only [liveAt_later (le_add_of_nonneg_right nonneg)]
    rw [h.live, filter_rename, h.now]
  log := h.log

theorem live_some {s : Store Task V} {c : Caller Task} {id : ℕ} (coherent : Coherent s)
    (executing : Executing s id c) :
    s.entries.lookup c.key = some ⟨id, c.task, none⟩ ∧ (s.futures id).done = false := by
  obtain ⟨found, pending⟩ := coherent.owner id c executing
  exact ⟨found, by rw [pending]; rfl⟩

theorem executing_rename {s t : Store Task V} (h : Projects key keys s t) {id : ℕ}
    {c : Caller Task} (own : keys[id]? = some key) (executing : Executing s id c) :
    Executing t (rank key keys id) (c.rename (rank key keys)) := by
  constructor
  · rw [h.callers id own, executing.1]
    rfl
  · simp [Caller.rename, executing.2, Phase.rename]

theorem waiting_rename {s t : Store Task V} (h : Projects key keys s t) {id f : ℕ}
    {c : Caller Task} (own : keys[id]? = some key) (waiting : Waiting s id c f) :
    Waiting t (rank key keys id) (c.rename (rank key keys)) (rank key keys f) := by
  constructor
  · rw [h.callers id own, waiting.1]
    rfl
  · simp [Caller.rename, waiting.2, Phase.rename]

theorem projects_settle {s t : Store Task V} (h : Projects key keys s t) {id : ℕ}
    (own : keys[id]? = some key) {a b : Entries Task} (x : FutureState V)
    (live : liveAt t.now b key = (liveAt s.now a key).map (renameEntry (rank key keys))) :
    Projects key keys { s with entries := a, futures := Function.update s.futures id x }
      { t with entries := b, futures := Function.update t.futures (rank key keys id) x } :=
  projects_store h live fun i hi => update_own own hi (h.futures i hi)

theorem projects_finish {s t : Store Task V} (h : Projects key keys s t) (cs : Coherent s)
    (ct : Coherent t) {id : ℕ} {c : Caller Task} (own : keys[id]? = some key)
    (filed : c.key = key) (executing : Executing s id c) (o : Except Raised V) :
    Projects key keys (finish s id c o)
      (finish t (rank key keys id) (c.rename (rank key keys)) o) := by
  subst filed
  obtain ⟨found, busy⟩ := live_some cs executing
  obtain ⟨there, busy'⟩ := live_some ct (executing_rename h own executing)
  have removed : liveAt t.now (t.entries.erase c.key) c.key =
      (liveAt s.now (s.entries.erase c.key) c.key).map (renameEntry (rank c.key keys)) := by
    rw [liveAt_erase, liveAt_erase, if_pos rfl, if_pos rfl]
    rfl
  cases o with
  | ok v =>
    simp only [finish, busy, busy', publish_own found rfl, publish_own there rfl]
    have stored := projects_settle h own (.result v) (a := s.entries.insert c.key
      ⟨id, c.task, some (s.now + c.ttl)⟩) (b := t.entries.insert c.key
      ⟨rank c.key keys id, c.task, some (t.now + c.ttl)⟩) (by
        rw [liveAt_insert, liveAt_insert, if_pos rfl, if_pos rfl, h.now]
        exact filter_rename s.now (rank c.key keys) (some ⟨id, c.task, some (s.now + c.ttl)⟩))
    rw [h.now] at stored ⊢
    exact projects_caller stored own none
      (l := [.succeeded id c.key v s.now c.ttl, .returned id ⟨v, c.key, .executed⟩ s.now])
      (by simp [Event.call])
  | error x =>
    cases x with
    | exception e =>
      simp only [finish, busy, busy', removeEntryNow_own found rfl, removeEntryNow_own there rfl]
      exact projects_caller (projects_settle h own (.exception e) removed) own none
        (l := [.stopped id c.key (.exception e), .raised id (.exception e)]) (by simp [Event.call])
    | cancelled =>
      simp only [finish, busy, busy', removeEntryNow_own found rfl, removeEntryNow_own there rfl]
      exact projects_caller (projects_settle h own .ownerCancelled removed) own none
        (l := [.stopped id c.key .cancelled, .raised id .cancelled]) (by simp [Event.call])
    | baseException b =>
      exact projects_caller h own none
        (l := [.stopped id c.key (.baseException b), .raised id (.baseException b)])
        (by simp [Event.call])

theorem projects_next {s t : Store Task V} (h : Projects key keys s t)
    (own : keys[s.nextId]? = some key) :
    Projects key keys { s with nextId := s.nextId + 1 } { t with nextId := t.nextId + 1 } :=
  ⟨by rw [rank_own own, h.next], h.now, h.callers, h.futures, h.live, h.log⟩

theorem untouched_next {s : Store Task V} (other : keys[s.nextId]? ≠ some key) :
    Untouched key keys s { s with nextId := s.nextId + 1 } :=
  ⟨rank_other other, rfl, fun _ _ => rfl, fun _ _ => rfl, rfl, rfl⟩

/-! Calls stay filed under their keys. -/

theorem keyed_initial (keys : List String) (start : ℚ) :
    Keyed keys (initial start : Store Task V) where
  callers i c h := by simp [initial] at h
  waiting i c f h := by simp [Waiting, initial] at h
  entries k e h := by simp [initial] at h

theorem keyed_purge {s : Store Task V} (h : Keyed keys s) (now : ℚ) : Keyed keys
    { s with entries := (InMemoryIdempotencyStore.purgeExpired now s.entries).1 } :=
  ⟨h.callers, h.waiting, fun k e found => h.entries k e (purge_lookup.mp found).1⟩

theorem keyed_caller {s : Store Task V} (h : Keyed keys s) (id : ℕ) {x : Option (Caller Task)}
    (filed : ∀ c, x = some c → keys[id]? = some c.key ∧
      ∀ f, c.phase = .waiting f → keys[f]? = some c.key) (log : List (Event V)) :
    Keyed keys { s with callers := Function.update s.callers id x, log } where
  callers i c hi := by
    rcases caller_update hi with ⟨rfl, new⟩ | ⟨_, old⟩
    · exact (filed c new).1
    · exact h.callers i c old
  waiting i c f hi := by
    rcases caller_update hi.1 with ⟨_, new⟩ | ⟨_, old⟩
    · exact (filed c new).2 f hi.2
    · exact h.waiting i c f ⟨old, hi.2⟩
  entries := h.entries

theorem keyed_leave {s : Store Task V} (h : Keyed keys s) (id : ℕ) (es : List (Event V)) :
    Keyed keys (leave s id es) :=
  keyed_caller h id (fun _ none => by cases none) _

theorem keyed_futures {s : Store Task V} (h : Keyed keys s) (futures : ℕ → FutureState V) :
    Keyed keys { s with futures } :=
  ⟨h.callers, h.waiting, h.entries⟩

theorem keyed_insert {s : Store Task V} (h : Keyed keys s) {k : String} {e : Entry Task}
    (filed : keys[e.future]? = some k) :
    Keyed keys { s with entries := s.entries.insert k e } where
  callers := h.callers
  waiting := h.waiting
  entries a d found := by
    simp only [lookup_insert] at found
    split at found
    · cases found
      subst a
      exact filed
    · exact h.entries a d found

theorem keyed_erase {s : Store Task V} (h : Keyed keys s) (k : String) :
    Keyed keys { s with entries := s.entries.erase k } where
  callers := h.callers
  waiting := h.waiting
  entries a d found := by
    simp only [lookup_erase] at found
    split at found
    · cases found
    · exact h.entries a d found

theorem keyed_enter [DecidableEq Task] {s : Store Task V} (h : Keyed keys s) {id : ℕ}
    {c : Caller Task} (filed : keys[id]? = some c.key) : Keyed keys (enter s id c) := by
  have purged := keyed_purge h s.now
  rcases enter_cases s id c with
    ⟨_, eq⟩ | ⟨e, _, _, _, _, eq⟩ | ⟨e, found, _, ⟨v, _, eq⟩ | ⟨x, _, eq⟩ | ⟨_, eq⟩⟩
  · rw [eq]
    have stored := keyed_insert purged (e := { future := id, ownerTask := c.task }) filed
    apply keyed_caller stored
    intro d same
    cases same
    exact ⟨filed, fun f executing => by cases executing⟩
  · rw [eq]
    exact keyed_leave purged id _
  · rw [eq]
    exact keyed_leave purged id _
  · rw [eq]
    exact keyed_leave purged id _
  · rw [eq]
    apply keyed_caller purged
    intro d same
    cases same
    refine ⟨filed, ?_⟩
    intro f waits
    cases waits
    exact h.entries c.key e found

theorem keyed_finish {s : Store Task V} (h : Keyed keys s) (coherent : Coherent s) {id : ℕ}
    {c : Caller Task} (executing : Executing s id c) (o : Except Raised V) :
    Keyed keys (finish s id c o) := by
  obtain ⟨found, busy⟩ := live_some coherent executing
  cases o with
  | ok v =>
    simp only [finish, publish_own found rfl]
    have stored := keyed_insert h (k := c.key) (e := ⟨id, c.task, some (s.now + c.ttl)⟩)
      (h.callers id c executing.1)
    exact keyed_leave (keyed_futures stored _) id _
  | error x =>
    cases x with
    | exception e =>
      simp only [finish, removeEntryNow_own found rfl]
      exact keyed_leave (keyed_futures (keyed_erase h c.key) _) id _
    | cancelled =>
      simp only [finish, removeEntryNow_own found rfl]
      exact keyed_leave (keyed_futures (keyed_erase h c.key) _) id _
    | baseException b => exact keyed_leave h id _

variable [DecidableEq Task]

theorem keyed_step {s t : Store Task V} {l : Label Task V} (h : Keyed keys s)
    (coherent : Coherent s) (named : ∀ k ∈ l.executed, keys[s.nextId]? = some k)
    (hs : step s l = some t) : Keyed keys t := by
  cases step_shape hs with
  | refused => exact ⟨h.callers, h.waiting, h.entries⟩
  | enters task named' positive =>
    rename_i k ttl
    have next : Keyed keys { s with nextId := s.nextId + 1 } := ⟨h.callers, h.waiting, h.entries⟩
    exact keyed_enter (c := ⟨task, k, ttl, .executing⟩) next (named k rfl)
  | finishes o executing => exact keyed_finish h coherent executing o
  | wakes waiting woken =>
    rename_i id c f
    unfold wake at woken
    split at woken
    · cases woken
    · cases woken
      exact keyed_leave h _ _
    · cases woken
      exact keyed_leave h _ _
    · cases woken
      exact keyed_enter h (h.callers id c waiting.1)
  | cancels waiting => exact keyed_leave h _ _
  | purges e counts =>
    have purged := keyed_purge h s.now
    exact ⟨purged.callers, purged.waiting, purged.entries⟩
  | advances d nonneg => exact ⟨h.callers, h.waiting, h.entries⟩

/-! One step. -/

theorem untouched_wake {s t : Store Task V} {id f : ℕ} {c : Caller Task}
    (filed : keys[id]? = some c.key) (other : c.key ≠ key) (h : wake s id c f = some t) :
    Untouched key keys s t := by
  have foreign : keys[id]? ≠ some key := by simpa [filed] using other
  unfold wake at h
  split at h
  · cases h
  · cases h
    exact untouched_caller foreign none (by simp [Event.call])
  · cases h
    exact untouched_caller foreign none (by simp [Event.call])
  · cases h
    exact untouched_enter filed other

/-- A step that does not concern the key leaves what its calls see as it was. -/
theorem untouched_step {s t : Store Task V} {l : Label Task V} (keyed : Keyed keys s)
    (named : ∀ k ∈ l.executed, keys[s.nextId]? = some k)
    (other : l.concerns key keys = false) (h : step s l = some t) :
    Untouched key keys s t := by
  cases step_shape h with
  | refused task k ttl x =>
    have foreign : keys[s.nextId]? ≠ some key := by
      simpa [named k rfl, Label.concerns] using other
    apply (untouched_next foreign).trans
    refine ⟨rfl, rfl, fun _ _ => rfl, fun _ _ => rfl, rfl, ?_⟩
    exact log_other foreign (by simp [Event.call])
  | enters task named' positive =>
    rename_i k ttl
    have filed := named k rfl
    have differs : k ≠ key := by simpa [Label.concerns] using other
    have foreign : keys[s.nextId]? ≠ some key := by simpa [filed] using differs
    exact (untouched_next foreign).trans (untouched_enter filed differs)
  | finishes o executing =>
    rename_i id c
    have filed := keyed.callers id c executing.1
    have differs : c.key ≠ key := by simpa [Label.concerns, filed] using other
    exact untouched_finish filed differs o
  | wakes waiting woken =>
    rename_i id c f
    have filed := keyed.callers id c waiting.1
    have differs : c.key ≠ key := by simpa [Label.concerns, filed] using other
    exact untouched_wake filed differs woken
  | cancels waiting =>
    rename_i id c f
    have foreign : keys[id]? ≠ some key := by simpa [Label.concerns] using other
    exact untouched_caller foreign none (by simp [Event.call])
  | purges e counts => exact untouched_purged s counts
  | advances d nonneg => cases other

theorem step_finish_inv {s t : Store Task V} {id : ℕ} {o : Except Raised V}
    (h : step s (.finish id o) = some t) : ∃ c, Executing s id c ∧ finish s id c o = t := by
  simp only [step] at h
  split at h
  · rename_i c found
    split at h
    · exact ⟨c, ⟨found, ‹_›⟩, Option.some.inj h⟩
    · cases h
  · cases h

theorem step_wake_inv {s t : Store Task V} {id : ℕ} (h : step s (.wake id) = some t) :
    ∃ c f, Waiting s id c f ∧ wake s id c f = some t := by
  simp only [step] at h
  split at h
  · rename_i c found
    split at h
    · exact ⟨c, _, ⟨found, ‹_›⟩, h⟩
    · cases h
  · cases h

theorem step_cancel_inv {s t : Store Task V} {id : ℕ} (h : step s (.cancelJoined id) = some t) :
    ∃ c f, Waiting s id c f ∧ leave s id [.raised id .cancelled] = t := by
  simp only [step] at h
  split at h
  · rename_i c found
    split at h
    · exact ⟨c, _, ⟨found, ‹_›⟩, Option.some.inj h⟩
    · cases h
  · cases h

theorem projects_wake {s t s' : Store Task V} (h : Projects key keys s t) (keyed : Keyed keys s)
    {id f : ℕ} {c : Caller Task} (own : keys[id]? = some key) (waiting : Waiting s id c f)
    (woken : wake s id c f = some s') :
    ∃ t', wake t (rank key keys id) (c.rename (rank key keys)) (rank key keys f) = some t' ∧
      Projects key keys s' t' := by
  have filed : c.key = key := Option.some.inj ((keyed.callers id c waiting.1).symm.trans own)
  have future := h.futures f (filed ▸ keyed.waiting id c f waiting)
  unfold wake at woken ⊢
  rw [future]
  cases state : s.futures f with
  | pending =>
    rw [state] at woken
    cases woken
  | result v =>
    rw [state] at woken
    cases woken
    refine ⟨_, rfl, ?_⟩
    rw [h.now]
    exact projects_caller h own none (l := [.returned id ⟨v, c.key, .joined⟩ s.now])
      (by simp [Event.call])
  | exception e =>
    rw [state] at woken
    cases woken
    exact ⟨_, rfl, projects_caller h own none (l := [.raised id (.exception e)])
      (by simp [Event.call])⟩
  | ownerCancelled =>
    rw [state] at woken
    cases woken
    exact ⟨_, rfl, projects_enter h keyed own filed⟩

/-- A step of the key is one of the projected run as well. -/
theorem projects_step {s t s' : Store Task V} {l : Label Task V} (h : Projects key keys s t)
    (cs : Coherent s) (ct : Coherent t) (keyed : Keyed keys s)
    (named : ∀ k ∈ l.executed, keys[s.nextId]? = some k)
    (own : l.concerns key keys = true) (hs : step s l = some s') :
    ∃ t', step t (l.rename (rank key keys)) = some t' ∧ Projects key keys s' t' := by
  cases l with
  | execute task k ttl =>
    have same : k = key := by simpa [Label.concerns] using own
    subst same
    have mine := named k rfl
    have next := projects_next h mine
    have refused (e : Exc) := projects_log next mine (l := [.raised s.nextId (.exception e)])
      (by simp [Event.call])
    simp only [List.map_cons, List.map_nil, Event.rename, ← h.next] at refused
    simp only [Label.rename, step] at hs ⊢
    cases named' : validateKey (.scalar (.str k)) with
    | error e =>
      simp only [named', Option.some.injEq] at hs ⊢
      subst hs
      exact ⟨_, rfl, refused e⟩
    | ok _ =>
      cases positive : validateTtl ttl with
      | error e =>
        simp only [named', positive, Option.some.injEq] at hs ⊢
        subst hs
        exact ⟨_, rfl, refused e⟩
      | ok _ =>
        simp only [named', positive, Option.some.injEq] at hs ⊢
        subst hs
        have entered := projects_enter (c := ⟨task, k, ttl, .executing⟩) next
          ⟨keyed.callers, keyed.waiting, keyed.entries⟩ mine rfl
        rw [← h.next] at entered
        exact ⟨_, rfl, entered⟩
  | finish id o =>
    have mine : keys[id]? = some key := by simpa [Label.concerns] using own
    obtain ⟨c, executing, rfl⟩ := step_finish_inv hs
    have filed : c.key = key := Option.some.inj ((keyed.callers id c executing.1).symm.trans mine)
    exact ⟨_, step_finish (executing_rename h mine executing) o,
      projects_finish h cs ct mine filed executing o⟩
  | wake id =>
    have mine : keys[id]? = some key := by simpa [Label.concerns] using own
    obtain ⟨c, f, waiting, woken⟩ := step_wake_inv hs
    have there := waiting_rename h mine waiting
    obtain ⟨t', woken', projected⟩ := projects_wake h keyed mine waiting woken
    exact ⟨t', (step_wake there).trans woken', projected⟩
  | cancelJoined id =>
    have mine : keys[id]? = some key := by simpa [Label.concerns] using own
    obtain ⟨c, f, waiting, rfl⟩ := step_cancel_inv hs
    have there := waiting_rename h mine waiting
    refine ⟨leave t (rank key keys id) [.raised (rank key keys id) .cancelled],
      by simp only [Label.rename, step, there.1, there.2], ?_⟩
    exact projects_caller h mine none (l := [.raised id .cancelled]) (by simp [Event.call])
  | purgeExpired => cases own
  | entryCount => cases own
  | advance d =>
    simp only [Label.rename, step] at hs ⊢
    split at hs
    · rename_i nonneg
      cases hs
      rw [if_pos nonneg]
      exact ⟨_, rfl, projects_advance h nonneg⟩
    · cases hs

/-! Whole runs. -/

theorem enter_next (s : Store Task V) (id : ℕ) (c : Caller Task) :
    (enter s id c).nextId = s.nextId := by
  rcases enter_cases s id c with
    ⟨_, eq⟩ | ⟨e, _, _, _, _, eq⟩ | ⟨e, _, _, ⟨v, _, eq⟩ | ⟨x, _, eq⟩ | ⟨_, eq⟩⟩ <;> rw [eq] <;> rfl

theorem step_next {s t : Store Task V} {l : Label Task V} (h : step s l = some t) :
    t.nextId = s.nextId + l.executed.toList.length := by
  cases l with
  | execute task k ttl =>
    simp only [step] at h
    split at h
    · cases h
      rfl
    · cases h
      rfl
    · cases h
      exact enter_next _ _ _
  | finish id o =>
    obtain ⟨c, _, rfl⟩ := step_finish_inv h
    rcases o with x | v
    · cases x <;> rfl
    · rfl
  | wake id =>
    obtain ⟨c, f, _, woken⟩ := step_wake_inv h
    unfold wake at woken
    split at woken
    · cases woken
    · cases woken
      rfl
    · cases woken
      rfl
    · cases woken
      exact enter_next _ _ _
  | cancelJoined id =>
    obtain ⟨c, f, _, rfl⟩ := step_cancel_inv h
    rfl
  | purgeExpired =>
    cases h
    rfl
  | entryCount =>
    cases h
    rfl
  | advance d =>
    simp only [step] at h
    split at h
    · cases h
      rfl
    · cases h

omit [DecidableEq Task] in
theorem named_cons {n : ℕ} {l : Label Task V} {ls : List (Label Task V)}
    (h : executedKeys (l :: ls) = keys.drop n) :
    (∀ k ∈ l.executed, keys[n]? = some k) ∧
      executedKeys ls = keys.drop (n + l.executed.toList.length) := by
  rw [executedKeys, List.filterMap_cons] at h
  cases named : l.executed with
  | none =>
    simp only [named] at h
    exact ⟨by simp, h⟩
  | some k =>
    simp only [named] at h
    constructor
    · rintro _ ⟨⟩
      have first := congrArg (fun ks => ks[0]?) h
      simpa using first.symm
    · have rest := congrArg List.tail h
      simpa [executedKeys, List.tail_drop] using rest

theorem projects_run {s t s' : Store Task V} {ls : List (Label Task V)}
    (h : Projects key keys s t) (cs : Coherent s) (ct : Coherent t) (keyed : Keyed keys s)
    (named : executedKeys ls = keys.drop s.nextId) (hs : run step s ls = some s') :
    ∃ t', run step t ((ls.filter (Label.concerns key keys)).map (Label.rename (rank key keys))) =
      some t' ∧ Projects key keys s' t' := by
  induction ls generalizing s t with
  | nil =>
    cases hs
    exact ⟨t, rfl, h⟩
  | cons l ls ih =>
    obtain ⟨u, first, rest⟩ := run_cons.mp hs
    obtain ⟨head, tail⟩ := named_cons named
    rw [← step_next first] at tail
    have cu := coherent_step cs first
    have keyed' := keyed_step keyed cs head first
    cases own : l.concerns key keys with
    | true =>
      obtain ⟨v, there, projected⟩ := projects_step h cs ct keyed head own first
      obtain ⟨t', run', final⟩ := ih projected cu (coherent_step ct there) keyed' tail rest
      rw [List.filter_cons_of_pos own, List.map_cons]
      exact ⟨t', run_cons.mpr ⟨v, there, run'⟩, final⟩
    | false =>
      have projected := projects_untouched h (untouched_step keyed head own first)
      rw [List.filter_cons_of_neg (by simp [own])]
      exact ih projected cu ct keyed' tail rest

end

section
variable [DecidableEq Task]

/-- Deleting the steps of other keys and the purges from a run leaves a run, in which the
    calls on the key observe exactly what they did, at the same times. So any two runs with
    the same steps of the key look the same to it, whatever else happens between them. -/
theorem keys_independent (start : ℚ) (key : String) (ls : List (Label Task V))
    (s : Store Task V) (h : run step (initial start) ls = some s) :
    (∃ t, run step (initial start) (deleteOthers key ls) = some t ∧
      t.log = observations key (executedKeys ls) s.log) ∧
    ∀ ms u, run step (initial start) ms = some u → deleteOthers key ms = deleteOthers key ls →
      observations key (executedKeys ms) u.log = observations key (executedKeys ls) s.log := by
  have project (ls : List (Label Task V)) (s : Store Task V)
      (h : run step (initial start) ls = some s) :
      ∃ t, run step (initial start) (deleteOthers key ls) = some t ∧
        t.log = observations key (executedKeys ls) s.log := by
    obtain ⟨t, there, projected⟩ := projects_run (projects_initial key (executedKeys ls) start)
      (coherent_initial start) (coherent_initial start) (keyed_initial _ start) rfl h
    exact ⟨t, there, projected.log⟩
  obtain ⟨t, there, log⟩ := project ls s h
  refine ⟨⟨t, there, log⟩, ?_⟩
  intro ms u hu same
  obtain ⟨v, there', log'⟩ := project ms u hu
  rw [same, there] at there'
  cases there'
  exact log'.symm.trans log

end

def twoKeysRun : List (Label ℕ ℕ) :=
  [.execute 1 "other" 60, .execute 2 "k" 60, .finish 0 (.error .cancelled), .finish 1 (.ok 7),
    .purgeExpired, .execute 3 "k" 5]

theorem twoKeysRun_projected : ∃ s t : Store ℕ ℕ, run step (initial 0) twoKeysRun = some s ∧
    run step (initial 0) (deleteOthers "k" twoKeysRun) = some t ∧
    t.log = [.started 0 "k", .succeeded 0 "k" 7 0 60, .returned 0 ⟨7, "k", .executed⟩ 0,
      .returned 1 ⟨7, "k", .replayed⟩ 0] := by
  have done : ∃ s : Store ℕ ℕ, run step (initial 0) twoKeysRun = some s := ⟨_, rfl⟩
  have log : (run step (initial 0 : Store ℕ ℕ) twoKeysRun).map Store.log =
      some [.started 0 "other", .started 1 "k", .stopped 0 "other" .cancelled,
        .raised 0 .cancelled, .succeeded 1 "k" 7 0 60, .returned 1 ⟨7, "k", .executed⟩ 0,
        .purged 0, .returned 2 ⟨7, "k", .replayed⟩ 0] := by with_unfolding_all rfl
  obtain ⟨s, hs⟩ := done
  rw [hs] at log
  obtain ⟨⟨t, there, same⟩, _⟩ := keys_independent 0 "k" twoKeysRun s hs
  refine ⟨s, t, hs, there, ?_⟩
  have keys : executedKeys twoKeysRun = ["other", "k", "k"] := rfl
  rw [same, Option.some.inj log, keys]
  simp [observations, observe, Event.call, Event.rename, rank]

end Relprim.IdempotencyRuns
