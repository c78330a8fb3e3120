import Relprim.IdempotencyProjection
import Relprim.IdempotencyRelease
import Relprim.IdempotencyReplay

/-!
The life of one call of `execute` as a path through stages: it joins any number
of executions, each ended by its owner's cancellation, runs its own operation
at most once, and is answered once. Then how many entries the store holds.
-/
namespace Relprim.IdempotencyRuns
open LabelledRuns InMemoryIdempotencyStore Dictionary
variable {Task V : Type}

def history (id : ℕ) (log : List (Event V)) : List (Event V) :=
  log.filter fun e => e.call = some id

inductive Stage (V : Type) where
  | arriving
  | waiting (future : ℕ)
  | running
  | succeeded (value : V)
  | stopped (x : Raised)
  | answered

/-- How an event about call `id`, made for `key`, takes it from one stage to the next. An
    owner is answered with what its operation ended with. -/
inductive Passes (id : ℕ) (key : String) : Stage V → Event V → Stage V → Prop where
  | joins (f : ℕ) : Passes id key .arriving (.joined id key f) (.waiting f)
  | rejoins (f g : ℕ) : Passes id key (.waiting f) (.joined id key g) (.waiting g)
  | owns : Passes id key .arriving (.started id key) .running
  | inherits (f : ℕ) : Passes id key (.waiting f) (.started id key) .running
  | succeeds (v : V) (at_ ttl : ℚ) :
      Passes id key .running (.succeeded id key v at_ ttl) (.succeeded v)
  | executed (v : V) (now : ℚ) :
      Passes id key (.succeeded v) (.returned id ⟨v, key, .executed⟩ now) .answered
  | stops (x : Raised) : Passes id key .running (.stopped id key x) (.stopped x)
  | fails (x : Raised) : Passes id key (.stopped x) (.raised id x) .answered
  | replays (v : V) (now : ℚ) :
      Passes id key .arriving (.returned id ⟨v, key, .replayed⟩ now) .answered
  | refused (x : Raised) : Passes id key .arriving (.raised id x) .answered
  | shares (f : ℕ) (v : V) (now : ℚ) :
      Passes id key (.waiting f) (.returned id ⟨v, key, .joined⟩ now) .answered
  | supplied (f : ℕ) (v : V) (now : ℚ) :
      Passes id key (.waiting f) (.returned id ⟨v, key, .replayed⟩ now) .answered
  | raises (f : ℕ) (x : Raised) : Passes id key (.waiting f) (.raised id x) .answered

inductive Story (id : ℕ) (key : String) : List (Event V) → Stage V → Prop where
  | begins : Story id key [] .arriving
  | next {es : List (Event V)} {a b : Stage V} {e : Event V} (told : Story id key es a)
      (passes : Passes id key a e b) : Story id key (es ++ [e]) b

def Event.answers : Event V → Bool
  | .returned .. | .raised .. => true
  | _ => false

def Event.starts : Event V → Bool
  | .started .. => true
  | _ => false

def Stage.isAnswered : Stage V → Bool
  | .answered => true
  | _ => false

def Stage.ran : Stage V → Bool
  | .running | .succeeded _ | .stopped _ => true
  | _ => false

theorem story_answers {id : ℕ} {key : String} {es : List (Event V)} {a : Stage V}
    (h : Story id key es a) : es.countP Event.answers = if a.isAnswered then 1 else 0 := by
  induction h with
  | begins => rfl
  | next _ passes ih =>
    rw [List.countP_append, ih]
    cases passes <;> rfl

theorem story_starts {id : ℕ} {key : String} {es : List (Event V)} {a : Stage V}
    (h : Story id key es a) :
    es.countP Event.starts ≤ 1 ∧ (a.isAnswered = false →
      es.countP Event.starts = if a.ran then 1 else 0) := by
  induction h with
  | begins => simp [Stage.ran]
  | next _ passes ih =>
    rw [List.countP_append]
    cases passes <;> simp_all [Stage.ran, Stage.isAnswered, Event.starts]

theorem history_other {id i : ℕ} {log es : List (Event V)} (about : ∀ e ∈ es, e.call = some id)
    (other : i ≠ id) : history i (log ++ es) = history i log := by
  have none : es.filter (fun e => e.call = some i) = [] := by
    rw [List.filter_eq_nil_iff]
    intro e he
    simp [about e he, Ne.symm other]
  rw [history, List.filter_append, none, List.append_nil, history]

theorem history_own {id : ℕ} {log es : List (Event V)} (about : ∀ e ∈ es, e.call = some id) :
    history id (log ++ es) = history id log ++ es := by
  have all : es.filter (fun e => e.call = some id) = es := by
    rw [List.filter_eq_self]
    intro e he
    simp [about e he]
  rw [history, List.filter_append, all, history]

def standing (nextId i : ℕ) (caller : Option (Caller Task)) : Stage V :=
  match caller with
  | some c => match c.phase with
    | .executing => .running
    | .waiting f => .waiting f
  | none => if i < nextId then .answered else .arriving

def Told (s : Store Task V) (i : ℕ) : Prop :=
  ∃ key, Story i key (history i s.log) (standing s.nextId i (s.callers i)) ∧
    ∀ c, s.callers i = some c → c.key = key

theorem told_initial (start : ℚ) (i : ℕ) : Told (initial start : Store Task V) i :=
  ⟨"", .begins, fun c h => by simp [initial] at h⟩

structure Moves (s t : Store Task V) (id : ℕ) (x : Option (Caller Task)) (es : List (Event V)) :
    Prop where
  log : t.log = s.log ++ es
  callers : t.callers = Function.update s.callers id x
  nextId : t.nextId = s.nextId
  about : ∀ e ∈ es, e.call = some id

theorem told_move {s t : Store Task V} {id : ℕ} {k : String} {es : List (Event V)}
    {x : Option (Caller Task)} {i : ℕ} (told : ∀ i, i ≠ id → Told s i)
    (own : Story id k (history id s.log ++ es) (standing s.nextId id x))
    (keyed : ∀ c, x = some c → c.key = k) (moves : Moves s t id x es) : Told t i := by
  obtain ⟨log, callers, nextId, about⟩ := moves
  by_cases same : i = id
  · subst same
    refine ⟨k, ?_, ?_⟩
    · rw [log, history_own about, nextId, callers, Function.update_self]
      exact own
    · rw [callers, Function.update_self]
      exact keyed
  · obtain ⟨l, story, old⟩ := told i same
    refine ⟨l, ?_, ?_⟩
    · rw [log, history_other about same, nextId, callers, Function.update_of_ne same]
      exact story
    · rw [callers, Function.update_of_ne same]
      exact old

theorem told_leave {s : Store Task V} {id i : ℕ} {key : String} {es : List (Event V)}
    (told : ∀ i, i ≠ id → Told s i) (known : id < s.nextId)
    (own : Story id key (history id s.log ++ es) .answered)
    (about : ∀ e ∈ es, e.call = some id) : Told (leave s id es) i := by
  refine told_move told (k := key) (x := none) ?_ (fun c h => by cases h) ⟨rfl, rfl, rfl, about⟩
  rwa [standing, if_pos known]

theorem told_of_waiting {s : Store Task V} {id f : ℕ} {c : Caller Task} (told : Told s id)
    (waiting : Waiting s id c f) : Story id c.key (history id s.log) (.waiting f) := by
  obtain ⟨key, story, keyed⟩ := told
  rw [← keyed c waiting.1] at story
  simpa only [standing, waiting.1, waiting.2] using story

theorem told_of_executing {s : Store Task V} {id : ℕ} {c : Caller Task} (told : Told s id)
    (executing : Executing s id c) : Story id c.key (history id s.log) .running := by
  obtain ⟨key, story, keyed⟩ := told
  rw [← keyed c executing.1] at story
  simpa only [standing, executing.1, executing.2] using story

theorem told_of_absent {s : Store Task V} {id : ℕ} (told : Told s id)
    (fresh : s.callers id = none) (late : s.nextId ≤ id) (key : String) :
    Story id key (history id s.log) .arriving := by
  obtain ⟨k, story, _⟩ := told
  rw [fresh, standing, if_neg (Nat.not_lt.mpr late)] at story
  generalize history id s.log = es at story
  generalize arrived : Stage.arriving = a at story
  cases story with
  | begins => exact .begins
  | next _ passes =>
    subst arrived
    cases passes

theorem told_finish {s : Store Task V} (told : ∀ i, Told s i) {id i : ℕ} {c : Caller Task}
    (executing : Executing s id c) (known : id < s.nextId) (o : Except Raised V) :
    Told (finish s id c o) i := by
  have story := told_of_executing (told id) executing
  have others (j : ℕ) (_ : j ≠ id) : Told s j := told j
  have ends (x : Raised) : Story id c.key
      (history id s.log ++ [.stopped id c.key x, .raised id x]) .answered := by
    simpa using (story.next (.stops x)).next (.fails x)
  cases o with
  | ok v =>
    have ended := (story.next (.succeeds v s.now c.ttl)).next (.executed v s.now)
    rw [List.append_assoc] at ended
    exact told_leave others known ended (by simp [Event.call])
  | error x =>
    cases x with
    | cancelled => exact told_leave others known (ends _) (by simp [Event.call])
    | exception e => exact told_leave others known (ends _) (by simp [Event.call])
    | baseException t => exact told_leave others known (ends _) (by simp [Event.call])

/-- An entry without an expiry is that of a running operation. -/
theorem running_entry {s : Store Task V} (coherent : Coherent s) (owned : Owned s) (k : String) :
    (∃ e, (InMemoryIdempotencyStore.purgeExpired s.now s.entries).1.lookup k = some e ∧
      e.expiresAt = none) ↔ ∃ i c, Executing s i c ∧ c.key = k := by
  constructor
  · rintro ⟨e, found, unset⟩
    have old := (purge_lookup.mp found).1
    obtain ⟨c, executing⟩ := owned k e old unset
    have stored := (coherent.owner e.future c executing).1
    exact ⟨e.future, c, executing, coherent.entry_inj c.key k _ e stored old rfl⟩
  · rintro ⟨i, c, executing, rfl⟩
    obtain ⟨stored, pending⟩ := coherent.owner i c executing
    exact ⟨_, purge_keeps_pending coherent stored pending s.now, rfl⟩

/-- An entry with an expiry that survives a purge is that of a cached value. -/
theorem cached_entry {s : Store Task V} (h : Chronicle s) (k : String) :
    (∃ e x, (InMemoryIdempotencyStore.purgeExpired s.now s.entries).1.lookup k = some e ∧
      e.expiresAt = some x) ↔
    ∃ f v t ttl, lastExecution k s.log = some (.succeeded f k v t ttl) ∧ s.now < t + ttl := by
  constructor
  · rintro ⟨e, x, found, expires⟩
    obtain ⟨old, fresh⟩ := purge_lookup.mp found
    obtain ⟨v, t, ttl, last, rfl, _⟩ := h.cached k e x old expires
    refine ⟨e.future, v, t, ttl, last, not_le.mp fun late => ?_⟩
    rw [(expired_iff expires).mpr late] at fresh
    cases fresh
  · rintro ⟨f, v, t, ttl, last, early⟩
    obtain ⟨task, stored⟩ := (h.latest f k v t ttl last).2 early
    refine ⟨_, t + ttl, purge_lookup.mpr ⟨stored, ?_⟩, rfl⟩
    simpa [expired] using early

section
variable [DecidableEq Task]

/-- A turn of the loop takes a call that arrives, or one released from waiting, onwards. -/
theorem told_enter {s : Store Task V} {id i : ℕ} (c : Caller Task)
    (told : ∀ i, i ≠ id → Told s i) (known : id < s.nextId) {a : Stage V}
    (story : Story id c.key (history id s.log) a) (turning : a = .arriving ∨ ∃ f, a = .waiting f)
    : Told (enter s id c) i := by
  have passes (b : Stage V) (e : Event V) (first : Passes id c.key .arriving e b)
      (again : ∀ f, Passes id c.key (.waiting f) e b) :
      Story id c.key (history id s.log ++ [e]) b := by
    rcases turning with rfl | ⟨f, rfl⟩
    · exact story.next first
    · exact story.next (again f)
  have keyed (d : Caller Task) (phase : Phase) (h : some { c with phase } = some d) :
      d.key = c.key := by
    cases h
    rfl
  rcases enter_cases s id c with
    ⟨_, eq⟩ | ⟨e, _, _, _, _, eq⟩ | ⟨e, _, _, ⟨v, _, eq⟩ | ⟨x, _, eq⟩ | ⟨_, eq⟩⟩ <;> rw [eq]
  · exact told_move told (x := some { c with phase := .executing })
      (passes .running _ .owns .inherits) (fun d => keyed d _)
      ⟨rfl, rfl, rfl, by simp [Event.call]⟩
  · exact told_leave (s := { s with entries := _ }) told known
      (passes .answered _ (.refused _) fun f => .raises f _) (by simp [Event.call])
  · exact told_leave (s := { s with entries := _ }) told known
      (passes .answered _ (.replays v _) fun f => .supplied f v _) (by simp [Event.call])
  · exact told_leave (s := { s with entries := _ }) told known
      (passes .answered _ (.refused _) fun f => .raises f _) (by simp [Event.call])
  · exact told_move told (x := some { c with phase := .waiting e.future })
      (passes (.waiting e.future) _ (.joins _) fun f => .rejoins f _) (fun d => keyed d _)
      ⟨rfl, rfl, rfl, by simp [Event.call]⟩

theorem told_step {s t : Store Task V} (coherent : Coherent s) (told : ∀ i, Told s i)
    {l : Label Task V} (hs : step s l = some t) (i : ℕ) : Told t i := by
  have fresh := coherent.fresh_caller s.nextId (Nat.le_refl _)
  have grown (j : ℕ) (other : j ≠ s.nextId) : Told { s with nextId := s.nextId + 1 } j := by
    obtain ⟨key, story, keyed⟩ := told j
    refine ⟨key, ?_, keyed⟩
    have same : (j < s.nextId) = (j < s.nextId + 1) := propext (by omega)
    simpa only [standing, same] using story
  cases step_shape hs with
  | refused task key ttl x =>
    have story := told_of_absent (told s.nextId) fresh (Nat.le_refl _) key
    refine told_move (s := { s with nextId := s.nextId + 1 }) grown (x := none) (k := key)
      ?_ (fun c h => by cases h) ⟨rfl, ?_, rfl, by simp [Event.call]⟩
    · rw [standing, if_pos (Nat.lt_succ_self _)]
      exact story.next (.refused x)
    · exact (Function.update_eq_self_iff.mpr fresh.symm).symm
  | @enters task key ttl named positive =>
    exact told_enter (s := { s with nextId := s.nextId + 1 }) ⟨task, key, ttl, .executing⟩ grown
      (Nat.lt_succ_self _) (told_of_absent (told s.nextId) fresh (Nat.le_refl _) key) (.inl rfl)
  | finishes o executing =>
    exact told_finish told executing (coherent_id_lt coherent executing.1) o
  | @wakes id c f _ waiting woken =>
    have story := told_of_waiting (told id) waiting
    have known := coherent_id_lt coherent waiting.1
    unfold wake at woken
    split at woken
    · cases woken
    · cases woken
      exact told_leave (fun j _ => told j) known (story.next (.shares f _ _)) (by simp [Event.call])
    · cases woken
      exact told_leave (fun j _ => told j) known (story.next (.raises f _)) (by simp [Event.call])
    · cases woken
      exact told_enter c (fun j _ => told j) known story (.inr ⟨f, rfl⟩)
  | @cancels id c f waiting =>
    have story := told_of_waiting (told id) waiting
    exact told_leave (fun j _ => told j) (coherent_id_lt coherent waiting.1)
      (story.next (.raises f _)) (by simp [Event.call])
  | purges e counts =>
    obtain ⟨key, story, keyed⟩ := told i
    refine ⟨key, ?_, keyed⟩
    have about : e.call = none := by
      rcases counts with ⟨n, rfl⟩ | ⟨n, rfl⟩ <;> rfl
    simpa [history, about] using story
  | advances => exact told i

/-- In every reachable state the history of each call is a path from its arrival to where
    it stands. A call in flight has no answer, one that has left has exactly one, and no
    call starts its operation twice. -/
theorem call_answered_once (start : ℚ) (s : Store Task V)
    (h : Reachable step (initial start) s) (i : ℕ) :
    (∃ key, Story i key (history i s.log) (standing s.nextId i (s.callers i)) ∧
      ∀ c, s.callers i = some c → c.key = key) ∧
    (history i s.log).countP Event.answers =
      (if i < s.nextId ∧ (s.callers i).isNone then 1 else 0) ∧
    (history i s.log).countP Event.starts ≤ 1 := by
  have all := invariant_reachable (I := fun s : Store Task V => Coherent s ∧ ∀ i, Told s i)
    ⟨coherent_initial start, told_initial start⟩
    (fun _ _ _ inv hs => ⟨coherent_step inv.1 hs, told_step inv.1 inv.2 hs⟩) h
  obtain ⟨key, story, keyed⟩ := all.2 i
  refine ⟨⟨key, story, keyed⟩, ?_, (story_starts story).1⟩
  rw [story_answers story]
  cases caller : s.callers i with
  | none => by_cases known : i < s.nextId <;> simp [standing, known, Stage.isAnswered]
  | some c => cases phase : c.phase <;> simp [standing, phase, Stage.isAnswered]

def inheritedRun : List (Label ℕ ℕ) :=
  [.execute 1 "k" 60, .execute 2 "k" 60, .finish 0 (.error .cancelled), .wake 1, .finish 1 (.ok 7)]

theorem call_answered_once_inherited : ∃ s : Store ℕ ℕ,
    run step (initial 0) inheritedRun = some s ∧
    (∃ key, Story 1 key (history 1 s.log) (standing s.nextId 1 (s.callers 1))) ∧
    (history 1 s.log).countP Event.answers =
      (if 1 < s.nextId ∧ (s.callers 1).isNone then 1 else 0) ∧
    history 1 s.log = [.joined 1 "k" 0, .started 1 "k", .succeeded 1 "k" 7 0 60,
      .returned 1 ⟨7, "k", .executed⟩ 0] := by
  have done : ∃ s : Store ℕ ℕ, run step (initial 0) inheritedRun = some s := ⟨_, rfl⟩
  have log : (run step (initial 0 : Store ℕ ℕ) inheritedRun).map (fun s => history 1 s.log) =
      some [.joined 1 "k" 0, .started 1 "k", .succeeded 1 "k" 7 0 60,
        .returned 1 ⟨7, "k", .executed⟩ 0] := rfl
  obtain ⟨s, hs⟩ := done
  rw [hs] at log
  obtain ⟨⟨key, story, _⟩, answers, _⟩ := call_answered_once 0 s ⟨_, hs⟩ 1
  exact ⟨s, hs, ⟨key, story⟩, answers, Option.some.inj log⟩

theorem owned_run {start : ℚ} {ls : List (Label Task V)} {s : Store Task V}
    (caught : Along step Caught (initial start) ls) (h : run step (initial start) ls = some s) :
    Coherent s ∧ Owned s :=
  invariant_along (I := fun s => Coherent s ∧ Owned s)
    (fun _ _ _ inv caught hs => ⟨coherent_step inv.1 hs, owned_step inv.1 inv.2 caught hs⟩)
    ⟨coherent_initial start, fun k e found => by simp [initial] at found⟩ caught h

/-- Along runs in which no operation ends with an uncaught BaseException: `entry_count` gives
    the number of keys whose operation is running plus the number of keys whose latest
    execution succeeded less than its ttl ago, and `purge_expired` removes all other entries. -/
theorem entry_count_exact (start : ℚ) (ls : List (Label Task V)) (s : Store Task V)
    (caught : Along step Caught (initial start) ls) (h : run step (initial start) ls = some s) :
    ∃ running cached : Finset String, Disjoint running cached ∧
      (∀ k, k ∈ running ↔ ∃ i c, Executing s i c ∧ c.key = k) ∧
      (∀ k, k ∈ cached ↔ ∃ f v t ttl,
        lastExecution k s.log = some (.succeeded f k v t ttl) ∧ s.now < t + ttl) ∧
      (∃ t, step s .entryCount = some t ∧
        t.log = s.log ++ [.counted (running.card + cached.card)]) ∧
      ∃ t n, step s .purgeExpired = some t ∧ t.log = s.log ++ [.purged n] ∧
        n + (running.card + cached.card) = s.entries.keys.length ∧
        ∀ k, k ∈ t.entries ↔ k ∈ running ∨ k ∈ cached := by
  obtain ⟨coherent, owned⟩ := owned_run caught h
  have chronicle := (chronicle_reachable ⟨ls, h⟩).2
  let live := (InMemoryIdempotencyStore.purgeExpired s.now s.entries).1
  obtain ⟨running, cached, apart, busy, done, total⟩ :=
    keys_split (fun e : Entry Task => e.expiresAt.isNone) live
  have size := length_keep (fun e => !expired s.now e) s.entries
  refine ⟨running, cached, apart, ?_, ?_, ⟨_, rfl, ?_⟩, _, _, rfl, rfl, ?_, ?_⟩
  · intro k
    rw [busy, ← running_entry coherent owned]
    simp [live]
  · intro k
    rw [done, ← cached_entry chronicle]
    simp only [Option.isNone_eq_false_iff, Option.isSome_iff_exists]
    constructor
    · rintro ⟨e, found, x, expires⟩
      exact ⟨e, x, found, expires⟩
    · rintro ⟨e, x, found, expires⟩
      exact ⟨e, found, x, expires⟩
  · rw [total]
    simp [live, InMemoryIdempotencyStore.purgeExpired, AList.keys, List.keys]
  · rw [total, ← size, Nat.add_comm]
    simp [live, InMemoryIdempotencyStore.purgeExpired]
  · intro k
    rw [busy, done, ← AList.lookup_isSome, Option.isSome_iff_exists]
    constructor
    · rintro ⟨e, found⟩
      cases unset : e.expiresAt.isNone with
      | true => exact .inl ⟨e, found, unset⟩
      | false => exact .inr ⟨e, found, unset⟩
    · rintro (⟨e, found, _⟩ | ⟨e, found, _⟩) <;> exact ⟨e, found⟩

def countedRun : List (Label ℕ ℕ) :=
  [.execute 1 "a" 5, .finish 0 (.ok 7), .execute 1 "b" 60, .finish 1 (.ok 8), .execute 2 "c" 5,
    .advance 5]

theorem entry_count_exact_counted : ∃ (s t : Store ℕ ℕ) (running cached : Finset String),
    run step (initial 0) countedRun = some s ∧ step s .entryCount = some t ∧
    t.log = s.log ++ [.counted 2] ∧ running.card + cached.card = 2 ∧ "c" ∈ running := by
  have done : (run step (initial 0 : Store ℕ ℕ) countedRun).any (fun s =>
      (InMemoryIdempotencyStore.purgeExpired s.now s.entries).1.entries.length = 2 &&
        s.callers 2 = some ⟨2, "c", 5, .executing⟩) = true := by
    decide +kernel
  obtain ⟨s, hs, facts⟩ := (Option.any_eq_true _ _).mp done
  simp only [Bool.and_eq_true, decide_eq_true_eq] at facts
  have caught : Along step Caught (initial 0 : Store ℕ ℕ) countedRun :=
    along_of_mem (by simp [countedRun, Caught]) _
  obtain ⟨running, cached, _, busy, _, ⟨t, ht, log⟩, _⟩ := entry_count_exact 0 _ s caught hs
  have two : t.log = s.log ++ [.counted 2] := by
    cases ht
    rw [← facts.1]
    rfl
  have total : running.card + cached.card = 2 := by
    simpa using log.symm.trans two
  exact ⟨s, t, running, cached, hs, ht, two, total, (busy "c").mpr ⟨2, _, ⟨facts.2, rfl⟩, rfl⟩⟩

end

end Relprim.IdempotencyRuns
