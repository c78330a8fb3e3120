import Mathlib.Logic.Function.Basic
import Relprim.SQLiteSchema
import Relprim.SQLiteRoundTrip

/-!
Any number of stores on one database file. A store prepares the file in a worker thread, under
its own lock; a cancelled caller lets go of the lock while the thread goes on, and a process that
dies takes its threads with it. The transaction of a thread is taken statement by statement. The
results are about tables, rows and indexes: the WAL switch, which comes before the version is
read, also writes the journal mode into the file's header.
-/
namespace Relprim.SQLiteEvents
open Transactions LabelledRuns Function
variable {F : Type} {fmt : Json.Format F}

def Schema.step (fmt : Json.Format F) (s : Schema) (c : Call F) : Option Schema :=
  (s.events.bind fun t => t.step fmt c).map fun t => { s with events := some t }

theorem Schema.step_versions {s t : Schema} {c : Call F} (h : s.step fmt c = some t) :
    t.versions = s.versions ∧ t.events.isSome = true := by
  obtain ⟨events, _, rfl⟩ := Option.map_eq_some_iff.mp h
  exact ⟨rfl, rfl⟩

theorem Schema.run_versions {s t : Schema} {calls : List (Call F)}
    (h : run (Schema.step fmt) s calls = some t) :
    t.versions = s.versions ∧ (s.events.isSome = true → t.events.isSome = true) := by
  refine invariant_run (I := fun u => u.versions = s.versions ∧
    (s.events.isSome = true → u.events.isSome = true)) ?_ ?_ h
  · rintro u c v ⟨same, _⟩ next
    have made := Schema.step_versions next
    exact ⟨made.1.trans same, fun _ => made.2⟩
  · exact ⟨rfl, id⟩

theorem Schema.run_table {s t : Schema} {calls : List (Call F)}
    (h : run (Schema.step fmt) s calls = some t) {events : Table} (there : t.events = some events) :
    run (Table.step fmt) (s.events.getD .created) calls = some events := by
  induction calls generalizing s with
  | nil =>
    cases h
    rw [there]
    rfl
  | cons c rest ih =>
    obtain ⟨u, first, later⟩ := run_cons.mp h
    obtain ⟨table, made, rfl⟩ := Option.map_eq_some_iff.mp first
    obtain ⟨old, known, called⟩ := Option.bind_eq_some_iff.mp made
    rw [known]
    exact run_cons.mpr ⟨table, called, ih later⟩

inductive Position where
  | enablingWal
  | beginning
  | inTransaction
  | ended (result : Except Exc Unit)

structure Thread where
  store : ℕ
  position : Position

/-- `_initialized`, and the thread that the holder of `_initialize_lock` awaits. -/
structure StoreState where
  initialized : Bool := false
  awaited : Option ℕ := none

structure System where
  file : File Schema (List Statement)
  threads : ℕ → Option Thread := fun _ => none
  nextThread : ℕ := 0
  stores : ℕ → StoreState := fun _ => {}

inductive Label (F : Type) where
  | ensureInitialized (store : ℕ)
  | enableWal (thread : ℕ) (journalMode : String) (switch : Switch) (late : Bool)
  | beginImmediate (thread : ℕ) (failure : Option Exc)
  | statement (thread : ℕ) (failure : Option Exc)
  | resume (store : ℕ)
  | cancel (store : ℕ)
  | crash (store : ℕ)
  | call (store : ℕ) (c : Call F)

namespace System
variable (s : System)

def position (id : ℕ) : Option Position := (s.threads id).map Thread.position

def moveTo (id : ℕ) (p : Position) : System :=
  { s with threads := update s.threads id ((s.threads id).map fun t => { t with position := p }) }

def setStore (i : ℕ) (state : StoreState) : System :=
  { s with stores := update s.stores i state }

def startThread (i : ℕ) : System :=
  { s with
    threads := update s.threads s.nextThread (some ⟨i, .enablingWal⟩)
    nextThread := s.nextThread + 1
    stores := update s.stores i { (s.stores i) with awaited := some s.nextThread } }

/-- `_ensure_initialized`, up to the worker thread. A task that finds the lock taken waits. -/
def ensureInitialized (i : ℕ) : Option System :=
  if (s.stores i).initialized then some s
  else
    match (s.stores i).awaited with
    | some _ => none
    | none => some (s.startThread i)

def settle (id : ℕ) : File Schema (List Statement) × Progress Exc → System
  | (file, .running) => { s with file }
  | (file, .committed) => { s with file }.moveTo id (.ended (.ok ()))
  | (file, .rolledBack e) => { s with file }.moveTo id (.ended (.error e))

/-- The rest of `_ensure_initialized`, when the thread has ended. -/
def resume (i : ℕ) : Option System :=
  match (s.stores i).awaited.bind s.position with
  | some (.ended (.ok _)) => some (s.setStore i { initialized := true })
  | some (.ended (.error _)) => some (s.setStore i { (s.stores i) with awaited := none })
  | _ => none

def writes (i : ℕ) : Bool :=
  s.file.writer.any fun w => (s.threads w.client).any fun t => t.store = i

/-- The store's process dies, and a new store takes its place. -/
def crash (i : ℕ) : System where
  file := if s.writes i then s.file.rollback else s.file
  threads id := (s.threads id).filter fun t => t.store ≠ i
  nextThread := s.nextThread
  stores := update s.stores i {}

def step (fmt : Json.Format F) (s : System) : Label F → Option System
  | .ensureInitialized i => s.ensureInitialized i
  | .enableWal id journalMode switch late =>
    match s.position id with
    | some .enablingWal =>
      match walPass journalMode switch late with
      | .ok true => some (s.moveTo id .beginning)
      | .ok false => some s
      | .error e => some (s.moveTo id (.ended (.error e)))
    | _ => none
  | .beginImmediate id failure =>
    match s.position id, failure with
    | some .beginning, some e => some (s.moveTo id (.ended (.error e)))
    | some .beginning, none =>
      (s.file.begin id opening).map fun file => { s with file }.moveTo id .inTransaction
    | _, _ => none
  | .statement id failure =>
    match s.file.writer, failure with
    | some w, some e =>
      if w.client = id then some (s.settle id (s.file.rollback, .rolledBack e)) else none
    | some w, none =>
      if w.client = id then some (s.settle id (s.file.advance initializeBody w)) else none
    | none, _ => none
  | .resume i => s.resume i
  | .cancel i =>
    if (s.stores i).awaited.isSome then some (s.setStore i { (s.stores i) with awaited := none })
    else none
  | .crash i => some (s.crash i)
  | .call i c =>
    if (s.stores i).initialized ∧ s.file.writer.isNone then
      (s.file.committed.step fmt c).map fun committed =>
        { s with file := { s.file with committed } }
    else none

@[simp] theorem moveTo_file (id : ℕ) (p : Position) : (s.moveTo id p).file = s.file := rfl

variable {s}

theorem position_moveTo {id : ℕ} {p : Position} (there : (s.position id).isSome = true) (j : ℕ) :
    (s.moveTo id p).position j = if j = id then some p else s.position j := by
  unfold position at there ⊢
  rw [Option.isSome_map] at there
  obtain ⟨t, here⟩ := Option.isSome_iff_exists.mp there
  unfold moveTo
  split
  · rename_i same
    simp only [same, update_self, here, Option.map_some]
  · rename_i other
    simp only [update_of_ne other]

end System

def untouched (start : Schema) : System := { file := { committed := start } }

def Label.call? : Label F → Option (Call F)
  | .call _ c => some c
  | _ => none

def performed (labels : List (Label F)) : List (Call F) := labels.filterMap Label.call?

/-- The tables have been prepared, and the calls since then are the only changes. -/
def Serving (fmt : Json.Format F) (start : Schema) (calls : List (Call F)) (s : Schema) : Prop :=
  ∃ upgraded, initializeSync start = .ok upgraded ∧ run (Schema.step fmt) upgraded calls = some s

theorem Serving.upToDate {start s : Schema} {calls : List (Call F)}
    (h : Serving fmt start calls s) : UpToDate s := by
  obtain ⟨upgraded, made, rest⟩ := h
  obtain ⟨versions, known, current⟩ := (initializeSync_ok made).1
  exact ⟨versions, (Schema.run_versions rest).1.trans known, current⟩

/-- Preparing such tables again does nothing. -/
theorem Serving.makes {start s d : Schema} {calls : List (Call F)} (h : Serving fmt start calls s)
    (made : Makes initializeBody opening s (.ok d)) : d = s := by
  have same := makes_opening.mp made
  rw [initializeSync_upToDate h.upToDate] at same
  exact Except.ok.inj same

structure Sound (fmt : Json.Format F) (start : Schema) (s : System) (calls : List (Call F)) :
    Prop where
  fresh : ∀ id, s.nextThread ≤ id → s.threads id = none
  writing : ∀ id, s.position id = some .inTransaction ↔
    ∃ w, s.file.writer = some w ∧ w.client = id
  serial : s.file.Serial initializeBody opening
  owned : ∀ i id, (s.stores i).awaited = some id → ∃ p, s.threads id = some ⟨i, p⟩
  content : (s.file.committed = start ∧ calls = []) ∨ Serving fmt start calls s.file.committed
  ended : ∀ id, s.position id = some (.ended (.ok ())) →
    Serving fmt start calls s.file.committed
  initialized : ∀ i, (s.stores i).initialized = true → Serving fmt start calls s.file.committed

namespace Sound
variable {start : Schema} {s : System} {calls : List (Call F)}

theorem initial (fmt : Json.Format F) (start : Schema) : Sound fmt start (untouched start) [] where
  fresh _ _ := rfl
  writing id := by simp [System.position, untouched]
  serial := File.serial_idle rfl
  owned _ _ awaited := by cases awaited
  content := .inl ⟨rfl, rfl⟩
  ended _ there := by cases there
  initialized _ done := by cases done

theorem makes (h : Sound fmt start s calls) {d : Schema}
    (made : Makes initializeBody opening s.file.committed (.ok d)) : Serving fmt start calls d := by
  rcases h.content with ⟨same, rfl⟩ | serving
  · rw [same] at made
    exact ⟨d, (makes_opening.mp made).symm, rfl⟩
  · rw [serving.makes made]
    exact serving

theorem owned_moveTo (h : Sound fmt start s calls) {id : ℕ} {p : Position} (i j : ℕ)
    (awaited : (s.stores i).awaited = some j) : ∃ q, (s.moveTo id p).threads j = some ⟨i, q⟩ := by
  obtain ⟨q, there⟩ := h.owned i j awaited
  by_cases same : j = id
  · subst same
    exact ⟨p, by simp only [System.moveTo, update_self, there, Option.map_some]⟩
  · exact ⟨q, by simp only [System.moveTo, update_of_ne same, there]⟩

theorem fresh_moveTo (h : Sound fmt start s calls) {id : ℕ} {p : Position}
    (there : (s.position id).isSome = true) (j : ℕ) (above : s.nextThread ≤ j) :
    (s.moveTo id p).threads j = none := by
  have other : j ≠ id := by
    rintro rfl
    rw [System.position, h.fresh j above] at there
    cases there
  simp only [System.moveTo, update_of_ne other, h.fresh j above]

/-- A thread that holds no write lock moves on, and takes none. -/
theorem move (h : Sound fmt start s calls) {id : ℕ} {p : Position}
    (there : (s.position id).isSome = true) (idle : s.position id ≠ some .inTransaction)
    (still : p ≠ .inTransaction)
    (done : p = .ended (.ok ()) → Serving fmt start calls s.file.committed) :
    Sound fmt start (s.moveTo id p) calls where
  fresh := h.fresh_moveTo there
  writing j := by
    rw [System.position_moveTo there, System.moveTo_file, ← h.writing j]
    split
    · rename_i same
      rw [same]
      simp [still, idle]
    · rfl
  serial := h.serial
  owned := h.owned_moveTo
  content := h.content
  ended j ok := by
    rw [System.position_moveTo there] at ok
    split at ok
    · exact done (Option.some.inj ok)
    · exact h.ended j ok
  initialized := h.initialized

theorem ensureInitialized (h : Sound fmt start s calls) {i : ℕ} {t : System}
    (step : s.ensureInitialized i = some t) : Sound fmt start t calls := by
  unfold System.ensureInitialized at step
  split at step
  · cases step
    exact h
  · split at step
    · cases step
    · rename_i _ _ free
      cases step
      have unknown := h.fresh _ (Nat.le_refl s.nextThread)
      have positions (j : ℕ) (old : j ≠ s.nextThread) :
          (update s.threads s.nextThread (some ⟨i, .enablingWal⟩) j).map Thread.position =
            s.position j := by
        rw [update_of_ne old]
        rfl
      constructor
      · intro id above
        simp only [System.startThread, update_of_ne (Nat.ne_of_gt above)]
        exact h.fresh id (Nat.le_of_lt above)
      · intro id
        refine Iff.trans ?_ (h.writing id)
        by_cases same : id = s.nextThread
        · simp [System.startThread, System.position, same, unknown]
        · exact iff_of_eq (congrArg (· = some Position.inTransaction) (positions id same))
      · exact h.serial
      · intro j id awaited
        by_cases same : j = i
        · simp only [System.startThread, same, update_self, Option.some.injEq] at awaited
          exact ⟨.enablingWal, by simp only [System.startThread, ← awaited, update_self, same]⟩
        · simp only [System.startThread, update_of_ne same] at awaited
          obtain ⟨p, there⟩ := h.owned j id awaited
          have old : id ≠ s.nextThread := by
            rintro rfl
            rw [unknown] at there
            cases there
          exact ⟨p, by simp only [System.startThread, update_of_ne old, there]⟩
      · exact h.content
      · intro id ok
        by_cases same : id = s.nextThread
        · simp [System.startThread, System.position, same] at ok
        · exact h.ended id ((positions id same).symm.trans ok)
      · intro j done
        by_cases same : j = i
        · simp only [System.startThread, same, update_self] at done
          exact h.initialized i done
        · simp only [System.startThread, update_of_ne same] at done
          exact h.initialized j done

theorem begins (h : Sound fmt start s calls) {id : ℕ} {file : File Schema (List Statement)}
    (there : s.position id = some .beginning) (begun : s.file.begin id opening = some file) :
    Sound fmt start ({ s with file }.moveTo id .inTransaction) calls := by
  have serial : file.Serial initializeBody opening := File.serial_begin begun
  obtain ⟨free, rfl⟩ := s.file.begin_eq_some.mp begun
  have known : (s.position id).isSome = true := by simp [there]
  have moved (j : ℕ) : ({ s with file := ⟨s.file.committed, some ⟨id, opening, s.file.committed⟩⟩ }.moveTo
      id .inTransaction).position j = if j = id then some .inTransaction else s.position j :=
    System.position_moveTo (s := { s with file := _ }) known j
  constructor
  · exact h.fresh_moveTo known
  · intro j
    rw [moved]
    split
    · rename_i same
      simp [same]
    · rename_i other
      rw [h.writing j, free]
      simp [Ne.symm other]
  · exact serial
  · exact h.owned_moveTo
  · exact h.content
  · intro j ok
    rw [moved] at ok
    split at ok
    · cases ok
    · exact h.ended j ok
  · exact h.initialized

theorem ends (h : Sound fmt start s calls) {w : Transactions.Writer Schema (List Statement)}
    (held : s.file.writer = some w) {d : Schema} {r : Except Exc Unit}
    (content : (d = start ∧ calls = []) ∨ Serving fmt start calls d)
    (kept : Serving fmt start calls s.file.committed → Serving fmt start calls d)
    (done : r = .ok () → Serving fmt start calls d) :
    Sound fmt start ({ s with file := ⟨d, none⟩ }.moveTo w.client (.ended r)) calls := by
  have there : s.position w.client = some .inTransaction := (h.writing _).mpr ⟨w, held, rfl⟩
  have known : (s.position w.client).isSome = true := by simp [there]
  have moved (j : ℕ) : ({ s with file := ⟨d, none⟩ }.moveTo w.client (.ended r)).position j =
      if j = w.client then some (.ended r) else s.position j :=
    System.position_moveTo (s := { s with file := _ }) known j
  constructor
  · exact h.fresh_moveTo known
  · intro j
    rw [moved]
    split
    · simp
    · rename_i other
      rw [h.writing j, held]
      simp [Ne.symm other]
  · exact File.serial_idle rfl
  · exact h.owned_moveTo
  · exact content
  · intro j ok
    rw [moved] at ok
    split at ok
    · exact done (by simpa using ok)
    · exact kept (h.ended j ok)
  · exact fun i ready => kept (h.initialized i ready)

theorem rolledBack (h : Sound fmt start s calls) {w : Transactions.Writer Schema (List Statement)}
    (held : s.file.writer = some w) (e : Exc) :
    Sound fmt start (s.settle w.client (s.file.rollback, .rolledBack e)) calls :=
  h.ends held h.content id nofun

theorem advances (h : Sound fmt start s calls) {w : Transactions.Writer Schema (List Statement)}
    (held : s.file.writer = some w) :
    Sound fmt start (s.settle w.client (s.file.advance initializeBody w)) calls := by
  rcases File.advance_cases h.serial held with ⟨d, made, next⟩ | ⟨e, _, next⟩ | ⟨p, d, next, _, serial⟩
  · rw [next]
    have serving := h.makes made
    exact h.ends held (.inr serving) (fun _ => serving) fun _ => serving
  · rw [next]
    exact h.rolledBack held e
  · rw [next]
    have writing (id : ℕ) : s.position id = some .inTransaction ↔
        ∃ v, some (Writer.mk w.client p d) = some v ∧ v.client = id := by
      rw [h.writing id, held]
      simp
    exact { h with writing, serial }

theorem setStore (h : Sound fmt start s calls) {i : ℕ} {state : StoreState}
    (free : state.awaited = none)
    (ready : state.initialized = true → Serving fmt start calls s.file.committed) :
    Sound fmt start (s.setStore i state) calls := by
  refine { h with owned := fun j id awaited => ?_, initialized := fun j done => ?_ }
  · by_cases same : j = i
    · simp only [System.setStore, same, update_self, free] at awaited
      cases awaited
    · simp only [System.setStore, update_of_ne same] at awaited
      exact h.owned j id awaited
  · by_cases same : j = i
    · simp only [System.setStore, same, update_self] at done
      exact ready done
    · simp only [System.setStore, update_of_ne same] at done
      exact h.initialized j done

theorem resume (h : Sound fmt start s calls) {i : ℕ} {t : System} (step : s.resume i = some t) :
    Sound fmt start t calls := by
  unfold System.resume at step
  split at step
  · rename_i ended
    cases step
    obtain ⟨id, _, there⟩ := Option.bind_eq_some_iff.mp ended
    exact h.setStore rfl fun _ => h.ended id there
  · cases step
    exact h.setStore rfl fun done => h.initialized i done
  · cases step

theorem crash (h : Sound fmt start s calls) (i : ℕ) : Sound fmt start (s.crash i) calls := by
  have committed : (s.crash i).file.committed = s.file.committed := by
    unfold System.crash
    dsimp only
    split <;> rfl
  have kept {id : ℕ} {p : Position} (there : (s.crash i).position id = some p) :
      s.position id = some p ∧ ∀ t, s.threads id = some t → t.store ≠ i := by
    obtain ⟨t, found, same⟩ := Option.map_eq_some_iff.mp there
    obtain ⟨here, other⟩ := Option.filter_eq_some_iff.mp found
    refine ⟨by rw [System.position, here, Option.map_some, same], fun u at_ => ?_⟩
    rw [here] at at_
    cases at_
    simpa using other
  constructor
  · intro id above
    simp only [System.crash, h.fresh id above, Option.filter_none]
  · intro id
    constructor
    · intro there
      obtain ⟨before, other⟩ := kept there
      obtain ⟨w, held, same⟩ := (h.writing id).mp before
      refine ⟨w, ?_, same⟩
      have elsewhere : s.writes i = false := by
        rw [System.writes, held, Option.any_some, same]
        cases found : s.threads id with
        | none => rfl
        | some t => simpa using other t found
      simp only [System.crash, elsewhere]
      exact held
    · rintro ⟨w, held, same⟩
      have elsewhere : s.writes i ≠ true := by
        intro writes
        simp only [System.crash, if_pos writes] at held
        cases held
      simp only [System.crash, if_neg elsewhere] at held
      obtain ⟨t, found, there⟩ := Option.map_eq_some_iff.mp ((h.writing id).mpr ⟨w, held, same⟩)
      have other : t.store ≠ i := by
        simpa [System.writes, held, same, found] using elsewhere
      have survives : (s.crash i).threads id = some t :=
        Option.filter_eq_some_iff.mpr ⟨found, by simpa using other⟩
      rw [System.position, survives, Option.map_some, there]
  · by_cases writes : s.writes i = true
    · simp only [System.crash, if_pos writes]
      exact File.serial_idle rfl
    · simp only [System.crash, if_neg writes]
      exact h.serial
  · intro j id awaited
    by_cases same : j = i
    · simp only [System.crash, same, update_self] at awaited
      cases awaited
    · simp only [System.crash, update_of_ne same] at awaited
      obtain ⟨p, there⟩ := h.owned j id awaited
      exact ⟨p, Option.filter_eq_some_iff.mpr ⟨there, by simpa using same⟩⟩
  · rw [committed]
    exact h.content
  · intro id ok
    rw [committed]
    exact h.ended id (kept ok).1
  · intro j done
    rw [committed]
    by_cases same : j = i
    · simp only [System.crash, same, update_self] at done
      cases done
    · simp only [System.crash, update_of_ne same] at done
      exact h.initialized j done

theorem call (h : Sound fmt start s calls) {i : ℕ} {c : Call F} {t : System}
    (step : s.step fmt (.call i c) = some t) : Sound fmt start t (calls ++ [c]) := by
  simp only [System.step] at step
  split at step
  · rename_i ready
    obtain ⟨committed, made, rfl⟩ := Option.map_eq_some_iff.mp step
    have grown : Serving fmt start (calls ++ [c]) committed := by
      obtain ⟨upgraded, prepared, rest⟩ := h.initialized i ready.1
      exact ⟨upgraded, prepared, run_snoc.mpr ⟨_, rest, made⟩⟩
    exact {
      fresh := h.fresh
      writing := h.writing
      serial := File.serial_idle (Option.isNone_iff_eq_none.mp ready.2)
      owned := h.owned
      content := .inr grown
      ended := fun _ _ => grown
      initialized := fun _ _ => grown }
  · cases step

theorem quiet (h : Sound fmt start s calls) {l : Label F} (quiet : l.call? = none) {t : System}
    (next : s.step fmt l = some t) : Sound fmt start t calls := by
  cases l with
  | call i c => cases quiet
  | ensureInitialized i => exact h.ensureInitialized next
  | resume i => exact h.resume next
  | crash i =>
    cases next
    exact h.crash i
  | cancel i =>
    simp only [System.step] at next
    split at next
    · cases next
      exact h.setStore rfl fun done => h.initialized i done
    · cases next
  | enableWal id journalMode switch late =>
    simp only [System.step] at next
    split at next
    · rename_i there
      have known : (s.position id).isSome = true := by simp [there]
      split at next
      · cases next
        exact h.move known (by simp [there]) nofun nofun
      · cases next
        exact h
      · cases next
        exact h.move known (by simp [there]) nofun nofun
    · cases next
  | beginImmediate id failure =>
    simp only [System.step] at next
    split at next
    · rename_i there
      cases next
      exact h.move (by simp [there]) (by simp [there]) nofun nofun
    · rename_i there
      obtain ⟨file, begun, rfl⟩ := Option.map_eq_some_iff.mp next
      exact h.begins there begun
    · cases next
  | statement id failure =>
    simp only [System.step] at next
    split at next
    · rename_i w e held
      split at next
      · rename_i same
        cases next
        rw [← same]
        exact h.rolledBack held e
      · cases next
    · rename_i w held
      split at next
      · rename_i same
        cases next
        rw [← same]
        exact h.advances held
      · cases next
    · cases next

theorem step (h : Sound fmt start s calls) {l : Label F} {t : System}
    (next : s.step fmt l = some t) : Sound fmt start t (calls ++ performed [l]) := by
  cases what : l.call? with
  | none =>
    have silent : performed [l] = [] := by simp [performed, what]
    rw [silent, List.append_nil]
    exact h.quiet what next
  | some c =>
    cases l with
    | call i d =>
      cases what
      exact h.call next
    | _ => cases what

end Sound

theorem performed_append (ls ms : List (Label F)) :
    performed (ls ++ ms) = performed ls ++ performed ms := List.filterMap_append

theorem sound_run {start : Schema} {s : System} {labels : List (Label F)}
    (h : run (System.step fmt) (untouched start) labels = some s) :
    Sound fmt start s (performed labels) := by
  induction labels using List.reverseRecOn generalizing s with
  | nil =>
    cases h
    exact .initial fmt start
  | append_singleton ls l ih =>
    obtain ⟨u, before, last⟩ := run_snoc.mp h
    rw [performed_append]
    exact (ih before).step last

/-! Nobody is ever stuck. -/

/-- A step in which nothing fails, nobody is cancelled, no process dies and nothing is written
    but by the initialization itself. -/
def Label.Undisturbed : Label F → Prop
  | .ensureInitialized _ | .resume _ => True
  | .enableWal _ _ switch _ => switch = .done
  | .beginImmediate _ failure | .statement _ failure => failure = none
  | .cancel _ | .crash _ | .call _ _ => False

theorem Label.Undisturbed.quiet {l : Label F} (h : l.Undisturbed) : l.call? = none := by
  cases l with
  | call i c => cases h
  | _ => rfl

abbrev Continues (fmt : Json.Format F) (s : System) (P : System → Prop) : Prop :=
  Attains (System.step fmt) Label.Undisturbed s P

theorem step_statement (fmt : Json.Format F) {s : System} {id : ℕ} {p : List Statement} {d : Schema}
    (held : s.file.writer = some ⟨id, p, d⟩) : s.step fmt (.statement id none) =
      some (s.settle id (s.file.advance initializeBody ⟨id, p, d⟩)) := by
  simp only [System.step, held, if_pos]

/-- The transaction under way comes to its end. -/
theorem writer_ends {start : Schema} {calls : List (Call F)} {p : List Statement} {d : Schema}
    {r : Except Exc Schema} (made : Makes initializeBody p d r) {s : System} {id : ℕ}
    (h : Sound fmt start s calls) (held : s.file.writer = some ⟨id, p, d⟩) :
    Continues fmt s fun t => Sound fmt start t calls ∧ t.file.writer = none ∧
      t.stores = s.stores ∧ ∀ j, t.position j =
        if j = id then some (.ended (r.map fun _ => ())) else s.position j := by
  have known : (s.position id).isSome = true := by
    rw [(h.writing id).mpr ⟨_, held, rfl⟩]
    rfl
  have allowed : (Label.statement id none : Label F).Undisturbed := rfl
  have next := step_statement fmt held
  have sound := h.quiet rfl next
  induction made generalizing s with
  | commits ready =>
    rw [File.advance, ready] at next sound
    refine attains_step allowed next (attains_now ⟨sound, rfl, rfl, fun j => ?_⟩)
    exact System.position_moveTo (s := { s with file := _ }) known j
  | fails failed =>
    rw [File.advance, failed] at next sound
    refine attains_step allowed next (attains_now ⟨sound, rfl, rfl, fun j => ?_⟩)
    exact System.position_moveTo (s := { s with file := _ }) known j
  | @continues p q d c r more rest ih =>
    rw [File.advance, more] at next sound
    have again := step_statement fmt (s := s.settle id
      ({ s.file with writer := some ⟨id, q, c⟩ }, .running)) rfl
    exact attains_step allowed next (ih sound rfl known again (sound.quiet rfl again))

theorem idles {start : Schema} {s : System} {calls : List (Call F)} (h : Sound fmt start s calls) :
    Continues fmt s fun t => Sound fmt start t calls ∧ t.file.writer = none := by
  cases held : s.file.writer with
  | none => exact attains_now ⟨h, held⟩
  | some w =>
    have made := (h.serial w held _).mpr (makes_opening.mpr rfl)
    exact (writer_ends made h held).trans fun t there => attains_now ⟨there.1, there.2.1⟩

section
variable {start : Schema} {s : System} {calls : List (Call F)} {i id : ℕ}

theorem Sound.preparable (h : Sound fmt start s calls) {u : Schema}
    (able : initializeSync start = .ok u) : ∃ d, initializeSync s.file.committed = .ok d := by
  rcases h.content with ⟨same, _⟩ | serving
  · exact ⟨u, by rw [same, able]⟩
  · exact ⟨_, initializeSync_upToDate serving.upToDate⟩

def AtEnd (fmt : Json.Format F) (start : Schema) (calls : List (Call F)) (i id : ℕ)
    (result : Except Exc Unit) (s : System) : Prop :=
  Sound fmt start s calls ∧ s.file.writer = none ∧ (s.stores i).awaited = some id ∧
    s.position id = some (.ended result)

theorem beginning_ends (h : Sound fmt start s calls) (free : s.file.writer = none)
    (awaited : (s.stores i).awaited = some id) (there : s.position id = some .beginning)
    {d : Schema} (prepared : initializeSync s.file.committed = .ok d) :
    Continues fmt s (AtEnd fmt start calls i id (.ok ())) := by
  have begun : s.file.begin id opening = some ⟨s.file.committed, some ⟨id, opening, s.file.committed⟩⟩ :=
    s.file.begin_eq_some.mpr ⟨free, rfl⟩
  have next : s.step fmt (.beginImmediate id none) =
      some ({ s with file := ⟨s.file.committed, some ⟨id, opening, s.file.committed⟩⟩ }.moveTo id
        .inTransaction) := by
    simp only [System.step, there, begun, Option.map_some]
  have made : Makes initializeBody opening s.file.committed (.ok d) :=
    makes_opening.mpr prepared.symm
  refine attains_step (l := .beginImmediate id none) rfl next ?_
  refine (writer_ends made (h.begins there begun) rfl).trans ?_
  rintro t ⟨sound, ended, stores, positions⟩
  refine attains_now ⟨sound, ended, ?_, ?_⟩
  · rw [stores]
    exact awaited
  · rw [positions, if_pos rfl]
    rfl

theorem enabling_ends (h : Sound fmt start s calls) (free : s.file.writer = none)
    (awaited : (s.stores i).awaited = some id) (there : s.position id = some .enablingWal)
    {d : Schema} (prepared : initializeSync s.file.committed = .ok d) :
    Continues fmt s (AtEnd fmt start calls i id (.ok ())) := by
  have next : s.step fmt (.enableWal id "wal" .done false) = some (s.moveTo id .beginning) := by
    simp only [System.step, there, walPass_done]
  have known : (s.position id).isSome = true := by simp [there]
  refine attains_step (l := .enableWal id "wal" .done false) rfl next ?_
  refine beginning_ends (h.quiet (l := .enableWal id "wal" .done false) rfl next) free awaited ?_
    prepared
  rw [System.position_moveTo known, if_pos rfl]

theorem resumes (h : AtEnd fmt start calls i id (.ok ()) s) :
    Continues fmt s fun t => (t.stores i).initialized = true := by
  obtain ⟨_, _, awaited, there⟩ := h
  have next : s.step fmt (.resume i) = some (s.setStore i { initialized := true }) := by
    simp only [System.step, System.resume, awaited, Option.bind_some, there]
  refine attains_step (l := .resume i) trivial next (attains_now ?_)
  simp only [System.setStore, update_self]

theorem starts (h : Sound fmt start s calls) (free : s.file.writer = none)
    (nobody : (s.stores i).awaited = none) {d : Schema}
    (prepared : initializeSync s.file.committed = .ok d) :
    Continues fmt s fun t => (t.stores i).initialized = true := by
  by_cases done : (s.stores i).initialized = true
  · exact attains_now done
  · have next : s.step fmt (.ensureInitialized i) = some (s.startThread i) := by
      simp only [System.step, System.ensureInitialized, if_neg done, nobody]
    have awaited : ((s.startThread i).stores i).awaited = some s.nextThread := by
      simp only [System.startThread, update_self]
    have there : (s.startThread i).position s.nextThread = some .enablingWal := by
      simp only [System.startThread, System.position, update_self, Option.map_some]
    refine attains_step (l := .ensureInitialized i) trivial next ?_
    exact (enabling_ends (h.quiet (l := .ensureInitialized i) rfl next) free awaited there
      prepared).trans fun u => resumes

/-- Whatever has failed, been cancelled or died, every store can still come to serve. -/
theorem ready_attainable (h : Sound fmt start s calls) {u : Schema}
    (able : initializeSync start = .ok u) (i : ℕ) :
    Continues fmt s fun t => (t.stores i).initialized = true := by
  refine (idles h).trans ?_
  rintro t ⟨sound, free⟩
  obtain ⟨d, prepared⟩ := sound.preparable able
  cases awaited : (t.stores i).awaited with
  | none => exact starts sound free awaited prepared
  | some id =>
    obtain ⟨p, there⟩ := sound.owned i id awaited
    have at_ : t.position id = some p := by rw [System.position, there, Option.map_some]
    cases p with
    | enablingWal => exact (enabling_ends sound free awaited at_ prepared).trans fun u => resumes
    | beginning => exact (beginning_ends sound free awaited at_ prepared).trans fun u => resumes
    | inTransaction =>
      obtain ⟨w, held, _⟩ := (sound.writing id).mp at_
      rw [free] at held
      cases held
    | ended result =>
      cases result with
      | ok done => exact resumes ⟨sound, free, awaited, at_⟩
      | error e =>
        -- The failed attempt is given up, and the next caller starts another.
        have next : t.step fmt (.resume i) =
            some (t.setStore i { (t.stores i) with awaited := none }) := by
          simp only [System.step, System.resume, awaited, Option.bind_some, at_]
        refine attains_step (l := .resume i) trivial next ?_
        refine starts (sound.quiet (l := .resume i) rfl next) free ?_ prepared
        simp only [System.setStore, update_self]

end

/-- Whatever the stores do, together or one after the other, and whatever fails: the tables, rows
    and indexes are as they were found, or as one initialization alone and then the calls one by
    one leave them. A store that serves has the second. If the tables can be prepared at all, no
    store is ever cut off. -/
theorem startup_serializable {start : Schema} {labels : List (Label F)} {s : System}
    (reached : run (System.step fmt) (untouched start) labels = some s) :
    ((s.file.committed = start ∧ performed labels = []) ∨
      Serving fmt start (performed labels) s.file.committed) ∧
    (∀ events, s.file.committed.events = some events →
      run (Table.step fmt) (start.events.getD .created) (performed labels) = some events) ∧
    (∀ i, (s.stores i).initialized = true →
      Serving fmt start (performed labels) s.file.committed ∧ UpToDate s.file.committed) ∧
    ∀ upgraded, initializeSync start = .ok upgraded → ∀ i,
      Continues fmt s fun t => (t.stores i).initialized = true := by
  have sound := sound_run reached
  refine ⟨sound.content, fun events there => ?_, fun i ready => ?_,
    fun upgraded able i => ready_attainable sound able i⟩
  · rcases sound.content with ⟨same, none⟩ | ⟨upgraded, prepared, rest⟩
    · rw [none, ← same, there]
      rfl
    · have table := Schema.run_table rest there
      rcases (initializeSync_ok prepared).2 with kept | kept
      · rwa [kept] at table
      · rwa [kept, Option.getD_some] at table
  · have serving := sound.initialized i ready
    exact ⟨serving, serving.upToDate⟩

/-- The process of the first store dies in its transaction, and the second store goes on. -/
def startups : List (Label ℤ) :=
  [.ensureInitialized 0, .ensureInitialized 1, .enableWal 0 "delete" .done false,
    .enableWal 1 "wal" .done false, .beginImmediate 0 none, .statement 0 none, .statement 0 none,
    .statement 0 none, .crash 0, .beginImmediate 1 none, .statement 1 none, .statement 1 none,
    .statement 1 none, .statement 1 none, .statement 1 none, .statement 1 none,
    .statement 1 none, .statement 1 none, .resume 1, .call 1 (.emit 1 waited)]

theorem startups_serializable : ∃ s,
    run (System.step wholes) (untouched {}) startups = some s ∧
      (∀ events, s.file.committed.events = some events →
        run (Table.step wholes) .created [.emit 1 waited] = some events) ∧
      Continues wholes s fun t => (t.stores 0).initialized = true := by
  have runs : (run (System.step wholes) (untouched {}) startups).isSome = true := by
    decide +kernel
  obtain ⟨s, reached⟩ := Option.isSome_iff_exists.mp runs
  obtain ⟨_, table, _, progress⟩ := startup_serializable reached
  exact ⟨s, reached, table, progress (migrated {}) rfl 0⟩

/-- A schema that this package does not know: a version is on record that is not one of its
    own. -/
def Foreign (s : Schema) : Prop :=
  ∃ versions stored, s.versions = some versions ∧ versions.lookup schemaComponent = some stored ∧
    stored ≠ .int 0 ∧ stored ≠ .int schemaVersion

theorem initializeSync_fails_iff {s : Schema} :
    (∃ e, initializeSync s = .error e) ↔ Foreign s := by
  rw [initializeSync_eq]
  unfold versionOf readSchemaVersion Foreign
  cases known : s.versions with
  | none => simp
  | some versions =>
    simp only [Option.getD_some, Option.some.injEq]
    cases found : versions.lookup schemaComponent with
    | none => simp [found]
    | some stored =>
      cases stored with
      | other => simp [found]
      | int n =>
        by_cases negative : n < 0
        · simp only [if_pos negative]
          constructor
          · rintro _
            refine ⟨versions, .int n, rfl, found, ?_, ?_⟩
            · simp [Int.ne_of_lt negative]
            · simp only [schemaVersion, ne_eq, StoredVersion.int.injEq]
              omega
          · exact fun _ => ⟨_, rfl⟩
        · obtain ⟨m, rfl⟩ := Int.eq_ofNat_of_zero_le (Int.not_lt.mp negative)
          rcases m with _ | _ | k
          · simp [found]
          · simp [found, schemaVersion]
          · simp only [if_neg negative]
            constructor
            · rintro _
              refine ⟨versions, .int (k + 2 : ℕ), rfl, found, ?_, ?_⟩
              · simp only [ne_eq, StoredVersion.int.injEq]
                omega
              · simp only [schemaVersion, ne_eq, StoredVersion.int.injEq]
                omega
            · exact fun _ => ⟨_, rfl⟩

/-- The tables, rows and indexes of a foreign version are not changed by any number of stores,
    failing or not, and no store ever takes them for its own. -/
theorem foreign_schema_untouched {start : Schema} (foreign : Foreign start)
    {labels : List (Label F)} {s : System}
    (reached : run (System.step fmt) (untouched start) labels = some s) :
    s.file.committed = start ∧ performed labels = [] ∧ (∀ i, (s.stores i).initialized = false) ∧
      ∀ id result, s.position id = some (.ended result) → ∃ e, result = .error e := by
  have sound := sound_run reached
  obtain ⟨e, failing⟩ := initializeSync_fails_iff.mpr foreign
  have never {d : Schema} : ¬ Serving fmt start (performed labels) d := by
    rintro ⟨upgraded, prepared, _⟩
    rw [failing] at prepared
    cases prepared
  obtain ⟨same, none⟩ := sound.content.resolve_right never
  refine ⟨same, none, fun i => ?_, fun id result there => ?_⟩
  · exact Bool.eq_false_iff.mpr fun ready => never (sound.initialized i ready)
  · cases result with
    | ok done => exact absurd (sound.ended id there) never
    | error e => exact ⟨e, rfl⟩

def later : Schema where
  versions := some ((∅ : Dictionary.Dict String StoredVersion).insert schemaComponent (.int 2))
  events := some (Table.created.insert ⟨1, by decide, by decide⟩ ⟨0, [], [], [], []⟩)

def attempts : List (Label ℤ) :=
  [.ensureInitialized 0, .ensureInitialized 1, .enableWal 0 "wal" .done false,
    .beginImmediate 0 none, .statement 0 none, .enableWal 1 "wal" .done false,
    .statement 0 none, .resume 0, .beginImmediate 1 none, .statement 1 none, .statement 1 none,
    .resume 1]

theorem later_untouched : Foreign later ∧ ∃ s,
    run (System.step wholes) (untouched later) attempts = some s ∧ s.file.committed = later ∧
      ∀ i, (s.stores i).initialized = false := by
  have foreign : Foreign later := ⟨_, .int 2, rfl, AList.lookup_insert _, by decide, by decide⟩
  have runs : (run (System.step wholes) (untouched later) attempts).isSome = true := by
    decide +kernel
  obtain ⟨s, reached⟩ := Option.isSome_iff_exists.mp runs
  obtain ⟨same, _, never, _⟩ := foreign_schema_untouched foreign reached
  exact ⟨foreign, s, reached, same, never⟩

end Relprim.SQLiteEvents
