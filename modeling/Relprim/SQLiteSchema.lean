import Mathlib.Data.List.Range
import Mathlib.Tactic.Linarith
import Relprim.SQLiteEvents
import Relprim.Library.Transactions

/-!
sqlite_events.py: how a store prepares its database file, WAL mode, the schema version and the
migrations. The transaction of `_initialize_sync` is given statement by statement, since other
connections may run between any two of them, and as the function that it is when none does.
-/
namespace Relprim.SQLiteEvents
open Dictionary Fallible Transactions

def schemaError (message : String) : Exc := relprimError "SQLiteEventStoreSchemaError" message {}

def operationalError (message : String) : Exc :=
  .mk ⟨"OperationalError", "sqlite3"⟩ [⟨"DatabaseError", "sqlite3"⟩, ⟨"Error", "sqlite3"⟩,
    exceptionClass] [] message {}

/-! The schema. -/

def schemaComponent : String := "event_store"

def schemaVersion : ℕ := 1

namespace Table

theorem created_ascending : ([] : List Row).Pairwise (·.sequenceId < ·.sequenceId) := .nil

theorem created_issued : ∀ r ∈ ([] : List Row), 0 < r.sequenceId ∧ r.sequenceId ≤ 0 := by simp

theorem created_bounded : 0 < 2 ^ 63 := by decide

def created : Table := ⟨[], 0, created_ascending, created_issued, created_bounded⟩

end Table

/-- What the `version` column gives: an int, or an object of another type. -/
inductive StoredVersion where
  | int (n : ℤ)
  | other
  deriving DecidableEq

/-- What the transactions of a file change: `relprim_schema` and `relprim_events`, if they have
    been created, and the names of the indexes. The journal mode, which `_enable_wal` switches
    outside of any transaction, is no part of it. -/
structure Schema where
  versions : Option (Dict String StoredVersion) := none
  events : Option Table := none
  indexes : List String := []

def readSchemaVersion (s : Schema) : Except Exc ℕ :=
  match s.versions with
  | none => .error (operationalError "no such table: relprim_schema")
  | some versions =>
    match versions.lookup schemaComponent with
    | none => .ok 0
    | some (.int version) =>
      if version < 0 then .error (schemaError "SQLite event-store schema version is invalid.")
      else .ok version.toNat
    | some .other => .error (schemaError "SQLite event-store schema version is invalid.")

inductive Statement where
  | createSchemaTable
  | readVersion
  | createEventsTable
  | createIndex (name : String)
  | recordVersion (version : ℕ)
  | noMigration (version : ℕ)
  deriving DecidableEq

def migration1 : List Statement := [
  .createEventsTable,
  .createIndex "idx_relprim_events_operation_name_sequence",
  .createIndex "idx_relprim_events_event_type_sequence",
  .createIndex "idx_relprim_events_timestamp"]

def migrations : ℕ → Option (List Statement)
  | 1 => some migration1
  | _ => none

def migrateTo (version : ℕ) : List Statement :=
  match migrations version with
  | some migration => migration ++ [.recordVersion version]
  | none => [.noMigration version]

def newerError (version : ℕ) : Exc :=
  let supported := schemaVersion
  schemaError (s!"SQLite event-store schema version {version} is newer than the supported " ++
    s!"version {supported}.")

def upgradeFrom (version : ℕ) : Except Exc (List Statement) :=
  if version > schemaVersion then .error (newerError version)
  else .ok ((List.range' (version + 1) (schemaVersion - version)).flatMap migrateTo)

def addIndex (indexes : List String) (name : String) : List String :=
  if name ∈ indexes then indexes else indexes ++ [name]

/-- One statement: the schema after it, and the statements that come next because of it. -/
def Statement.execute (s : Schema) : Statement → Except Exc (Schema × List Statement)
  | .createSchemaTable => .ok ({ s with versions := some (s.versions.getD ∅) }, [])
  | .readVersion => do
    let version ← readSchemaVersion s
    let upgrade ← upgradeFrom version
    return (s, upgrade)
  | .createEventsTable => .ok ({ s with events := some (s.events.getD .created) }, [])
  | .createIndex name =>
    if s.events.isNone then .error (operationalError "no such table: main.relprim_events")
    else .ok ({ s with indexes := addIndex s.indexes name }, [])
  | .recordVersion version =>
    match s.versions with
    | none => .error (operationalError "no such table: relprim_schema")
    | some versions =>
      .ok ({ s with versions := some (versions.insert schemaComponent (.int version)) }, [])
  | .noMigration version => .error (schemaError
      s!"No SQLite event-store migration exists for schema version {version}.")

/-- The transaction of `_initialize_sync`, by the statements that are left before its commit. -/
def initializeBody : Body Schema (List Statement) Exc
  | [], _ => none
  | statement :: rest, s =>
    some ((statement.execute s).map fun done => (done.1, done.2 ++ rest))

def opening : List Statement := [.createSchemaTable, .readVersion]

def executeAll (statements : List Statement) (s : Schema) : Except Exc Schema :=
  statements.foldlM (fun s statement => (statement.execute s).map Prod.fst) s

/-- The transaction of `_initialize_sync` when nobody else runs. -/
def initializeSync (s : Schema) : Except Exc Schema := do
  let s : Schema := { s with versions := some (s.versions.getD ∅) }
  let version ← readSchemaVersion s
  let upgrade ← upgradeFrom version
  executeAll upgrade s

theorem makes_executeAll {statements : List Statement} (plain : .readVersion ∉ statements)
    (s : Schema) {r : Except Exc Schema} :
    Makes initializeBody statements s r ↔ r = executeAll statements s := by
  induction statements generalizing s with
  | nil => exact makes_ready rfl
  | cons statement rest ih =>
    rw [List.mem_cons, not_or] at plain
    have alone : ∀ t next, statement.execute s = .ok (t, next) → next = [] := by
      intro t next done
      cases statement with
      | readVersion => exact absurd rfl plain.1
      | createIndex name =>
        simp only [Statement.execute] at done
        split at done
        · cases done
        · cases done
          rfl
      | recordVersion version =>
        simp only [Statement.execute] at done
        split at done
        · cases done
        · cases done
          rfl
      | noMigration version => cases done
      | createSchemaTable => cases done; rfl
      | createEventsTable => cases done; rfl
    cases done : statement.execute s with
    | error e =>
      have failed : initializeBody (statement :: rest) s = some (.error e) := by
        simp only [initializeBody, done]
        rfl
      rw [makes_failed failed, executeAll, List.foldlM_cons, done]
      rfl
    | ok made =>
      obtain ⟨t, next⟩ := made
      cases alone t next done
      have continued : initializeBody (statement :: rest) s = some (.ok (t, rest)) := by
        simp only [initializeBody, done]
        rfl
      rw [makes_next continued, ih plain.2 t, executeAll, executeAll, List.foldlM_cons, done]
      rfl

theorem upgradeFrom_plain {version : ℕ} {upgrade : List Statement}
    (h : upgradeFrom version = .ok upgrade) : .readVersion ∉ upgrade := by
  unfold upgradeFrom at h
  split at h
  · cases h
  · cases h
    intro member
    obtain ⟨target, _, member⟩ := List.mem_flatMap.mp member
    unfold migrateTo migrations at member
    split at member
    · rename_i migration known
      split at known
      · cases known
        simp [migration1] at member
      · cases known
    · simp at member

/-- Statement by statement, the transaction makes of a schema what it does when nobody else
    runs. -/
theorem makes_opening {s : Schema} {r : Except Exc Schema} :
    Makes initializeBody opening s r ↔ r = initializeSync s := by
  have created : initializeBody opening s =
      some (.ok ({ s with versions := some (s.versions.getD ∅) }, [.readVersion])) := rfl
  rw [makes_next created]
  generalize whole : ({ s with versions := some (s.versions.getD ∅) } : Schema) = t
  have same : initializeSync s = (do
      let version ← readSchemaVersion t
      let upgrade ← upgradeFrom version
      executeAll upgrade t) := by
    rw [← whole]
    rfl
  rw [same]
  cases read : readSchemaVersion t with
  | error e =>
    refine makes_failed ?_
    simp only [initializeBody, Statement.execute, read]
    rfl
  | ok version =>
    cases upgrade : upgradeFrom version with
    | error e =>
      have failed : initializeBody [.readVersion] t = some (.error e) := by
        simp only [initializeBody, Statement.execute, read, Bind.bind, Except.bind, upgrade]
        rfl
      rw [makes_failed failed]
      simp only [Bind.bind, Except.bind, upgrade]
    | ok statements =>
      have done : Statement.readVersion.execute t = .ok (t, statements) :=
        except_bind_iff.mpr ⟨version, read, except_bind_iff.mpr ⟨statements, upgrade, rfl⟩⟩
      have continued : initializeBody [.readVersion] t = some (.ok (t, statements)) := by
        simp only [initializeBody, done, Except.map, List.append_nil]
      rw [makes_next continued, makes_executeAll (upgradeFrom_plain upgrade)]
      simp only [Bind.bind, Except.bind, upgrade]

/-! WAL mode. -/

/-- `_BUSY_ERROR_CODES`: SQLITE_BUSY and SQLITE_LOCKED. -/
def busyErrorCodes : List ℤ := [5, 6]

def walRetryIntervalSeconds : ℚ := 1 / 100

inductive Switch where
  | done
  | failed (errorCode : ℤ) (e : Exc)

/-- One pass of the loop in `_enable_wal`: whether it returns. `late` tells that the deadline
    has passed when the switch has failed. -/
def walPass (journalMode : String) (switch : Switch) (late : Bool) : Except Exc Bool :=
  if journalMode.toLower = "wal" then .ok true
  else
    match switch with
    | .done => .ok true
    | .failed errorCode e => if errorCode ∉ busyErrorCodes || late then .error e else .ok false

theorem walPass_done (journalMode : String) (late : Bool) :
    walPass journalMode .done late = .ok true := by
  unfold walPass
  split <;> rfl

/-- What one pass meets; `now` is the clock when the switch has failed. -/
structure WalTurn where
  journalMode : String
  switch : Switch
  now : ℚ

def enableWalFrom (deadline : ℚ) (turns : ℕ → WalTurn) : ℕ → ℕ → Option (Except Exc Unit)
  | 0, _ => none
  | fuel + 1, n =>
    match walPass (turns n).journalMode (turns n).switch (deadline ≤ (turns n).now) with
    | .error e => some (.error e)
    | .ok true => some (.ok ())
    | .ok false => enableWalFrom deadline turns fuel (n + 1)

def enableWal (busyTimeoutSeconds start : ℚ) (turns : ℕ → WalTurn) (fuel : ℕ) :
    Option (Except Exc Unit) := enableWalFrom (start + busyTimeoutSeconds) turns fuel 0

/-- A busy file before the deadline: the only case in which a pass is followed by another. -/
def Waits (deadline : ℚ) (turn : WalTurn) : Prop :=
  walPass turn.journalMode turn.switch (deadline ≤ turn.now) = .ok false

theorem waits_early {deadline : ℚ} {turn : WalTurn} (h : Waits deadline turn) :
    turn.now < deadline := by
  unfold Waits walPass at h
  split at h
  · cases h
  · split at h
    · cases h
    · split at h
      · cases h
      · rename_i free
        simp only [Bool.or_eq_true, not_or, decide_eq_true_eq] at free
        exact not_le.mp free.2

/-- The outcome is that of the first pass that does not wait. -/
theorem enableWalFrom_some {deadline : ℚ} {turns : ℕ → WalTurn} {fuel n : ℕ}
    {r : Except Exc Unit} (h : enableWalFrom deadline turns fuel n = some r) :
    ∃ m, n ≤ m ∧ m < n + fuel ∧ (∀ i, n ≤ i → i < m → Waits deadline (turns i)) ∧
      walPass (turns m).journalMode (turns m).switch (deadline ≤ (turns m).now) =
        r.map fun _ => true := by
  induction fuel generalizing n with
  | zero => cases h
  | succ fuel ih =>
    unfold enableWalFrom at h
    cases pass : walPass (turns n).journalMode (turns n).switch (deadline ≤ (turns n).now) with
    | error e =>
      rw [pass] at h
      cases h
      exact ⟨n, Nat.le_refl n, by omega, fun i le lt => by omega, pass⟩
    | ok returns =>
      rw [pass] at h
      cases returns with
      | true =>
        cases h
        exact ⟨n, Nat.le_refl n, by omega, fun i le lt => by omega, pass⟩
      | false =>
        obtain ⟨m, le, lt, waits, last⟩ := ih h
        refine ⟨m, by omega, by omega, fun i from_ below => ?_, last⟩
        rcases Nat.eq_or_lt_of_le from_ with rfl | later
        · exact pass
        · exact waits i later below

theorem enableWalFrom_none {deadline : ℚ} {turns : ℕ → WalTurn} {fuel n : ℕ}
    (h : enableWalFrom deadline turns fuel n = none) :
    ∀ i, n ≤ i → i < n + fuel → Waits deadline (turns i) := by
  induction fuel generalizing n with
  | zero => exact fun i from_ below => by omega
  | succ fuel ih =>
    unfold enableWalFrom at h
    cases pass : walPass (turns n).journalMode (turns n).switch (deadline ≤ (turns n).now) with
    | error e =>
      rw [pass] at h
      cases h
    | ok returns =>
      rw [pass] at h
      cases returns with
      | true => cases h
      | false =>
        intro i from_ below
        rcases Nat.eq_or_lt_of_le from_ with rfl | later
        · exact pass
        · exact ih h i later (by omega)

/-- With a clock that the pauses between two passes move on, the loop ends within one pass for
    each interval of the busy timeout and one more, with what its first pass without a busy
    file comes to. -/
theorem enableWal_ends {busyTimeoutSeconds start : ℚ} {turns : ℕ → WalTurn}
    (entered : start ≤ (turns 0).now)
    (paused : ∀ n, (turns n).now + walRetryIntervalSeconds ≤ (turns (n + 1)).now) {fuel : ℕ}
    (enough : busyTimeoutSeconds ≤ fuel * walRetryIntervalSeconds) :
    ∃ r m, enableWal busyTimeoutSeconds start turns (fuel + 1) = some r ∧ m ≤ fuel ∧
      (∀ i < m, Waits (start + busyTimeoutSeconds) (turns i)) ∧
      walPass (turns m).journalMode (turns m).switch
        (start + busyTimeoutSeconds ≤ (turns m).now) = r.map fun _ => true := by
  have passed (n : ℕ) : start + n * walRetryIntervalSeconds ≤ (turns n).now := by
    induction n with
    | zero => simpa using entered
    | succ n ih =>
      have next := paused n
      push_cast
      linarith
  cases out : enableWal busyTimeoutSeconds start turns (fuel + 1) with
  | none =>
    have waits := enableWalFrom_none out fuel (Nat.zero_le _) (by omega)
    have early := waits_early waits
    have late := passed fuel
    linarith
  | some r =>
    obtain ⟨m, _, below, waits, last⟩ := enableWalFrom_some out
    exact ⟨r, m, rfl, by omega, fun i lt => waits i (Nat.zero_le i) lt, last⟩

def busyTurns (n : ℕ) : WalTurn where
  journalMode := "delete"
  switch := if n < 3 then .failed 5 (operationalError "database is locked") else .done
  now := n * walRetryIntervalSeconds

theorem busyTurns_end : ∃ r m, enableWal (1 / 10) 0 busyTurns 11 = some r ∧ m ≤ 10 ∧
    (∀ i < m, Waits (0 + 1 / 10) (busyTurns i)) ∧
    walPass (busyTurns m).journalMode (busyTurns m).switch (0 + 1 / 10 ≤ (busyTurns m).now) =
      r.map fun _ => true := by
  have entered : 0 ≤ (busyTurns 0).now := by norm_num [busyTurns, walRetryIntervalSeconds]
  have paused (n : ℕ) : (busyTurns n).now + walRetryIntervalSeconds ≤ (busyTurns (n + 1)).now := by
    simp only [busyTurns]
    push_cast
    linarith
  have enough : (1 / 10 : ℚ) ≤ (10 : ℕ) * walRetryIntervalSeconds := by
    norm_num [walRetryIntervalSeconds]
  exact enableWal_ends entered paused enough

/-! What the transaction comes to. -/

def UpToDate (s : Schema) : Prop :=
  ∃ versions, s.versions = some versions ∧
    versions.lookup schemaComponent = some (.int schemaVersion)

def migrated (s : Schema) : Schema where
  versions := some ((s.versions.getD ∅).insert schemaComponent (.int schemaVersion))
  events := some (s.events.getD .created)
  indexes := ["idx_relprim_events_operation_name_sequence",
    "idx_relprim_events_event_type_sequence", "idx_relprim_events_timestamp"].foldl addIndex s.indexes

def versionOf (s : Schema) : Except Exc ℕ :=
  readSchemaVersion { s with versions := some (s.versions.getD ∅) }

/-- An old schema is migrated, one that is up to date stays, and a newer one is refused. -/
theorem initializeSync_eq (s : Schema) : initializeSync s =
    match versionOf s with
    | .error e => .error e
    | .ok 0 => .ok (migrated s)
    | .ok 1 => .ok { s with versions := some (s.versions.getD ∅) }
    | .ok (n + 2) => .error (newerError (n + 2)) := by
  change (do
    let version ← versionOf s
    let upgrade ← upgradeFrom version
    executeAll upgrade { s with versions := some (s.versions.getD ∅) }) = _
  cases versionOf s with
  | error e => rfl
  | ok version =>
    match version with
    | 0 => rfl
    | 1 => rfl
    | n + 2 => rfl

theorem versionOf_upToDate {s : Schema} (h : UpToDate s) : versionOf s = .ok schemaVersion := by
  obtain ⟨versions, known, current⟩ := h
  simp [versionOf, readSchemaVersion, known, current, schemaVersion]

theorem initializeSync_upToDate {s : Schema} (h : UpToDate s) : initializeSync s = .ok s := by
  rw [initializeSync_eq, versionOf_upToDate h]
  obtain ⟨versions, known, _⟩ := h
  have same : some (s.versions.getD ∅) = s.versions := by rw [known, Option.getD_some]
  simp only [schemaVersion, same]

theorem initializeSync_ok {s u : Schema} (h : initializeSync s = .ok u) :
    UpToDate u ∧ (u.events = s.events ∨ u.events = some (s.events.getD .created)) := by
  rw [initializeSync_eq] at h
  cases read : versionOf s with
  | error e =>
    rw [read] at h
    cases h
  | ok version =>
    rw [read] at h
    match version with
    | 0 =>
      cases h
      exact ⟨⟨_, rfl, AList.lookup_insert _⟩, .inr rfl⟩
    | 1 =>
      cases h
      refine ⟨⟨_, rfl, ?_⟩, .inl rfl⟩
      unfold versionOf readSchemaVersion at read
      simp only at read
      split at read
      · cases read
      · rename_i known
        split at read
        · cases read
        · rename_i n _
          rw [known]
          have one := Except.ok.inj read
          have same : n = ((schemaVersion : ℕ) : ℤ) := by
            unfold schemaVersion
            omega
          rw [same]
      · cases read
    | n + 2 => cases h

end Relprim.SQLiteEvents
