import Relprim.Events
import Relprim.Library.Json
import Relprim.Library.Calendar

/-!
sqlite_events.py. The events here have the strings of Python, in which a surrogate may
stand alone, and any type of floats. A store keeps no state of its own: every call is
one statement on the table, which all stores of a database share.
-/
namespace Relprim.SQLiteEvents
open Dictionary Text
open Json (Scalar Format dumps loads)
variable {F : Type}

abbrev Payload (F : Type) := Dict Str (Scalar F)

structure StructuredEvent (F : Type) where
  eventType : EventType
  operationName : Str
  timestamp : DateTime
  payload : Payload F := ∅

def isSpace (c : CodePoint) : Bool :=
  c.val ∈ [0x09, 0x0a, 0x0b, 0x0c, 0x0d, 0x1c, 0x1d, 0x1e, 0x1f, 0x20, 0x85, 0xa0, 0x1680,
    0x2000, 0x2001, 0x2002, 0x2003, 0x2004, 0x2005, 0x2006, 0x2007, 0x2008, 0x2009, 0x200a,
    0x2028, 0x2029, 0x202f, 0x205f, 0x3000]

def isBlank (s : Str) : Bool := s.all isSpace

def isfinite (fmt : Format F) : Scalar F → Bool
  | .float x => fmt.isfinite x
  | _ => true

def StructuredEvent.new (fmt : Format F) (e : StructuredEvent F) : Except Exc
    (StructuredEvent F) := do
  check (!isBlank e.operationName) (valueError "operation_name must not be empty.")
  checkAware e.timestamp "timestamp"
  check (allValues (isfinite fmt) e.payload) (valueError "payload values must be finite.")
  return e

structure StoredEvent (F : Type) where
  sequenceId : ℕ
  event : StructuredEvent F

def StoredEvent.new (e : StoredEvent F) : Except Exc (StoredEvent F) := do
  check (0 < e.sequenceId) (valueError "sequence_id must be greater than 0.")
  return e

/-! The encoding. -/

def eventTypes : List EventType :=
  [.attemptStarted, .attemptSucceeded, .attemptFailed, .circuitBreakerRejected, .fallbackStarted,
    .fallbackSucceeded, .fallbackFailed, .operationStarted, .operationSucceeded, .operationFailed,
    .rateLimitDetected, .rateLimitWaitExceeded, .retryScheduled, .validationSucceeded,
    .validationFailed]

def parseEventType (s : Str) : Except Exc EventType :=
  match eventTypes.find? fun t => ofString t.value = s with
  | some t => .ok t
  | none => .error (valueError "not a valid EventType")

/-- `timestamp.astimezone(UTC)`, whose year must be from 1 to 9999: the instant. -/
def astimezoneUTC (timestamp : DateTime) : Except Exc ℕ :=
  if 0 ≤ timestamp.instant ∧ timestamp.instant < Calendar.endOfTime then .ok timestamp.instant.toNat
  else .error (overflowError "date value out of range")

def serializeTimestamp (timestamp : DateTime) : Except Exc Str := do
  checkAware timestamp "timestamp"
  let instant ← astimezoneUTC timestamp
  return Calendar.isoformat instant

def encodePayload (fmt : Format F) (payload : Payload F) : Except Exc Str :=
  match dumps fmt (items payload) with
  | some text => .ok text
  | none => .error (valueError "event payload must contain JSON-compatible finite scalar values.")

def decodeScalar (fmt : Format F) : Json.Value F → Except Exc (Scalar F)
  | .scalar (.float x) => do
    check (fmt.isfinite x) (valueError "stored event payload floats must be finite.")
    return .float x
  | .scalar s => .ok s
  | _ => .error (valueError "stored event payload values must be JSON scalar values.")

def decodeMember (fmt : Format F) (member : Str × Json.Value F) : Except Exc (Str × Scalar F) :=
  (decodeScalar fmt member.2).map fun s => (member.1, s)

/-- Of two members with one key the last counts. -/
def decodePayload (fmt : Format F) (payloadJson : Str) : Except Exc (Payload F) := do
  match loads fmt payloadJson with
  | none => throw (valueError "not a JSON document")
  | some (.object members) =>
    let decoded ← (items (ofPairs members.reverse)).mapM (decodeMember fmt)
    return ofPairs decoded
  | some _ => throw (valueError "stored event payload must be a JSON object.")

/-! The table. -/

inductive SQLiteParameter where
  | str (s : Str)
  | int (n : ℤ)

inductive SQLValue where
  | text (s : Str)
  | integer (n : ℤ)
  deriving DecidableEq

def unicodeEncodeError : Exc :=
  .mk ⟨"UnicodeEncodeError", "builtins"⟩
    [⟨"UnicodeError", "builtins"⟩, ⟨"ValueError", "builtins"⟩, exceptionClass]
    [] "surrogates not allowed" {}

/-- A string is bound in UTF-8, an int as an integer of 64 bits. -/
def bind : SQLiteParameter → Except Exc SQLValue
  | .str s => if Utf8 s then .ok (.text s) else .error unicodeEncodeError
  | .int n =>
    if -2 ^ 63 ≤ n ∧ n < 2 ^ 63 then .ok (.integer n)
    else .error (overflowError "Python int too large to convert to SQLite INTEGER")

structure Row where
  sequenceId : ℕ
  eventType : Str
  operationName : Str
  timestamp : Str
  payloadJson : Str
  deriving DecidableEq

/-- `relprim_events`; `lastSequenceId` is the largest that any row ever had. -/
structure Table where
  rows : List Row := []
  lastSequenceId : ℕ := 0
  ascending : rows.Pairwise (·.sequenceId < ·.sequenceId) := by decide
  issued : ∀ r ∈ rows, 0 < r.sequenceId ∧ r.sequenceId ≤ lastSequenceId := by decide
  bounded : lastSequenceId < 2 ^ 63 := by decide

/-- What AUTOINCREMENT may give the next row. -/
structure NextId (t : Table) where
  value : ℕ
  above : t.lastSequenceId < value
  bounded : value < 2 ^ 63

namespace Table

def insert (t : Table) (id : NextId t) (row : Row) : Table where
  rows := t.rows ++ [{ row with sequenceId := id.value }]
  lastSequenceId := id.value
  ascending := by
    rw [List.pairwise_append]
    refine ⟨t.ascending, List.pairwise_singleton _ _, fun r member s last => ?_⟩
    rw [List.mem_singleton.mp last]
    exact Nat.lt_of_le_of_lt (t.issued r member).2 id.above
  issued := by
    intro r member
    rcases List.mem_append.mp member with earlier | last
    · exact ⟨(t.issued r earlier).1, (t.issued r earlier).2.trans (Nat.le_of_lt id.above)⟩
    · rw [List.mem_singleton.mp last]
      exact ⟨Nat.zero_lt_of_lt id.above, Nat.le_refl _⟩
  bounded := id.bounded

def deleteBefore (t : Table) (before : Str) : Table where
  rows := t.rows.filter fun r => ¬ r.timestamp < before
  lastSequenceId := t.lastSequenceId
  ascending := t.ascending.filter _
  issued r member := t.issued r (List.mem_filter.mp member).1
  bounded := t.bounded

end Table

/-- A condition of the query: `operation_name = ?`, `event_type IN (?, ..., ?)` and
    `sequence_id > ?`. -/
inductive Clause where
  | operationName
  | eventType (placeholders : ℕ)
  | sequenceId

namespace Clause

def placeholders : Clause → ℕ
  | .operationName => 1
  | .eventType n => n
  | .sequenceId => 1

def holds (row : Row) : Clause → List SQLValue → Bool
  | .operationName, [v] => SQLValue.text row.operationName = v
  | .eventType _, vs => SQLValue.text row.eventType ∈ vs
  | .sequenceId, [.integer n] => n < row.sequenceId
  | _, _ => false

end Clause

/-- `WHERE ... AND ...`: the values fill the placeholders from left to right. -/
def wheres (row : Row) : List Clause → List SQLValue → Bool
  | [], _ => true
  | c :: cs, vs => c.holds row (vs.take c.placeholders) && wheres row cs (vs.drop c.placeholders)

def programmingError (message : String) : Exc :=
  .mk ⟨"ProgrammingError", "sqlite3"⟩ [⟨"DatabaseError", "sqlite3"⟩, ⟨"Error", "sqlite3"⟩,
    exceptionClass] [] message {}

/-- `SELECT ... WHERE ... ORDER BY sequence_id ASC LIMIT ?`. A negative limit is none. -/
def Table.select (t : Table) (clauses : List Clause) (parameters : List SQLiteParameter) :
    Except Exc (List Row) := do
  let values ← parameters.mapM bind
  check (values.length = (clauses.map Clause.placeholders).sum + 1)
    (programmingError "Incorrect number of bindings supplied.")
  let rows := t.rows.filter fun row => wheres row clauses values
  let ordered := rows.insertionSort fun r s => r.sequenceId ≤ s.sequenceId
  match values.getLast? with
  | some (.integer n) => return if n < 0 then ordered else ordered.take n.toNat
  | _ => throw (programmingError "datatype mismatch")

/-! The store. -/

def emitSync (fmt : Format F) (t : Table) (id : NextId t) (event : StructuredEvent F) :
    Except Exc Table := do
  let payloadJson ← encodePayload fmt event.payload
  let timestamp ← serializeTimestamp event.timestamp
  let _ ← [ofString event.eventType.value, event.operationName, timestamp, payloadJson].mapM
    fun s => bind (.str s)
  return t.insert id {
    sequenceId := 0
    eventType := ofString event.eventType.value
    operationName := event.operationName
    timestamp
    payloadJson }

def storedEventFromRow (fmt : Format F) (row : Row) : Except Exc (StoredEvent F) := do
  let eventType ← parseEventType row.eventType
  let timestamp ← match Calendar.fromisoformat row.timestamp with
    | some (instant, offset) => pure (⟨instant, some offset⟩ : DateTime)
    | none => throw (valueError "Invalid isoformat string")
  let payload ← decodePayload fmt row.payloadJson
  let event ← StructuredEvent.new fmt {
    eventType, operationName := row.operationName, timestamp, payload }
  StoredEvent.new { sequenceId := row.sequenceId, event }

abbrev Query := List Clause × List SQLiteParameter

def addClause (filter : Option (Clause × List SQLiteParameter)) (q : Query) : Query :=
  match filter with
  | some (clause, parameters) => (q.1 ++ [clause], q.2 ++ parameters)
  | none => q

def filters (operationName : Option Str) (eventTypes : Option (List EventType))
    (afterSequenceId : Option ℤ) : Query :=
  let q := addClause (operationName.map fun name => (.operationName, [.str name])) ([], [])
  let q := addClause (eventTypes.map fun types =>
    (.eventType types.length, types.map fun t => .str (ofString t.value))) q
  addClause (afterSequenceId.map fun n => (.sequenceId, [.int n])) q

def historySync (fmt : Format F) (t : Table) (operationName : Option Str)
    (eventTypes : Option (List EventType)) (afterSequenceId : Option ℤ) (limit : ℤ) :
    Except Exc (List (StoredEvent F)) := do
  let (clauses, parameters) := filters operationName eventTypes afterSequenceId
  let rows ← t.select clauses (parameters ++ [.int limit])
  rows.mapM (storedEventFromRow fmt)

def checkInt (value : PyValue) (name : String) : Except Exc ℤ :=
  match value with
  | .scalar (.int n) => .ok n
  | _ => .error (typeError s!"{name} must be an int.")

def history (fmt : Format F) (t : Table) (operationName : Option Str)
    (eventTypes : Option (List EventType)) (afterSequenceId : Option PyValue) (limit : PyValue) :
    Except Exc (List (StoredEvent F)) := do
  check (!operationName.any isBlank) (valueError "operation_name must not be empty when provided.")
  if eventTypes = some [] then return []
  let after ← afterSequenceId.mapM fun value => do
    let n ← checkInt value "after_sequence_id"
    check (0 ≤ n) (valueError "after_sequence_id must be greater than or equal to 0.")
    return n
  let n ← checkInt limit "limit"
  check (0 < n) (valueError "limit must be greater than 0.")
  historySync fmt t operationName eventTypes after n

/-- `delete_before`: the number of deleted rows, and the table without them. -/
def deleteBefore (t : Table) (before : DateTime) : Except Exc (ℕ × Table) := do
  checkAware before "before"
  let serialized ← serializeTimestamp before
  let _ ← bind (.str serialized)
  let after := t.deleteBefore serialized
  return (t.rows.length - after.rows.length, after)

end Relprim.SQLiteEvents
