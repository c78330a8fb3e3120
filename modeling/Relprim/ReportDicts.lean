import Relprim.InternalChecks
import Relprim.SQLiteRows
import Relprim.Library.IsoFormat

/-!
`to_dict` of errors, attempts, reports and events, and what can be read back from the
dictionaries: everything that was written to them.
-/
namespace Relprim
open Dictionary Text Fallible

/-- What the dictionaries hold; `mapping` is the copy of a mapping of metadata. -/
inductive PyObject where
  | scalar (s : JsonScalar)
  | mapping (m : Metadata)
  | list (items : List PyObject)
  | dict (entries : List (String × PyObject))

/-! Writing. -/

def DateTime.isoformat (t : DateTime) : String :=
  match t.utcoffset with
  | some offset => asString (Calendar.isoformatAt (t.instant + offset).toNat offset)
  | none => asString (Calendar.fieldsOf t.instant.toNat).shortText

def ExecutionError.toDict (e : ExecutionError) : PyObject :=
  .dict [
    ("type", .scalar (.str e.type)),
    ("message", .scalar (.str e.message)),
    ("module", .scalar (.ofOption .str e.module)),
    ("retryable", .scalar (.ofOption .bool e.retryable))]

def errorDict : Option ExecutionError → PyObject
  | some e => e.toDict
  | none => .scalar .none

def ExecutionAttempt.toDict (a : ExecutionAttempt) : PyObject :=
  .dict [
    ("attempt_number", .scalar (.int a.attemptNumber)),
    ("status", .scalar (.str a.status.value)),
    ("started_at", .scalar (.str a.startedAt.isoformat)),
    ("duration_seconds", .scalar (.seconds a.durationSeconds)),
    ("error", errorDict a.error),
    ("metadata", .mapping a.metadata),
    ("fallback", .scalar (.bool a.fallback))]

def ExecutionReport.toDict (r : ExecutionReport) : PyObject :=
  .dict [
    ("operation_name", .scalar (.str r.operationName)),
    ("status", .scalar (.str r.status.value)),
    ("started_at", .scalar (.str r.startedAt.isoformat)),
    ("duration_seconds", .scalar (.seconds r.durationSeconds)),
    ("attempt_count", .scalar (.int r.attemptCount)),
    ("retry_count", .scalar (.int r.retryCount)),
    ("retried", .scalar (.bool r.retried)),
    ("attempts", .list (r.attempts.map ExecutionAttempt.toDict)),
    ("last_error", errorDict r.lastError),
    ("metadata", .mapping r.metadata)]

def StructuredEvent.toDict (e : StructuredEvent) : PyObject :=
  .dict [
    ("event_type", .scalar (.str e.eventType.value)),
    ("operation_name", .scalar (.str e.operationName)),
    ("timestamp", .scalar (.str e.timestamp.isoformat)),
    ("payload", .mapping e.payload)]

/-! Reading. -/

namespace PyObject

def get (key : String) : PyObject → Option PyObject
  | .dict entries => entries.lookup key
  | _ => none

def str? : PyObject → Option String
  | .scalar (.str s) => some s
  | _ => none

def int? : PyObject → Option ℤ
  | .scalar (.int n) => some n
  | _ => none

def bool? : PyObject → Option Bool
  | .scalar (.bool b) => some b
  | _ => none

def seconds? : PyObject → Option ℚ
  | .scalar (.float (.finite q)) => some q
  | _ => none

def mapping? : PyObject → Option Metadata
  | .mapping m => some m
  | _ => none

def list? : PyObject → Option (List PyObject)
  | .list items => some items
  | _ => none

def orNone (read : PyObject → Option A) : PyObject → Option (Option A)
  | .scalar .none => some none
  | o => (read o).map some

end PyObject
open PyObject

def DateTime.fromisoformat (s : String) : Option DateTime := do
  let (time, offset) ← Calendar.readIsoformat (ofString s)
  return ⟨time - offset, some offset⟩

def AttemptStatus.parse (s : String) : Option AttemptStatus :=
  [.succeeded, .failed, .timedOut].find? fun status => status.value = s

def ExecutionStatus.parse (s : String) : Option ExecutionStatus :=
  [.succeeded, .failed, .timedOut].find? fun status => status.value = s

def EventType.parse (s : String) : Option EventType :=
  SQLiteEvents.eventTypes.find? fun eventType => eventType.value = s

def ExecutionError.ofDict (o : PyObject) : Option ExecutionError := do
  let type ← o.get "type" >>= str?
  let message ← o.get "message" >>= str?
  let module ← o.get "module" >>= orNone str?
  let retryable ← o.get "retryable" >>= orNone bool?
  return { type, message, module, retryable }

def ExecutionAttempt.ofDict (o : PyObject) : Option ExecutionAttempt := do
  let attemptNumber ← o.get "attempt_number" >>= int?
  let status ← o.get "status" >>= str? >>= AttemptStatus.parse
  let startedAt ← o.get "started_at" >>= str? >>= DateTime.fromisoformat
  let durationSeconds ← o.get "duration_seconds" >>= seconds?
  let error ← o.get "error" >>= orNone ExecutionError.ofDict
  let metadata ← o.get "metadata" >>= mapping?
  let fallback ← o.get "fallback" >>= bool?
  return { attemptNumber, status, startedAt, durationSeconds, error, metadata, fallback }

def ExecutionReport.ofDict (o : PyObject) : Option ExecutionReport := do
  let operationName ← o.get "operation_name" >>= str?
  let status ← o.get "status" >>= str? >>= ExecutionStatus.parse
  let startedAt ← o.get "started_at" >>= str? >>= DateTime.fromisoformat
  let durationSeconds ← o.get "duration_seconds" >>= seconds?
  let items ← o.get "attempts" >>= list?
  let attempts ← items.mapM ExecutionAttempt.ofDict
  let metadata ← o.get "metadata" >>= mapping?
  return { operationName, status, startedAt, durationSeconds, attempts, metadata }

def StructuredEvent.ofDict (o : PyObject) : Option StructuredEvent := do
  let eventType ← o.get "event_type" >>= str? >>= EventType.parse
  let operationName ← o.get "operation_name" >>= str?
  let timestamp ← o.get "timestamp" >>= str? >>= DateTime.fromisoformat
  let payload ← o.get "payload" >>= mapping?
  return { eventType, operationName, timestamp, payload }

/-! What is written is read back. -/

/-- A datetime shows a time from year 1 to 9999, at an offset of less than a day. -/
def DateTime.Holds (t : DateTime) : Prop := ∀ offset ∈ t.utcoffset,
  offset.natAbs < Calendar.dayMicros ∧ 0 ≤ t.instant + offset ∧
    t.instant + offset < Calendar.endOfTime

instance (t : DateTime) : Decidable t.Holds :=
  match h : t.utcoffset with
  | some offset => decidable_of_iff (offset.natAbs < Calendar.dayMicros ∧ 0 ≤ t.instant + offset ∧
      t.instant + offset < Calendar.endOfTime) (by simp [DateTime.Holds, h])
  | none => isTrue (by simp [DateTime.Holds, h])

theorem fromisoformat_isoformat {t : DateTime} (aware : t.utcoffset.isSome = true)
    (holds : t.Holds) : DateTime.fromisoformat t.isoformat = some t := by
  obtain ⟨instant, utcoffset⟩ := t
  obtain ⟨offset, rfl⟩ := Option.isSome_iff_exists.mp aware
  obtain ⟨short, started, ended⟩ := holds offset rfl
  have ended : (instant + offset).toNat < Calendar.endOfTime := by
    have back := Int.toNat_of_nonneg started
    change instant + offset < (Calendar.endOfTime : ℤ) at ended
    rw [← back] at ended
    exact_mod_cast ended
  have read := Calendar.readIsoformat_isoformatAt ended short
  have same : (((instant + offset).toNat : ℕ) : ℤ) - offset = instant := by
    rw [Int.toNat_of_nonneg started, Int.add_sub_cancel]
  simp only [DateTime.fromisoformat, DateTime.isoformat,
    ofString_asString (Calendar.utf8_isoformatAt _ _), read, Option.bind_eq_bind, Option.bind_some,
    Option.pure_def, same]

theorem attemptStatus_parse (status : AttemptStatus) :
    AttemptStatus.parse status.value = some status := by
  cases status <;> rfl

theorem executionStatus_parse (status : ExecutionStatus) :
    ExecutionStatus.parse status.value = some status := by
  cases status <;> rfl

theorem eventType_parse (eventType : EventType) :
    EventType.parse eventType.value = some eventType := by
  cases eventType <;> rfl

theorem orNone_some {read : PyObject → Option A} {o : PyObject} {a : A} (value : read o = some a)
    (shown : o ≠ .scalar .none) : orNone read o = some (some a) := by
  unfold orNone
  split
  · exact absurd rfl shown
  · rw [value]
    rfl

theorem module_read (module : Option String) :
    orNone str? (.scalar (.ofOption .str module)) = some module := by
  cases module with
  | none => rfl
  | some s => exact orNone_some rfl nofun

theorem retryable_read (retryable : Option Bool) :
    orNone bool? (.scalar (.ofOption .bool retryable)) = some retryable := by
  cases retryable with
  | none => rfl
  | some b => exact orNone_some rfl nofun

theorem executionError_read (e : ExecutionError) : ExecutionError.ofDict e.toDict = some e := by
  simp [ExecutionError.ofDict, ExecutionError.toDict, PyObject.get, List.lookup_cons, str?, module_read,
    retryable_read]

theorem errorDict_read (error : Option ExecutionError) :
    orNone ExecutionError.ofDict (errorDict error) = some error := by
  cases error with
  | none => rfl
  | some e => exact orNone_some (executionError_read e) nofun

theorem attempt_read {a : ExecutionAttempt} (aware : a.startedAt.utcoffset.isSome = true)
    (holds : a.startedAt.Holds) : ExecutionAttempt.ofDict a.toDict = some a := by
  simp [ExecutionAttempt.ofDict, ExecutionAttempt.toDict, PyObject.get, List.lookup_cons, str?,
    int?, bool?, seconds?, mapping?, JsonScalar.seconds, attemptStatus_parse,
    fromisoformat_isoformat aware holds, errorDict_read]

theorem attempts_read {as : List ExecutionAttempt}
    (aware : ∀ a ∈ as, a.startedAt.utcoffset.isSome = true) (holds : ∀ a ∈ as, a.startedAt.Holds) :
    (as.map ExecutionAttempt.toDict).mapM ExecutionAttempt.ofDict = some as := by
  refine mapM_eq_some.mpr (List.forall₂_map_left_iff.mpr (List.forall₂_same.mpr ?_))
  exact fun a member => attempt_read (aware a member) (holds a member)

theorem attempt_new_aware {a b : ExecutionAttempt} (h : ExecutionAttempt.new a = .ok b) :
    a.startedAt.utcoffset.isSome = true := by
  obtain ⟨_, _, h⟩ := except_bind_ok h
  obtain ⟨_, _, h⟩ := except_bind_ok h
  obtain ⟨_, _, h⟩ := except_bind_ok h
  obtain ⟨_, aware, _⟩ := except_bind_ok h
  exact check_ok_iff.mp aware

theorem report_new_aware {r t : ExecutionReport} (h : ExecutionReport.new r = .ok t) :
    r.startedAt.utcoffset.isSome = true := by
  obtain ⟨_, _, h⟩ := except_bind_ok h
  obtain ⟨_, _, h⟩ := except_bind_ok h
  cases last : r.lastAttempt with
  | none =>
    rw [last] at h
    cases h
  | some a =>
    rw [last] at h
    obtain ⟨_, _, h⟩ := except_bind_ok h
    obtain ⟨_, _, h⟩ := except_bind_ok h
    obtain ⟨_, aware, _⟩ := except_bind_ok h
    exact check_ok_iff.mp aware

/-- The dictionary of a report holds all of it: every attempt with its error, every
    datetime with its offset. -/
theorem report_dict_read {r : ExecutionReport} (accepted : ReportAccepted r)
    (holds : r.startedAt.Holds) (all : ∀ a ∈ r.attempts, a.startedAt.Holds) :
    ExecutionReport.ofDict r.toDict = some r := by
  have attempts := attempts_read (fun a member => attempt_new_aware (accepted.attempts a member)) all
  simp [ExecutionReport.ofDict, ExecutionReport.toDict, PyObject.get, List.lookup_cons, str?,
    seconds?, mapping?, list?, JsonScalar.seconds, executionStatus_parse,
    fromisoformat_isoformat (report_new_aware accepted.report) holds, attempts]

/-- A timed out attempt and its fallback, five and a half hours and 42 seconds west of UTC. -/
def westernReport : ExecutionReport :=
  let startedAt : DateTime := ⟨63000000000123456, some (-19842000000)⟩
  { operationName := "fetch"
    status := .succeeded
    startedAt
    durationSeconds := 2
    attempts := [
      { attemptNumber := 1, status := .timedOut, startedAt, durationSeconds := 1,
        error := some ⟨"TimeoutError", "slow", some "builtins", some true⟩ },
      { attemptNumber := 2, status := .succeeded, startedAt, durationSeconds := 1,
        metadata := ofPairs [("strategy", .str "fallback")], fallback := true }] }

theorem western_report_read : ExecutionReport.ofDict westernReport.toDict = some westernReport := by
  refine report_dict_read ⟨?_, ?_⟩ (by decide) (by decide)
  · exact report_new_ok rfl (by decide +kernel) rfl (by decide) rfl rfl
  · intro a member
    simp only [westernReport, List.mem_cons, List.not_mem_nil, or_false] at member
    rcases member with rfl | rfl
    · exact attempt_new_ok (by decide) (by decide +kernel) nofun rfl rfl
    · exact attempt_new_ok (by decide) (by decide +kernel) (fun _ => rfl) rfl rfl

theorem event_dict_read {e : StructuredEvent} (accepted : StructuredEvent.new e = .ok e)
    (holds : e.timestamp.Holds) : StructuredEvent.ofDict e.toDict = some e := by
  have aware : e.timestamp.utcoffset.isSome = true := by
    obtain ⟨_, _, h⟩ := except_bind_ok accepted
    obtain ⟨_, aware, _⟩ := except_bind_ok h
    exact check_ok_iff.mp aware
  simp [StructuredEvent.ofDict, StructuredEvent.toDict, PyObject.get, List.lookup_cons, str?,
    mapping?, eventType_parse, fromisoformat_isoformat aware holds]

end Relprim
