import Relprim.SQLiteEvents
import Relprim.Library.JsonRoundTrip
import Relprim.Library.Runs

/-!
What a row of the table holds: which events can be written to one, and that a row
written for an event is read back as that event.
-/
namespace Relprim.SQLiteEvents
open Dictionary Text LabelledRuns Fallible
open Json (Scalar Format dumps loads)
variable {F : Type} {fmt : Format F}

/-- UTF-8 can encode every string, every int has digits within the limit, and the instant
    is one that UTC can show. -/
structure Storable (fmt : Format F) (e : StructuredEvent F) : Prop where
  operationName : Utf8 e.operationName
  payload : ∀ k v, e.payload.lookup k = some v → Utf8 k ∧ v.Utf8 ∧ v.Writable fmt
  instant : 0 ≤ e.timestamp.instant ∧ e.timestamp.instant < Calendar.endOfTime

/-- `f` is `e` with its instant in UTC. -/
structure Unchanged (e f : StructuredEvent F) : Prop where
  eventType : f.eventType = e.eventType
  operationName : f.operationName = e.operationName
  timestamp : f.timestamp = .utc e.timestamp.instant
  payload : ∀ k, f.payload.lookup k = e.payload.lookup k

structure Written (fmt : Format F) (row : Row) (e : StructuredEvent F) : Prop where
  accepted : StructuredEvent.new fmt e = .ok e
  storable : Storable fmt e
  eventType : row.eventType = ofString e.eventType.value
  operationName : row.operationName = e.operationName
  timestamp : row.timestamp = Calendar.isoformat e.timestamp.instant.toNat
  payload : encodePayload fmt e.payload = .ok row.payloadJson

theorem event_new_iff {e f : StructuredEvent F} :
    StructuredEvent.new fmt e = .ok f ↔ f = e ∧ isBlank e.operationName = false ∧
      e.timestamp.utcoffset.isSome = true ∧ allValues (isfinite fmt) e.payload = true := by
  constructor
  · intro h
    obtain ⟨_, named, h⟩ := except_bind_ok h
    obtain ⟨_, aware, h⟩ := except_bind_ok h
    obtain ⟨_, finite, same⟩ := except_bind_ok h
    cases same
    exact ⟨rfl, by simpa using check_ok_iff.mp named, check_ok_iff.mp aware,
      check_ok_iff.mp finite⟩
  · rintro ⟨rfl, named, aware, finite⟩
    refine except_bind_iff.mpr ⟨(), check_ok_iff.mpr (by simp [named]), ?_⟩
    refine except_bind_iff.mpr ⟨(), check_ok_iff.mpr aware, ?_⟩
    exact except_bind_iff.mpr ⟨(), check_ok_iff.mpr finite, rfl⟩

/-! Writing. -/

theorem encodePayload_ok {payload : Payload F} {text : Str} :
    encodePayload fmt payload = .ok text ↔ dumps fmt (items payload) = some text := by
  unfold encodePayload
  cases dumps fmt (items payload) with
  | none => exact ⟨nofun, nofun⟩
  | some written => simp

theorem serializeTimestamp_ok {timestamp : DateTime} {text : Str} :
    serializeTimestamp timestamp = .ok text ↔ timestamp.utcoffset.isSome = true ∧
      (0 ≤ timestamp.instant ∧ timestamp.instant < Calendar.endOfTime) ∧
      text = Calendar.isoformat timestamp.instant.toNat := by
  constructor
  · intro h
    obtain ⟨_, aware, h⟩ := except_bind_ok h
    obtain ⟨instant, shown, same⟩ := except_bind_ok h
    cases same
    unfold astimezoneUTC at shown
    split at shown
    · rename_i range
      cases shown
      exact ⟨check_ok_iff.mp aware, range, rfl⟩
    · cases shown
  · rintro ⟨aware, range, rfl⟩
    refine except_bind_iff.mpr ⟨(), check_ok_iff.mpr aware, ?_⟩
    exact except_bind_iff.mpr ⟨_, if_pos range, rfl⟩

theorem bind_str {s : Str} {v : SQLValue} : bind (.str s) = .ok v ↔ Utf8 s ∧ v = .text s := by
  simp only [bind]
  split
  · rename_i encodable
    simp [encodable, eq_comm]
  · rename_i surrogate
    simp [surrogate]

theorem bind_all {ss : List Str} :
    (∃ vs, ss.mapM (fun s => bind (.str s)) = .ok vs) ↔ ∀ s ∈ ss, Utf8 s := by
  induction ss with
  | nil => exact ⟨fun _ => nofun, fun _ => ⟨[], rfl⟩⟩
  | cons s ss ih =>
    rw [List.forall_mem_cons, ← ih]
    constructor
    · rintro ⟨vs, h⟩
      cases mapM_ok_iff.mp h with
      | cons first rest => exact ⟨(bind_str.mp first).1, _, mapM_ok_iff.mpr rest⟩
    · rintro ⟨first, vs, rest⟩
      have bound := bind_str.mpr ⟨first, rfl⟩
      exact ⟨_, mapM_ok_iff.mpr (.cons bound (mapM_ok_iff.mp rest))⟩

theorem payload_storable (lawful : fmt.Lawful) {payload : Payload F} :
    (∃ text, encodePayload fmt payload = .ok text ∧ Utf8 text) ↔
      ∀ k v, payload.lookup k = some v → Utf8 k ∧ v.Utf8 ∧ v.Writable fmt := by
  constructor
  · rintro ⟨text, written, encodable⟩ k v found
    have dumped := encodePayload_ok.mp written
    have writable := Json.dumps_isSome.mp (Option.isSome_iff_exists.mpr ⟨text, dumped⟩)
    have strings := (Json.utf8_dumps lawful dumped).mp encodable _ (mem_items.mpr found)
    exact ⟨strings.1, strings.2, writable _ (mem_items.mpr found)⟩
  · intro each
    have writable : (dumps fmt (items payload)).isSome = true :=
      Json.dumps_isSome.mpr fun m member => (each m.1 m.2 (mem_items.mp member)).2.2
    obtain ⟨text, dumped⟩ := Option.isSome_iff_exists.mp writable
    refine ⟨text, encodePayload_ok.mpr dumped, (Json.utf8_dumps lawful dumped).mpr ?_⟩
    intro m member
    have strings := each m.1 m.2 (mem_items.mp member)
    exact ⟨strings.1, strings.2.1⟩

theorem emitSync_storable (lawful : fmt.Lawful) {e : StructuredEvent F}
    (accepted : StructuredEvent.new fmt e = .ok e) (storable : Storable fmt e) (t : Table)
    (id : NextId t) : ∃ row, emitSync fmt t id e = .ok (t.insert id row) ∧ Written fmt row e := by
  obtain ⟨_, named, aware, finite⟩ := event_new_iff.mp accepted
  obtain ⟨text, written, encodable⟩ := (payload_storable lawful).mpr storable.payload
  have shown := serializeTimestamp_ok.mpr ⟨aware, storable.instant, rfl⟩
  have strings : ∀ s ∈ [ofString e.eventType.value, e.operationName,
      Calendar.isoformat e.timestamp.instant.toNat, text], Utf8 s := by
    simp only [List.forall_mem_cons]
    exact ⟨utf8_ofString _, storable.operationName, Calendar.utf8_isoformat _, encodable, nofun⟩
  obtain ⟨values, bound⟩ := bind_all.mpr strings
  refine ⟨⟨0, ofString e.eventType.value, e.operationName,
    Calendar.isoformat e.timestamp.instant.toNat, text⟩, ?_, ?_⟩
  · refine except_bind_iff.mpr ⟨text, written, ?_⟩
    refine except_bind_iff.mpr ⟨_, shown, ?_⟩
    exact except_bind_iff.mpr ⟨values, bound, rfl⟩
  · exact ⟨accepted, storable, rfl, rfl, rfl, written⟩

/-- No other event can be stored. -/
theorem emitSync_inv (lawful : fmt.Lawful) {e : StructuredEvent F} {t t' : Table} {id : NextId t}
    (h : emitSync fmt t id e = .ok t') : Storable fmt e := by
  obtain ⟨text, written, h⟩ := except_bind_ok h
  obtain ⟨_, shown, h⟩ := except_bind_ok h
  obtain ⟨values, bound, _⟩ := except_bind_ok h
  have strings := bind_all.mp ⟨values, bound⟩
  obtain ⟨_, range, rfl⟩ := serializeTimestamp_ok.mp shown
  constructor
  · exact strings _ (by simp)
  · exact (payload_storable lawful).mp ⟨text, written, strings _ (by simp)⟩
  · exact range

/-! Reading. -/

theorem parseEventType_value (t : EventType) : parseEventType (ofString t.value) = .ok t := by
  cases t <;> rfl

theorem decodeMember_inv {member : Str × Json.Value F} {entry : Str × Scalar F}
    (h : decodeMember fmt member = .ok entry) : member = (entry.1, .scalar entry.2) := by
  obtain ⟨key, value⟩ := member
  have decoded {v : Scalar F} (h : decodeScalar fmt value = .ok v) : value = .scalar v := by
    unfold decodeScalar at h
    split at h
    · obtain ⟨_, _, same⟩ := except_bind_ok h
      cases same
      rfl
    · cases h
      rfl
    · cases h
  unfold decodeMember at h
  cases scalar : decodeScalar fmt value with
  | error e =>
    simp only [scalar] at h
    cases h
  | ok v =>
    simp only [scalar] at h
    cases h
    rw [decoded scalar]

theorem decodeMember_scalar {key : Str} {v : Scalar F} (h : isfinite fmt v = true) :
    decodeMember fmt (key, .scalar v) = .ok (key, v) := by
  cases v with
  | float x =>
    have finite : fmt.isfinite x = true := h
    have decoded : decodeScalar fmt (.scalar (.float x)) = .ok (.float x) :=
      except_bind_iff.mpr ⟨(), check_ok_iff.mpr finite, rfl⟩
    rw [decodeMember, decoded]
    rfl
  | _ => rfl

/-- A payload comes back with every key and every value. -/
theorem decodePayload_encodePayload (lawful : fmt.Lawful) {payload : Payload F} {text : Str}
    (finite : allValues (isfinite fmt) payload = true)
    (h : encodePayload fmt payload = .ok text) :
    ∃ decoded, decodePayload fmt text = .ok decoded ∧
      ∀ k, decoded.lookup k = payload.lookup k := by
  have read := Json.loads_dumps lawful (encodePayload_ok.mp h)
  generalize written : (Json.sortKeys (items payload)).map
    (fun m => (m.1, Json.Value.scalar m.2)) = members at read
  have keys : members.map Prod.fst = (Json.sortKeys (items payload)).map Prod.fst := by
    rw [← written, List.map_map]
    rfl
  have once : (members.reverse.map Prod.fst).Nodup := by
    rw [List.map_reverse, List.nodup_reverse, keys,
      ((Json.sortKeys_perm (items payload)).map Prod.fst).nodup_iff]
    exact items_nodup payload
  have found {k : Str} {w : Json.Value F} : (k, w) ∈ items (ofPairs members.reverse) ↔
      ∃ v, w = .scalar v ∧ payload.lookup k = some v := by
    rw [mem_items, lookup_ofPairs_iff once, List.mem_reverse, ← written, List.mem_map]
    constructor
    · rintro ⟨⟨l, v⟩, member, same⟩
      cases same
      exact ⟨v, rfl, mem_items.mp ((Json.sortKeys_perm _).mem_iff.mp member)⟩
    · rintro ⟨v, rfl, member⟩
      exact ⟨(k, v), (Json.sortKeys_perm _).mem_iff.mpr (mem_items.mpr member), rfl⟩
  have decodes : ∀ m ∈ items (ofPairs members.reverse), ∃ d, decodeMember fmt m = .ok d := by
    intro m member
    obtain ⟨v, scalar, member⟩ := found.mp member
    have value : isfinite fmt v = true := allValues_iff.mp finite m.1 v member
    have whole : m = (m.1, .scalar v) := Prod.ext rfl scalar
    rw [whole]
    exact ⟨_, decodeMember_scalar value⟩
  obtain ⟨decoded, each⟩ := mapM_total decodes
  have entries : items (ofPairs members.reverse) = decoded.map fun d => (d.1, .scalar d.2) := by
    have related := each.imp fun m d h => decodeMember_inv h
    rw [← List.forall₂_eq_eq_eq, List.forall₂_map_right_iff]
    exact related
  have distinct : (decoded.map Prod.fst).Nodup := by
    have names := items_nodup (ofPairs members.reverse)
    rw [entries, List.map_map] at names
    exact names
  refine ⟨ofPairs decoded, ?_, fun k => ?_⟩
  · unfold decodePayload
    rw [read]
    exact except_bind_iff.mpr ⟨decoded, mapM_ok_iff.mpr each, rfl⟩
  · ext v
    rw [lookup_ofPairs_iff distinct]
    have here : (k, v) ∈ decoded ↔ (k, Json.Value.scalar v) ∈ items (ofPairs members.reverse) := by
      rw [entries, List.mem_map]
      constructor
      · exact fun member => ⟨_, member, rfl⟩
      · rintro ⟨d, member, same⟩
        cases same
        exact member
    rw [here, found]
    simp

theorem storedEventFromRow_written (lawful : fmt.Lawful) {row : Row} {e : StructuredEvent F}
    (h : Written fmt row e) (positive : 0 < row.sequenceId) :
    ∃ f, storedEventFromRow fmt row = .ok ⟨row.sequenceId, f⟩ ∧ Unchanged e f := by
  obtain ⟨_, named, _, finite⟩ := event_new_iff.mp h.accepted
  obtain ⟨payload, decoded, same⟩ := decodePayload_encodePayload lawful finite h.payload
  have natural : (e.timestamp.instant.toNat : ℤ) = e.timestamp.instant :=
    Int.toNat_of_nonneg h.storable.instant.1
  have bound : e.timestamp.instant.toNat < Calendar.endOfTime := by
    have range := h.storable.instant.2
    omega
  have parsed := Calendar.fromisoformat_isoformat bound
  rw [natural] at parsed
  have values : allValues (isfinite fmt) payload = true := by
    rw [allValues_iff]
    intro k v found
    rw [same] at found
    exact allValues_iff.mp finite k v found
  refine ⟨⟨e.eventType, e.operationName, .utc e.timestamp.instant, payload⟩, ?_,
    ⟨rfl, rfl, rfl, same⟩⟩
  unfold storedEventFromRow
  rw [h.eventType, h.operationName, h.timestamp, parsed]
  refine except_bind_iff.mpr ⟨_, parseEventType_value e.eventType, ?_⟩
  refine except_bind_iff.mpr ⟨.utc e.timestamp.instant, rfl, ?_⟩
  refine except_bind_iff.mpr ⟨payload, decoded, ?_⟩
  refine except_bind_iff.mpr ⟨_, event_new_iff.mpr ⟨rfl, named, rfl, values⟩, ?_⟩
  exact except_bind_iff.mpr ⟨(), check_ok_iff.mpr (by simp [positive]), rfl⟩

/-! Runs of the database. -/

/-- A call of any store on the database, with the id that SQLite gives a new row. -/
inductive Call (F : Type) where
  | emit (id : ℕ) (event : StructuredEvent F)
  | deleteBefore (before : DateTime)

/-- The calls that return. One that raises leaves the table as it is. -/
def Table.step (fmt : Format F) (t : Table) : Call F → Option Table
  | .emit id event =>
    if fresh : t.lastSequenceId < id ∧ id < 2 ^ 63 then
      (StructuredEvent.new fmt event >>= emitSync fmt t ⟨id, fresh.1, fresh.2⟩).toOption
    else none
  | .deleteBefore before => (SQLiteEvents.deleteBefore t before).toOption.map Prod.snd

def Table.Stored (fmt : Format F) (t : Table) : Prop := ∀ row ∈ t.rows, ∃ e, Written fmt row e

theorem emitSync_ok (lawful : fmt.Lawful) {e : StructuredEvent F}
    (accepted : StructuredEvent.new fmt e = .ok e) {t t' : Table} {id : NextId t}
    (h : emitSync fmt t id e = .ok t') :
    ∃ row, Written fmt row e ∧ row.sequenceId = id.value ∧ t'.rows = t.rows ++ [row] ∧
      t'.lastSequenceId = id.value := by
  obtain ⟨row, stored, written⟩ := emitSync_storable lawful accepted (emitSync_inv lawful h) t id
  rw [h] at stored
  cases stored
  exact ⟨{ row with sequenceId := id.value }, ⟨accepted, written.storable, written.eventType,
    written.operationName, written.timestamp, written.payload⟩, rfl, rfl, rfl⟩

theorem deleteBefore_ok {t t' : Table} {before : DateTime} {n : ℕ}
    (h : deleteBefore t before = .ok (n, t')) :
    ∃ text, serializeTimestamp before = .ok text ∧ t' = t.deleteBefore text := by
  obtain ⟨_, _, h⟩ := except_bind_ok h
  obtain ⟨text, shown, h⟩ := except_bind_ok h
  obtain ⟨_, _, h⟩ := except_bind_ok h
  cases h
  exact ⟨text, shown, rfl⟩

namespace Table
variable {t t' : Table}

theorem step_emit (lawful : fmt.Lawful) {id : ℕ} {e : StructuredEvent F}
    (h : t.step fmt (.emit id e) = some t') : t.lastSequenceId < id ∧ t'.lastSequenceId = id ∧
      ∃ row, Written fmt row e ∧ row.sequenceId = id ∧ t'.rows = t.rows ++ [row] := by
  simp only [step] at h
  split at h
  · rename_i fresh
    obtain ⟨f, accepted, written⟩ := except_bind_ok (toOption_eq_some.mp h)
    cases (event_new_iff.mp accepted).1
    obtain ⟨row, written, number, rows, last⟩ := emitSync_ok lawful accepted written
    exact ⟨fresh.1, last, row, written, number, rows⟩
  · cases h

theorem step_deleteBefore {before : DateTime} (h : t.step fmt (.deleteBefore before) = some t') :
    ∃ text, serializeTimestamp before = .ok text ∧ t' = t.deleteBefore text := by
  obtain ⟨⟨n, u⟩, returned, same⟩ := Option.map_eq_some_iff.mp h
  cases same
  exact deleteBefore_ok (toOption_eq_some.mp returned)

/-- A call writes new rows only above the ids in use, and changes none. -/
theorem step_rows (lawful : fmt.Lawful) {c : Call F} (h : t.step fmt c = some t') :
    t.lastSequenceId ≤ t'.lastSequenceId ∧
      ∀ row ∈ t'.rows, row ∈ t.rows ∨ t.lastSequenceId < row.sequenceId := by
  cases c with
  | emit id e =>
    obtain ⟨fresh, last, row, _, number, rows⟩ := step_emit lawful h
    rw [last, rows]
    refine ⟨Nat.le_of_lt fresh, fun r member => ?_⟩
    rcases List.mem_append.mp member with old | new
    · exact .inl old
    · rw [List.mem_singleton.mp new, number]
      exact .inr fresh
  | deleteBefore before =>
    obtain ⟨text, _, rfl⟩ := step_deleteBefore h
    exact ⟨Nat.le_refl _, fun r member => .inl (List.mem_filter.mp member).1⟩

theorem step_stored (lawful : fmt.Lawful) {c : Call F} (old : t.Stored fmt)
    (h : t.step fmt c = some t') : t'.Stored fmt := by
  intro r member
  cases c with
  | emit id e =>
    obtain ⟨_, _, row, written, _, rows⟩ := step_emit lawful h
    rw [rows] at member
    rcases List.mem_append.mp member with here | new
    · exact old r here
    · rw [List.mem_singleton.mp new]
      exact ⟨e, written⟩
  | deleteBefore before =>
    obtain ⟨text, _, rfl⟩ := step_deleteBefore h
    exact old r (List.mem_filter.mp member).1

theorem stored_reachable (lawful : fmt.Lawful) (h : Reachable (step fmt) {} t) : t.Stored fmt :=
  invariant_reachable (I := Stored fmt) (fun _ member => absurd member List.not_mem_nil)
    (fun _ _ _ old step => step_stored lawful old step) h

theorem run_rows (lawful : fmt.Lawful) {calls : List (Call F)}
    (h : run (step fmt) t calls = some t') : t.lastSequenceId ≤ t'.lastSequenceId ∧
      ∀ row ∈ t'.rows, row ∈ t.rows ∨ t.lastSequenceId < row.sequenceId := by
  refine invariant_run (I := fun u => t.lastSequenceId ≤ u.lastSequenceId ∧
    ∀ row ∈ u.rows, row ∈ t.rows ∨ t.lastSequenceId < row.sequenceId) ?_ ?_ h
  · rintro u c v ⟨last, old⟩ next
    obtain ⟨later, new⟩ := step_rows lawful next
    refine ⟨last.trans later, fun row member => ?_⟩
    rcases new row member with here | above
    · exact old row here
    · exact .inr (Nat.lt_of_le_of_lt last above)
  · exact ⟨Nat.le_refl _, fun row member => .inl member⟩

theorem row_unique {r s : Row} (hr : r ∈ t.rows) (hs : s ∈ t.rows)
    (same : r.sequenceId = s.sequenceId) : r = s := by
  have distinct : (t.rows.map Row.sequenceId).Nodup :=
    List.pairwise_map.mpr (t.ascending.imp Nat.ne_of_lt)
  exact List.inj_on_of_nodup_map distinct hr hs same

end Table

end Relprim.SQLiteEvents
