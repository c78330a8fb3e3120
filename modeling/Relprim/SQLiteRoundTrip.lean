import Relprim.SQLiteHistory

/-!
Which events come back from the store as they were sent to it.
-/
namespace Relprim.SQLiteEvents
open Dictionary Text LabelledRuns Fallible
open Json (Scalar Format)
variable {F : Type} {fmt : Format F}

def Table.Has (t : Table) (id : ℕ) : Prop := ∃ row ∈ t.rows, row.sequenceId = id

/-- How many rows with a smaller id the query asks for. -/
def Table.earlier (t : Table) (f : Filters) (after : Option ℕ) (id : ℕ) : ℕ :=
  (t.rows.filter fun row => f.meetsRow row && Keyset.after Row.sequenceId after row &&
    row.sequenceId < id).length

/-- In whatever state the database is, `emit` stores the event, and as long as its row is not
    deleted, every later `history` that asks for it and has room for it returns it unchanged. -/
def RoundTrip (fmt : Format F) (e : StructuredEvent F) : Prop :=
  ∀ t, Reachable (Table.step fmt) {} t → ∀ id : NextId t, ∃ t', emitSync fmt t id e = .ok t' ∧
    ∀ calls u, run (Table.step fmt) t' calls = some u → u.Has id.value →
      ∀ (f : Filters) (after : Option ℕ) (limit : ℕ), f.Valid → f.meets e = true →
        (∀ n ∈ after, n < id.value) → u.earlier f after id.value < limit → limit < 2 ^ 63 →
        ∃ page, history fmt u f.operationName f.eventTypes
            (after.map fun n : ℕ => .scalar (.int n)) (.scalar (.int limit)) = .ok page ∧
          ∃ s ∈ page, s.sequenceId = id.value ∧ Unchanged e s.event

theorem storable_round_trip (lawful : fmt.Lawful) {e : StructuredEvent F}
    (accepted : StructuredEvent.new fmt e = .ok e) (storable : Storable fmt e) :
    RoundTrip fmt e := by
  intro t reachable id
  obtain ⟨row₀, emitted, _⟩ := emitSync_storable lawful accepted storable t id
  obtain ⟨row, written, number, rows, last⟩ := emitSync_ok lawful accepted emitted
  refine ⟨_, emitted, ?_⟩
  intro calls u later has f after limit valid meets behind room bound
  have stored' : (t.insert id row₀).Stored fmt := by
    intro r member
    rw [rows] at member
    rcases List.mem_append.mp member with old | new
    · exact Table.stored_reachable lawful reachable r old
    · rw [List.mem_singleton.mp new]
      exact ⟨e, written⟩
  have stored : u.Stored fmt :=
    invariant_run (fun _ _ _ old step => Table.step_stored lawful old step) stored' later
  -- the row with the id is still the one that was inserted
  have here : row ∈ u.rows := by
    obtain ⟨r, member, same⟩ := has
    rcases (Table.run_rows lawful later).2 r member with old | above
    · have inserted : row ∈ (t.insert id row₀).rows := by simp [rows]
      rw [← Table.row_unique old inserted (same.trans number.symm)]
      exact member
    · rw [last, same] at above
      exact absurd above (Nat.lt_irrefl _)
  have selected : row ∈ Keyset.page Row.sequenceId f.meetsRow after limit u.rows := by
    apply Keyset.mem_page_of_few u.ascending here
    · rw [Filters.meetsRow_written written]
      exact meets
    · rw [Keyset.after_iff, number]
      exact behind
    · rw [number]
      exact room
  have small : ∀ n ∈ after, n < 2 ^ 63 := fun n hn => (behind n hn).trans id.bounded
  obtain ⟨page, read, each⟩ := history_written lawful stored valid small (by omega) bound
  refine ⟨page, read, ?_⟩
  obtain ⟨s, member, same, unchanged⟩ := forall₂_mem each selected
  exact ⟨s, member, same.trans number, unchanged e written⟩

theorem storable_of_round_trip (lawful : fmt.Lawful) {e : StructuredEvent F}
    (trip : RoundTrip fmt e) : Storable fmt e := by
  obtain ⟨t', emitted, _⟩ := trip {} ⟨[], rfl⟩ ⟨1, by decide, by decide⟩
  exact emitSync_inv lawful emitted

/-- An event makes the round trip if and only if the database can represent it. -/
theorem round_trip_iff (lawful : fmt.Lawful) {e : StructuredEvent F}
    (accepted : StructuredEvent.new fmt e = .ok e) : RoundTrip fmt e ↔ Storable fmt e := by
  constructor
  · exact storable_of_round_trip lawful
  · exact storable_round_trip lawful accepted

def wholes : Format ℤ where
  isfinite _ := true
  repr n := { Json.intNumeral n with fraction := ofString ".0" : Json.Numeral }.text
  float s :=
    let (sign, rest) := Json.scanSign s
    let n := value (spanDigits rest).1
    if sign = [] then n else -n
  digitLimit := some 4300

theorem wholes_lawful : wholes.Lawful := by
  have grammatical (n : ℤ) := Json.intNumeral_grammatical n
  have fraction : ofString ".0" = [Json.point, digit 0] := by decide
  constructor
  · intro n _
    refine ⟨{ Json.intNumeral n with fraction := ofString ".0" }, ?_, .inl (by simp [fraction]), rfl⟩
    refine ⟨(grammatical n).sign, (grammatical n).integer, ?_, .absent⟩
    rw [fraction]
    exact .present (by simp [isDigit_digit]) (by simp)
  · intro n _
    obtain ⟨c, ds, whole, first⟩ := Json.integer_head (Json.integer_natural n.natAbs)
    have start : c ≠ Json.minus := by
      rintro rfl
      cases first
    have integer : spanDigits (natural n.natAbs ++ (ofString ".0" ++ [])) =
        (natural n.natAbs, ofString ".0" ++ []) := by
      apply Json.spanDigits_stops (natural_digits _)
      rw [fraction]
      exact Json.stops_cons (by decide) _
    have head : Json.Stops (· = Json.minus) (natural n.natAbs ++ (ofString ".0" ++ [])) := by
      rw [whole, List.cons_append]
      exact Json.stops_cons (p := (· = Json.minus)) start _
    have signed : Json.scanSign (wholes.repr n) =
        ((Json.intNumeral n).sign, natural n.natAbs ++ (ofString ".0" ++ [])) :=
      Json.scanSign_sign (grammatical n).sign head
    have sign : ((Json.intNumeral n).sign = []) ↔ ¬ n < 0 := by
      by_cases negative : n < 0
      · simp [Json.intNumeral, negative]
      · simp [Json.intNumeral, negative]
    change (let (sign, rest) := Json.scanSign (wholes.repr n)
      let n : ℤ := value (spanDigits rest).1
      if sign = [] then n else -n) = n
    rw [signed]
    simp only [integer, value_natural, sign]
    split <;> omega

def delays : List (Str × Scalar ℤ) :=
  [(ofString "delay_seconds", .float 2), (ofString "attempt_number", .int 1),
    (ofString "error_message", .str (ofString "Überlast")), (ofString "retryable", .bool true),
    (ofString "hint_seconds", .null)]

def waited : StructuredEvent ℤ where
  eventType := .retryScheduled
  operationName := ofString "fetch"
  timestamp := ⟨63900000000000000, some 3600000000⟩
  payload := ofPairs delays

theorem waited_storable : Storable wholes waited where
  operationName := utf8_ofString _
  payload k v found := by
    have each : ∀ entry ∈ delays, Utf8 entry.1 ∧ entry.2.Utf8 ∧ entry.2.Writable wholes := by
      simp only [delays, List.forall_mem_cons]
      exact ⟨⟨utf8_ofString _, trivial, rfl⟩, ⟨utf8_ofString _, trivial, rfl⟩,
        ⟨utf8_ofString _, utf8_ofString _, trivial⟩, ⟨utf8_ofString _, trivial, trivial⟩,
        ⟨utf8_ofString _, trivial, trivial⟩, nofun⟩
    exact each (k, v) ((lookup_ofPairs_iff (by decide)).mp found)
  instant := by decide

theorem waited_round_trip : RoundTrip wholes waited :=
  (round_trip_iff wholes_lawful (event_new_iff.mpr ⟨rfl, by decide, by decide, by decide⟩)).mpr
    waited_storable

/-- The message of an error that names a file whose name is not in UTF-8. -/
def unreadable : StructuredEvent ℤ :=
  { waited with
    eventType := .attemptFailed
    payload := ofPairs [(ofString "error_message", .str [chr 0xDC80])] }

/-- The constructor accepts the event and the database does not. -/
theorem surrogate_not_stored : StructuredEvent.new wholes unreadable = .ok unreadable ∧
    emitSync wholes {} ⟨1, by decide, by decide⟩ unreadable = .error unicodeEncodeError := by
  constructor
  · exact event_new_iff.mpr ⟨rfl, by decide, by decide, by decide⟩
  · with_unfolding_all rfl

/-! The events of the package, whose strings have no lone surrogates. -/

def ofScalar : JsonScalar → Scalar PyFloat
  | .str s => .str (ofString s)
  | .int n => .int n
  | .float x => .float x
  | .bool b => .bool b
  | .none => .null

def ofEvent (e : Relprim.StructuredEvent) : StructuredEvent PyFloat where
  eventType := e.eventType
  operationName := ofString e.operationName
  timestamp := e.timestamp
  payload := ofPairs ((items e.payload).map fun entry => (ofString entry.1, ofScalar entry.2))

theorem ofEvent_lookup {e : Relprim.StructuredEvent} {k : Str} {v : Scalar PyFloat} :
    (ofEvent e).payload.lookup k = some v ↔
      ∃ name value, e.payload.lookup name = some value ∧ k = ofString name ∧ v = ofScalar value := by
  have distinct : (((items e.payload).map fun entry =>
      (ofString entry.1, ofScalar entry.2)).map Prod.fst).Nodup := by
    have keys := (items_nodup e.payload).map ofString_injective
    rw [List.map_map] at keys ⊢
    exact keys
  rw [ofEvent, lookup_ofPairs_iff distinct, List.mem_map]
  constructor
  · rintro ⟨⟨name, value⟩, member, same⟩
    cases same
    exact ⟨name, value, mem_items.mp member, rfl, rfl⟩
  · rintro ⟨name, value, found, rfl, rfl⟩
    exact ⟨(name, value), mem_items.mpr found, rfl⟩

theorem isBlank_ofString (s : String) : isBlank (ofString s) = Relprim.isBlank s := by
  have space (c : Char) : isSpace (code c) = Relprim.isSpace c := by
    rw [isSpace, Relprim.isSpace]
    have val : (code c).val = c.val.toNat := rfl
    rw [val]
    simp [← UInt32.toNat_inj]
  rw [isBlank, ofString, List.all_map, Relprim.isBlank]
  congr 1
  funext c
  exact space c

variable {fmt : Format PyFloat}

theorem ofEvent_accepted (finite : fmt.isfinite = PyFloat.isfinite) {e : Relprim.StructuredEvent}
    (accepted : Relprim.StructuredEvent.new e = .ok e) :
    StructuredEvent.new fmt (ofEvent e) = .ok (ofEvent e) := by
  obtain ⟨_, named, h⟩ := except_bind_ok accepted
  obtain ⟨_, aware, h⟩ := except_bind_ok h
  obtain ⟨_, frozen, _⟩ := except_bind_ok h
  obtain ⟨_, values, _⟩ := except_bind_ok frozen
  refine event_new_iff.mpr ⟨rfl, ?_, check_ok_iff.mp aware, ?_⟩
  · rw [ofEvent, isBlank_ofString]
    simpa using check_ok_iff.mp named
  · rw [allValues_iff]
    intro k v found
    obtain ⟨name, value, here, _, rfl⟩ := ofEvent_lookup.mp found
    have fits := allValues_iff.mp (check_ok_iff.mp values) name value here
    cases value with
    | float x =>
      rw [ofScalar, isfinite, finite]
      exact fits
    | _ => rfl

/-- What the package emits is stored, unless an int is too long or the clock is off the scale. -/
theorem emitted_round_trip (lawful : fmt.Lawful) (finite : fmt.isfinite = PyFloat.isfinite)
    {e : Relprim.StructuredEvent} (accepted : Relprim.StructuredEvent.new e = .ok e) :
    RoundTrip fmt (ofEvent e) ↔
      (0 ≤ e.timestamp.instant ∧ e.timestamp.instant < Calendar.endOfTime) ∧
      ∀ k n, e.payload.lookup k = some (.int n) → fmt.within (natural n.natAbs).length = true := by
  constructor
  · intro trip
    have storable := storable_of_round_trip lawful trip
    exact ⟨storable.instant, fun k n found =>
      (storable.payload _ _ (ofEvent_lookup.mpr ⟨k, _, found, rfl, rfl⟩)).2.2⟩
  · rintro ⟨instant, digits⟩
    apply storable_round_trip lawful (ofEvent_accepted finite accepted)
    refine ⟨utf8_ofString _, fun k v found => ?_, instant⟩
    obtain ⟨name, value, here, rfl, rfl⟩ := ofEvent_lookup.mp found
    refine ⟨utf8_ofString name, ?_⟩
    cases value with
    | str s => exact ⟨utf8_ofString s, trivial⟩
    | int n => exact ⟨trivial, digits name n here⟩
    | float x =>
      have fits := allValues_iff.mp (event_new_iff.mp (ofEvent_accepted finite accepted)).2.2.2 _ _ found
      exact ⟨trivial, fits⟩
    | bool b => exact ⟨trivial, trivial⟩
    | none => exact ⟨trivial, trivial⟩

end Relprim.SQLiteEvents
