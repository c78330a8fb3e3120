import Relprim.Library.CalendarOrder
import Relprim.SQLiteRoundTrip

/-!
Retention: the table compares texts, and the events it deletes are those before an
instant. What the database holds after any calls is a log that is kept by instants.
-/
namespace Relprim.SQLiteEvents
open Dictionary Text LabelledRuns Fallible
open Json (Format)
variable {F : Type} {fmt : Format F}

def Representable (t : DateTime) : Prop := 0 ≤ t.instant ∧ t.instant < Calendar.endOfTime

structure Records (fmt : Format F) (row : Row) (p : ℕ × StructuredEvent F) : Prop where
  sequenceId : row.sequenceId = p.1
  eventType : row.eventType = ofString p.2.eventType.value
  operationName : row.operationName = p.2.operationName
  timestamp : serializeTimestamp p.2.timestamp = .ok row.timestamp
  payload : encodePayload fmt p.2.payload = .ok row.payloadJson

def Call.applied (es : List (ℕ × StructuredEvent F)) : Call F → List (ℕ × StructuredEvent F)
  | .emit id event => es ++ [(id, event)]
  | .deleteBefore before => es.filter fun p => before.instant ≤ p.2.timestamp.instant

def retained (calls : List (Call F)) : List (ℕ × StructuredEvent F) := calls.foldl Call.applied []

/-! The texts. -/

theorem serializeTimestamp_total {t : DateTime} (aware : t.utcoffset.isSome = true)
    (range : Representable t) : ∃ text, serializeTimestamp t = .ok text :=
  ⟨_, serializeTimestamp_ok.mpr ⟨aware, range, rfl⟩⟩

/-- The texts are ordered as the instants, whatever the offsets. -/
theorem serializeTimestamp_order {a b : DateTime} {s t : Str} (first : serializeTimestamp a = .ok s)
    (second : serializeTimestamp b = .ok t) :
    (s < t ↔ a.instant < b.instant) ∧ (s = t ↔ a.instant = b.instant) := by
  obtain ⟨_, range, rfl⟩ := serializeTimestamp_ok.mp first
  obtain ⟨_, range', rfl⟩ := serializeTimestamp_ok.mp second
  have bound : a.instant.toNat < Calendar.endOfTime := by omega
  have bound' : b.instant.toNat < Calendar.endOfTime := by omega
  rw [Calendar.isoformat_lt_iff bound bound', Calendar.isoformat_inj bound bound']
  constructor
  · omega
  · omega

theorem serializeTimestamp_parsed {t : DateTime} {text : Str}
    (h : serializeTimestamp t = .ok text) :
    Calendar.fromisoformat text = some (t.instant, 0) := by
  obtain ⟨_, range, rfl⟩ := serializeTimestamp_ok.mp h
  have bound : t.instant.toNat < Calendar.endOfTime := by omega
  rw [Calendar.fromisoformat_isoformat bound, Int.toNat_of_nonneg range.1]

theorem deleteBefore_shown {t : Table} {before : DateTime} {text : Str}
    (shown : serializeTimestamp before = .ok text) : deleteBefore t before =
      .ok (t.rows.length - (t.deleteBefore text).rows.length, t.deleteBefore text) := by
  obtain ⟨aware, _, same⟩ := serializeTimestamp_ok.mp shown
  have encodable : Utf8 text := by
    rw [same]
    exact Calendar.utf8_isoformat _
  refine except_bind_iff.mpr ⟨(), check_ok_iff.mpr aware, ?_⟩
  refine except_bind_iff.mpr ⟨text, shown, ?_⟩
  exact except_bind_iff.mpr ⟨_, bind_str.mpr ⟨encodable, rfl⟩, rfl⟩

/-! The table. -/

theorem emitSync_records {e : StructuredEvent F} {t t' : Table} {id : NextId t}
    (h : emitSync fmt t id e = .ok t') :
    ∃ row, t'.rows = t.rows ++ [row] ∧ Records fmt row (id.value, e) := by
  obtain ⟨text, written, h⟩ := except_bind_ok h
  obtain ⟨timestamp, shown, h⟩ := except_bind_ok h
  obtain ⟨_, _, h⟩ := except_bind_ok h
  cases h
  exact ⟨_, rfl, rfl, rfl, rfl, shown, written⟩

/-- Older by the text of its row or by the instant of its event is the same. -/
theorem Records.older {row : Row} {p : ℕ × StructuredEvent F} (h : Records fmt row p)
    {before : DateTime} {text : Str} (shown : serializeTimestamp before = .ok text) :
    row.timestamp < text ↔ p.2.timestamp.instant < before.instant :=
  (serializeTimestamp_order h.timestamp shown).1

theorem deleteBefore_records {t : Table} {es : List (ℕ × StructuredEvent F)}
    (holds : List.Forall₂ (Records fmt) t.rows es) {before : DateTime} {text : Str}
    (shown : serializeTimestamp before = .ok text) :
    List.Forall₂ (Records fmt) (t.deleteBefore text).rows
        (Call.applied es (.deleteBefore before)) ∧
      t.rows.length - (t.deleteBefore text).rows.length =
        es.countP fun p => p.2.timestamp.instant < before.instant := by
  have kept : List.Forall₂ (Records fmt) (t.deleteBefore text).rows
      (Call.applied es (.deleteBefore before)) := by
    refine List.rel_filter ?_ holds
    intro row p records
    simp [records.older shown]
  refine ⟨kept, ?_⟩
  have parts := es.length_eq_countP_add_countP fun p => before.instant ≤ p.2.timestamp.instant
  have older : es.countP (fun p => ¬ decide (before.instant ≤ p.2.timestamp.instant) = true) =
      es.countP fun p => p.2.timestamp.instant < before.instant :=
    List.countP_congr fun p _ => by simp
  rw [holds.length_eq, kept.length_eq, Call.applied, ← List.countP_eq_length_filter]
  omega

theorem step_records {t t' : Table} {es : List (ℕ × StructuredEvent F)} {c : Call F}
    (holds : List.Forall₂ (Records fmt) t.rows es) (h : t.step fmt c = some t') :
    List.Forall₂ (Records fmt) t'.rows (Call.applied es c) := by
  cases c with
  | emit id e =>
    simp only [Table.step] at h
    split at h
    · obtain ⟨f, accepted, stored⟩ := except_bind_ok (toOption_eq_some.mp h)
      cases (event_new_iff.mp accepted).1
      obtain ⟨row, rows, records⟩ := emitSync_records stored
      rw [rows]
      exact List.rel_append holds (.cons records .nil)
    · cases h
  | deleteBefore before =>
    obtain ⟨text, shown, rfl⟩ := Table.step_deleteBefore h
    exact (deleteBefore_records holds shown).1

/-- The database holds the log that is kept by instants. -/
theorem run_records {calls : List (Call F)} {t : Table}
    (h : run (Table.step fmt) {} calls = some t) :
    List.Forall₂ (Records fmt) t.rows (retained calls) := by
  induction calls using List.reverseRecOn generalizing t with
  | nil =>
    cases h
    exact .nil
  | append_singleton calls c ih =>
    obtain ⟨u, before, last⟩ := run_snoc.mp h
    rw [retained, List.foldl_concat]
    exact step_records (ih before) last

/-- Texts of representable instants sort chronologically and are read back as the instants,
    so that `delete_before` deletes the events before its instant and nothing else. -/
theorem retention_chronological {a b : DateTime} (aware : a.utcoffset.isSome = true)
    (aware' : b.utcoffset.isSome = true) (range : Representable a) (range' : Representable b) :
    (∃ s t, serializeTimestamp a = .ok s ∧ serializeTimestamp b = .ok t ∧
      (s < t ↔ a.instant < b.instant) ∧ (s = t ↔ a.instant = b.instant) ∧
      Calendar.fromisoformat s = some (a.instant, 0)) ∧
    ∀ (fmt : Format F) (calls : List (Call F)) (t : Table),
      run (Table.step fmt) {} calls = some t →
        List.Forall₂ (Records fmt) t.rows (retained calls) ∧
        ∀ before : DateTime, before.utcoffset.isSome = true → Representable before →
          ∃ n t', deleteBefore t before = .ok (n, t') ∧
            n = (retained calls).countP (fun p => p.2.timestamp.instant < before.instant) ∧
            t'.rows.Sublist t.rows ∧
            List.Forall₂ (Records fmt) t'.rows
              ((retained calls).filter fun p => before.instant ≤ p.2.timestamp.instant) := by
  obtain ⟨s, first⟩ := serializeTimestamp_total aware range
  obtain ⟨u, second⟩ := serializeTimestamp_total aware' range'
  obtain ⟨order, same⟩ := serializeTimestamp_order first second
  refine ⟨⟨s, u, first, second, order, same, serializeTimestamp_parsed first⟩, ?_⟩
  intro fmt calls t reached
  have holds := run_records reached
  refine ⟨holds, fun before aware range => ?_⟩
  obtain ⟨text, shown⟩ := serializeTimestamp_total aware range
  obtain ⟨kept, count⟩ := deleteBefore_records holds shown
  exact ⟨_, t.deleteBefore text, deleteBefore_shown shown, count, List.filter_sublist, kept⟩

/-- Events of 14:00 at an offset of two hours and of 08:00 at one of minus five, an hour apart. -/
def offsets : List (Call ℤ) :=
  [.emit 1 { waited with timestamp := ⟨63902865600000000, some 7200000000⟩ },
    .emit 2 { waited with timestamp := ⟨63902869200000000, some (-18000000000)⟩ }]

theorem offsets_retained :
    ∃ t, run (Table.step wholes) {} offsets = some t ∧ ∃ t',
      deleteBefore t ⟨63902869200000000, some 3600000000⟩ = .ok (1, t') ∧
      t'.rows.map Row.sequenceId = [2] := by
  have runs : (run (Table.step wholes) {} offsets).isSome = true := by decide +kernel
  obtain ⟨t, reached⟩ := Option.isSome_iff_exists.mp runs
  have range : Representable ⟨63902869200000000, some 3600000000⟩ := ⟨by decide, by decide⟩
  obtain ⟨_, retains⟩ := retention_chronological (F := ℤ) rfl rfl range range
  obtain ⟨_, deletes⟩ := retains wholes offsets t reached
  obtain ⟨n, t', deleted, count, _, kept⟩ := deletes _ rfl range
  have one : n = 1 := count.trans (by decide)
  subst one
  refine ⟨t, reached, t', deleted, ?_⟩
  rw [map_eq_map_iff.mpr (kept.imp fun _ _ records => records.sequenceId)]
  decide

end Relprim.SQLiteEvents
