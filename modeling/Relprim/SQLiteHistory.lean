import Relprim.SQLiteRows
import Relprim.Library.Keyset

/-!
What `history` returns. The clauses of its query and their parameters are assembled side
by side, and the query they make selects a page of the table; a page of rows that were
written for events is decoded into these events.
-/
namespace Relprim.SQLiteEvents
open Dictionary Text LabelledRuns Fallible
open Json (Scalar Format dumps loads)
variable {F : Type} {fmt : Format F}

structure Filters where
  operationName : Option Str := none
  eventTypes : Option (List EventType) := none

namespace Filters

/-- `history` accepts the name and SQLite can be given it. -/
def Valid (f : Filters) : Prop := ∀ name ∈ f.operationName, isBlank name = false ∧ Utf8 name

def meets (f : Filters) (e : StructuredEvent F) : Bool :=
  f.operationName.all (e.operationName = ·) && f.eventTypes.all (e.eventType ∈ ·)

def meetsRow (f : Filters) (row : Row) : Bool :=
  f.operationName.all (row.operationName = ·) &&
    f.eventTypes.all fun types => row.eventType ∈ types.map fun t => ofString t.value

theorem value_injective : Function.Injective fun t : EventType => ofString t.value := by
  intro s t same
  have parsed : parseEventType (ofString s.value) = parseEventType (ofString t.value) :=
    congrArg parseEventType same
  rw [parseEventType_value, parseEventType_value] at parsed
  cases parsed
  rfl

theorem meetsRow_written {f : Filters} {row : Row} {e : StructuredEvent F} (h : Written fmt row e) :
    f.meetsRow row = f.meets e := by
  have types (ts : List EventType) : ofString e.eventType.value ∈
      (ts.map fun t => ofString t.value) ↔ e.eventType ∈ ts :=
    List.mem_map_of_injective value_injective
  simp only [meetsRow, meets, h.operationName, h.eventType, types]

end Filters

/-! The query. -/

def SQLiteParameter.value : SQLiteParameter → SQLValue
  | .str s => .text s
  | .int n => .integer n

theorem wheres_append {row : Row} {cs ds : List Clause} {vs ws : List SQLValue}
    (filled : (cs.map Clause.placeholders).sum = vs.length) :
    wheres row (cs ++ ds) (vs ++ ws) = (wheres row cs vs && wheres row ds ws) := by
  induction cs generalizing vs with
  | nil =>
    have none : vs = [] := List.length_eq_zero_iff.mp filled.symm
    simp [none, wheres]
  | cons c cs ih =>
    rw [List.map_cons, List.sum_cons] at filled
    have enough : c.placeholders ≤ vs.length := by omega
    have rest : (cs.map Clause.placeholders).sum = (vs.drop c.placeholders).length := by
      rw [List.length_drop]
      omega
    rw [List.cons_append, wheres, wheres, List.take_append_of_le_length enough,
      List.drop_append_of_le_length enough, ih rest, Bool.and_assoc]

/-- The parameters fill the placeholders of the clauses, which then say `meets`. -/
structure Aligned (row : Row) (q : Query) (meets : Bool) : Prop where
  filled : (q.1.map Clause.placeholders).sum = q.2.length
  holds : wheres row q.1 (q.2.map SQLiteParameter.value) = meets

theorem aligned_none (row : Row) : Aligned row ([], []) true := ⟨rfl, rfl⟩

theorem Aligned.add {row : Row} {q : Query} {b m : Bool} (h : Aligned row q b)
    {filter : Option (Clause × List SQLiteParameter)} (absent : filter = none → m = true)
    (given : ∀ c ps, filter = some (c, ps) →
      c.placeholders = ps.length ∧ c.holds row (ps.map SQLiteParameter.value) = m) :
    Aligned row (addClause filter q) (b && m) := by
  cases filter with
  | none =>
    rw [absent rfl, Bool.and_true]
    exact h
  | some f =>
    obtain ⟨c, ps⟩ := f
    obtain ⟨filled, holds⟩ := given c ps rfl
    constructor
    · simp [addClause, h.filled, filled]
    · have all : (ps.map SQLiteParameter.value).take c.placeholders =
          ps.map SQLiteParameter.value := by
        rw [filled, ← List.length_map SQLiteParameter.value, List.take_length]
      have own : wheres row [c] (ps.map SQLiteParameter.value) = m := by
        simp [wheres, all, holds]
      have front : (q.1.map Clause.placeholders).sum = (q.2.map SQLiteParameter.value).length := by
        rw [List.length_map]
        exact h.filled
      rw [addClause, List.map_append, wheres_append front, h.holds, own]

theorem Aligned.operationName {row : Row} {q : Query} {b : Bool} (h : Aligned row q b)
    (name : Option Str) :
    Aligned row (addClause (name.map fun name => (.operationName, [.str name])) q)
      (b && name.all (row.operationName = ·)) := by
  apply h.add
  · intro absent
    rw [Option.map_eq_none_iff.mp absent]
    rfl
  · intro c ps given
    obtain ⟨n, present, same⟩ := Option.map_eq_some_iff.mp given
    cases same
    exact ⟨rfl, by simp [present, Clause.holds, SQLiteParameter.value]⟩

theorem Aligned.eventTypes {row : Row} {q : Query} {b : Bool} (h : Aligned row q b)
    (types : Option (List EventType)) :
    Aligned row
      (addClause (types.map fun types =>
        (.eventType types.length, types.map fun t => .str (ofString t.value))) q)
      (b && types.all fun types => row.eventType ∈ types.map fun t => ofString t.value) := by
  apply h.add
  · intro absent
    rw [Option.map_eq_none_iff.mp absent]
    rfl
  · intro c ps given
    obtain ⟨ts, present, same⟩ := Option.map_eq_some_iff.mp given
    cases same
    exact ⟨by simp [Clause.placeholders], by simp [present, Clause.holds, SQLiteParameter.value]⟩

theorem Aligned.after {row : Row} {q : Query} {b : Bool} (h : Aligned row q b) (after : Option ℕ) :
    Aligned row (addClause ((after.map Int.ofNat).map fun n => (.sequenceId, [.int n])) q)
      (b && Keyset.after Row.sequenceId after row) := by
  apply h.add
  · intro absent
    rw [Option.map_eq_none_iff, Option.map_eq_none_iff] at absent
    rw [absent]
    rfl
  · intro c ps given
    obtain ⟨m, present, same⟩ := Option.map_eq_some_iff.mp given
    obtain ⟨n, here, rfl⟩ := Option.map_eq_some_iff.mp present
    cases same
    exact ⟨rfl, by simp [here, Clause.holds, SQLiteParameter.value, Keyset.after]⟩

/-- Whichever filters are given, the query asks for the rows that meet them all. -/
theorem filters_aligned (f : Filters) (after : Option ℕ) (row : Row) :
    Aligned row (filters f.operationName f.eventTypes (after.map Int.ofNat))
      (f.meetsRow row && Keyset.after Row.sequenceId after row) := by
  rw [Filters.meetsRow, ← Bool.true_and (f.operationName.all _)]
  exact (((aligned_none row).operationName f.operationName).eventTypes f.eventTypes).after after

/-! The page it selects. -/

def SQLiteParameter.Bindable : SQLiteParameter → Prop
  | .str s => Utf8 s
  | .int n => -2 ^ 63 ≤ n ∧ n < 2 ^ 63

theorem bind_ok {p : SQLiteParameter} (h : p.Bindable) : bind p = .ok p.value := by
  cases p with
  | str s => exact if_pos h
  | int n => exact if_pos h

theorem bindable_nat {n : ℕ} (h : n < 2 ^ 63) : (SQLiteParameter.int n).Bindable := by
  have bound : (n : ℤ) < 2 ^ 63 := by exact_mod_cast h
  exact ⟨by omega, bound⟩

theorem addClause_bindable {q : Query} {filter : Option (Clause × List SQLiteParameter)}
    (old : ∀ p ∈ q.2, p.Bindable) (new : ∀ c ps, filter = some (c, ps) → ∀ p ∈ ps, p.Bindable) :
    ∀ p ∈ (addClause filter q).2, p.Bindable := by
  cases filter with
  | none => exact old
  | some f => exact List.forall_mem_append.mpr ⟨old, new f.1 f.2 rfl⟩

theorem filters_bindable {f : Filters} (valid : f.Valid) {after : Option ℕ}
    (small : ∀ n ∈ after, n < 2 ^ 63) :
    ∀ p ∈ (filters f.operationName f.eventTypes (after.map Int.ofNat)).2, p.Bindable := by
  apply addClause_bindable
  · apply addClause_bindable
    · apply addClause_bindable
      · simp
      · intro c ps given p member
        obtain ⟨name, present, same⟩ := Option.map_eq_some_iff.mp given
        cases same
        rw [List.mem_singleton.mp member]
        exact (valid name present).2
    · intro c ps given p member
      obtain ⟨types, _, same⟩ := Option.map_eq_some_iff.mp given
      cases same
      obtain ⟨t, _, rfl⟩ := List.mem_map.mp member
      exact utf8_ofString _
  · intro c ps given p member
    obtain ⟨m, present, same⟩ := Option.map_eq_some_iff.mp given
    obtain ⟨n, here, rfl⟩ := Option.map_eq_some_iff.mp present
    cases same
    rw [List.mem_singleton.mp member]
    exact bindable_nat (small n here)

theorem mapM_bind {ps : List SQLiteParameter} (h : ∀ p ∈ ps, p.Bindable) :
    ps.mapM bind = .ok (ps.map SQLiteParameter.value) := by
  rw [mapM_ok_iff, List.forall₂_map_right_iff, List.forall₂_same]
  exact fun p member => bind_ok (h p member)

theorem select_ok {t : Table} {q : Query} {m : Row → Bool} {limit : ℕ}
    (bindable : ∀ p ∈ q.2, p.Bindable) (aligned : ∀ row, Aligned row q (m row))
    (small : limit < 2 ^ 63) :
    t.select q.1 (q.2 ++ [.int limit]) = .ok ((t.rows.filter m).take limit) := by
  have all : ∀ p ∈ q.2 ++ [.int limit], p.Bindable :=
    List.forall_mem_append.mpr ⟨bindable, by simpa using bindable_nat small⟩
  have where_ (row : Row) :
      wheres row q.1 ((q.2 ++ [SQLiteParameter.int limit]).map SQLiteParameter.value) = m row := by
    have front : (q.1.map Clause.placeholders).sum = (q.2.map SQLiteParameter.value).length := by
      rw [List.length_map]
      exact (aligned row).filled
    have ends : wheres row (q.1 ++ []) (q.2.map SQLiteParameter.value ++ [.integer limit]) = _ :=
      wheres_append front
    rw [List.append_nil] at ends
    rw [List.map_append, List.map_singleton]
    exact ends.trans (by rw [(aligned row).holds, wheres, Bool.and_true])
  have sorted (p : Row → Bool) : (t.rows.filter p).Pairwise (·.sequenceId ≤ ·.sequenceId) :=
    (t.ascending.imp Nat.le_of_lt).filter p
  have filled := (aligned ⟨0, [], [], [], []⟩).filled
  have last : ((q.2 ++ [SQLiteParameter.int limit]).map SQLiteParameter.value).getLast? =
      some (.integer limit) := by simp [SQLiteParameter.value]
  unfold Table.select
  refine except_bind_iff.mpr ⟨_, mapM_bind all, ?_⟩
  refine except_bind_iff.mpr ⟨(), check_ok_iff.mpr (by simp [filled]), ?_⟩
  have natural : ¬ (limit : ℤ) < 0 := by omega
  simp only [where_, (sorted m).insertionSort_eq, last, if_neg natural]
  rfl

/-- A call with filters that `history` accepts is the query. -/
theorem history_rows (t : Table) {f : Filters} (valid : f.Valid) {after : Option ℕ}
    (small : ∀ n ∈ after, n < 2 ^ 63) {limit : ℕ} (positive : 0 < limit) (bound : limit < 2 ^ 63) :
    history fmt t f.operationName f.eventTypes (after.map fun n : ℕ => .scalar (.int n))
        (.scalar (.int limit)) =
      (Keyset.page Row.sequenceId f.meetsRow after limit t.rows).mapM (storedEventFromRow fmt) := by
  have named : (!f.operationName.any isBlank) = true := by
    cases name : f.operationName with
    | none => rfl
    | some s => simp [(valid s name).1]
  have selected := select_ok (t := t) (filters_bindable valid small)
    (filters_aligned f after) bound
  have query : historySync fmt t f.operationName f.eventTypes (after.map Int.ofNat) limit =
      (Keyset.page Row.sequenceId f.meetsRow after limit t.rows).mapM (storedEventFromRow fmt) := by
    unfold historySync
    simp only [selected]
    rfl
  have checked : (after.map fun n : ℕ => PyValue.scalar (.int n)).mapM (fun value => do
      let n ← checkInt value "after_sequence_id"
      check (0 ≤ n) (valueError "after_sequence_id must be greater than or equal to 0.")
      return n) = .ok (after.map Int.ofNat) := by
    cases after with
    | none => rfl
    | some n => rfl
  have limited : decide (0 < (limit : ℤ)) = true := by
    simpa using positive
  unfold history
  rw [named, check_true]
  change (if f.eventTypes = some [] then _ else _) = _
  by_cases none : f.eventTypes = some []
  · have nowhere : Keyset.page Row.sequenceId f.meetsRow after limit t.rows = [] := by
      simp [Keyset.page, Filters.meetsRow, none]
    rw [if_pos none, nowhere]
    rfl
  · rw [if_neg none, checked]
    change (check (decide (0 < (limit : ℤ))) _ >>= fun _ => historySync fmt t f.operationName
      f.eventTypes (after.map Int.ofNat) limit) = _
    rw [limited]
    exact query

theorem decode_rows (lawful : fmt.Lawful) {rows : List Row}
    (written : ∀ row ∈ rows, 0 < row.sequenceId ∧ ∃ e, Written fmt row e) :
    ∃ page, rows.mapM (storedEventFromRow fmt) = .ok page ∧
      List.Forall₂ (fun row s => s.sequenceId = row.sequenceId ∧
        ∀ e, Written fmt row e → Unchanged e s.event) rows page := by
  have decodes (row : Row) (member : row ∈ rows) : ∃ s, storedEventFromRow fmt row = .ok s := by
    obtain ⟨positive, e, here⟩ := written row member
    obtain ⟨f, read, _⟩ := storedEventFromRow_written lawful here positive
    exact ⟨_, read⟩
  obtain ⟨page, each⟩ := mapM_total decodes
  refine ⟨page, mapM_ok_iff.mpr each, ?_⟩
  rw [List.forall₂_iff_zip] at each ⊢
  refine ⟨each.1, fun {row s} member => ?_⟩
  have read := each.2 member
  obtain ⟨positive, e, here⟩ := written row (List.of_mem_zip member).1
  constructor
  · obtain ⟨f, decoded, _⟩ := storedEventFromRow_written lawful here positive
    cases read.symm.trans decoded
    rfl
  · intro e here
    obtain ⟨f, decoded, same⟩ := storedEventFromRow_written lawful here positive
    cases read.symm.trans decoded
    exact same

theorem history_written (lawful : fmt.Lawful) {t : Table} (stored : t.Stored fmt) {f : Filters}
    (valid : f.Valid) {after : Option ℕ} (small : ∀ n ∈ after, n < 2 ^ 63) {limit : ℕ}
    (positive : 0 < limit) (bound : limit < 2 ^ 63) :
    ∃ page, history fmt t f.operationName f.eventTypes (after.map fun n : ℕ => .scalar (.int n))
        (.scalar (.int limit)) = .ok page ∧
      List.Forall₂ (fun row s => s.sequenceId = row.sequenceId ∧
        ∀ e, Written fmt row e → Unchanged e s.event)
        (Keyset.page Row.sequenceId f.meetsRow after limit t.rows) page := by
  rw [history_rows t valid small positive bound]
  apply decode_rows lawful
  intro row member
  have here := (Keyset.mem_page member).1
  exact ⟨(t.issued row here).1, stored row here⟩

end Relprim.SQLiteEvents
