import Relprim.InternalChecks
import Relprim.OperationBudget
import Relprim.SQLitePagination
import Relprim.SQLiteRetention

/-!
An SQLite event store as a sink of a run. The run delivers its events one after the other, and
between any two deliveries other stores write and delete; what `history` then returns under the
name of the operation is what the run has delivered.
-/
namespace Relprim.SQLiteEvents
open Dictionary Text LabelledRuns Fallible
open Json (Scalar Format)

section
variable {F : Type} {fmt : Format F}

theorem Written.records {row : Row} {e : StructuredEvent F} (h : Written fmt row e) :
    Records fmt row (row.sequenceId, e) where
  sequenceId := rfl
  eventType := h.eventType
  operationName := h.operationName
  timestamp := by
    rw [h.timestamp]
    exact serializeTimestamp_ok.mpr ⟨(event_new_iff.mp h.accepted).2.2.1, h.storable.instant, rfl⟩
  payload := h.payload

theorem holds_step (lawful : fmt.Lawful) {t t' : Table} {es : List (ℕ × StructuredEvent F)}
    {c : Call F} (holds : Holds fmt t es) (step : t.step fmt c = some t') :
    Holds fmt t' (c.applied es) := by
  cases c with
  | emit id e =>
    obtain ⟨_, _, row, written, number, rows⟩ := Table.step_emit lawful step
    rw [Holds, rows]
    exact List.rel_append holds (.cons ⟨number, written⟩ .nil)
  | deleteBefore before =>
    obtain ⟨text, shown, rfl⟩ := Table.step_deleteBefore step
    refine List.rel_filter ?_ holds
    intro row p both
    have older := both.2.records.older shown
    simp [older]

theorem holds_run (lawful : fmt.Lawful) {t t' : Table} {es : List (ℕ × StructuredEvent F)}
    {calls : List (Call F)} (holds : Holds fmt t es) (h : run (Table.step fmt) t calls = some t') :
    Holds fmt t' (calls.foldl Call.applied es) := by
  induction calls generalizing t es with
  | nil =>
    cases h
    exact holds
  | cons c rest ih =>
    obtain ⟨u, first, later⟩ := run_cons.mp h
    exact ih (holds_step lawful holds first) later

end

variable {fmt : Format PyFloat}

/-! The run. -/

theorem mem_delivered {i : ℕ} {es : List Effect} {event : Relprim.StructuredEvent} :
    event ∈ delivered i es ↔ .deliver i event ∈ es := by
  unfold delivered
  rw [List.mem_filterMap]
  constructor
  · rintro ⟨e, member, same⟩
    cases e with
    | deliver sink event' =>
      simp only at same
      split at same
      · rename_i here
        cases same
        rw [← here]
        exact member
      · cases same
    | _ => cases same
  · intro member
    exact ⟨_, member, if_pos rfl⟩

theorem expands_named {V : Type} {op : AsyncOperation V} {items : List Item} {es : List Effect}
    (h : Expands op items es) {i : ℕ} {event : Relprim.StructuredEvent}
    (member : .deliver i event ∈ es) : event.operationName = op.name := by
  induction h with
  | nil => cases member
  | emit event' named _ ih =>
    rcases List.mem_append.mp member with here | later
    · obtain ⟨sink, _, same⟩ := List.mem_map.mp here
      cases same
      exact named
    · exact ih later
  | call e inside _ ih =>
    rcases List.mem_cons.mp member with rfl | later
    · exact inside.elim
    · exact ih later

theorem does_delivers {V : Type} {op : AsyncOperation V} {env : Environment} {s : Session}
    {es : List Effect} (h : Does op env s es) (aware : AwareTimestamps op) {i : ℕ}
    {event : Relprim.StructuredEvent} (member : event ∈ delivered i es) :
    Relprim.StructuredEvent.new event = .ok event ∧ event.operationName = op.name := by
  obtain ⟨n, rfl⟩ := h.prefix
  have whole := List.mem_of_mem_take (mem_delivered.mp member)
  obtain ⟨_, _, _, expands⟩ := AsyncOperation.run_transcript aware env s
  obtain ⟨⟨effects, trace, accepted⟩, _⟩ := op.upholds_run env s []
  have same : op.trace env none s = effects := trace
  refine ⟨?_, expands_named expands whole⟩
  rw [same] at whole
  exact accepted _ whole

/-! The database while the run goes on. -/

/-- The events that the run has yet to store are pending. -/
structure Trail where
  table : Table
  pending : List Relprim.StructuredEvent

inductive Deed where
  | emit (id : ℕ)
  | other (c : Call PyFloat)

def Trail.step (fmt : Format PyFloat) (s : Trail) : Deed → Option Trail
  | .emit id =>
    match s.pending with
    | event :: rest =>
      (s.table.step fmt (.emit id (ofEvent event))).map fun table => ⟨table, rest⟩
    | [] => none
  | .other c => (s.table.step fmt c).map fun table => { s with table }

/-- Others write under other names, and delete nothing that is as late as an event of the run. -/
def Apart (name : String) (events : List Relprim.StructuredEvent) : Deed → Prop
  | .emit _ => True
  | .other (.emit _ e) => e.operationName ≠ ofString name
  | .other (.deleteBefore before) => ∀ e ∈ events, before.instant ≤ e.timestamp.instant

/-- The instant is in the years of UTC, and every int has digits within the limit. -/
def Writable (fmt : Format PyFloat) (e : Relprim.StructuredEvent) : Prop :=
  Representable e.timestamp ∧
    ∀ k n, e.payload.lookup k = some (.int n) → fmt.within (natural n.natAbs).length = true

structure Keeps (fmt : Format PyFloat) (name : String) (after : ℕ) (t : Table)
    (stored : List Relprim.StructuredEvent) (es : List (ℕ × StructuredEvent PyFloat)) : Prop where
  holds : Holds fmt t es
  later : after ≤ t.lastSequenceId
  own : (es.filter fun p => p.2.operationName = ofString name && after < p.1).map Prod.snd =
    stored.map ofEvent

section
variable {name : String} {after : ℕ} {t t' : Table} {stored : List Relprim.StructuredEvent}
  {es : List (ℕ × StructuredEvent PyFloat)}

theorem Keeps.emit (h : Keeps fmt name after t stored es) (lawful : fmt.Lawful) {id : ℕ}
    {event : Relprim.StructuredEvent} (named : event.operationName = name)
    (step : t.step fmt (.emit id (ofEvent event)) = some t') :
    Keeps fmt name after t' (stored ++ [event]) (es ++ [(id, ofEvent event)]) := by
  obtain ⟨fresh, last, _⟩ := Table.step_emit lawful step
  have above := Nat.lt_of_le_of_lt h.later fresh
  refine ⟨holds_step lawful h.holds step, by rw [last]; exact Nat.le_of_lt above, ?_⟩
  have mine : (ofEvent event).operationName = ofString name := congrArg ofString named
  rw [List.filter_append, List.map_append, h.own, List.map_append]
  simp [mine, above]

theorem Keeps.other (h : Keeps fmt name after t stored es) (lawful : fmt.Lawful)
    {events : List Relprim.StructuredEvent} (within : ∀ e ∈ stored, e ∈ events) {c : Call PyFloat}
    (apart : Apart name events (.other c)) (step : t.step fmt c = some t') :
    Keeps fmt name after t' stored (c.applied es) := by
  refine ⟨holds_step lawful h.holds step, h.later.trans (Table.step_rows lawful step).1, ?_⟩
  cases c with
  | emit id e =>
    have foreign : e.operationName ≠ ofString name := apart
    rw [Call.applied, List.filter_append, List.map_append, h.own]
    simp [foreign]
  | deleteBefore before =>
    have young : ∀ e ∈ events, before.instant ≤ e.timestamp.instant := apart
    rw [Call.applied, List.filter_comm, List.filter_eq_self.mpr, h.own]
    intro p member
    have mine := List.mem_map_of_mem (f := Prod.snd) member
    rw [h.own] at mine
    obtain ⟨event, old, same⟩ := List.mem_map.mp mine
    have instant : p.2.timestamp = event.timestamp := by rw [← same, ofEvent]
    simp [instant, young event (within event old)]

end

def Recorded (fmt : Format PyFloat) (name : String) (after : ℕ)
    (events : List Relprim.StructuredEvent) (s : Trail) : Prop :=
  ∃ stored es, events = stored ++ s.pending ∧ Keeps fmt name after s.table stored es

theorem recorded_step (lawful : fmt.Lawful) {name : String} {after : ℕ}
    {events : List Relprim.StructuredEvent} (named : ∀ e ∈ events, e.operationName = name)
    {s t : Trail} {d : Deed} (old : Recorded fmt name after events s)
    (apart : Apart name events d) (step : s.step fmt d = some t) :
    Recorded fmt name after events t := by
  obtain ⟨stored, es, split, keeps⟩ := old
  cases d with
  | emit id =>
    cases pending : s.pending with
    | nil =>
      rw [Trail.step, pending] at step
      cases step
    | cons event rest =>
      rw [Trail.step, pending] at step
      obtain ⟨table, written, rfl⟩ := Option.map_eq_some_iff.mp step
      rw [pending] at split
      have mine := named event (by simp [split])
      exact ⟨stored ++ [event], _, by simp [split], keeps.emit lawful mine written⟩
  | other c =>
    obtain ⟨table, called, rfl⟩ := Option.map_eq_some_iff.mp step
    have within : ∀ e ∈ stored, e ∈ events := fun e member => by simp [split, member]
    exact ⟨stored, _, split, keeps.other lawful within apart called⟩

theorem recorded_run (lawful : fmt.Lawful) {name : String} {after : ℕ}
    {events : List Relprim.StructuredEvent} (named : ∀ e ∈ events, e.operationName = name)
    {s t : Trail} {deeds : List Deed} (old : Recorded fmt name after events s)
    (apart : ∀ d ∈ deeds, Apart name events d) (h : run (Trail.step fmt) s deeds = some t) :
    Recorded fmt name after events t := by
  induction deeds generalizing s with
  | nil =>
    cases h
    exact old
  | cons d rest ih =>
    obtain ⟨u, first, later⟩ := run_cons.mp h
    obtain ⟨here, others⟩ := List.forall_mem_cons.mp apart
    exact ih (recorded_step lawful named old here first) others later

/-- The store takes every event that can be written, whatever the table has. -/
theorem emit_enabled (lawful : fmt.Lawful) (finite : fmt.isfinite = PyFloat.isfinite)
    {event : Relprim.StructuredEvent} (accepted : Relprim.StructuredEvent.new event = .ok event)
    (writable : Writable fmt event) {t : Table} {id : ℕ} (fresh : t.lastSequenceId < id)
    (bounded : id < 2 ^ 63) : (t.step fmt (.emit id (ofEvent event))).isSome = true := by
  have passes := ofEvent_accepted finite accepted
  have storable := storable_of_round_trip lawful
    ((emitted_round_trip lawful finite accepted).mpr writable)
  obtain ⟨row, stored, _⟩ := emitSync_storable lawful passes storable t ⟨id, fresh, bounded⟩
  rw [Table.step, dif_pos ⟨fresh, bounded⟩, passes]
  change (emitSync fmt t ⟨id, fresh, bounded⟩ (ofEvent event)).toOption.isSome = true
  rw [stored]
  rfl

/-- A run with an SQLite sink, whole or aborted: as long as its events can be written, the sink
    takes each of them, and at any time the history under the name of the operation, from the id
    on that the table had before the run, is what the run has stored so far, in its order. -/
theorem audit_trail {V : Type} (lawful : fmt.Lawful) (finite : fmt.isfinite = PyFloat.isfinite)
    {op : AsyncOperation V} (aware : AwareTimestamps op) {env : Environment} {session : Session}
    {effects : List Effect} (does : Does op env session effects) (sink : ℕ)
    (writable : ∀ e ∈ delivered sink effects, Writable fmt e)
    {calls : List (Call PyFloat)} {before : Table}
    (found : run (Table.step fmt) {} calls = some before) {deeds : List Deed} {s : Trail}
    (reached : run (Trail.step fmt) ⟨before, delivered sink effects⟩ deeds = some s)
    (apart : ∀ d ∈ deeds, Apart op.name (delivered sink effects) d) :
    ∃ stored, delivered sink effects = stored ++ s.pending ∧
      (∀ event rest, s.pending = event :: rest → ∀ id, s.table.lastSequenceId < id → id < 2 ^ 63 →
        (s.step fmt (.emit id)).isSome = true) ∧
      ∀ limit : ℕ, 0 < limit → limit < 2 ^ 63 →
        ∃ page, history fmt s.table (some (ofString op.name)) none
            (some (.scalar (.int before.lastSequenceId))) (.scalar (.int limit)) = .ok page ∧
          List.Forall₂ (fun event out => Unchanged (ofEvent event) out.event)
            (stored.take limit) page := by
  have delivers (e : Relprim.StructuredEvent) (member : e ∈ delivered sink effects) :=
    does_delivers does aware member
  have empty : Holds fmt {} [] := .nil
  have holds := holds_run lawful empty found
  -- no row is under an id that has yet to be given
  have none : (calls.foldl Call.applied []).filter (fun p =>
      p.2.operationName = ofString op.name && before.lastSequenceId < p.1) = [] := by
    rw [List.filter_eq_nil_iff]
    intro p member
    obtain ⟨row, here, same, _⟩ := forall₂_mem holds.flip member
    have issued := (before.issued row here).2
    simp [← same, issued]
  have start : Recorded fmt op.name before.lastSequenceId (delivered sink effects)
      ⟨before, delivered sink effects⟩ :=
    ⟨[], _, rfl, holds, Nat.le_refl _, by rw [none]; rfl⟩
  obtain ⟨stored, es, split, keeps⟩ :=
    recorded_run lawful (fun e member => (delivers e member).2) start apart reached
  refine ⟨stored, split, ?_, ?_⟩
  · intro event rest pending id fresh bounded
    have mine : event ∈ delivered sink effects := by simp [split, pending]
    have enabled := emit_enabled lawful finite (delivers event mine).1 (writable event mine)
      fresh bounded
    rw [Trail.step, pending, Option.isSome_map]
    exact enabled
  · intro limit positive bounded
    have valid : Filters.Valid { operationName := some (ofString op.name) } := by
      rintro name ⟨⟩
      exact ⟨by rw [isBlank_ofString, op.name_ok], utf8_ofString _⟩
    have small : ∀ n ∈ some before.lastSequenceId, n < 2 ^ 63 := by
      rintro n ⟨⟩
      exact before.bounded
    obtain ⟨page, returned, each⟩ := history_page lawful keeps.holds valid small positive bounded
    refine ⟨page, returned, ?_⟩
    have asked : (fun p : ℕ × StructuredEvent PyFloat => p.2.operationName = ofString op.name &&
        before.lastSequenceId < p.1) = fun p =>
        Filters.meetsEntry { operationName := some (ofString op.name) } p &&
          Keyset.after Prod.fst (some before.lastSequenceId) p := by
      funext p
      simp [Filters.meetsEntry, Filters.meets, Keyset.after]
    have own : (Keyset.page Prod.fst (Filters.meetsEntry { operationName := some (ofString op.name) })
        (some before.lastSequenceId) limit es).map Prod.snd = (stored.take limit).map ofEvent := by
      rw [Keyset.page, List.map_take, ← asked, keeps.own, List.map_take]
    refine forall₂_comp (fun p event out same returns => ?_) (map_eq_map_iff.mp own) each
    rw [← same]
    exact returns.2

/-- Whole floats as Python shows them; of the others the digits after the point are the
    denominator. -/
def fractionOf (q : ℚ) : Str := Json.point :: natural (if q.den = 1 then 0 else q.den)

def fractions : Format PyFloat where
  isfinite := PyFloat.isfinite
  repr
    | .finite q => { Json.intNumeral q.num with fraction := fractionOf q : Json.Numeral }.text
    | _ => []
  float s :=
    let (sign, rest) := Json.scanSign s
    let (integer, fraction) := spanDigits rest
    let n := value integer
    let d := value (spanDigits (fraction.drop 1)).1
    .finite (mkRat (if sign = [] then n else -n) (if d = 0 then 1 else d))
  digitLimit := some 4300

theorem fractions_lawful : fractions.Lawful := by
  have grammatical (n : ℤ) := Json.intNumeral_grammatical n
  constructor
  · intro x finite
    cases x with
    | finite q =>
      refine ⟨{ Json.intNumeral q.num with fraction := fractionOf q }, ?_, .inl nofun, rfl⟩
      refine ⟨(grammatical q.num).sign, (grammatical q.num).integer, ?_, .absent⟩
      exact .present (natural_digits _) (natural_ne_nil _)
    | _ => cases finite
  · intro x finite
    cases x with
    | finite q =>
      obtain ⟨c, ds, whole, first⟩ := Json.integer_head (Json.integer_natural q.num.natAbs)
      have start : c ≠ Json.minus := by
        rintro rfl
        cases first
      have integer : spanDigits (natural q.num.natAbs ++ (fractionOf q ++ [])) =
          (natural q.num.natAbs, fractionOf q ++ []) :=
        Json.spanDigits_stops (natural_digits _) (Json.stops_cons (by decide) _)
      have denominator : spanDigits ((fractionOf q ++ []).drop 1) =
          (natural (if q.den = 1 then 0 else q.den), []) := by
        have ended : Json.Stops (isDigit · = true) [] := nofun
        exact Json.spanDigits_stops (natural_digits _) ended
      have head : Json.Stops (· = Json.minus) (natural q.num.natAbs ++ (fractionOf q ++ [])) := by
        rw [whole, List.cons_append]
        exact Json.stops_cons (p := (· = Json.minus)) start _
      have signed : Json.scanSign (fractions.repr (.finite q)) =
          ((Json.intNumeral q.num).sign, natural q.num.natAbs ++ (fractionOf q ++ [])) :=
        Json.scanSign_sign (grammatical q.num).sign head
      have sign : ((Json.intNumeral q.num).sign = []) ↔ ¬ q.num < 0 := by
        by_cases negative : q.num < 0
        · simp [Json.intNumeral, negative]
        · simp [Json.intNumeral, negative]
      have numerator : (if (Json.intNumeral q.num).sign = [] then (q.num.natAbs : ℤ)
          else -q.num.natAbs) = q.num := by
        simp only [sign]
        split <;> omega
      have parsed : fractions.float (fractions.repr (.finite q)) =
          .finite (mkRat q.num (if (if q.den = 1 then 0 else q.den) = 0 then 1
            else if q.den = 1 then 0 else q.den)) := by
        simp only [fractions] at signed ⊢
        rw [signed]
        simp only [integer, denominator, value_natural, numerator]
      rw [parsed]
      congr
      have positive := q.den_pos
      by_cases one : q.den = 1
      · rw [if_pos one, if_pos rfl, ← one, Rat.mkRat_self]
      · rw [if_neg one, if_neg (by omega), Rat.mkRat_self]
    | _ => cases finite

def watching : List Deed :=
  [.emit 1, .other (.emit 5 { eventType := .retryScheduled, operationName := ofString "fetch"
                              timestamp := .utc 3 }), .emit 6, .emit 7]

theorem writable_of_items {e : Relprim.StructuredEvent} (range : Representable e.timestamp)
    (each : (items e.payload).all (fun entry =>
      match entry.2 with
      | .int n => fmt.within (natural n.natAbs).length
      | _ => true) = true) : Writable fmt e := by
  refine ⟨range, fun k n found => ?_⟩
  exact List.all_eq_true.mp each (k, .int n) (mem_items.mpr found)

theorem observed_trail : ∃ s stored,
    run (Trail.step fractions) ⟨{}, delivered 0 (observed.trace steady none {})⟩ watching = some s ∧
    delivered 0 (observed.trace steady none {}) = stored ++ s.pending ∧
    ∃ page, history fractions s.table (some (ofString "call")) none (some (.scalar (.int 0)))
        (.scalar (.int 10)) = .ok page ∧
      List.Forall₂ (fun event out => Unchanged (ofEvent event) out.event) (stored.take 10) page := by
  have aware : AwareTimestamps observed := by
    rintro emitter ⟨⟩ n
    rfl
  have writable : ∀ e ∈ delivered 0 (observed.trace steady none {}), Writable fractions e := by
    have each : ∀ e ∈ delivered 0 (observed.trace steady none {}),
        (0 ≤ e.timestamp.instant ∧ e.timestamp.instant < Calendar.endOfTime) ∧
        (items e.payload).all (fun entry =>
          match entry.2 with
          | .int n => fractions.within (natural n.natAbs).length
          | _ => true) = true := by
      decide +kernel
    exact fun e member => writable_of_items (each e member).1 (each e member).2
  have runs : (run (Trail.step fractions) ⟨{}, delivered 0 (observed.trace steady none {})⟩
      watching).isSome = true := by
    decide +kernel
  have apart : ∀ d ∈ watching, Apart observed.name (delivered 0 (observed.trace steady none {})) d := by
    have foreign : ofString "fetch" ≠ ofString "call" := by decide
    simp only [watching, List.forall_mem_cons]
    exact ⟨trivial, foreign, trivial, trivial, nofun⟩
  obtain ⟨s, reached⟩ := Option.isSome_iff_exists.mp runs
  have found : run (Table.step fractions) {} [] = some {} := rfl
  obtain ⟨stored, split, _, pages⟩ :=
    audit_trail fractions_lawful rfl aware .whole 0 writable found reached apart
  obtain ⟨page, returned, each⟩ := pages 10 (by decide) (by decide)
  exact ⟨s, stored, reached, split, page, returned, each⟩

end Relprim.SQLiteEvents
