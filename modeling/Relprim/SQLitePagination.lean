import Relprim.SQLiteRoundTrip

/-!
Reading the history page by page while any store writes and deletes. The database is a
log whose keys are the sequence ids, and what holds of pages of a log holds of it.
-/
namespace Relprim.SQLiteEvents
open Dictionary Text LabelledRuns Fallible
open Json (Scalar Format)
variable {F : Type} {fmt : Format F}

def Holds (fmt : Format F) (t : Table) (es : List (ℕ × StructuredEvent F)) : Prop :=
  List.Forall₂ (fun row p => row.sequenceId = p.1 ∧ Written fmt row p.2) t.rows es

def Returned (p : ℕ × StructuredEvent F) (s : StoredEvent F) : Prop :=
  s.sequenceId = p.1 ∧ Unchanged p.2 s.event

def Filters.meetsEntry (f : Filters) (p : ℕ × StructuredEvent F) : Bool := f.meets p.2

theorem Holds.stored {t : Table} {es : List (ℕ × StructuredEvent F)} (h : Holds fmt t es) :
    t.Stored fmt := by
  intro row member
  obtain ⟨p, _, _, written⟩ := forall₂_mem h member
  exact ⟨p.2, written⟩

theorem Holds.ascending {t : Table} {es : List (ℕ × StructuredEvent F)} (h : Holds fmt t es) :
    es.Pairwise (·.1 < ·.1) := by
  have ids : t.rows.map Row.sequenceId = es.map Prod.fst :=
    map_eq_map_iff.mpr (h.imp fun _ _ both => both.1)
  have sorted := List.pairwise_map.mpr t.ascending
  rw [ids] at sorted
  exact List.pairwise_map.mp sorted

/-- A page is the first events, by id, that the query asks for. -/
theorem history_page (lawful : fmt.Lawful) {t : Table} {es : List (ℕ × StructuredEvent F)}
    (holds : Holds fmt t es) {f : Filters} (valid : f.Valid) {after : Option ℕ}
    (small : ∀ n ∈ after, n < 2 ^ 63) {limit : ℕ} (positive : 0 < limit) (bound : limit < 2 ^ 63) :
    ∃ page, history fmt t f.operationName f.eventTypes (after.map fun n : ℕ => .scalar (.int n))
        (.scalar (.int limit)) = .ok page ∧
      List.Forall₂ Returned (Keyset.page Prod.fst f.meetsEntry after limit es) page := by
  obtain ⟨page, read, each⟩ := history_written lawful holds.stored valid small positive bound
  refine ⟨page, read, ?_⟩
  have selected : List.Forall₂ (fun row p => row.sequenceId = p.1 ∧ Written fmt row p.2)
      (Keyset.page Row.sequenceId f.meetsRow after limit t.rows)
      (Keyset.page Prod.fst f.meetsEntry after limit es) := by
    apply List.forall₂_take
    refine List.rel_filter ?_ holds
    intro row p both
    simp only [Keyset.after, both.1, Filters.meetsRow_written both.2, Filters.meetsEntry]
  exact forall₂_comp (fun row p s both out => ⟨out.1.trans both.1, out.2 p.2 both.2⟩) selected each

/-! The reader. -/

/-- The database, and a reader with its last page. -/
structure Reader (F : Type) where
  table : Table := {}
  cursor : Option ℕ
  page : List (StoredEvent F) := []

inductive Action (F : Type) where
  | call (c : Call F)
  | read (limit : ℕ)

/-- Each page is read from after the last id of the page before. -/
def Reader.step (fmt : Format F) (f : Filters) (s : Reader F) : Action F → Option (Reader F)
  | .call c => (s.table.step fmt c).map fun table => { s with table }
  | .read limit =>
    if 0 < limit ∧ limit < 2 ^ 63 then
      (history fmt s.table f.operationName f.eventTypes
        (s.cursor.map fun n : ℕ => .scalar (.int n)) (.scalar (.int limit))).toOption.map fun page =>
          { s with page, cursor := (page.getLast?.map StoredEvent.sequenceId).or s.cursor }
    else none

inductive Observation (F : Type) where
  | committed (id : ℕ) (event : StructuredEvent F)
  | deleted (ids : List ℕ)
  | page (events : List (StoredEvent F))

def observe (s : Reader F) (a : Action F) (t : Reader F) : Observation F :=
  match a with
  | .call (.emit id event) => .committed id event
  | .call (.deleteBefore _) =>
    .deleted ((s.table.rows.filter (· ∉ t.table.rows)).map Row.sequenceId)
  | .read _ => .page t.page

def Observation.events : Observation F → List (StoredEvent F)
  | .page es => es
  | _ => []

def seen (log : List (Observation F)) : List (StoredEvent F) := log.flatMap Observation.events

def position (start : Option ℕ) (log : List (Observation F)) : Option ℕ :=
  ((seen log).getLast?.map StoredEvent.sequenceId).or start

theorem seen_snoc (log : List (Observation F)) (o : Observation F) :
    seen (log ++ [o]) = seen log ++ o.events := by
  simp [seen]

theorem position_write {log : List (Observation F)} {o : Observation F} (start : Option ℕ)
    (write : o.events = []) : position start (log ++ [o]) = position start log := by
  rw [position, seen_snoc, write, List.append_nil, position]

theorem position_page (log : List (Observation F)) (start : Option ℕ)
    (page : List (StoredEvent F)) :
    position start (log ++ [.page page]) =
      (page.getLast?.map StoredEvent.sequenceId).or (position start log) := by
  rw [position, seen_snoc, Observation.events, List.getLast?_append, position, ← Option.or_assoc]
  cases page.getLast? with
  | none => rfl
  | some last => rfl

/-- The event was deleted while the reader had yet to come to its id. -/
def DeletedBeforeTurn (start : Option ℕ) (log : List (Observation F)) (id : ℕ) : Prop :=
  ∃ before ids rest, log = before ++ .deleted ids :: rest ∧ id ∈ ids ∧
    ∀ n ∈ position start before, n < id

/-! The log behind the database. -/

inductive Agrees : Observation F → Keyset.Event (ℕ × StructuredEvent F) → Prop where
  | committed (id : ℕ) (e : StructuredEvent F) : Agrees (.committed id e) (.inserted (id, e))
  | deleted (ps : List (ℕ × StructuredEvent F)) :
      Agrees (.deleted (ps.map Prod.fst)) (.removed ps)
  | page {es : List (StoredEvent F)} {ps : List (ℕ × StructuredEvent F)}
      (each : List.Forall₂ Returned ps es) : Agrees (.page es) (.page ps)

theorem seen_agrees {log : List (Observation F)}
    {events : List (Keyset.Event (ℕ × StructuredEvent F))} (h : List.Forall₂ Agrees log events) :
    List.Forall₂ Returned (Keyset.read events) (seen log) := by
  induction h with
  | nil => exact .nil
  | cons first _ ih =>
    cases first with
    | committed id e => exact ih
    | deleted ps => exact ih
    | page each => exact List.rel_append each ih

theorem returned_ids {ps : List (ℕ × StructuredEvent F)} {es : List (StoredEvent F)}
    (h : List.Forall₂ Returned ps es) : es.map StoredEvent.sequenceId = ps.map Prod.fst :=
  map_eq_map_iff.mpr (h.flip.imp fun _ _ both => both.1)

theorem position_agrees {log : List (Observation F)}
    {events : List (Keyset.Event (ℕ × StructuredEvent F))} (h : List.Forall₂ Agrees log events)
    (start : Option ℕ) : position start log = Keyset.cursor Prod.fst start events := by
  rw [position, Keyset.cursor, ← List.getLast?_map, ← List.getLast?_map,
    returned_ids (seen_agrees h)]

structure Simulates (fmt : Format F) (f : Filters) (start : Option ℕ) (s : Reader F)
    (log : List (Observation F)) (es : List (ℕ × StructuredEvent F))
    (events : List (Keyset.Event (ℕ × StructuredEvent F))) : Prop where
  history : Keyset.History Prod.fst f.meetsEntry start es events
  holds : Holds fmt s.table es
  agrees : List.Forall₂ Agrees log events
  cursor : s.cursor = position start log
  small : ∀ n ∈ s.cursor, n < 2 ^ 63
  issued : ∀ p, .inserted p ∈ events → p.1 ≤ s.table.lastSequenceId

namespace Simulates
variable {f : Filters} {start : Option ℕ} {s : Reader F} {log : List (Observation F)}
  {es : List (ℕ × StructuredEvent F)} {events : List (Keyset.Event (ℕ × StructuredEvent F))}

theorem initial (small : ∀ n ∈ start, n < 2 ^ 63) :
    Simulates fmt f start { cursor := start } [] [] [] where
  history := .empty
  holds := .nil
  agrees := .nil
  cursor := rfl
  small := small
  issued := by simp

theorem agrees_snoc (h : Simulates fmt f start s log es events) {o : Observation F}
    {e : Keyset.Event (ℕ × StructuredEvent F)} (last : Agrees o e) :
    List.Forall₂ Agrees (log ++ [o]) (events ++ [e]) :=
  List.rel_append h.agrees (.cons last .nil)

theorem emit (lawful : fmt.Lawful) (h : Simulates fmt f start s log es events) {id : ℕ}
    {e : StructuredEvent F} {t : Table} (step : s.table.step fmt (.emit id e) = some t) :
    Simulates fmt f start { s with table := t } (log ++ [.committed id e]) (es ++ [(id, e)])
      (events ++ [.inserted (id, e)]) := by
  obtain ⟨fresh, last, row, written, number, rows⟩ := Table.step_emit lawful step
  have agrees := h.agrees_snoc (.committed id e)
  constructor
  · exact h.history.insert (id, e) fun p member => Nat.lt_of_le_of_lt (h.issued p member) fresh
  · rw [Holds, rows]
    exact List.rel_append h.holds (.cons ⟨number, written⟩ .nil)
  · exact agrees
  · exact h.cursor.trans (position_write start rfl).symm
  · exact h.small
  · intro p member
    change p.1 ≤ t.lastSequenceId
    rw [last]
    rcases List.mem_append.mp member with old | new
    · exact (h.issued p old).trans (Nat.le_of_lt fresh)
    · cases List.mem_singleton.mp new
      exact Nat.le_refl _

theorem deleteBefore (h : Simulates fmt f start s log es events) {before : DateTime} {t : Table}
    (step : s.table.step fmt (.deleteBefore before) = some t) :
    ∃ rest removed, Simulates fmt f start { s with table := t }
      (log ++ [.deleted ((s.table.rows.filter (· ∉ t.rows)).map Row.sequenceId)]) rest
      (events ++ [.removed removed]) := by
  obtain ⟨text, _, rfl⟩ := Table.step_deleteBefore step
  let older (p : ℕ × StructuredEvent F) : Bool :=
    Calendar.isoformat p.2.timestamp.instant.toNat < text
  have related (row : Row) (p : ℕ × StructuredEvent F)
      (both : row.sequenceId = p.1 ∧ Written fmt row p.2) :
      decide (row.timestamp < text) = older p := by
    simp only [older, both.2.timestamp]
  have gone : s.table.rows.filter (· ∉ (s.table.deleteBefore text).rows) =
      s.table.rows.filter fun row => row.timestamp < text := by
    apply List.filter_congr
    intro row member
    simp [Table.deleteBefore, member]
  have removed : List.Forall₂ (fun row p => row.sequenceId = p.1 ∧ Written fmt row p.2)
      (s.table.rows.filter fun row => row.timestamp < text) (es.filter older) := by
    refine List.rel_filter ?_ h.holds
    intro row p both
    exact iff_of_eq (congrArg (· = true) (related row p both))
  have ids : (s.table.rows.filter fun row => row.timestamp < text).map Row.sequenceId =
      (es.filter older).map Prod.fst :=
    map_eq_map_iff.mpr (removed.imp fun _ _ both => both.1)
  refine ⟨es.filter fun p => !older p, es.filter older, ?_⟩
  rw [gone, ids]
  have agrees := h.agrees_snoc (.deleted (es.filter older))
  constructor
  · exact h.history.remove older
  · refine List.rel_filter ?_ h.holds
    intro row p both
    simp [← related row p both]
  · exact agrees
  · exact h.cursor.trans (position_write start rfl).symm
  · exact h.small
  · intro p member
    exact h.issued p (by simpa using member)

theorem read (lawful : fmt.Lawful) (valid : f.Valid) (h : Simulates fmt f start s log es events)
    {limit : ℕ} (positive : 0 < limit) (bound : limit < 2 ^ 63) :
    ∃ t rs, Reader.step fmt f s (.read limit) = some t ∧
      Simulates fmt f start t (log ++ [.page t.page]) es (events ++ [.page rs]) := by
  obtain ⟨page, returned, each⟩ := history_page lawful h.holds valid h.small positive bound
  have place : s.cursor = Keyset.cursor Prod.fst start events := by
    rw [h.cursor, position_agrees h.agrees]
  rw [place] at each
  have small : ∀ n ∈ (page.getLast?.map StoredEvent.sequenceId).or s.cursor, n < 2 ^ 63 := by
    intro n hn
    rcases Option.or_eq_some_iff.mp hn with new | ⟨_, old⟩
    · obtain ⟨last, final, rfl⟩ := Option.map_eq_some_iff.mp new
      obtain ⟨p, out, same, _⟩ := forall₂_mem each.flip (List.mem_of_getLast? final)
      obtain ⟨row, member, number, _⟩ := forall₂_mem h.holds.flip (Keyset.mem_page out).1
      rw [same, ← number]
      exact Nat.lt_of_le_of_lt (s.table.issued row member).2 s.table.bounded
    · exact h.small n old
  refine ⟨{ s with page, cursor := (page.getLast?.map StoredEvent.sequenceId).or s.cursor }, _, ?_,
    h.history.read limit positive, h.holds, h.agrees_snoc (.page each), ?_, small, ?_⟩
  · simp only [Reader.step, if_pos (And.intro positive bound), returned]
    rfl
  · rw [position_page, h.cursor]
  · intro p member
    exact h.issued p (by simpa using member)

end Simulates

/-- The reader, the log of what happened, and the log it stands for. -/
def Simulated (fmt : Format F) (f : Filters) (start : Option ℕ) (s : Reader F)
    (log : List (Observation F)) : Prop := ∃ es events, Simulates fmt f start s log es events

theorem simulated_step (lawful : fmt.Lawful) {f : Filters} (valid : f.Valid) {start : Option ℕ}
    {s t : Reader F} {log : List (Observation F)} {a : Action F}
    (old : Simulated fmt f start s log) (step : Reader.step fmt f s a = some t) :
    Simulated fmt f start t (log ++ [observe s a t]) := by
  obtain ⟨es, events, h⟩ := old
  cases a with
  | call c =>
    obtain ⟨table, next, rfl⟩ := Option.map_eq_some_iff.mp step
    cases c with
    | emit id e => exact ⟨_, _, h.emit lawful next⟩
    | deleteBefore before =>
      obtain ⟨rest, removed, now⟩ := h.deleteBefore next
      exact ⟨_, _, now⟩
  | read limit =>
    have asked : 0 < limit ∧ limit < 2 ^ 63 := by
      by_contra other
      simp only [Reader.step, if_neg other] at step
      cases step
    obtain ⟨u, rs, page, now⟩ := h.read lawful valid asked.1 asked.2
    cases step.symm.trans page
    exact ⟨_, _, now⟩

theorem simulated_run (lawful : fmt.Lawful) {f : Filters} (valid : f.Valid) {start : Option ℕ}
    (small : ∀ n ∈ start, n < 2 ^ 63) {actions : List (Action F)} {s : Reader F}
    (h : run (Reader.step fmt f) { cursor := start } actions = some s) :
    Simulated fmt f start s (trace (Reader.step fmt f) observe { cursor := start } actions) := by
  refine invariant_trace (I := Simulated fmt f start) ⟨_, _, .initial small⟩ ?_ h
  intro a _ s log t old step
  exact simulated_step lawful valid old step

/-! What the log says. -/

theorem committed_agrees {log : List (Observation F)}
    {events : List (Keyset.Event (ℕ × StructuredEvent F))} (h : List.Forall₂ Agrees log events)
    {id : ℕ} {e : StructuredEvent F} : .committed id e ∈ log ↔ .inserted (id, e) ∈ events := by
  constructor
  · intro member
    obtain ⟨event, there, agrees⟩ := forall₂_mem h member
    cases agrees
    exact there
  · intro member
    obtain ⟨o, there, agrees⟩ := forall₂_mem h.flip member
    cases agrees
    exact there

theorem lost_agrees {log : List (Observation F)}
    {events : List (Keyset.Event (ℕ × StructuredEvent F))} (h : List.Forall₂ Agrees log events)
    {start : Option ℕ} {p : ℕ × StructuredEvent F} (lost : Keyset.Lost Prod.fst start events p) :
    DeletedBeforeTurn start log p.1 := by
  obtain ⟨before, rs, rest, rfl, member, waiting⟩ := lost
  obtain ⟨front, back, rfl, first, second⟩ := forall₂_append_right h
  cases second with
  | cons now later =>
    cases now
    refine ⟨front, _, _, rfl, List.mem_map_of_mem member, ?_⟩
    rw [position_agrees first]
    exact Keyset.after_iff.mp waiting

section
variable {f : Filters} {start : Option ℕ} {s : Reader F} {log : List (Observation F)}

theorem Simulated.readable (h : Simulated fmt f start s log) (lawful : fmt.Lawful) (valid : f.Valid)
    {limit : ℕ} (positive : 0 < limit) (bound : limit < 2 ^ 63) :
    (Reader.step fmt f s (.read limit)).isSome = true := by
  obtain ⟨es, events, h⟩ := h
  obtain ⟨t, rs, page, _⟩ := h.read lawful valid positive bound
  rw [page]
  rfl

theorem seen_ascending (h : Simulated fmt f start s log) :
    (seen log).Pairwise (·.sequenceId < ·.sequenceId) := by
  obtain ⟨es, events, h⟩ := h
  have sorted := List.pairwise_map.mpr h.history.invariant.read_ascending
  rw [← returned_ids (seen_agrees h.agrees)] at sorted
  exact List.pairwise_map.mp sorted

theorem seen_sound (h : Simulated fmt f start s log) {out : StoredEvent F}
    (member : out ∈ seen log) :
    ∃ e, .committed out.sequenceId e ∈ log ∧ f.meets e = true ∧
      (∀ n ∈ start, n < out.sequenceId) ∧ Unchanged e out.event := by
  obtain ⟨es, events, h⟩ := h
  obtain ⟨⟨id, e⟩, here, same, unchanged⟩ := forall₂_mem (seen_agrees h.agrees).flip member
  obtain ⟨inserted, meets, behind⟩ := h.history.invariant.sound _ here
  cases same
  exact ⟨e, (committed_agrees h.agrees).mpr inserted, meets, Keyset.after_iff.mp behind, unchanged⟩

/-- The reader who finds an empty page has seen everything that waited for its turn. -/
theorem seen_complete {before : List (Observation F)}
    (h : Simulated fmt f start s (before ++ [.page []])) {id : ℕ} {e : StructuredEvent F}
    (member : .committed id e ∈ before) (meets : f.meets e = true) (behind : ∀ n ∈ start, n < id) :
    (∃ out ∈ seen before, out.sequenceId = id ∧ Unchanged e out.event) ∨
      DeletedBeforeTurn start before id := by
  obtain ⟨es, events, h⟩ := h
  obtain ⟨front, back, rfl, first, second⟩ := forall₂_append_left h.agrees
  cases second with
  | cons now later =>
    cases later
    cases now with
    | page each =>
      cases each
      have inserted := (committed_agrees first).mp member
      rcases h.history.all_seen inserted ⟨meets, Keyset.after_iff.mpr behind⟩ with here | lost
      · obtain ⟨out, there, same, unchanged⟩ := forall₂_mem (seen_agrees first) here
        exact .inl ⟨out, there, same, unchanged⟩
      · exact .inr (lost_agrees first lost)

end

/-- With an operation name that UTF-8 can encode, `history` returns the first events after the
    given id that satisfy all filters, and a reader sees each event once: all that it sees are in
    the order of their ids, and an empty page means that nothing is left to see. -/
theorem pagination_exactly_once (lawful : fmt.Lawful) {f : Filters} (valid : f.Valid) :
    (∀ t es, Holds fmt t es → es.Pairwise (·.1 < ·.1) ∧
      ∀ (after : Option ℕ) (limit : ℕ), (∀ n ∈ after, n < 2 ^ 63) → 0 < limit → limit < 2 ^ 63 →
        ∃ page, history fmt t f.operationName f.eventTypes
            (after.map fun n : ℕ => .scalar (.int n)) (.scalar (.int limit)) = .ok page ∧
          List.Forall₂ Returned
            ((es.filter fun p => f.meets p.2 && after.all (· < p.1)).take limit) page) ∧
    ∀ start : Option ℕ, (∀ n ∈ start, n < 2 ^ 63) → ∀ (actions : List (Action F)) (s : Reader F),
      run (Reader.step fmt f) { cursor := start } actions = some s →
        ∃ log, log = trace (Reader.step fmt f) observe { cursor := start } actions ∧
          (∃ es, Holds fmt s.table es) ∧
          (∀ limit, 0 < limit → limit < 2 ^ 63 →
            (Reader.step fmt f s (.read limit)).isSome = true) ∧
          (seen log).Pairwise (·.sequenceId < ·.sequenceId) ∧
          (∀ out ∈ seen log, ∃ e, .committed out.sequenceId e ∈ log ∧ f.meets e = true ∧
            (∀ n ∈ start, n < out.sequenceId) ∧ Unchanged e out.event) ∧
          ∀ before, log = before ++ [.page []] → ∀ id e, .committed id e ∈ before →
            f.meets e = true → (∀ n ∈ start, n < id) →
              (∃ out ∈ seen before, out.sequenceId = id ∧ Unchanged e out.event) ∨
                DeletedBeforeTurn start before id := by
  constructor
  · intro t es holds
    exact ⟨holds.ascending, fun after limit small positive bound =>
      history_page lawful holds valid small positive bound⟩
  · intro start small actions s reached
    have simulated := simulated_run lawful valid small reached
    refine ⟨_, rfl, ?_, fun limit => simulated.readable lawful valid, seen_ascending simulated,
      fun out => seen_sound simulated, ?_⟩
    · obtain ⟨es, events, h⟩ := simulated
      exact ⟨es, h.holds⟩
    · intro before split id e member meets behind
      rw [split] at simulated
      exact seen_complete simulated member meets behind

def fetches : Filters where
  operationName := some (ofString "fetch")
  eventTypes := some [.retryScheduled, .attemptFailed]

/-- Two stores write between the pages, and what the reader has already seen is deleted. -/
def polls : List (Action ℤ) :=
  [.call (.emit 1 waited), .call (.emit 5 { waited with operationName := ofString "store" }),
    .read 1, .call (.deleteBefore (.utc 64000000000000000)), .call (.emit 6 waited), .read 2,
    .read 2]

theorem polls_exactly_once :
    ∃ log, log = trace (Reader.step wholes fetches) observe { cursor := none } polls ∧
      (seen log).Pairwise (·.sequenceId < ·.sequenceId) ∧
      ∀ before, log = before ++ [.page []] → ∀ id e, .committed id e ∈ before →
        fetches.meets e = true →
          (∃ out ∈ seen before, out.sequenceId = id ∧ Unchanged e out.event) ∨
            DeletedBeforeTurn none before id := by
  have valid : fetches.Valid := by
    rintro name given
    cases given
    exact ⟨by decide, utf8_ofString _⟩
  have runs : (run (Reader.step wholes fetches) { cursor := none } polls).isSome = true := by
    decide +kernel
  obtain ⟨s, reached⟩ := Option.isSome_iff_exists.mp runs
  obtain ⟨log, whole, _, _, ascending, _, complete⟩ :=
    (pagination_exactly_once wholes_lawful valid).2 none nofun polls s reached
  exact ⟨log, whole, ascending, fun before split id e member meets =>
    complete before split id e member meets nofun⟩

/-- A name that is not blank, and that SQLite cannot be given. -/
theorem surrogate_name_raises : isBlank [chr 0xD800] = false ∧
    history wholes {} (some [chr 0xD800]) none none (.scalar (.int 100)) =
      .error unicodeEncodeError := by
  constructor
  · decide
  · with_unfolding_all rfl

end Relprim.SQLiteEvents
