import Mathlib.Data.List.Basic
import Mathlib.Data.List.Induction
import Mathlib.Data.Option.Basic

/-!
Pages of a log, each read from behind the last key of the page before. Rows are added
with ever larger keys and removed at any time and in any place.
-/
namespace Keyset
variable {R : Type}

/-- What happens to the log: a page is what one read returns. -/
inductive Event (R : Type) where
  | inserted (r : R)
  | removed (rs : List R)
  | page (rs : List R)

def Event.rowsRead : Event R → List R
  | .page rs => rs
  | _ => []

def read (log : List (Event R)) : List R := log.flatMap Event.rowsRead

@[simp] theorem read_nil : read ([] : List (Event R)) = [] := rfl

theorem read_snoc (log : List (Event R)) (e : Event R) :
    read (log ++ [e]) = read log ++ e.rowsRead := by
  simp [read]

variable (key : R → ℕ) (meets : R → Bool) (start : Option ℕ)

def after (cursor : Option ℕ) (r : R) : Bool := cursor.all (· < key r)

def page (cursor : Option ℕ) (limit : ℕ) (rows : List R) : List R :=
  (rows.filter fun r => meets r && after key cursor r).take limit

/-- The last key read; before any is read, where the reader starts. -/
def cursor (log : List (Event R)) : Option ℕ := ((read log).getLast?.map key).or start

/-- The logs of the reads and writes that lead to these rows. -/
inductive History : List R → List (Event R) → Prop where
  | empty : History [] []
  | insert {rows : List R} {log : List (Event R)} (h : History rows log) (r : R)
      (above : ∀ s, .inserted s ∈ log → key s < key r) :
      History (rows ++ [r]) (log ++ [.inserted r])
  | remove {rows : List R} {log : List (Event R)} (h : History rows log) (p : R → Bool) :
      History (rows.filter fun r => !p r) (log ++ [.removed (rows.filter p)])
  | read {rows : List R} {log : List (Event R)} (h : History rows log) (limit : ℕ)
      (positive : 0 < limit) :
      History rows (log ++ [.page (page key meets (cursor key start log) limit rows)])

/-- The row was removed while the reader had yet to come to its key. -/
def Lost (log : List (Event R)) (r : R) : Prop :=
  ∃ before rs rest, log = before ++ .removed rs :: rest ∧ r ∈ rs ∧
    after key (cursor key start before) r = true

def Waiting (rows : List R) (log : List (Event R)) (r : R) : Prop :=
  r ∈ rows ∧ after key (cursor key start log) r = true

def Wanted (r : R) : Prop := meets r = true ∧ after key start r = true

structure Invariant (rows : List R) (log : List (Event R)) : Prop where
  stored : ∀ r ∈ rows, .inserted r ∈ log
  ascending : rows.Pairwise (key · < key ·)
  read_ascending : (read log).Pairwise (key · < key ·)
  sound : ∀ r ∈ read log, .inserted r ∈ log ∧ Wanted key meets start r
  complete : ∀ r, .inserted r ∈ log → Wanted key meets start r →
    Waiting key start rows log r ∨ r ∈ read log ∨ Lost key start log r

variable {key meets start}

theorem after_iff {cursor : Option ℕ} {r : R} :
    after key cursor r = true ↔ ∀ n ∈ cursor, n < key r := by
  cases cursor with
  | none => simp [after]
  | some n => simp [after]

theorem lost_snoc {log : List (Event R)} {r : R} (h : Lost key start log r) (e : Event R) :
    Lost key start (log ++ [e]) r := by
  obtain ⟨before, rs, rest, split, member, waiting⟩ := h
  exact ⟨before, rs, rest ++ [e], by simp [split], member, waiting⟩

/-- Behind the cursor is behind everything read. -/
theorem after_cursor_iff {log : List (Event R)} (ascending : (read log).Pairwise (key · < key ·))
    (wanted : ∀ r ∈ read log, after key start r = true) {r : R} :
    after key (cursor key start log) r = true ↔
      after key start r = true ∧ ∀ s ∈ read log, key s < key r := by
  rcases List.eq_nil_or_concat (read log) with none | ⟨front, last, split⟩
  · simp [cursor, none]
  · rw [List.concat_eq_append] at split
    have position : cursor key start log = some (key last) := by simp [cursor, split]
    rw [split, List.pairwise_append] at ascending
    rw [position, split]
    constructor
    · intro behind
      have less : key last < key r := after_iff.mp behind _ rfl
      constructor
      · have first := wanted last (by simp [split])
        exact after_iff.mpr fun n hn => Nat.lt_trans (after_iff.mp first n hn) less
      · intro s member
        rcases List.mem_append.mp member with earlier | same
        · exact Nat.lt_trans (ascending.2.2 s earlier last (by simp)) less
        · rw [List.mem_singleton.mp same]
          exact less
    · rintro ⟨_, all⟩
      exact after_iff.mpr fun n hn => by
        cases hn
        exact all last (by simp)

theorem page_before {cursor : Option ℕ} {limit : ℕ} {rows : List R}
    (ascending : rows.Pairwise (key · < key ·)) {r : R} (member : r ∈ rows)
    (wanted : meets r = true) (behind : after key cursor r = true)
    (absent : r ∉ page key meets cursor limit rows) :
    ∀ s ∈ page key meets cursor limit rows, key s < key r := by
  intro s first
  have found : r ∈ rows.filter fun r => meets r && after key cursor r := by
    simp [member, wanted, behind]
  have sorted := ascending.filter fun r => meets r && after key cursor r
  rw [← List.take_append_drop limit (rows.filter _)] at found sorted
  rcases List.mem_append.mp found with taken | dropped
  · exact absurd taken absent
  · exact (List.pairwise_append.mp sorted).2.2 s first r dropped

theorem mem_page {cursor : Option ℕ} {limit : ℕ} {rows : List R} {r : R}
    (h : r ∈ page key meets cursor limit rows) :
    r ∈ rows ∧ meets r = true ∧ after key cursor r = true := by
  simpa using List.mem_of_mem_take h

theorem page_ascending {cursor : Option ℕ} {limit : ℕ} {rows : List R}
    (ascending : rows.Pairwise (key · < key ·)) :
    (page key meets cursor limit rows).Pairwise (key · < key ·) :=
  (ascending.filter _).take

theorem page_eq_nil {cursor : Option ℕ} {limit : ℕ} {rows : List R} (positive : 0 < limit)
    (h : page key meets cursor limit rows = []) {r : R} (member : r ∈ rows)
    (wanted : meets r = true) : after key cursor r = false := by
  rcases List.take_eq_nil_iff.mp h with zero | none
  · omega
  · have nowhere := List.filter_eq_nil_iff.mp none r member
    simpa [wanted] using nowhere

theorem mem_page_of_few {cursor : Option ℕ} {limit : ℕ} {rows : List R}
    (ascending : rows.Pairwise (key · < key ·)) {r : R} (member : r ∈ rows)
    (wanted : meets r = true) (behind : after key cursor r = true)
    (few : (rows.filter fun s => meets s && after key cursor s && key s < key r).length < limit) :
    r ∈ page key meets cursor limit rows := by
  by_contra absent
  have earlier := page_before ascending member wanted behind absent
  have found : r ∈ rows.filter fun s => meets s && after key cursor s := by
    simp [member, wanted, behind]
  have full : (page key meets cursor limit rows).length = limit := by
    rw [page, List.length_take]
    by_contra short
    have all : page key meets cursor limit rows = rows.filter _ := List.take_of_length_le (by omega)
    rw [all] at absent
    exact absent found
  have part : (page key meets cursor limit rows).Sublist
      (rows.filter fun s => meets s && after key cursor s && key s < key r) := by
    have kept := (List.take_sublist limit (rows.filter fun s => meets s && after key cursor s)).filter
      fun s => key s < key r
    rw [List.filter_eq_self.mpr fun s first => by simpa using earlier s first,
      List.filter_filter] at kept
    simpa [page, Bool.and_comm] using kept
  have most := part.length_le
  omega

namespace Invariant
variable {rows : List R} {log : List (Event R)}

theorem after_cursor (h : Invariant key meets start rows log) {r : R} :
    after key (cursor key start log) r = true ↔
      after key start r = true ∧ ∀ s ∈ read log, key s < key r :=
  after_cursor_iff h.read_ascending fun s member => (h.sound s member).2.2

theorem empty : Invariant key meets start [] [] where
  stored := by simp
  ascending := .nil
  read_ascending := .nil
  sound := by simp
  complete := by simp

theorem insert (h : Invariant key meets start rows log) {r : R}
    (above : ∀ s, .inserted s ∈ log → key s < key r) :
    Invariant key meets start (rows ++ [r]) (log ++ [.inserted r]) := by
  have same : read (log ++ [Event.inserted r]) = read log := by simp [read_snoc, Event.rowsRead]
  have place : cursor key start (log ++ [Event.inserted r]) = cursor key start log := by
    rw [cursor, same, cursor]
  constructor
  · intro s member
    rcases List.mem_append.mp member with old | new
    · exact List.mem_append_left _ (h.stored s old)
    · rw [List.mem_singleton.mp new]
      simp
  · rw [List.pairwise_append]
    refine ⟨h.ascending, List.pairwise_singleton _ _, fun s old t new => ?_⟩
    rw [List.mem_singleton.mp new]
    exact above s (h.stored s old)
  · rw [same]
    exact h.read_ascending
  · intro s member
    rw [same] at member
    exact ⟨List.mem_append_left _ (h.sound s member).1, (h.sound s member).2⟩
  · intro s member wanted
    rw [Waiting, place, same]
    rcases List.mem_append.mp member with old | new
    · rcases h.complete s old wanted with ⟨here, waiting⟩ | seen | lost
      · exact .inl ⟨List.mem_append_left _ here, waiting⟩
      · exact .inr (.inl seen)
      · exact .inr (.inr (lost_snoc lost _))
    · cases List.mem_singleton.mp new
      -- the new key is above all that were read, since all keys in use are below it
      refine .inl ⟨by simp, h.after_cursor.mpr ⟨wanted.2, fun t seen => ?_⟩⟩
      exact above t (h.sound t seen).1

theorem remove (h : Invariant key meets start rows log) (p : R → Bool) :
    Invariant key meets start (rows.filter fun r => !p r)
      (log ++ [.removed (rows.filter p)]) := by
  have same : read (log ++ [Event.removed (rows.filter p)]) = read log := by
    simp [read_snoc, Event.rowsRead]
  have place : cursor key start (log ++ [Event.removed (rows.filter p)]) = cursor key start log := by
    rw [cursor, same, cursor]
  constructor
  · intro s member
    exact List.mem_append_left _ (h.stored s (List.mem_filter.mp member).1)
  · exact h.ascending.filter _
  · rw [same]
    exact h.read_ascending
  · intro s member
    rw [same] at member
    exact ⟨List.mem_append_left _ (h.sound s member).1, (h.sound s member).2⟩
  · intro s member wanted
    rw [Waiting, place, same]
    have old : Event.inserted s ∈ log := by simpa using member
    rcases h.complete s old wanted with ⟨here, waiting⟩ | seen | lost
    · by_cases hit : p s = true
      · have gone : s ∈ rows.filter p := List.mem_filter.mpr ⟨here, hit⟩
        exact .inr (.inr ⟨log, rows.filter p, [], rfl, gone, waiting⟩)
      · have kept : s ∈ rows.filter fun r => !p r := List.mem_filter.mpr ⟨here, by simp [hit]⟩
        exact .inl ⟨kept, waiting⟩
    · exact .inr (.inl seen)
    · exact .inr (.inr (lost_snoc lost _))

theorem read (h : Invariant key meets start rows log) (limit : ℕ) :
    Invariant key meets start rows
      (log ++ [.page (page key meets (cursor key start log) limit rows)]) := by
  generalize new : page key meets (cursor key start log) limit rows = rs
  have more : Keyset.read (log ++ [Event.page rs]) = Keyset.read log ++ rs := by
    simp [read_snoc, Event.rowsRead]
  have fresh (r : R) (member : r ∈ rs) : r ∈ rows ∧ meets r = true ∧ after key start r = true ∧
      ∀ s ∈ Keyset.read log, key s < key r := by
    rw [← new] at member
    obtain ⟨here, wanted, behind⟩ := mem_page member
    exact ⟨here, wanted, h.after_cursor.mp behind⟩
  have ascending : (Keyset.read (log ++ [Event.page rs])).Pairwise (key · < key ·) := by
    rw [more, List.pairwise_append]
    refine ⟨h.read_ascending, ?_, fun s seen r member => (fresh r member).2.2.2 s seen⟩
    rw [← new]
    exact page_ascending h.ascending
  have sound (r : R) (member : r ∈ Keyset.read (log ++ [Event.page rs])) :
      .inserted r ∈ log ++ [Event.page rs] ∧ Wanted key meets start r := by
    rw [more] at member
    rcases List.mem_append.mp member with old | now
    · exact ⟨List.mem_append_left _ (h.sound r old).1, (h.sound r old).2⟩
    · obtain ⟨here, wanted, behind, _⟩ := fresh r now
      exact ⟨List.mem_append_left _ (h.stored r here), wanted, behind⟩
  refine ⟨fun r member => List.mem_append_left _ (h.stored r member), h.ascending, ascending,
    sound, ?_⟩
  intro r member wanted
  have old : Event.inserted r ∈ log := by simpa using member
  rcases h.complete r old wanted with ⟨here, waiting⟩ | seen | lost
  · by_cases now : r ∈ rs
    · exact .inr (.inl (by simp [more, now]))
    · -- a row the page leaves out waits behind the page
      refine .inl ⟨here, ?_⟩
      rw [after_cursor_iff ascending fun s hs => (sound s hs).2.2, more]
      refine ⟨wanted.2, fun s seen => ?_⟩
      rcases List.mem_append.mp seen with earlier | page
      · exact (h.after_cursor.mp waiting).2 s earlier
      · rw [← new] at now page
        exact page_before h.ascending here wanted.1 waiting now s page
  · exact .inr (.inl (by simp [more, seen]))
  · exact .inr (.inr (lost_snoc lost _))

end Invariant

theorem History.invariant {rows : List R} {log : List (Event R)}
    (h : History key meets start rows log) : Invariant key meets start rows log := by
  induction h with
  | empty => exact .empty
  | insert _ r above ih => exact ih.insert above
  | remove _ p ih => exact ih.remove p
  | read _ limit _ ih => exact ih.read limit

/-- The reader who finds an empty page has seen every row that waited for its turn. -/
theorem History.all_seen {rows : List R} {log : List (Event R)}
    (h : History key meets start rows (log ++ [.page []])) {r : R} (member : .inserted r ∈ log)
    (wanted : Wanted key meets start r) : r ∈ Keyset.read log ∨ Lost key start log r := by
  generalize whole : log ++ [Event.page []] = final at h
  cases h with
  | empty => simp at whole
  | insert _ s _ => cases (List.append_inj' whole rfl).2
  | remove _ p => cases (List.append_inj' whole rfl).2
  | read before limit positive =>
    obtain ⟨rfl, last⟩ := List.append_inj' whole rfl
    rcases before.invariant.complete r member wanted with ⟨here, waiting⟩ | rest
    · have nothing : page key meets (cursor key start log) limit rows = [] := by simpa using last
      rw [page_eq_nil positive nothing here wanted.1] at waiting
      cases waiting
    · exact rest

end Keyset
