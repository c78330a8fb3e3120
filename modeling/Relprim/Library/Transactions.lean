import Mathlib.Tactic.Common

/-!
A shared value with one writer at a time. What a transaction writes is pending until it
commits; a failure or the loss of its client drops it. `Makes` is what a whole transaction
comes to when nobody else runs, and `Serial` says that the pending one will come to just that.
-/
namespace Transactions
variable {D P E : Type}

/-- The next statement of a transaction: none when it is ready to commit, otherwise a failure,
    or the pending value with what is left to do. -/
abbrev Body (D P E : Type) := P → D → Option (Except E (D × P))

/-- Alone, what is left to do takes the pending value to this end. -/
inductive Makes (body : Body D P E) : P → D → Except E D → Prop where
  | commits {p : P} {d : D} (ready : body p d = none) : Makes body p d (.ok d)
  | fails {p : P} {d : D} {e : E} (failed : body p d = some (.error e)) : Makes body p d (.error e)
  | continues {p q : P} {d c : D} {r : Except E D} (next : body p d = some (.ok (c, q)))
      (rest : Makes body q c r) : Makes body p d r

theorem makes_ready {body : Body D P E} {p : P} {d : D} {r : Except E D}
    (ready : body p d = none) : Makes body p d r ↔ r = .ok d := by
  constructor
  · rintro (_ | failed | ⟨next, _⟩)
    · rfl
    · rw [ready] at failed
      cases failed
    · rw [ready] at next
      cases next
  · rintro rfl
    exact .commits ready

theorem makes_failed {body : Body D P E} {p : P} {d : D} {e : E} {r : Except E D}
    (failed : body p d = some (.error e)) : Makes body p d r ↔ r = .error e := by
  constructor
  · rintro (ready | other | ⟨next, _⟩)
    · rw [failed] at ready
      cases ready
    · rw [failed] at other
      cases other
      rfl
    · rw [failed] at next
      cases next
  · rintro rfl
    exact .fails failed

theorem makes_next {body : Body D P E} {p q : P} {d c : D} {r : Except E D}
    (next : body p d = some (.ok (c, q))) : Makes body p d r ↔ Makes body q c r := by
  constructor
  · rintro (ready | failed | ⟨other, rest⟩)
    · rw [next] at ready
      cases ready
    · rw [next] at failed
      cases failed
    · rw [next] at other
      cases other
      exact rest
  · exact .continues next

/-- The client that holds the write lock, what it has left to do and the pending value. -/
structure Writer (D P : Type) where
  client : ℕ
  todo : P
  pending : D

structure File (D P : Type) where
  committed : D
  writer : Option (Writer D P) := none

inductive Progress (E : Type) where
  | running
  | committed
  | rolledBack (e : E)

namespace File
variable (f : File D P)

def begin (client : ℕ) (todo : P) : Option (File D P) :=
  match f.writer with
  | none => some { f with writer := some ⟨client, todo, f.committed⟩ }
  | some _ => none

def rollback : File D P := { f with writer := none }

def advance (body : Body D P E) (w : Writer D P) : File D P × Progress E :=
  match body w.todo w.pending with
  | none => (⟨w.pending, none⟩, .committed)
  | some (.error e) => (f.rollback, .rolledBack e)
  | some (.ok (d, p)) => ({ f with writer := some ⟨w.client, p, d⟩ }, .running)

@[simp] theorem rollback_committed : f.rollback.committed = f.committed := rfl
@[simp] theorem rollback_writer : f.rollback.writer = none := rfl

theorem begin_eq_some {client : ℕ} {todo : P} {g : File D P} :
    f.begin client todo = some g ↔
      f.writer = none ∧ g = ⟨f.committed, some ⟨client, todo, f.committed⟩⟩ := by
  unfold begin
  cases f.writer with
  | none => simp [eq_comm]
  | some w => simp

/-- What is pending will come to what the whole transaction makes of the committed value. -/
def Serial (body : Body D P E) (opening : P) (f : File D P) : Prop :=
  ∀ w ∈ f.writer, ∀ r, Makes body w.todo w.pending r ↔ Makes body opening f.committed r

variable {f} {body : Body D P E} {opening : P}

theorem serial_idle (idle : f.writer = none) : Serial body opening f := by
  intro w held
  rw [idle] at held
  cases held

theorem serial_begin {client : ℕ} {g : File D P} (begun : f.begin client opening = some g) :
    Serial body opening g := by
  obtain ⟨_, rfl⟩ := f.begin_eq_some.mp begun
  rintro w ⟨⟩ r
  exact Iff.rfl

/-- The three ends of a statement. A commit puts in place what the whole transaction makes of
    the committed value, and nothing else changes that. -/
theorem advance_cases (serial : Serial body opening f) {w : Writer D P} (held : f.writer = some w) :
    (∃ d, Makes body opening f.committed (.ok d) ∧
      f.advance body w = (⟨d, none⟩, .committed)) ∨
    (∃ e, Makes body opening f.committed (.error e) ∧
      f.advance body w = (f.rollback, .rolledBack e)) ∨
    (∃ p d, f.advance body w = ({ f with writer := some ⟨w.client, p, d⟩ }, .running) ∧
      body w.todo w.pending = some (.ok (d, p)) ∧
      Serial body opening { f with writer := some ⟨w.client, p, d⟩ }) := by
  have same := serial w held
  cases next : body w.todo w.pending with
  | none =>
    exact .inl ⟨w.pending, (same _).mp (.commits next), by simp only [advance, next]⟩
  | some step =>
    cases step with
    | error e => exact .inr (.inl ⟨e, (same _).mp (.fails next), by simp only [advance, next]⟩)
    | ok made =>
      obtain ⟨d, p⟩ := made
      refine .inr (.inr ⟨p, d, by simp only [advance, next], rfl, ?_⟩)
      rintro v ⟨⟩ r
      exact (makes_next next).symm.trans (same r)

end File

end Transactions
