import Relprim.OperationWalk
import Relprim.IdempotencyRelease

/-!
Aborting a run: an exception raised by a sink or by the sleeper and a cancellation or
another BaseException at any suspension point cut the trace of the run there and leave it
unchanged.
-/
namespace Relprim
open Interruptible Interruptible.Program

/-- What may be raised at a suspension point: cancellation anywhere, and any Exception by
    the delivery of an event. -/
def abortsAt : Effect → Raised → Prop
  | _, .cancelled => True
  | .deliver _ _, .exception _ => True
  | _, _ => False

/-- What ends the run when it is raised at a suspension point: anything in a delivery or in a
    sleep, and what no `except Exception` catches anywhere. -/
def endsAt : Effect → Raised → Prop
  | .deliver _ _, _ => True
  | .sleep _, _ => True
  | _, x => x.exception? = none

theorem endsAt_of_abortsAt {e : Effect} {x : Raised} (h : abortsAt e x) : endsAt e x := by
  cases x with
  | cancelled => cases e <;> trivial
  | baseException type => cases e <;> exact h.elim
  | exception exc =>
    cases e with
    | deliver sink event => trivial
    | primary attempt => exact h.elim
    | candidate index => exact h.elim
    | sleep d => exact h.elim

/-- Effects inside the two `try` blocks of the run. -/
def protectedEffect : Effect → Prop
  | .primary _ => True
  | .candidate _ => True
  | _ => False

def undelivered : Effect → Prop
  | .deliver _ _ => False
  | _ => True

/-- One call or sleep, or the delivery of one event to all `sinks`. -/
inductive Block (sinks : ℕ) : List Effect → Prop where
  | call (e : Effect) (other : undelivered e) : Block sinks [e]
  | event (event : StructuredEvent) : Block sinks ((List.range sinks).map (.deliver · event))

abbrev CleanRun (sinks : ℕ) (m : Run A) : Prop := Clean endsAt (Shape.blocks (Block sinks)) m
abbrev CleanCall (m : Run A) : Prop := Clean endsAt (Shape.all protectedEffect) m

theorem protected_undelivered {e : Effect} (h : protectedEffect e) : undelivered e := by
  cases e with
  | deliver sink event => exact h
  | sleep d => exact h.elim
  | primary attempt => trivial
  | candidate index => trivial

theorem clean_call {sinks : ℕ} {m : Run A} (h : CleanCall m) : CleanRun sinks m :=
  clean_mono h fun _ all =>
    Shape.blocks_of_all (fun e inside => .call e (protected_undelivered inside)) all

theorem clean_lift {G : Shape Effect} (r : Except Exc A) : Clean endsAt G (Run.lift r) :=
  clean_fromExcept _

theorem clean_reading {G : Shape Effect} (f : ℕ → A) : Clean endsAt G (Run.reading f) :=
  clean_atomic _

theorem clean_tryExcept {m : Run A} (h : CleanCall m) : CleanCall (Run.tryExcept m) := by
  apply clean_attempt h
  intro es e x all member ends
  have inside := all e member
  cases e with
  | primary attempt => exact ends
  | candidate index => exact ends
  | deliver sink event => exact inside.elim
  | sleep d => exact inside.elim

theorem clean_runAsync (cb : CircuitBreaker) (turn : BreakerTurn) {m : Run A} (h : CleanCall m) :
    CleanCall (cb.runAsync turn m) := by
  unfold CircuitBreaker.runAsync
  exact clean_bind (clean_atomic _) fun probe => clean_onExit h

theorem clean_protected {e : Effect} (h : protectedEffect e) : CleanCall (effect e : Run Unit) :=
  clean_effect (by simpa [Shape.all] using h)

theorem clean_attempts : Attempts @CleanCall where
  pure _ := clean_pure _
  bind first second := clean_bind first second
  lift r := clean_lift r
  candidate _ := clean_protected trivial
  tryExcept inside := clean_tryExcept inside
  primary _ := clean_protected trivial
  guarded inside cb turn := clean_runAsync cb turn inside

theorem ends_deliver (event : StructuredEvent) (sinks : List ℕ) (s : Session) :
    Ends (EventEmitter.deliver event sinks) s (.ok ()) s (sinks.map (.deliver · event)) := by
  induction sinks with
  | nil => exact ends_pure _ _
  | cons sink rest ih => exact ends_bind (ends_effect _ _) ih

theorem clean_deliver (event : StructuredEvent) (sinks : ℕ) :
    CleanRun sinks (EventEmitter.deliver event (List.range sinks)) := by
  have each (l : List ℕ) : Clean endsAt (Shape.all fun _ => True) (EventEmitter.deliver event l) := by
    induction l with
    | nil => exact clean_pure _
    | cons sink rest ih =>
      exact clean_bind (clean_effect fun _ _ => trivial) fun _ => ih
  apply clean_reshape (each _)
  intro s tr
  exact ⟨_, congrArg (·.2.2) (ends_deliver event _ s tr), Shape.blocks_single (.event event)⟩

theorem clean_emit (emitter : EventEmitter) (type : EventType) (name : String)
    (payload : EventPayload) : CleanRun emitter.sinks (emitter.emit type name payload) := by
  unfold EventEmitter.emit
  apply clean_bind (clean_reading _)
  intro timestamp
  apply clean_bind (clean_lift _)
  intro event
  exact clean_bind (clean_deliver _ _) fun _ => clean_pure _

namespace AsyncOperation
variable {V : Type} (op : AsyncOperation V) (env : Environment)

theorem clean_emitEvent (type : EventType) (payload : EventPayload) :
    CleanRun op.sinkCount (op.emitEvent type payload) := by
  unfold emitEvent
  cases configured : op.eventEmitter with
  | none => exact clean_pure _
  | some emitter =>
    have sinks : op.sinkCount = emitter.sinks := by rw [sinkCount, configured]
    rw [sinks]
    exact clean_bind (clean_emit _ _ _ _) fun _ => clean_pure _

theorem clean_settles : Settles op (CleanRun op.sinkCount) where
  pure _ := clean_pure _
  bind first second := clean_bind first second
  emit type payload := op.clean_emitEvent type payload
  sleep d := clean_effect (Shape.blocks_single (.call (.sleep d) trivial))
  internal _ := clean_raise _
  reading f := clean_reading f
  lift r := clean_lift r
  candidates chain := clean_call (clean_tryExcept (clean_attempts.toCalls.chain chain))

theorem clean_run : CleanRun op.sinkCount (op.runWithoutIdempotency env) :=
  op.clean_settles.runWithoutIdempotency fun attempt =>
    clean_call (clean_tryExcept (clean_attempts.runSingleAttempt env attempt))

def outcome (p : Option (ℕ × Raised)) (s : Session) : Except Raised (OperationResult V) :=
  (op.runWithoutIdempotency env p s []).1

def trace (p : Option (ℕ × Raised)) (s : Session) : List Effect :=
  (op.runWithoutIdempotency env p s []).2.2

end AsyncOperation

def delivered (i : ℕ) (es : List Effect) : List StructuredEvent :=
  es.filterMap fun
    | .deliver sink event => if sink = i then some event else none
    | _ => none

theorem delivered_append (i : ℕ) (es ds : List Effect) :
    delivered i (es ++ ds) = delivered i es ++ delivered i ds := List.filterMap_append

theorem delivered_range (i n : ℕ) (event : StructuredEvent) :
    delivered i ((List.range n).map (.deliver · event)) = if i < n then [event] else [] := by
  induction n with
  | zero => rfl
  | succ n ih =>
    rw [List.range_succ, List.map_append, delivered_append, ih]
    by_cases last : n = i
    · subst last
      simp [delivered]
    · by_cases below : i < n
      · simp [delivered, last, below, Nat.lt_succ_of_lt below]
      · have above : ¬ i < n + 1 := by omega
        simp [delivered, last, below, above]

theorem delivered_call (i : ℕ) {e : Effect} (h : undelivered e) : delivered i [e] = [] := by
  cases e with
  | deliver sink event => exact h.elim
  | primary attempt => rfl
  | candidate index => rfl
  | sleep d => rfl

/-- All sinks have the same events after complete blocks. -/
theorem delivered_blocks {sinks : ℕ} {bs : List (List Effect)} (h : ∀ b ∈ bs, Block sinks b) :
    ∃ events, ∀ i < sinks, delivered i bs.flatten = events := by
  induction bs with
  | nil => exact ⟨[], fun _ _ => rfl⟩
  | cons b bs ih =>
    obtain ⟨events, same⟩ := ih fun c member => h c (List.mem_cons_of_mem _ member)
    cases h b List.mem_cons_self with
    | call e other =>
      refine ⟨events, fun i lt => ?_⟩
      rw [List.flatten_cons, delivered_append, delivered_call i other, same i lt, List.nil_append]
    | event event =>
      refine ⟨event :: events, fun i lt => ?_⟩
      rw [List.flatten_cons, delivered_append, delivered_range, if_pos lt, same i lt]
      rfl

/-- A trace of blocks cut at the delivery of `event` to the sink at position `j`. -/
theorem delivered_cut {sinks : ℕ} {es : List Effect} (h : (Shape.blocks (Block sinks)).holds es)
    {n j : ℕ} {event : StructuredEvent} (found : es[n]? = some (.deliver j event)) :
    ∃ prior, (∀ i < j, delivered i (es.take (n + 1)) = prior ++ [event]) ∧
      ∀ i, j < i → i < sinks → delivered i (es.take (n + 1)) = prior := by
  obtain ⟨bs, rfl, blocks⟩ := h
  obtain ⟨before, b, after, k, rfl, rfl, inside⟩ := block_at found
  obtain ⟨prior, same⟩ := delivered_blocks fun c member =>
    blocks c (List.mem_append_left _ member)
  cases blocks b (by simp) with
  | call e call =>
    have here : e = .deliver j event := by
      cases k with
      | zero => simpa using inside
      | succ k => simp at inside
    subst here
    exact call.elim
  | event ev =>
    have bound : k < sinks := by
      have := (List.getElem?_eq_some_iff.mp inside).1
      simpa using this
    have here : k = j ∧ ev = event := by
      simpa [bound] using inside
    obtain ⟨rfl, rfl⟩ := here
    have cut : (before ++ (List.range sinks).map (.deliver · ev) :: after).flatten.take
        (before.flatten.length + k + 1) =
        before.flatten ++ (List.range (k + 1)).map (.deliver · ev) := by
      rw [List.flatten_append, List.flatten_cons, Nat.add_assoc, List.take_length_add_append,
        List.take_append_of_le_length (by simp; omega), ← List.map_take, List.take_range,
        Nat.min_eq_left (by omega)]
    refine ⟨prior, fun i lt => ?_, fun i above lt => ?_⟩
    · rw [cut, delivered_append, delivered_range, if_pos (by omega), same i (by omega)]
    · rw [cut, delivered_append, delivered_range, if_neg (by omega), same i lt, List.append_nil]

section
open LabelledRuns IdempotencyRuns AsyncOperation

/-- An owner whose operation raises an Exception or is cancelled leaves its key free. -/
theorem finish_raised {Task W : Type} [DecidableEq Task] {t : Store Task W} (h : Coherent t)
    {id : ℕ} {c : Caller Task} (executing : Executing t id c) {x : Raised}
    (caught : ∀ b, x ≠ .baseException b) :
    ∃ u, step t (.finish id (.error x)) = some u ∧ u.entries.lookup c.key = none ∧
      u.log = t.log ++ [.stopped id c.key x, .raised id x] := by
  refine ⟨_, step_finish executing _, ?_, ?_⟩
  · have kept : Caught t (.finish id (.error x)) := by
      cases x with
      | baseException b => exact absurd rfl (caught b)
      | cancelled => trivial
      | exception e => trivial
    have released := released_of_caught h kept (step_finish executing _)
    rcases (released id _ c rfl executing).1 with free | ⟨_, _, v, impossible, _⟩
    · exact free
    · cases impossible
  · cases x with
    | baseException b => exact absurd rfl (caught b)
    | cancelled => rfl
    | exception e => rfl

/-- A run interrupted at a suspension point, by cancellation or by a failing sink, raises
    what was raised there, has the uninterrupted trace up to that point, has delivered the
    event to the sinks before the failing one and to none after it, and, run as the owner
    of an idempotency key, leaves the key free in the same step. -/
theorem abort_is_clean_prefix {V : Type} (op : AsyncOperation V) (env : Environment) (s : Session)
    (n : ℕ) (x : Raised) (e : Effect) (at_ : (op.trace env none s)[n]? = some e)
    (may : abortsAt e x) :
    op.outcome env (some (n, x)) s = .error x ∧
    op.trace env (some (n, x)) s = (op.trace env none s).take (n + 1) ∧
    (∀ j event, e = .deliver j event → ∃ prior,
      (∀ i < j, delivered i (op.trace env (some (n, x)) s) = prior ++ [event]) ∧
      ∀ i, j < i → i < op.sinkCount → delivered i (op.trace env (some (n, x)) s) = prior) ∧
    ∀ (Task : Type) [DecidableEq Task] (start : ℚ) (t : Store Task (OperationResult V)) (id : ℕ)
      (c : Caller Task), Reachable step (initial start) t → Executing t id c →
      ∃ u, step t (.finish id (op.outcome env (some (n, x)) s)) = some u ∧
        u.entries.lookup c.key = none ∧
        u.log = t.log ++ [.stopped id c.key x, .raised id x] := by
  have clean := op.clean_run env
  obtain ⟨raised, stopped⟩ := clean.cut n x s [] e (Nat.zero_le _) at_ (endsAt_of_abortsAt may)
  have result : op.outcome env (some (n, x)) s = .error x := raised
  have cut : op.trace env (some (n, x)) s = (op.trace env none s).take (n + 1) := stopped
  refine ⟨result, cut, ?_, ?_⟩
  · rintro j event rfl
    obtain ⟨es, whole, shape⟩ := clean.grows s []
    have same : op.trace env none s = es := whole
    rw [cut, same]
    exact delivered_cut shape (same ▸ at_)
  · intro Task _ start t id c reachable executing
    rw [result]
    apply finish_raised (coherent_reachable reachable) executing
    rintro b rfl
    cases e <;> exact may.elim

def observed : AsyncOperation ℕ where
  name := "call"
  operation _ := { outcome := .error (runtimeError "down") }
  eventEmitter := some { sinks := 2, timestampFactory := fun n => .utc n }

theorem failing_second_sink_aborts :
    observed.outcome steady (some (1, .exception (runtimeError "full"))) {} =
      .error (.exception (runtimeError "full")) ∧
    ∃ prior event, delivered 0
      (observed.trace steady (some (1, .exception (runtimeError "full"))) {}) = prior ++ [event] := by
  have second : ((observed.trace steady none {})[1]?).any (fun
      | .deliver 1 _ => true
      | _ => false) = true := by decide +kernel
  obtain ⟨e, at_, delivers⟩ := (Option.any_eq_true _ _).mp second
  cases e with
  | deliver sink event =>
    have here : sink = 1 := by
      split at delivers
      · rename_i eq
        cases eq
        rfl
      · cases delivers
    subst here
    obtain ⟨result, _, sinks, _⟩ := abort_is_clean_prefix observed steady {} 1
      (.exception (runtimeError "full")) (.deliver 1 event) at_ trivial
    obtain ⟨prior, before, _⟩ := sinks 1 event rfl
    exact ⟨result, prior, event, before 0 (by decide)⟩
  | primary attempt => cases delivers
  | candidate index => cases delivers
  | sleep d => cases delivers

end

end Relprim
