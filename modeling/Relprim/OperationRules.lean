import Mathlib.Tactic.Linarith
import Relprim.OperationAbort

/-!
Rules for the uninterrupted run. What a run does is a list of items: events, each
delivered to every sink, and the other effects. `Says` is the judgement the blocks
of the run are proved with, one rule for each thing a block does.
-/
namespace Relprim
open Interruptible Interruptible.Program Dictionary
variable {A B V : Type}

inductive Item where
  | emit (eventType : EventType) (payload : EventPayload)
  | call (e : Effect)

/-- The effects of the items: an event reaches the sinks in order. -/
inductive Expands (op : AsyncOperation V) : List Item → List Effect → Prop where
  | nil : Expands op [] []
  | emit {items : List Item} {es : List Effect} (event : StructuredEvent)
      (named : event.operationName = op.name) (rest : Expands op items es) :
      Expands op (.emit event.eventType event.payload :: items)
        ((List.range op.sinkCount).map (.deliver · event) ++ es)
  | call {items : List Item} {es : List Effect} (e : Effect) (other : undelivered e)
      (rest : Expands op items es) : Expands op (.call e :: items) (e :: es)

theorem expands_append {op : AsyncOperation V} {items jtems : List Item} {es ds : List Effect}
    (first : Expands op items es) (second : Expands op jtems ds) :
    Expands op (items ++ jtems) (es ++ ds) := by
  induction first with
  | nil => exact second
  | emit event named _ ih =>
    rw [List.append_assoc]
    exact .emit event named ih
  | call e other _ ih => exact .call e other ih

def emissions (items : List Item) : List (EventType × EventPayload) :=
  items.filterMap fun
    | .emit type payload => some (type, payload)
    | .call _ => none

def calls (items : List Item) : List Effect :=
  items.filterMap fun
    | .emit _ _ => none
    | .call e => some e

theorem emissions_append (items jtems : List Item) :
    emissions (items ++ jtems) = emissions items ++ emissions jtems := List.filterMap_append

theorem calls_append (items jtems : List Item) :
    calls (items ++ jtems) = calls items ++ calls jtems := List.filterMap_append

@[simp] theorem emissions_nil : emissions [] = [] := rfl
@[simp] theorem calls_nil : calls [] = [] := rfl

@[simp] theorem emissions_emit (type : EventType) (payload : EventPayload) (items : List Item) :
    emissions (.emit type payload :: items) = (type, payload) :: emissions items := rfl

@[simp] theorem emissions_call (e : Effect) (items : List Item) :
    emissions (.call e :: items) = emissions items := rfl

@[simp] theorem calls_emit (type : EventType) (payload : EventPayload) (items : List Item) :
    calls (.emit type payload :: items) = calls items := rfl

@[simp] theorem calls_call (e : Effect) (items : List Item) :
    calls (.call e :: items) = e :: calls items := rfl

theorem expands_delivered {op : AsyncOperation V} {items : List Item} {es : List Effect}
    (h : Expands op items es) {j : ℕ} (sink : j < op.sinkCount) :
    (delivered j es).map (fun ev => (ev.eventType, ev.payload)) = emissions items := by
  induction h with
  | nil => rfl
  | emit event _ _ ih =>
    rw [delivered_append, delivered_range, if_pos sink, List.map_append, ih]
    rfl
  | @call _ es e other _ ih =>
    have skip : delivered j (e :: es) = delivered j [e] ++ delivered j es :=
      delivered_append j [e] es
    rw [skip, delivered_call j other]
    exact ih

def callsOf (es : List Effect) : List Effect :=
  es.filter fun
    | .deliver _ _ => false
    | _ => true

theorem expands_calls {op : AsyncOperation V} {items : List Item} {es : List Effect}
    (h : Expands op items es) : callsOf es = calls items := by
  induction h with
  | nil => rfl
  | emit event _ _ ih =>
    have none : callsOf ((List.range op.sinkCount).map (.deliver · event)) = [] := by
      simp [callsOf]
    rw [callsOf, List.filter_append]
    change callsOf _ ++ callsOf _ = _
    rw [none, ih]
    rfl
  | call e other _ ih =>
    cases e with
    | deliver sink event => exact other.elim
    | primary attempt => simp [callsOf, ← ih]
    | candidate index => simp [callsOf, ← ih]
    | sleep d => simp [callsOf, ← ih]

structure Later (s t : Session) : Prop where
  reads : s.reads ≤ t.reads
  breaker : t.breaker = s.breaker

theorem Later.refl (s : Session) : Later s s := ⟨Nat.le_refl _, rfl⟩

theorem Later.trans {s t u : Session} (first : Later s t) (second : Later t u) : Later s u :=
  ⟨Nat.le_trans first.reads second.reads, second.breaker.trans first.breaker⟩

def Past (env : Environment) (t : ℚ) (s : Session) : Prop :=
  ∀ n, s.reads ≤ n → t ≤ env.perfCounter n

theorem past_later {env : Environment} {t : ℚ} {s u : Session} (h : Past env t s)
    (le : s.reads ≤ u.reads) : Past env t u := fun n late => h n (Nat.le_trans le late)

/-- Uninterrupted, `m` does some items and ends; outcome, items and state satisfy `Q`. -/
def Says (op : AsyncOperation V) (m : Run A) (s : Session)
    (Q : Except Raised A → List Item → Session → Prop) : Prop :=
  ∃ r s' items es, Ends m s r s' es ∧ Expands op items es ∧ s.reads ≤ s'.reads ∧ Q r items s'

section
variable {op : AsyncOperation V} {env : Environment} {s : Session}
  {Q R : Except Raised A → List Item → Session → Prop}

theorem says_mono {m : Run A} (h : Says op m s Q)
    (weaken : ∀ r items t, s.reads ≤ t.reads → Q r items t → R r items t) : Says op m s R := by
  obtain ⟨r, t, items, es, ends, expands, le, q⟩ := h
  exact ⟨r, t, items, es, ends, expands, le, weaken r items t le q⟩

theorem says_pure {a : A} (h : Q (.ok a) [] s) : Says op (pure a : Run A) s Q :=
  ⟨_, s, [], [], ends_pure a s, .nil, Nat.le_refl _, h⟩

theorem says_lift {r : Except Exc A} (h : Q (r.mapError .exception) [] s) :
    Says op (Run.lift r) s Q :=
  ⟨_, s, [], [], ends_fromExcept _ s, .nil, Nat.le_refl _, h⟩

theorem says_throwing {e : Exc} (h : Q (.error (.exception e)) [] s) :
    Says op (Run.throwing e : Run A) s Q :=
  ⟨_, s, [], [], ends_raise _ s, .nil, Nat.le_refl _, h⟩

/-- The sequence rule. -/
theorem says_bind {m : Run B} {f : B → Run A}
    (h : Says op m s fun r items t => match r with
      | .ok b => Says op (f b) t fun r' jtems => Q r' (items ++ jtems)
      | .error x => Q (.error x) items t) : Says op (m >>= f) s Q := by
  obtain ⟨r, t, items, es, ends, expands, le, next⟩ := h
  cases r with
  | ok b =>
    obtain ⟨r', u, jtems, ds, ends', expands', le', q⟩ := next
    exact ⟨r', u, _, _, ends_bind ends ends', expands_append expands expands',
      Nat.le_trans le le', q⟩
  | error x => exact ⟨_, t, items, es, ends_bind_error ends, expands, le, next⟩

theorem says_tryExcept {m : Run A} {Q : Except Raised (Except Exc A) → List Item → Session → Prop}
    (h : Says op m s fun r items t => match r with
      | .ok a => Q (.ok (.ok a)) items t
      | .error (.exception e) => Q (.ok (.error e)) items t
      | .error _ => False) : Says op (Run.tryExcept m) s Q := by
  obtain ⟨r, t, items, es, ends, expands, le, q⟩ := h
  cases r with
  | ok a => exact ⟨_, t, items, es, ends_attempt_ok ends, expands, le, q⟩
  | error x =>
    cases x with
    | exception e => exact ⟨_, t, items, es, ends_attempt_caught ends rfl, expands, le, q⟩
    | cancelled => exact q.elim
    | baseException b => exact q.elim

theorem says_lift_bind {r : Except Exc B} {b : B} {f : B → Run A} (ok : r = .ok b)
    (h : Says op (f b) s Q) : Says op (Run.lift r >>= f) s Q := by
  subst ok
  exact says_bind (says_lift h)

theorem says_reading_bind {g : ℕ → B} {f : B → Run A}
    (h : Says op (f (g s.reads)) { s with reads := s.reads + 1 } Q) :
    Says op (Run.reading g >>= f) s Q := by
  refine says_bind ⟨_, _, [], [], ends_atomic _ s, .nil, Nat.le_succ _, ?_⟩
  simpa using h

theorem later_reading (s : Session) : Later s { s with reads := s.reads + 1 } :=
  ⟨Nat.le_succ _, rfl⟩

theorem says_utcNow_bind {f : DateTime → Run A}
    (h : ∀ at_ t, at_.utcoffset.isSome = true → Later s t → Says op (f at_) t Q) :
    Says op (Run.utcNow env >>= f) s Q :=
  says_reading_bind (h _ _ rfl (later_reading s))

theorem says_perfCounter_bind {f : ℚ → Run A}
    (h : ∀ now t, Past env now t → Later s t → Says op (f now) t Q) :
    Says op (Run.perfCounter env >>= f) s Q := by
  refine says_reading_bind (h _ _ ?_ (later_reading s))
  intro n late
  exact env.perf_mono (Nat.le_of_succ_le late)

theorem says_elapsed_bind {at_ : ℚ} {f : ℚ → Run A} (past : Past env at_ s)
    (h : ∀ d t, 0 ≤ d → Later s t → Says op (f d) t Q) :
    Says op (Run.elapsedSeconds env at_ >>= f) s Q := by
  have passed : at_ ≤ env.perfCounter s.reads := past s.reads (Nat.le_refl _)
  have next := h (env.perfCounter s.reads - at_) _ (by linarith) (later_reading s)
  apply says_bind
  exact says_reading_bind (says_pure (by simpa using next))

def Emits (op : AsyncOperation V) (m : Run Unit) (items : List Item) : Prop :=
  ∀ s, Says op m s fun r jtems t => r = .ok () ∧ jtems = items ∧ Later s t

theorem says_emits_bind {m : Run Unit} {f : Unit → Run A} {items : List Item}
    (emits : Emits op m items)
    (h : ∀ t, Later s t → Says op (f ()) t fun r jtems => Q r (items ++ jtems)) :
    Says op (m >>= f) s Q := by
  refine says_bind (says_mono (emits s) ?_)
  intro r jtems t _ facts
  obtain ⟨rfl, rfl, later⟩ := facts
  exact h t later

theorem emits_pure : Emits op (pure () : Run Unit) [] :=
  fun s => says_pure ⟨rfl, rfl, Later.refl s⟩

theorem emits_seq {m n : Run Unit} {items jtems : List Item} (first : Emits op m items)
    (second : Emits op n jtems) : Emits op (m >>= fun _ => n) (items ++ jtems) := by
  intro s
  refine says_emits_bind first fun t later => says_mono (second t) ?_
  intro r ktems u _ facts
  obtain ⟨rfl, rfl, later'⟩ := facts
  exact ⟨rfl, rfl, later.trans later'⟩

theorem emits_call {e : Effect} (other : undelivered e) :
    Emits op (effect e : Run Unit) [.call e] :=
  fun s => ⟨_, s, [.call e], [e], ends_effect e s, .call e other .nil, Nat.le_refl _, rfl, rfl,
    Later.refl s⟩

def AwareTimestamps (op : AsyncOperation V) : Prop :=
  ∀ emitter ∈ op.eventEmitter, ∀ n, (emitter.timestampFactory n).utcoffset.isSome = true

/-- Without an emitter a payload need not be finite. -/
theorem emits_accepted (aware : AwareTimestamps op) (type : EventType) {payload : EventPayload}
    (finite : op.eventEmitter.isSome = true → finiteValues payload) :
    Emits op (op.emitEvent type payload) [.emit type payload] := by
  intro s
  unfold AsyncOperation.emitEvent
  cases configured : op.eventEmitter with
  | none =>
    have sinks : op.sinkCount = 0 := by rw [AsyncOperation.sinkCount, configured]
    have expands : Expands op [.emit type payload] _ :=
      .emit ⟨type, op.name, .utc 0, payload⟩ rfl .nil
    rw [sinks] at expands
    exact ⟨_, s, _, [], ends_pure () s, expands, Nat.le_refl _, rfl, rfl, Later.refl s⟩
  | some emitter =>
    have sinks : op.sinkCount = emitter.sinks := by rw [AsyncOperation.sinkCount, configured]
    have valid := event_new_ok (e := ⟨type, op.name, emitter.timestampFactory s.reads, payload⟩)
      op.name_ok (aware emitter configured s.reads) (finite (by simp [configured]))
    have delivers (t : Session) (later : Later s t) (event : StructuredEvent)
        (named : event.operationName = op.name) :
        Says op (EventEmitter.deliver event (List.range emitter.sinks)) t fun r items u =>
          r = .ok () ∧ items = [.emit event.eventType event.payload] ∧ Later s u := by
      have expands : Expands op [.emit event.eventType event.payload] _ := .emit event named .nil
      rw [sinks, List.append_nil] at expands
      exact ⟨_, t, _, _, ends_deliver event _ t, expands, Nat.le_refl _, rfl, rfl, later⟩
    refine says_bind (says_reading_bind (says_lift_bind valid (says_bind ?_)))
    apply says_mono (delivers _ (later_reading s) _ rfl)
    intro r items t _ facts
    obtain ⟨rfl, rfl, later⟩ := facts
    exact says_pure (says_pure ⟨rfl, rfl, later⟩)

theorem emits_event (aware : AwareTimestamps op) (type : EventType) {payload : EventPayload}
    (finite : finiteValues payload) : Emits op (op.emitEvent type payload) [.emit type payload] :=
  emits_accepted aware type fun _ => finite

theorem says_refused (aware : AwareTimestamps op) (type : EventType) {payload : EventPayload}
    (watched : op.eventEmitter.isSome = true) (bad : ¬ finiteValues payload) :
    Says op (op.emitEvent type payload) s fun r items _ =>
      r = .error (.exception payloadError) ∧ items = [] := by
  obtain ⟨emitter, configured⟩ := Option.isSome_iff_exists.mp watched
  have refused := event_new_refused
    (e := ⟨type, op.name, emitter.timestampFactory s.reads, payload⟩) op.name_ok
    (aware emitter configured s.reads) bad
  unfold AsyncOperation.emitEvent
  simp only [configured]
  refine says_bind (says_reading_bind (says_bind (says_lift ?_)))
  rw [refused]
  exact ⟨rfl, rfl⟩

end

end Relprim
