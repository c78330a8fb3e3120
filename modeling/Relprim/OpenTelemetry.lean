import Relprim.Events

/-!
opentelemetry.py. A span is known by a number; which one is current, and whether it
records, is told by the getter at each call. Of a span only its events are kept.
-/
namespace Relprim
open Dictionary

structure SpanEvent where
  name : String
  attributes : Dict String JsonScalar
  timestamp : ℤ

structure CurrentSpan where
  span : ℕ
  isRecording : Bool

/-- A timedelta as it is stored: only `days` can be negative. -/
structure TimeDelta where
  days : ℤ
  seconds : ℤ
  microseconds : ℤ

def TimeDelta.ofMicros (n : ℤ) : TimeDelta where
  days := n / 86400000000
  seconds := n % 86400000000 / 1000000
  microseconds := n % 1000000

namespace OpenTelemetryEventSink

/-- `_EPOCH`: 719162 days lie between the start of year 1 and that of 1970. -/
def epoch : DateTime := .utc (719162 * 86400000000)

def subtract (a b : DateTime) : Except Exc TimeDelta := do
  check (a.utcoffset.isSome == b.utcoffset.isSome)
    (typeError "can't subtract offset-naive and offset-aware datetimes")
  return .ofMicros (a.instant - b.instant)

def timestampNs (timestamp : DateTime) : Except Exc ℤ := do
  let delta ← subtract timestamp epoch
  let seconds := delta.days * 86400 + delta.seconds
  return seconds * 1000000000 + delta.microseconds * 1000

def payloadKey (key : String) : String := "relprim.payload." ++ key

def eventAttributes (event : StructuredEvent) : Dict String JsonScalar :=
  (items event.payload).foldl
    (fun attributes entry =>
      if entry.2 = .none then attributes
      else attributes.insert (payloadKey entry.1) entry.2)
    (ofPairs [
      ("relprim.event.type", .str event.eventType.value),
      ("relprim.operation.name", .str event.operationName)])

def spanEvent (event : StructuredEvent) : Except Exc SpanEvent := do
  let timestamp ← timestampNs event.timestamp
  return {
    name := "relprim." ++ event.eventType.value
    attributes := eventAttributes event
    timestamp }

/-- `emit`, from the events of all spans to those after it. -/
def emit (current : CurrentSpan) (event : StructuredEvent) (spans : ℕ → List SpanEvent) :
    Except Exc (ℕ → List SpanEvent) :=
  if !current.isRecording then .ok spans
  else do
    let added ← spanEvent event
    return Function.update spans current.span (spans current.span ++ [added])

def emitAll : List (CurrentSpan × StructuredEvent) → (ℕ → List SpanEvent) →
    Except Exc (ℕ → List SpanEvent)
  | [], spans => .ok spans
  | (current, event) :: rest, spans => do
    let spans ← emit current event spans
    emitAll rest spans

/-! Time. -/

theorem ofMicros_total (n : ℤ) : ((TimeDelta.ofMicros n).days * 86400 +
    (TimeDelta.ofMicros n).seconds) * 1000000000 + (TimeDelta.ofMicros n).microseconds * 1000 =
    1000 * n := by
  simp only [TimeDelta.ofMicros]
  omega

/-- Nanoseconds since the epoch, without rounding, before it as well as after. -/
def nanosSinceEpoch (timestamp : DateTime) : ℤ := 1000 * (timestamp.instant - epoch.instant)

theorem timestampNs_exact {timestamp : DateTime} (aware : timestamp.utcoffset.isSome = true) :
    timestampNs timestamp = .ok (nanosSinceEpoch timestamp) := by
  have same : (timestamp.utcoffset.isSome == epoch.utcoffset.isSome) = true := by
    rw [aware]
    rfl
  simp only [timestampNs, subtract, same, check_true, bind, Except.bind, pure, Except.pure,
    ofMicros_total, nanosSinceEpoch]

/-! Attributes. -/

theorem payloadKey_injective : Function.Injective payloadKey :=
  fun _ _ same => (String.append_right_inj _).mp same

/-- The first nine characters tell a payload key from the other two. -/
theorem payloadKey_head (key : String) : (payloadKey key).toList.take 9 =
    "relprim.payload.".toList.take 9 := by
  have split : (payloadKey key).toList = "relprim.payload.".toList ++ key.toList :=
    String.toList_append
  rw [split, List.take_append_of_le_length (by decide)]

theorem payloadKey_type (key : String) : payloadKey key ≠ "relprim.event.type" := by
  intro same
  have head := payloadKey_head key
  rw [same] at head
  exact absurd head (by decide)

theorem payloadKey_name (key : String) : payloadKey key ≠ "relprim.operation.name" := by
  intro same
  have head := payloadKey_head key
  rw [same] at head
  exact absurd head (by decide)

def shownValue (event : StructuredEvent) (key : String) : Option JsonScalar :=
  (event.payload.lookup key).filter (· ≠ .none)

theorem eventAttributes_eq (event : StructuredEvent) : eventAttributes event =
    insertMapped payloadKey (· ≠ .none) (ofPairs [
      ("relprim.event.type", .str event.eventType.value),
      ("relprim.operation.name", .str event.operationName)]) (items event.payload) := by
  unfold eventAttributes insertMapped
  congr 1
  funext attributes entry
  by_cases absent : entry.2 = .none <;> simp [absent]

theorem lookup_payload (event : StructuredEvent) (key : String) :
    (eventAttributes event).lookup (payloadKey key) = shownValue event key := by
  have kind : (payloadKey key == "relprim.event.type") = false := by simp [payloadKey_type]
  have name : (payloadKey key == "relprim.operation.name") = false := by simp [payloadKey_name]
  rw [eventAttributes_eq, lookup_insertMapped payloadKey_injective _ (items_nodup _), lookup_items,
    lookup_ofPairs]
  simp [List.lookup_cons, kind, name, shownValue]

theorem lookup_type (event : StructuredEvent) :
    (eventAttributes event).lookup "relprim.event.type" = some (.str event.eventType.value) := by
  rw [eventAttributes_eq, lookup_insertMapped_other _ _ _ payloadKey_type, lookup_ofPairs]
  rfl

theorem lookup_name (event : StructuredEvent) :
    (eventAttributes event).lookup "relprim.operation.name" = some (.str event.operationName) := by
  rw [eventAttributes_eq, lookup_insertMapped_other _ _ _ payloadKey_name, lookup_ofPairs]
  rfl

theorem lookup_other (event : StructuredEvent) {key : String} (payload : ∀ k, payloadKey k ≠ key)
    (kind : key ≠ "relprim.event.type") (name : key ≠ "relprim.operation.name") :
    (eventAttributes event).lookup key = none := by
  have first : (key == "relprim.event.type") = false := by simpa using kind
  have second : (key == "relprim.operation.name") = false := by simpa using name
  rw [eventAttributes_eq, lookup_insertMapped_other _ _ _ payload, lookup_ofPairs]
  simp [List.lookup_cons, first, second]

/-! What a span tells of an event. -/

/-- One mapping, whatever the order of its entries. -/
structure Same (x y : SpanEvent) : Prop where
  name : x.name = y.name
  attributes : ∀ key, x.attributes.lookup key = y.attributes.lookup key
  timestamp : x.timestamp = y.timestamp

/-- Events that differ in the offsets of their timestamps and in None values only. -/
structure Alike (a b : StructuredEvent) : Prop where
  eventType : a.eventType = b.eventType
  operationName : a.operationName = b.operationName
  instant : a.timestamp.instant = b.timestamp.instant
  payload : ∀ key, shownValue a key = shownValue b key

theorem value_injective : Function.Injective EventType.value := by
  intro a b same
  cases a <;> cases b <;> first | rfl | exact absurd same (by decide)

def shownEvent (event : StructuredEvent) : SpanEvent where
  name := "relprim." ++ event.eventType.value
  attributes := eventAttributes event
  timestamp := nanosSinceEpoch event.timestamp

theorem spanEvent_ok {event : StructuredEvent} (aware : event.timestamp.utcoffset.isSome = true) :
    spanEvent event = .ok (shownEvent event) := by
  simp only [spanEvent, timestampNs_exact aware, bind, Except.bind]
  rfl

theorem same_iff_alike (a b : StructuredEvent) :
    Same (shownEvent a) (shownEvent b) ↔ Alike a b := by
  constructor
  · rintro ⟨name, attributes, timestamp⟩
    have named := attributes "relprim.operation.name"
    simp only [shownEvent, lookup_name, nanosSinceEpoch] at name named timestamp
    refine ⟨value_injective ((String.append_right_inj _).mp name), by simpa using named, by omega, ?_⟩
    intro key
    rw [← lookup_payload, ← lookup_payload]
    exact attributes (payloadKey key)
  · rintro ⟨kind, name, instant, payload⟩
    refine ⟨by simp [shownEvent, kind], ?_, by simp [shownEvent, nanosSinceEpoch, instant]⟩
    intro key
    simp only [shownEvent]
    by_cases first : key = "relprim.event.type"
    · rw [first, lookup_type, lookup_type, kind]
    by_cases second : key = "relprim.operation.name"
    · rw [second, lookup_name, lookup_name, name]
    by_cases listed : ∃ k, payloadKey k = key
    · obtain ⟨k, rfl⟩ := listed
      rw [lookup_payload, lookup_payload, payload]
    · have payload (k : String) : payloadKey k ≠ key := fun same => listed ⟨k, same⟩
      rw [lookup_other a payload first second, lookup_other b payload first second]

theorem shown_valid (event : StructuredEvent) {key : String} {v : JsonScalar}
    (h : (shownEvent event).attributes.lookup key = some v) : v ≠ .none := by
  simp only [shownEvent] at h
  by_cases first : key = "relprim.event.type"
  · rw [first, lookup_type] at h
    cases h
    simp
  by_cases second : key = "relprim.operation.name"
  · rw [second, lookup_name] at h
    cases h
    simp
  by_cases listed : ∃ k, payloadKey k = key
  · obtain ⟨k, rfl⟩ := listed
    rw [lookup_payload, shownValue, Option.filter_eq_some_iff] at h
    exact of_decide_eq_true h.2
  · rw [lookup_other event (fun k same => listed ⟨k, same⟩) first second] at h
    cases h

/-! Sequences of events. -/

/-- The events emitted while the span was current and recording. -/
def shownIn (id : ℕ) (calls : List (CurrentSpan × StructuredEvent)) : List StructuredEvent :=
  (calls.filter fun call => call.1.isRecording && call.1.span = id).map Prod.snd

theorem emitAll_ok {calls : List (CurrentSpan × StructuredEvent)}
    (aware : ∀ call ∈ calls, call.2.timestamp.utcoffset.isSome = true)
    (spans : ℕ → List SpanEvent) :
    emitAll calls spans = .ok fun id => spans id ++ (shownIn id calls).map shownEvent := by
  induction calls generalizing spans with
  | nil => simp [emitAll, shownIn]
  | cons call rest ih =>
    obtain ⟨current, event⟩ := call
    have later := ih fun call member => aware call (List.mem_cons_of_mem _ member)
    unfold emitAll emit
    cases recording : current.isRecording with
    | false =>
      simp only [Bool.not_false, if_true, bind, Except.bind, later]
      simp [shownIn, recording]
    | true =>
      have added := spanEvent_ok (aware _ List.mem_cons_self)
      simp only [Bool.not_true, Bool.false_eq_true, if_false, added, bind, Except.bind, pure,
        Except.pure, later]
      congr 1
      funext id
      by_cases here : current.span = id
      · subst here
        simp [shownIn, recording]
      · simp [shownIn, recording, here, Ne.symm here]

theorem event_new_aware {draft event : StructuredEvent} (h : StructuredEvent.new draft = .ok event) :
    event.timestamp.utcoffset.isSome = true := by
  obtain ⟨_, _, h⟩ := Fallible.except_bind_ok h
  obtain ⟨_, aware, h⟩ := Fallible.except_bind_ok h
  obtain ⟨_, _, h⟩ := Fallible.except_bind_ok h
  cases h
  exact check_ok_iff.mp aware

/-- Whatever span is current at each call, the sink takes every event; a span has the events
    emitted while it recorded, in order and at their exact times, with no None among the
    attributes; and two sequences of events look the same on every span only if they are the
    same up to None values and offsets. -/
theorem spans_tell_events (calls calls' : List (CurrentSpan × StructuredEvent))
    (accepted : ∀ call ∈ calls ++ calls', ∃ draft, StructuredEvent.new draft = .ok call.2) :
    ∃ spans spans', emitAll calls (fun _ => []) = .ok spans ∧
      emitAll calls' (fun _ => []) = .ok spans' ∧ ∀ id,
      (spans id).map SpanEvent.timestamp =
        (shownIn id calls).map (fun event => nanosSinceEpoch event.timestamp) ∧
      (∀ x ∈ spans id, ∀ key v, x.attributes.lookup key = some v → v ≠ .none) ∧
      (List.Forall₂ Same (spans id) (spans' id) ↔
        List.Forall₂ Alike (shownIn id calls) (shownIn id calls')) := by
  have aware (call : CurrentSpan × StructuredEvent) (member : call ∈ calls ++ calls') :
      call.2.timestamp.utcoffset.isSome = true := by
    obtain ⟨draft, made⟩ := accepted call member
    exact event_new_aware made
  refine ⟨_, _, emitAll_ok (fun call member => aware call (List.mem_append_left _ member)) _,
    emitAll_ok (fun call member => aware call (List.mem_append_right _ member)) _, fun id => ?_⟩
  refine ⟨?_, ?_, ?_⟩
  · simp [shownEvent]
  · intro x member key v found
    obtain ⟨event, _, rfl⟩ := List.mem_map.mp (by simpa using member)
    exact shown_valid event found
  · simp only [List.nil_append, List.forall₂_map_left_iff, List.forall₂_map_right_iff,
      same_iff_alike]

def scheduled (offset : ℤ) (payload : EventPayload) : StructuredEvent where
  eventType := .retryScheduled
  operationName := "call"
  timestamp := ⟨0, some offset⟩
  payload := payload

/-- A None value and another offset are not seen; nor is what is not recorded. -/
theorem scheduled_shown : ∃ spans spans',
    emitAll [(⟨1, true⟩, scheduled 0 (ofPairs [("a", .int 1), ("b", .none)])),
      (⟨1, false⟩, scheduled 0 ∅)] (fun _ => []) = .ok spans ∧
    emitAll [(⟨1, true⟩, scheduled 60000000 (ofPairs [("a", .int 1)]))] (fun _ => []) = .ok spans' ∧
    List.Forall₂ Same (spans 1) (spans' 1) ∧ spans 1 ≠ [] := by
  have accepted : ∀ call ∈ [((⟨1, true⟩ : CurrentSpan),
      scheduled 0 (ofPairs [("a", .int 1), ("b", .none)])), (⟨1, false⟩, scheduled 0 ∅)] ++
      [(⟨1, true⟩, scheduled 60000000 (ofPairs [("a", .int 1)]))],
      ∃ draft, StructuredEvent.new draft = .ok call.2 := by
    intro call member
    simp only [List.cons_append, List.nil_append, List.mem_cons, List.not_mem_nil, or_false] at member
    rcases member with rfl | rfl | rfl
    all_goals exact ⟨_, event_new_ok rfl rfl rfl⟩
  obtain ⟨spans, spans', first, second, each⟩ := spans_tell_events _ _ accepted
  obtain ⟨times, _, same⟩ := each 1
  refine ⟨spans, spans', first, second, same.mpr (.cons ⟨rfl, rfl, rfl, ?_⟩ .nil), ?_⟩
  · intro key
    simp only [shownValue, scheduled, lookup_ofPairs]
    by_cases one : key = "a"
    · subst one
      rfl
    by_cases two : key = "b"
    · subst two
      rfl
    have one' : (key == "a") = false := by simpa using one
    have two' : (key == "b") = false := by simpa using two
    simp [List.lookup_cons, one', two']
  · intro empty
    rw [empty] at times
    cases times

end OpenTelemetryEventSink

end Relprim
