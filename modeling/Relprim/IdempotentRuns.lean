import Relprim.BreakerProbes
import Relprim.IdempotencyReplay
import Relprim.IdempotentResult

/-!
Concurrent calls of one operation's `run` that share the in-memory store of its policy. A call
that executes runs the whole lifecycle of the operation, one effect or breaker call at a time,
interleaved with the steps of the other calls; a joined or replayed call only waits for the store.
-/
namespace Relprim.IdempotentRuns
open LabelledRuns IdempotencyRuns Dictionary

/-- One call of `run`: the operation with the outcomes it meets in this call, the clocks
    and the breaker the call sees, and where its lifecycle is interrupted, if it is. -/
structure Call (V : Type) where
  op : AsyncOperation V
  env : Environment
  interruption : Option (ℕ × Raised) := none
  session : Session := {}

namespace Call
variable {V : Type} (call : Call V)

/-- The lifecycle that the call runs if it executes: how it ends, its effects and its breaker
    calls. -/
def outcome : Except Raised (OperationResult V) :=
  call.op.outcome call.env call.interruption call.session

def effects : List Effect := call.op.trace call.env call.interruption call.session

def breakerCalls : List BreakerCall :=
  (call.op.runWithoutIdempotency call.env call.interruption call.session []).2.1.breakerCalls.drop
    call.session.breakerCalls.length

end Call

variable {Task V : Type}

/-- The effects and the breaker calls stand in the order they happened, each with its call. -/
structure System (Task V : Type) where
  store : Store Task (OperationResult V)
  calls : ℕ → Option (Call V)
  happened : List (ℕ × Effect)
  breakerCalls : List (ℕ × BreakerCall)

inductive Label (Task V : Type) where
  | run (task : Task) (call : Call V)
  | effect (id : ℕ)
  | breakerCall (id : ℕ)
  | finish (id : ℕ)
  | wake (id : ℕ)
  | cancelJoined (id : ℕ)
  | purgeExpired
  | entryCount
  | advance (d : ℚ)

def initial (start : ℚ) : System Task V :=
  ⟨IdempotencyRuns.initial start, fun _ => none, [], []⟩

def ofCall {E : Type} (history : List (ℕ × E)) (id : ℕ) : List E :=
  (history.filter fun p => p.1 = id).map Prod.snd

def System.doneBy (s : System Task V) (id : ℕ) : List Effect := ofCall s.happened id

def System.breakerCallsBy (s : System Task V) (id : ℕ) : List BreakerCall :=
  ofCall s.breakerCalls id

variable [DecidableEq Task]

def onStore (s : System Task V) (l : IdempotencyRuns.Label Task (OperationResult V)) :
    Option (System Task V) :=
  (IdempotencyRuns.step s.store l).map fun store => { s with store }

def step (s : System Task V) : Label Task V → Option (System Task V)
  | .run task call =>
    match call.op.idempotencyPolicy with
    | none => none
    | some policy =>
      match policy.key with
      -- The key factory raised or its key is invalid; the exception goes to the caller.
      | .error _ => some s
      | .ok key =>
        (onStore s (.execute task key policy.ttlSeconds)).map fun t =>
          { t with calls := Function.update s.calls s.store.nextId (some call) }
  | .effect id =>
    match s.store.callers id, s.calls id with
    | some c, some call =>
      if c.phase = .executing then
        (call.effects[(s.doneBy id).length]?).map fun e =>
          { s with happened := s.happened ++ [(id, e)] }
      else none
    | _, _ => none
  -- Where it falls between the effects of its call is left open.
  | .breakerCall id =>
    match s.store.callers id, s.calls id with
    | some c, some call =>
      if c.phase = .executing then
        (call.breakerCalls[(s.breakerCallsBy id).length]?).map fun b =>
          { s with breakerCalls := s.breakerCalls ++ [(id, b)] }
      else none
    | _, _ => none
  | .finish id =>
    match s.calls id with
    | some call =>
      if (s.doneBy id).length = call.effects.length ∧
          (s.breakerCallsBy id).length = call.breakerCalls.length then
        onStore s (.finish id call.outcome)
      else none
    | none => none
  | .wake id => onStore s (.wake id)
  | .cancelJoined id => onStore s (.cancelJoined id)
  | .purgeExpired => onStore s .purgeExpired
  | .entryCount => onStore s .entryCount
  | .advance d => onStore s (.advance d)

/-! What a step of the store adds to its history. -/

def about {W : Type} : Event W → Option (ℕ × String)
  | .started id key | .succeeded id key _ _ _ | .stopped id key _ | .joined id key _ => some (id, key)
  | .returned id r _ => some (id, r.key)
  | .raised _ _ | .purged _ | .counted _ => none

def ends {W : Type} : Event W → Bool
  | .succeeded .. | .stopped .. => true
  | .returned _ r _ => r.status = .executed
  | _ => false

def Calls {W : Type} (s : Store Task W) (l : IdempotencyRuns.Label Task W) (i : ℕ) (key : String) :
    Prop :=
  (∃ c, s.callers i = some c ∧ c.key = key) ∨
    (i = s.nextId ∧ ∃ task ttl, l = .execute task key ttl)

structure Continues {W : Type} (s : Store Task W) (l : IdempotencyRuns.Label Task W)
    (t : Store Task W) : Prop where
  next : s.nextId ≤ t.nextId
  log : ∃ es, t.log = s.log ++ es ∧
    ∀ e ∈ es, ends e = false ∧ ∀ i key, about e = some (i, key) → Calls s l i key
  callers : ∀ i c, t.callers i = some c → Calls s l i c.key

theorem enter_adds {W : Type} (s : Store Task W) (id : ℕ) (c : Caller Task) :
    (∃ es, (enter s id c).log = s.log ++ es ∧
      ∀ e ∈ es, ends e = false ∧ ∀ i key, about e = some (i, key) → i = id ∧ key = c.key) ∧
    (∀ i d, (enter s id c).callers i = some d → (i = id ∧ d.key = c.key) ∨ s.callers i = some d) ∧
    (enter s id c).nextId = s.nextId := by
  have filed (phase : Phase) (i : ℕ) (d : Caller Task)
      (found : Function.update s.callers id (some { c with phase }) i = some d) :
      (i = id ∧ d.key = c.key) ∨ s.callers i = some d := by
    rcases caller_update found with ⟨rfl, new⟩ | ⟨_, old⟩
    · cases new
      exact .inl ⟨rfl, rfl⟩
    · exact .inr old
  rcases enter_cases s id c with
    ⟨_, eq⟩ | ⟨e, _, _, _, _, eq⟩ | ⟨e, _, _, ⟨v, _, eq⟩ | ⟨x, _, eq⟩ | ⟨_, eq⟩⟩ <;>
    rw [eq]
  · exact ⟨⟨_, rfl, by simp [ends, about]⟩, filed .executing, rfl⟩
  · exact ⟨⟨_, rfl, by simp [ends, about]⟩, fun i d found => .inr (caller_remains found), rfl⟩
  · exact ⟨⟨_, rfl, by simp [ends, about]⟩, fun i d found => .inr (caller_remains found), rfl⟩
  · exact ⟨⟨_, rfl, by simp [ends, about]⟩, fun i d found => .inr (caller_remains found), rfl⟩
  · exact ⟨⟨_, rfl, by simp [ends, about]⟩, filed (.waiting e.future), rfl⟩

theorem continues_enter {W : Type} {s : Store Task W} {l : IdempotencyRuns.Label Task W} {n id : ℕ}
    {c : Caller Task} (next : s.nextId ≤ n) (calls : Calls s l id c.key) :
    Continues s l (enter { s with nextId := n } id c) := by
  obtain ⟨⟨es, log, adds⟩, callers, same⟩ := enter_adds { s with nextId := n } id c
  constructor
  · rw [same]
    exact next
  · refine ⟨es, log, fun e member => ⟨(adds e member).1, fun i key named => ?_⟩⟩
    obtain ⟨rfl, rfl⟩ := (adds e member).2 i key named
    exact calls
  · intro i d found
    rcases callers i d found with ⟨rfl, keys⟩ | old
    · exact keys ▸ calls
    · exact .inl ⟨d, old, rfl⟩

omit [DecidableEq Task] in
theorem continues_leave {W : Type} {s : Store Task W} {l : IdempotencyRuns.Label Task W} {id : ℕ}
    {es : List (Event W)}
    (adds : ∀ e ∈ es, ends e = false ∧ ∀ i key, about e = some (i, key) → Calls s l i key) :
    Continues s l (leave s id es) :=
  ⟨le_refl _, ⟨es, rfl, adds⟩, fun _ c found => .inl ⟨c, caller_remains found, rfl⟩⟩

theorem step_continues {W : Type} {s t : Store Task W} {l : IdempotencyRuns.Label Task W}
    (hs : IdempotencyRuns.step s l = some t) (other : ∀ id o, l ≠ .finish id o) :
    Continues s l t := by
  cases step_shape hs with
  | refused task key ttl x =>
    exact ⟨Nat.le_succ _, ⟨_, rfl, by simp [ends, about]⟩, fun _ c found => .inl ⟨c, found, rfl⟩⟩
  | enters task named positive =>
    exact continues_enter (Nat.le_succ _) (.inr ⟨rfl, task, _, rfl⟩)
  | finishes o executing => exact absurd rfl (other _ o)
  | @wakes id c f _ waiting woken =>
    have calls : Calls s (.wake id) id c.key := .inl ⟨c, waiting.1, rfl⟩
    unfold wake at woken
    split at woken
    · cases woken
    · cases woken
      apply continues_leave
      simpa [ends, about] using calls
    · cases woken
      exact continues_leave (by simp [ends, about])
    · cases woken
      exact continues_enter (le_refl _) calls
  | cancels waiting => exact continues_leave (by simp [ends, about])
  | purges e counts =>
    refine ⟨le_refl _, ⟨_, rfl, ?_⟩, fun _ c found => .inl ⟨c, found, rfl⟩⟩
    rcases counts with ⟨n, rfl⟩ | ⟨n, rfl⟩ <;> simp [ends, about]
  | advances => exact ⟨le_refl _, ⟨[], by simp⟩, fun _ c found => .inl ⟨c, found, rfl⟩⟩

theorem execute_next {W : Type} {s t : Store Task W} {task : Task} {key : String} {ttl : ℚ}
    (hs : IdempotencyRuns.step s (.execute task key ttl) = some t) : t.nextId = s.nextId + 1 := by
  simp only [IdempotencyRuns.step] at hs
  split at hs
  · cases hs
    rfl
  · cases hs
    rfl
  · cases hs
    exact (enter_adds _ _ _).2.2

theorem finish_inv {W : Type} {s t : Store Task W} {id : ℕ} {o : Except Raised W}
    (hs : IdempotencyRuns.step s (.finish id o) = some t) :
    ∃ c, Executing s id c ∧ t = finish s id c o := by
  simp only [IdempotencyRuns.step] at hs
  split at hs
  · rename_i c there
    split at hs
    · cases hs
      exact ⟨c, ⟨there, ‹_›⟩, rfl⟩
    · cases hs
  · cases hs

omit [DecidableEq Task] in
theorem finish_adds {W : Type} (s : Store Task W) (id : ℕ) (c : Caller Task) (o : Except Raised W) :
    ∃ es, (finish s id c o).log = s.log ++ es ∧
      (∀ e ∈ es, ∀ i key, about e = some (i, key) → i = id ∧ key = c.key) ∧
      (∀ i k v t ttl, .succeeded i k v t ttl ∈ es →
        i = id ∧ o = .ok v ∧ .returned i ⟨v, k, .executed⟩ t ∈ es) ∧
      (∀ i k x, .stopped i k x ∈ es → i = id ∧ o = .error x) ∧
      ∀ i k v t, .returned i ⟨v, k, .executed⟩ t ∈ es → ∃ ttl, .succeeded i k v t ttl ∈ es := by
  cases o with
  | ok v =>
    refine ⟨_, rfl, by simp [about], ?_, by simp, ?_⟩
    · intro i k w t ttl ended
      simp at ended
      simp [ended]
    · intro i k w t returned
      simp at returned
      exact ⟨c.ttl, by simp [returned]⟩
  | error x =>
    refine ⟨[.stopped id c.key x, .raised id x], by cases x <;> rfl, by simp [about], by simp, ?_,
      by simp⟩
    intro i k y ended
    simp at ended
    simp [ended]

omit [DecidableEq Task] in
theorem finish_next {W : Type} (s : Store Task W) (id : ℕ) (c : Caller Task) (o : Except Raised W) :
    (finish s id c o).nextId = s.nextId := by
  cases o with
  | ok v => rfl
  | error x => cases x <;> rfl

/-! The invariant. -/

def Call.HasKey (call : Call V) (key : String) : Prop :=
  ∃ policy, call.op.idempotencyPolicy = some policy ∧ policy.key = .ok key

def Filed (s : System Task V) (i : ℕ) (key : String) : Prop :=
  ∃ call, s.calls i = some call ∧ call.HasKey key

def Completed (s : System Task V) (i : ℕ) (o : Except Raised (OperationResult V)) : Prop :=
  ∃ call, s.calls i = some call ∧ call.outcome = o ∧ s.doneBy i = call.effects ∧
    s.breakerCallsBy i = call.breakerCalls

/-- What the history of the store says happened is what the lifecycles did. -/
structure Sound (s : System Task V) : Prop where
  fresh : ∀ i, s.store.nextId ≤ i → s.calls i = none
  callers : ∀ i c, s.store.callers i = some c → Filed s i c.key
  filed : ∀ e ∈ s.store.log, ∀ i key, about e = some (i, key) → Filed s i key
  active : ∀ i, s.doneBy i ≠ [] ∨ s.breakerCallsBy i ≠ [] → ∃ key, .started i key ∈ s.store.log
  progress : ∀ i call, s.calls i = some call →
    s.doneBy i <+: call.effects ∧ s.breakerCallsBy i <+: call.breakerCalls
  succeeded : ∀ i k v t ttl, .succeeded i k v t ttl ∈ s.store.log →
    Completed s i (.ok v) ∧ .returned i ⟨v, k, .executed⟩ t ∈ s.store.log
  stopped : ∀ i k x, .stopped i k x ∈ s.store.log → Completed s i (.error x)
  executed : ∀ i v k t, .returned i ⟨v, k, .executed⟩ t ∈ s.store.log →
    ∃ ttl, .succeeded i k v t ttl ∈ s.store.log

omit [DecidableEq Task] in
theorem sound_initial (start : ℚ) : Sound (initial start : System Task V) where
  fresh _ _ := rfl
  callers i c h := by simp [initial, IdempotencyRuns.initial] at h
  filed e h := by simp [initial, IdempotencyRuns.initial] at h
  active i h := by simp [initial, System.doneBy, System.breakerCallsBy, ofCall] at h
  progress i call h := by simp [initial] at h
  succeeded i k v t ttl h := by simp [initial, IdempotencyRuns.initial] at h
  stopped i k x h := by simp [initial, IdempotencyRuns.initial] at h
  executed i v k t h := by simp [initial, IdempotencyRuns.initial] at h

omit [DecidableEq Task] in
/-- A call whose number has not been given out has done nothing. -/
theorem fresh_idle {s : System Task V} (h : Sound s) {i : ℕ} (new : s.calls i = none) :
    s.doneBy i = [] ∧ s.breakerCallsBy i = [] := by
  by_contra busy
  have active : s.doneBy i ≠ [] ∨ s.breakerCallsBy i ≠ [] := by tauto
  obtain ⟨key, started⟩ := h.active i active
  obtain ⟨call, known, _⟩ := h.filed _ started i key rfl
  cases new.symm.trans known

omit [DecidableEq Task] in
theorem sound_continues {s : System Task V} (h : Sound s) {store : Store Task (OperationResult V)}
    {l : IdempotencyRuns.Label Task (OperationResult V)} (continues : Continues s.store l store)
    {calls : ℕ → Option (Call V)} (fresh : ∀ i, store.nextId ≤ i → calls i = none)
    (known : ∀ i call, s.calls i = some call → calls i = some call)
    (new : ∀ i call, calls i = some call → s.calls i = some call ∨ s.calls i = none)
    (arrives : ∀ task key ttl, l = .execute task key ttl →
      ∃ call, calls s.store.nextId = some call ∧ call.HasKey key) :
    Sound { s with store, calls } := by
  obtain ⟨es, log, adds⟩ := continues.log
  have filed (i : ℕ) (key : String) (made : Calls s.store l i key) :
      Filed { s with store, calls } i key := by
    rcases made with ⟨c, there, rfl⟩ | ⟨rfl, task, ttl, rfl⟩
    · obtain ⟨call, named, keyed⟩ := h.callers i c there
      exact ⟨call, known i call named, keyed⟩
    · exact arrives task key ttl rfl
  have kept (i : ℕ) (o : Except Raised (OperationResult V)) (completed : Completed s i o) :
      Completed { s with store, calls } i o := by
    obtain ⟨call, named, rest⟩ := completed
    exact ⟨call, known i call named, rest⟩
  have old (e : Event (OperationResult V)) (member : e ∈ store.log) (ending : ends e = true) :
      e ∈ s.store.log := by
    rw [log] at member
    rcases List.mem_append.mp member with before | added
    · exact before
    · rw [(adds e added).1] at ending
      cases ending
  have later (e : Event (OperationResult V)) (member : e ∈ s.store.log) : e ∈ store.log := by
    rw [log]
    exact List.mem_append_left es member
  constructor
  · exact fresh
  · exact fun i c there => filed i c.key (continues.callers i c there)
  · intro e member i key named
    rw [show store.log = _ from log] at member
    rcases List.mem_append.mp member with before | added
    · obtain ⟨call, there, keyed⟩ := h.filed e before i key named
      exact ⟨call, known i call there, keyed⟩
    · exact filed i key ((adds e added).2 i key named)
  · intro i active
    obtain ⟨key, started⟩ := h.active i active
    exact ⟨key, later _ started⟩
  · intro i call named
    rcases new i call named with there | absent
    · exact h.progress i call there
    · obtain ⟨idle, unasked⟩ := fresh_idle h absent
      change s.doneBy i <+: call.effects ∧ s.breakerCallsBy i <+: call.breakerCalls
      rw [idle, unasked]
      exact ⟨List.nil_prefix, List.nil_prefix⟩
  · intro i k v t ttl ended
    obtain ⟨completed, returned⟩ := h.succeeded i k v t ttl (old _ ended rfl)
    exact ⟨kept i _ completed, later _ returned⟩
  · exact fun i k x ended => kept i _ (h.stopped i k x (old _ ended rfl))
  · intro i v k t returned
    obtain ⟨ttl, ended⟩ := h.executed i v k t (old _ returned rfl)
    exact ⟨ttl, later _ ended⟩

theorem ofCall_snoc {E : Type} (history : List (ℕ × E)) (id i : ℕ) (e : E) :
    ofCall (history ++ [(id, e)]) i = if id = i then ofCall history i ++ [e] else ofCall history i := by
  by_cases same : id = i <;> simp [ofCall, List.filter_append, same]

theorem ofCall_next {E : Type} {history : List (ℕ × E)} {id : ℕ} {whole : List E}
    (so_far : ofCall history id <+: whole) {e : E}
    (next : whole[(ofCall history id).length]? = some e) :
    ofCall history id <+: ofCall (history ++ [(id, e)]) id ∧
      ofCall (history ++ [(id, e)]) id <+: whole := by
  rw [ofCall_snoc, if_pos rfl]
  refine ⟨List.prefix_append _ _, ?_⟩
  obtain ⟨rest, rfl⟩ := so_far
  rw [List.getElem?_append_right (le_refl _), Nat.sub_self] at next
  cases rest with
  | nil => cases next
  | cons head rest =>
    cases next
    exact ⟨rest, by rw [List.append_assoc, List.singleton_append]⟩

omit [DecidableEq Task] in
/-- An executing call goes on with its effects and its breaker calls. -/
theorem sound_history {s : System Task V} (coherent : Coherent s.store)
    (chronicle : Chronicle s.store) (h : Sound s) {id : ℕ} {c : Caller Task}
    (executing : Executing s.store id c) {call : Call V} (known : s.calls id = some call)
    {happened : List (ℕ × Effect)} {breakerCalls : List (ℕ × BreakerCall)}
    (others : ∀ i, i ≠ id →
      ofCall happened i = s.doneBy i ∧ ofCall breakerCalls i = s.breakerCallsBy i)
    (done : s.doneBy id <+: ofCall happened id ∧ ofCall happened id <+: call.effects)
    (asked : s.breakerCallsBy id <+: ofCall breakerCalls id ∧
      ofCall breakerCalls id <+: call.breakerCalls) : Sound { s with happened, breakerCalls } := by
  have kept (i : ℕ) (o : Except Raised (OperationResult V)) (completed : Completed s i o) :
      Completed { s with happened, breakerCalls } i o := by
    obtain ⟨d, named, outcome, effects, calls⟩ := completed
    refine ⟨d, named, outcome, ?_⟩
    by_cases same : i = id
    · -- A lifecycle that has ended has nothing left to do.
      subst same
      cases known.symm.trans named
      have all : call.effects <+: ofCall happened i := effects ▸ done.1
      have every : call.breakerCalls <+: ofCall breakerCalls i := calls ▸ asked.1
      exact ⟨done.2.eq_of_length_le all.length_le, asked.2.eq_of_length_le every.length_le⟩
    · obtain ⟨sameDone, sameAsked⟩ := others i same
      exact ⟨sameDone.trans effects, sameAsked.trans calls⟩
  refine ⟨h.fresh, h.callers, h.filed, ?_, ?_, ?_, ?_, h.executed⟩
  · intro i active
    by_cases same : i = id
    · subst same
      exact ⟨c.key, chronicle.started c.key _ (coherent.owner i c executing).1⟩
    · obtain ⟨sameDone, sameAsked⟩ := others i same
      rw [System.doneBy, System.breakerCallsBy, sameDone, sameAsked] at active
      exact h.active i active
  · intro i d named
    by_cases same : i = id
    · subst same
      cases known.symm.trans named
      exact ⟨done.2, asked.2⟩
    · obtain ⟨sameDone, sameAsked⟩ := others i same
      rw [System.doneBy, System.breakerCallsBy, sameDone, sameAsked]
      exact h.progress i d named
  · intro i k v t ttl ended
    obtain ⟨completed, returned⟩ := h.succeeded i k v t ttl ended
    exact ⟨kept i _ completed, returned⟩
  · exact fun i k x ended => kept i _ (h.stopped i k x ended)

omit [DecidableEq Task] in
theorem sound_effect {s : System Task V} (coherent : Coherent s.store)
    (chronicle : Chronicle s.store) (h : Sound s) {id : ℕ} {c : Caller Task}
    (executing : Executing s.store id c) {call : Call V} (known : s.calls id = some call)
    {e : Effect} (next : call.effects[(s.doneBy id).length]? = some e) :
    Sound { s with happened := s.happened ++ [(id, e)] } := by
  obtain ⟨done, asked⟩ := h.progress id call known
  refine sound_history coherent chronicle h executing known (fun i other => ⟨?_, rfl⟩)
    (ofCall_next done next) ⟨List.prefix_rfl, asked⟩
  rw [ofCall_snoc, if_neg (Ne.symm other)]
  rfl

omit [DecidableEq Task] in
theorem sound_breakerCall {s : System Task V} (coherent : Coherent s.store)
    (chronicle : Chronicle s.store) (h : Sound s) {id : ℕ} {c : Caller Task}
    (executing : Executing s.store id c) {call : Call V} (known : s.calls id = some call)
    {b : BreakerCall} (next : call.breakerCalls[(s.breakerCallsBy id).length]? = some b) :
    Sound { s with breakerCalls := s.breakerCalls ++ [(id, b)] } := by
  obtain ⟨done, asked⟩ := h.progress id call known
  refine sound_history coherent chronicle h executing known (fun i other => ⟨rfl, ?_⟩)
    ⟨List.prefix_rfl, done⟩ (ofCall_next asked next)
  rw [ofCall_snoc, if_neg (Ne.symm other)]
  rfl

omit [DecidableEq Task] in
theorem sound_finish {s : System Task V} (coherent : Coherent s.store)
    (chronicle : Chronicle s.store)
    (h : Sound s) {id : ℕ} {c : Caller Task} (executing : Executing s.store id c) {call : Call V}
    (known : s.calls id = some call) (whole : (s.doneBy id).length = call.effects.length)
    (all : (s.breakerCallsBy id).length = call.breakerCalls.length) :
    Sound { s with store := IdempotencyRuns.finish s.store id c call.outcome } := by
  obtain ⟨done, asked⟩ := h.progress id call known
  have now : Completed s id call.outcome :=
    ⟨call, known, rfl, done.eq_of_length whole, asked.eq_of_length all⟩
  have keyed := h.callers id c executing.1
  have started := chronicle.started c.key _ (coherent.owner id c executing).1
  obtain ⟨es, log, adds, succeeds, stops, returns⟩ := finish_adds s.store id c call.outcome
  have later (e : Event (OperationResult V)) (member : e ∈ s.store.log) :
      e ∈ (IdempotencyRuns.finish s.store id c call.outcome).log := by
    rw [log]
    exact List.mem_append_left es member
  have added (e : Event (OperationResult V)) (member : e ∈ es) :
      e ∈ (IdempotencyRuns.finish s.store id c call.outcome).log := by
    rw [log]
    exact List.mem_append_right s.store.log member
  constructor
  · intro i new
    rw [show _ = s.store.nextId from finish_next s.store id c call.outcome] at new
    exact h.fresh i new
  · intro i d there
    rw [show _ = Function.update s.store.callers id none from
      finish_callers s.store id c call.outcome] at there
    exact h.callers i d (caller_remains there)
  · intro e member i key named
    rw [show _ = s.store.log ++ es from log] at member
    rcases List.mem_append.mp member with before | new
    · exact h.filed e before i key named
    · obtain ⟨rfl, rfl⟩ := adds e new i key named
      exact h.callers i c executing.1
  · intro i active
    obtain ⟨key, started⟩ := h.active i active
    exact ⟨key, later _ started⟩
  · exact h.progress
  · intro i k v t ttl ended
    rw [show _ = s.store.log ++ es from log] at ended
    rcases List.mem_append.mp ended with before | new
    · obtain ⟨completed, returned⟩ := h.succeeded i k v t ttl before
      exact ⟨completed, later _ returned⟩
    · obtain ⟨rfl, outcome, returned⟩ := succeeds i k v t ttl new
      exact ⟨outcome ▸ now, added _ returned⟩
  · intro i k x ended
    rw [show _ = s.store.log ++ es from log] at ended
    rcases List.mem_append.mp ended with before | new
    · exact h.stopped i k x before
    · obtain ⟨rfl, outcome⟩ := stops i k x new
      exact outcome ▸ now
  · intro i v k t returned
    rw [show _ = s.store.log ++ es from log] at returned
    rcases List.mem_append.mp returned with before | new
    · obtain ⟨ttl, ended⟩ := h.executed i v k t before
      exact ⟨ttl, later _ ended⟩
    · obtain ⟨ttl, ended⟩ := returns i k v t new
      exact ⟨ttl, added _ ended⟩

structure Whole (start : ℚ) (s : System Task V) : Prop where
  store : Reachable IdempotencyRuns.step (IdempotencyRuns.initial start) s.store
  sound : Sound s

theorem onStore_inv {s t : System Task V}
    {l : IdempotencyRuns.Label Task (OperationResult V)} (h : onStore s l = some t) :
    ∃ store, IdempotencyRuns.step s.store l = some store ∧ t = { s with store } := by
  obtain ⟨store, hs, rfl⟩ := Option.map_eq_some_iff.mp h
  exact ⟨store, hs, rfl⟩

theorem whole_onStore {start : ℚ} {s t : System Task V} (h : Whole start s)
    {l : IdempotencyRuns.Label Task (OperationResult V)} (hs : onStore s l = some t)
    (other : ∀ id o, l ≠ .finish id o) (quiet : ∀ task key ttl, l ≠ .execute task key ttl) :
    Whole start t := by
  obtain ⟨store, stepped, rfl⟩ := onStore_inv hs
  have continues := step_continues stepped other
  refine ⟨reachable_snoc h.store stepped, sound_continues h.sound continues ?_ (fun _ _ same => same)
    (fun _ _ same => .inl same) fun task key ttl eq => absurd eq (quiet task key ttl)⟩
  exact fun i new => h.sound.fresh i (le_trans continues.next new)

theorem whole_step {start : ℚ} {s t : System Task V} {l : Label Task V} (h : Whole start s)
    (hs : step s l = some t) : Whole start t := by
  obtain ⟨coherent, chronicle⟩ := chronicle_reachable h.store
  cases l with
  | run task call =>
    simp only [step] at hs
    split at hs
    · cases hs
    · rename_i policy configured
      split at hs
      · cases hs
        exact h
      · rename_i key named
        obtain ⟨u, entered, rfl⟩ := Option.map_eq_some_iff.mp hs
        obtain ⟨store, stepped, rfl⟩ := onStore_inv entered
        have continues := step_continues stepped (by simp)
        refine ⟨reachable_snoc h.store stepped, sound_continues h.sound continues ?_ ?_ ?_ ?_⟩
        · intro i new
          rw [execute_next stepped] at new
          have other : i ≠ s.store.nextId := by omega
          simpa [other] using h.sound.fresh i (by omega)
        · intro i d there
          have other : i ≠ s.store.nextId := by
            rintro rfl
            cases there.symm.trans (h.sound.fresh _ (le_refl _))
          simpa [other] using there
        · intro i d there
          by_cases same : i = s.store.nextId
          · exact .inr (h.sound.fresh i (Nat.le_of_eq same.symm))
          · exact .inl (by simpa [same] using there)
        · intro task' key' ttl' eq
          cases eq
          exact ⟨call, by simp, policy, configured, named⟩
  | effect id =>
    simp only [step] at hs
    split at hs
    · rename_i c call there known
      split at hs
      · rename_i executing
        obtain ⟨e, next, rfl⟩ := Option.map_eq_some_iff.mp hs
        exact ⟨h.store, sound_effect coherent chronicle h.sound ⟨there, executing⟩ known next⟩
      · cases hs
    · cases hs
  | breakerCall id =>
    simp only [step] at hs
    split at hs
    · rename_i c call there known
      split at hs
      · rename_i executing
        obtain ⟨b, next, rfl⟩ := Option.map_eq_some_iff.mp hs
        exact ⟨h.store, sound_breakerCall coherent chronicle h.sound ⟨there, executing⟩ known next⟩
      · cases hs
    · cases hs
  | finish id =>
    simp only [step] at hs
    split at hs
    · rename_i call known
      split at hs
      · rename_i whole
        obtain ⟨store, stepped, rfl⟩ := onStore_inv hs
        have reached := reachable_snoc h.store stepped
        obtain ⟨c, executing, rfl⟩ := finish_inv stepped
        exact ⟨reached, sound_finish coherent chronicle h.sound executing known whole.1 whole.2⟩
      · cases hs
    · cases hs
  | wake id => exact whole_onStore h hs (by simp) (by simp)
  | cancelJoined id => exact whole_onStore h hs (by simp) (by simp)
  | purgeExpired => exact whole_onStore h hs (by simp) (by simp)
  | entryCount => exact whole_onStore h hs (by simp) (by simp)
  | advance d => exact whole_onStore h hs (by simp) (by simp)

theorem whole_reachable {start : ℚ} {s : System Task V} (h : Reachable step (initial start) s) :
    Whole start s :=
  invariant_reachable ⟨⟨[], rfl⟩, sound_initial start⟩ (fun _ _ _ whole hs => whole_step whole hs) h

/-! Results. -/

/-- The execution `f` whose value a result of call `i` is, by the history before it. -/
def Source {W : Type} (log : List (Event W)) (i : ℕ) (r : IdempotencyResult W) (f : ℕ) : Prop :=
  match r.status with
  | .executed => f = i
  | .joined => ∃ before after, JoinedAt log before after i f r.key
  | .replayed => ∃ t ttl, lastExecution r.key log = some (.succeeded f r.key r.value t ttl)

/-- `result` is the executed result with another idempotency status and, for the executed
    result too, the idempotency keys are what it has on top of the report `inner`. -/
structure Reuses (s : IdempotencyStatus) (inner : ExecutionReport)
    (executed result : OperationResult V) : Prop where
  value : result.value = executed.value
  report : result.report = { executed.report with metadata := result.report.metadata }
  others : ∀ k, k ≠ "idempotency_status" → k ≠ "idempotency_cache_hit" →
    result.report.metadata.lookup k = executed.report.metadata.lookup k
  status : result.report.metadata.lookup "idempotency_status" = some (.str s.value)
  cacheHit : result.report.metadata.lookup "idempotency_cache_hit" = some (.bool (s ≠ .executed))
  onTop : ∀ k ∉ idempotencyKeys, result.report.metadata.lookup k = inner.metadata.lookup k
  unmodified : ∀ k ∈ idempotencyKeys, k ∉ inner.metadata

omit [DecidableEq Task] in
theorem reuses_executed {r : IdempotencyResult (OperationResult V)} (h : Reported r.value) :
    ∃ executed result, operationResultWithIdempotencyMetadata
        { r with status := .executed } = .ok executed ∧
      operationResultWithIdempotencyMetadata r = .ok result ∧
      executed.value = r.value.value ∧ Reuses r.status r.value.report executed result := by
  obtain ⟨result, rebuilt, value, report⟩ := idempotency_metadata_added (r := r) h
  obtain ⟨executed, first, value', report'⟩ :=
    idempotency_metadata_added (r := { r with status := .executed }) h
  refine ⟨executed, result, first, rebuilt, value', ?_⟩
  constructor
  · exact value.trans value'.symm
  · rw [report, report']
  · intro k status cacheHit
    rw [report, report']
    simp only [lookup_update, idempotencyMetadata_lookup, status, cacheHit, if_false]
  · rw [report]
    simp [lookup_update, idempotencyMetadata_lookup]
  · rw [report]
    cases status : r.status <;>
      simp [lookup_update, idempotencyMetadata_lookup, IdempotencyResult.cacheHit, status]
  · intro k other
    rw [report]
    simp [idempotencyKeys] at other
    simp [lookup_update, idempotencyMetadata_lookup, other]
  · exact h.2

omit [DecidableEq Task] in
/-- Every result is that of an execution whose lifecycle returned it. -/
theorem source_succeeded {s : System Task V} (sound : Sound s)
    (faithful : Justified Faithful s.store.log) {before after : List (Event (OperationResult V))}
    {i : ℕ} {r : IdempotencyResult (OperationResult V)} {now : ℚ}
    (returned : s.store.log = before ++ .returned i r now :: after) :
    ∃ f t ttl, Source before i r f ∧ .succeeded f r.key r.value t ttl ∈ s.store.log := by
  have owed := faithful before _ after returned
  obtain ⟨value, key, status⟩ := r
  have old (e : Event (OperationResult V)) (member : e ∈ before) : e ∈ s.store.log := by
    rw [returned]
    exact List.mem_append_left _ member
  cases status with
  | executed =>
    obtain ⟨ttl, ended⟩ := sound.executed i value key now (by rw [returned]; simp)
    exact ⟨i, now, ttl, rfl, ended⟩
  | joined =>
    obtain ⟨front, back, f, at_, _, t, ttl, ended⟩ := owed
    refine ⟨f, t, ttl, ⟨front, back, at_⟩, old _ ?_⟩
    rw [at_.1]
    simp [ended]
  | replayed =>
    obtain ⟨f, t, ttl, last, _⟩ := owed
    exact ⟨f, t, ttl, ⟨t, ttl, last⟩, old _ (lastExecution_mem last)⟩

/-- In every reachable state of concurrent calls that share a store:

    a call that has not started an execution has no effect and makes no breaker call, and
    the effects and breaker calls of one that has are those of its lifecycle, the first so
    many while it runs and all of them once it has ended;

    a result, executed, joined or replayed, is the result of the lifecycle of an execution
    of the same key, with the same value and report but for its own idempotency status;

    a lifecycle that raised is no result's execution. -/
theorem lifecycle_deduplicated (start : ℚ) (s : System Task V)
    (h : Reachable step (initial start) s) :
    (∀ i, (∀ key, .started i key ∉ s.store.log) → s.doneBy i = [] ∧ s.breakerCallsBy i = []) ∧
    (∀ i key, .started i key ∈ s.store.log → ∃ call, s.calls i = some call ∧ call.HasKey key ∧
      s.doneBy i <+: call.effects ∧ s.breakerCallsBy i <+: call.breakerCalls ∧
      (∀ k v t ttl, .succeeded i k v t ttl ∈ s.store.log → Completed s i (.ok v)) ∧
      ∀ k x, .stopped i k x ∈ s.store.log → Completed s i (.error x)) ∧
    (∀ before after i r now, s.store.log = before ++ .returned i r now :: after →
      Filed s i r.key ∧ ∃ f, Source before i r f ∧ Filed s f r.key ∧ Completed s f (.ok r.value) ∧
        (∃ t, .returned f { r with status := .executed } t ∈ s.store.log) ∧
        (∀ k x, .stopped f k x ∉ s.store.log) ∧
        ∃ executed result,
          operationResultWithIdempotencyMetadata { r with status := .executed } = .ok executed ∧
          operationResultWithIdempotencyMetadata r = .ok result ∧
          executed.value = r.value.value ∧ Reuses r.status r.value.report executed result) := by
  obtain ⟨reached, sound⟩ := whole_reachable h
  obtain ⟨coherent, chronicle⟩ := chronicle_reachable reached
  refine ⟨?_, ?_, ?_⟩
  · intro i never
    by_contra busy
    obtain ⟨key, started⟩ := sound.active i (by tauto)
    exact never key started
  · intro i key started
    obtain ⟨call, known, keyed⟩ := sound.filed _ started i key rfl
    obtain ⟨done, asked⟩ := sound.progress i call known
    exact ⟨call, known, keyed, done, asked,
      fun k v t ttl ended => (sound.succeeded i k v t ttl ended).1, sound.stopped i⟩
  · intro before after i r now returned
    have member : .returned i r now ∈ s.store.log := by
      rw [returned]
      simp
    obtain ⟨f, t, ttl, source, ended⟩ := source_succeeded sound (faithful_reachable reached) returned
    obtain ⟨completed, executed⟩ := sound.succeeded f _ _ t ttl ended
    obtain ⟨call, known, outcome, rest⟩ := completed
    have reported : Reported r.value :=
      call.op.yields_run call.env call.interruption call.session [] r.value outcome
    refine ⟨sound.filed _ member i r.key rfl, f, source, sound.filed _ ended f r.key rfl,
      ⟨call, known, outcome, rest⟩, ⟨t, executed⟩, ?_, reuses_executed reported⟩
    intro k x failed
    exact (chronicle.gone f k x failed).2.2 r.value (chronicle.value f _ _ t ttl ended)

def keyed : AsyncOperation ℕ := { observed with
  operation := fun _ => { outcome := .ok 7 }
  eventEmitter := none
  circuitBreaker := some BreakerRuns.fragile
  idempotencyPolicy := some { keyFactory := .ok (.scalar (.str "k")) } }

def keyedCall : Call ℕ := { op := keyed, env := steady }

/-- Task 2 joins the execution of task 1, and task 3 gets its result replayed. -/
def sharedLifecycle : List (Label ℕ ℕ) :=
  [.run 1 keyedCall, .run 2 keyedCall, .breakerCall 0, .effect 0, .breakerCall 0, .finish 0,
    .wake 1, .run 3 keyedCall]

def starts (id : ℕ) : IdempotencyRuns.Event V → Bool
  | .started owner _ => owner = id
  | _ => false

def returnedTo (id : ℕ) : IdempotencyRuns.Event V → Option (IdempotencyResult V × ℚ)
  | .returned caller r now => if caller = id then some (r, now) else none
  | _ => none

theorem returnedTo_eq_some {id : ℕ} {e : IdempotencyRuns.Event V} {r : IdempotencyResult V}
    {now : ℚ}
    (h : returnedTo id e = some (r, now)) : e = .returned id r now := by
  cases e with
  | returned caller r' now' =>
    simp only [returnedTo] at h
    split at h
    · rename_i same
      cases h
      rw [same]
    · cases h
  | _ => cases h

theorem sharedLifecycle_state : ∃ s : System ℕ ℕ, run step (initial 0) sharedLifecycle = some s ∧
    (∀ key, .started 1 key ∉ s.store.log) ∧
    ∃ r now, s.store.log[4]? = some (.returned 1 r now) ∧ r.status = .joined := by
  have done : (run step (initial 0 : System ℕ ℕ) sharedLifecycle).any (fun s =>
      s.store.log.all (fun e => !starts 1 e) &&
      (s.store.log[4]?.bind (returnedTo 1)).any fun r => r.1.status = .joined) = true := by
    decide +kernel
  obtain ⟨s, hs, facts⟩ := (Option.any_eq_true _ _).mp done
  rw [Bool.and_eq_true, List.all_eq_true] at facts
  refine ⟨s, hs, ?_, ?_⟩
  · intro key started
    have not_started := facts.1 _ started
    simp [starts] at not_started
  · obtain ⟨⟨r, now⟩, found, joined⟩ := (Option.any_eq_true _ _).mp facts.2
    obtain ⟨e, at_, returned⟩ := Option.bind_eq_some_iff.mp found
    rw [returnedTo_eq_some returned] at at_
    exact ⟨r, now, at_, by simpa using joined⟩

theorem lifecycle_deduplicated_shared : ∃ s : System ℕ ℕ,
    run step (initial 0) sharedLifecycle = some s ∧ s.doneBy 1 = [] ∧ s.breakerCallsBy 1 = [] ∧
    ∃ r now executed result, .returned 1 r now ∈ s.store.log ∧
      operationResultWithIdempotencyMetadata r = .ok result ∧
      Reuses .joined r.value.report executed result := by
  obtain ⟨s, hs, never, r, now, at_, joined⟩ := sharedLifecycle_state
  obtain ⟨others, _, results⟩ := lifecycle_deduplicated 0 s ⟨_, hs⟩
  obtain ⟨before, after, returned⟩ := List.append_of_mem (List.mem_of_getElem? at_)
  obtain ⟨_, f, _, _, _, _, _, executed, result, _, rebuilt, _, reuses⟩ :=
    results before after 1 r now returned
  obtain ⟨idle, unasked⟩ := others 1 never
  exact ⟨s, hs, idle, unasked, r, now, executed, result, List.mem_of_getElem? at_, rebuilt,
    joined ▸ reuses⟩

end Relprim.IdempotentRuns
