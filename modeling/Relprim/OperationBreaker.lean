import Relprim.BreakerRuns
import Relprim.OperationBudget

/-!
A run of an operation is one of the callers of its breaker. The turns of the
environment are those of other callers that keep to the protocol; then the whole
run, aborted or not, is made of protocol steps, and its calls come and go.
-/
namespace Relprim
open Interruptible Interruptible.Program LabelledRuns BreakerRuns

/-! What a caller sees of the protocol. -/

namespace BreakerRuns
variable {cb : CircuitBreaker}

/-- Steps of other callers, none of which ends the call `own`. -/
def Others (cb : CircuitBreaker) (own : Option ℕ) (s t : System) : Prop :=
  ∃ ls, run (step cb) s ls = some t ∧ ∀ id ∈ own, ∀ o, Label.complete id o ∉ ls

/-- One caller among others: the calls of its own, in order, with what it told the breaker. -/
inductive Joint (cb : CircuitBreaker) :
    System → System → List (ℕ × Except Raised Unit) → Prop where
  | others {s t : System} (h : Others cb none s t) : Joint cb s t []
  | refused {s : System} {e : Exc} (h : cb.beforeCall s.now s.breaker = (.error e, s.breaker)) :
      Joint cb s (arrive cb s) []
  | call {s t : System} {c : Call} {o : Except Raised Unit}
      (accepted : (arrive cb s).inFlight = c :: s.inFlight)
      (others : Others cb (some c.id) (arrive cb s) t) : Joint cb s (complete cb t c o) [(c.id, o)]
  | trans {s t u : System} {told told' : List (ℕ × Except Raised Unit)}
      (first : Joint cb s t told) (second : Joint cb t u told') : Joint cb s u (told ++ told')

def Gone (s : System) (id : ℕ) : Prop := id < s.nextId ∧ ∀ c ∈ s.inFlight, c.id ≠ id

theorem arrive_accepted {s : System} {c : Call} (h : (arrive cb s).inFlight = c :: s.inFlight) :
    c.id = s.nextId ∧ (arrive cb s).nextId = s.nextId + 1 := by
  rcases arrive_cases cb s with ⟨eq, _⟩ | ⟨_, eq⟩ | ⟨_, eq⟩ | ⟨_, _, eq⟩ <;> rw [eq] at h ⊢
  · exact absurd h.symm (List.cons_ne_self c _)
  all_goals
    simp only [accept, List.cons.injEq, and_true] at h
    subst h
    exact ⟨rfl, rfl⟩

theorem nextId_step {s t : System} {l : Label} (h : step cb s l = some t) :
    s.nextId ≤ t.nextId := by
  rcases step_cases h with ⟨_, rfl⟩ | ⟨c, _, o, _, rfl⟩ | ⟨_, rfl⟩ | ⟨d, _, _, rfl⟩
  · rcases arrive_cases cb s with ⟨eq, _⟩ | ⟨_, eq⟩ | ⟨_, eq⟩ | ⟨_, _, eq⟩ <;> rw [eq]
    all_goals exact Nat.le_succ _
  all_goals exact Nat.le_refl _

theorem gone_arrive {s : System} {id : ℕ} (h : Gone s id) : Gone (arrive cb s) id := by
  rcases arrive_cases cb s with ⟨eq, _⟩ | ⟨_, eq⟩ | ⟨_, eq⟩ | ⟨_, _, eq⟩ <;> rw [eq]
  · exact h
  all_goals
    refine ⟨Nat.lt_succ_of_lt h.1, fun c member => ?_⟩
    rcases List.mem_cons.mp member with rfl | old
    · exact Nat.ne_of_gt h.1
    · exact h.2 c old

theorem gone_step {s t : System} {l : Label} {id : ℕ} (gone : Gone s id)
    (h : step cb s l = some t) : Gone t id := by
  rcases step_cases h with ⟨_, rfl⟩ | ⟨c, _, o, _, rfl⟩ | ⟨_, rfl⟩ | ⟨d, _, _, rfl⟩
  · exact gone_arrive gone
  · exact ⟨gone.1, fun d member => gone.2 d (List.mem_filter.mp member).1⟩
  · exact gone
  · exact gone

theorem gone_run {s t : System} {ls : List Label} {id : ℕ} (gone : Gone s id)
    (h : run (step cb) s ls = some t) : Gone t id :=
  invariant_run (I := fun s => Gone s id) (fun _ _ _ gone h => gone_step gone h) gone h

theorem nextId_run {s t : System} {ls : List Label} (h : run (step cb) s ls = some t) :
    s.nextId ≤ t.nextId :=
  invariant_run (I := fun u => s.nextId ≤ u.nextId)
    (fun _ _ _ le h => Nat.le_trans le (nextId_step h)) (Nat.le_refl _) h

theorem inFlight_step {s t : System} {l : Label} {c : Call} (member : c ∈ s.inFlight)
    (spared : ∀ o, l ≠ .complete c.id o) (h : step cb s l = some t) : c ∈ t.inFlight := by
  rcases step_cases h with ⟨_, rfl⟩ | ⟨d, _, o, rfl, rfl⟩ | ⟨_, rfl⟩ | ⟨d, _, _, rfl⟩
  · rcases arrive_cases cb s with ⟨eq, _⟩ | ⟨_, eq⟩ | ⟨_, eq⟩ | ⟨_, _, eq⟩ <;> rw [eq]
    · exact member
    all_goals exact List.mem_cons_of_mem _ member
  · have other : c.id ≠ d.id := fun same => spared o (by rw [same])
    exact List.mem_filter.mpr ⟨member, by simpa using other⟩
  · exact member
  · exact member

theorem inFlight_run {s t : System} {ls : List Label} {c : Call} (member : c ∈ s.inFlight)
    (spared : ∀ o, .complete c.id o ∉ ls) (h : run (step cb) s ls = some t) : c ∈ t.inFlight := by
  have each : Along (step cb) (fun _ l => ∀ o, l ≠ .complete c.id o) s ls := by
    apply along_of_mem
    rintro l inside _ o rfl
    exact spared o inside
  exact invariant_along (I := fun s => c ∈ s.inFlight)
    (fun _ _ _ member other h => inFlight_step member other h) member each h

theorem wellFormed_run {s t : System} {ls : List Label} (w : WellFormed s)
    (h : run (step cb) s ls = some t) : WellFormed t :=
  invariant_run (I := WellFormed) (fun _ _ _ w h => wellFormed_step w h) w h

/-- What a caller does with others is a run of the protocol, after which its calls are over. -/
theorem joint_run {s t : System} {told : List (ℕ × Except Raised Unit)} (h : Joint cb s t told)
    (w : WellFormed s) : (∃ ls, run (step cb) s ls = some t) ∧
      (∀ entry ∈ told, s.nextId ≤ entry.1 ∧ Gone t entry.1) ∧
      (told.map Prod.fst).Pairwise (· < ·) := by
  induction h with
  | others h =>
    obtain ⟨ls, run, _⟩ := h
    exact ⟨⟨ls, run⟩, by simp, by simp⟩
  | @refused s e h =>
    exact ⟨⟨[.arrive], rfl⟩, by simp, by simp⟩
  | @call s t c o accepted others =>
    obtain ⟨ls, run, spared⟩ := others
    obtain ⟨named, next⟩ := arrive_accepted accepted
    have arrived : step cb s .arrive = some (arrive cb s) := rfl
    have present : c ∈ t.inFlight :=
      inFlight_run (by rw [accepted]; exact List.mem_cons_self) (spared c.id rfl) run
    have distinct := (wellFormed_run (wellFormed_step w arrived) run).ids_inj
    have found : t.inFlight.find? (fun d => d.id = c.id) = some c := by
      cases search : t.inFlight.find? (fun d => d.id = c.id) with
      | none => exact absurd (List.find?_eq_none.mp search c present) (by simp)
      | some d =>
        have same : d.id = c.id := by simpa using List.find?_some search
        rw [distinct d (List.mem_of_find?_eq_some search) c present same]
    have ended : step cb t (.complete c.id o) = some (complete cb t c o) := by
      simp [step, found]
    refine ⟨⟨.arrive :: ls ++ [.complete c.id o], ?_⟩, ?_, by simp⟩
    · rw [run_snoc]
      exact ⟨t, run_cons.mpr ⟨_, arrived, run⟩, ended⟩
    · have later := nextId_run run
      rintro entry member
      obtain rfl := List.mem_singleton.mp member
      refine ⟨Nat.le_of_eq named.symm, ?_, fun d left => ?_⟩
      · change c.id < t.nextId
        omega
      · exact of_decide_eq_true (List.mem_filter.mp left).2
  | trans first second ih ih' =>
    obtain ⟨⟨ls, run⟩, gone, order⟩ := ih w
    obtain ⟨⟨ms, run'⟩, gone', order'⟩ := ih' (wellFormed_run w run)
    refine ⟨⟨ls ++ ms, run_append.mpr ⟨_, run, run'⟩⟩, ?_, ?_⟩
    · intro entry member
      rcases List.mem_append.mp member with old | new
      · exact ⟨(gone entry old).1, gone_run (gone entry old).2 run'⟩
      · exact ⟨Nat.le_trans (nextId_run run) (gone' entry new).1, (gone' entry new).2⟩
    · rw [List.map_append, List.pairwise_append]
      refine ⟨order, order', ?_⟩
      rintro i old j new
      obtain ⟨entry, member, rfl⟩ := List.mem_map.mp old
      obtain ⟨entry', member', rfl⟩ := List.mem_map.mp new
      exact Nat.lt_of_lt_of_le (gone entry member).2.1 (gone' entry' member').1

end BreakerRuns

/-! What a run does beside its breaker. -/

abbrev Aside {A : Type} (m : Run A) : Prop :=
  Confined (fun e => ∀ attempt, e ≠ Effect.primary attempt) Session.breaker m

section
variable {A B : Type}

theorem aside_reading (f : ℕ → A) : Aside (Run.reading f) := confined_atomic fun _ => rfl

theorem aside_effect {e : Effect} (h : ∀ attempt, e ≠ .primary attempt) :
    Aside (effect e : Run Unit) := confined_effect h

theorem aside_calls : Calls @Aside where
  pure _ := confined_pure _
  bind first second := confined_bind first second
  lift _ := confined_fromExcept _
  candidate _ := aside_effect nofun
  tryExcept inside := confined_attempt inside

theorem aside_deliver (event : StructuredEvent) (sinks : List ℕ) :
    Aside (EventEmitter.deliver event sinks) := by
  induction sinks with
  | nil => exact confined_pure _
  | cons sink rest ih => exact confined_bind (aside_effect nofun) fun _ => ih

theorem aside_emit (emitter : EventEmitter) (type : EventType) (name : String)
    (payload : EventPayload) : Aside (emitter.emit type name payload) := by
  unfold EventEmitter.emit
  apply confined_bind (aside_reading _)
  intro timestamp
  apply confined_bind (aside_calls.lift _)
  intro event
  exact confined_bind (aside_deliver _ _) fun _ => confined_pure _

abbrev Grows (m : Run A) : Prop := Confined (fun _ : Effect => True) (fun _ : Session => ()) m

theorem grows_aside {m : Run A} (h : Aside m) : Grows m := by
  intro p s tr
  obtain ⟨_, es, trace, _⟩ := h p s tr
  exact ⟨rfl, es, trace, fun _ _ => trivial⟩

theorem grows_attempts : Attempts @Grows where
  pure _ := confined_pure _
  bind first second := confined_bind first second
  lift _ := confined_fromExcept _
  candidate _ := confined_effect trivial
  tryExcept inside := confined_attempt inside
  primary _ := confined_effect trivial
  guarded inside _ _ := confined_bind (confined_atomic fun _ => rfl) fun _ =>
    confined_onExit (fun _ _ => rfl) inside

end

namespace AsyncOperation
variable {V : Type} (op : AsyncOperation V) (env : Environment)

theorem aside_emitEvent (type : EventType) (payload : EventPayload) :
    Aside (op.emitEvent type payload) := by
  unfold emitEvent
  split
  · exact confined_pure _
  · exact confined_bind (aside_emit _ _ _ _) fun _ => confined_pure _

theorem aside_settles : Settles op @Aside where
  pure _ := confined_pure _
  bind first second := confined_bind first second
  emit type payload := op.aside_emitEvent type payload
  sleep _ := aside_effect nofun
  internal _ := confined_raise _
  reading f := aside_reading f
  lift _ := confined_fromExcept _
  candidates chain := confined_attempt (aside_calls.chain chain)

/-! A run only adds to its trace. -/

theorem grows_settles : Settles op @Grows where
  pure _ := confined_pure _
  bind first second := confined_bind first second
  emit type payload := grows_aside (op.aside_emitEvent type payload)
  sleep _ := confined_effect trivial
  internal _ := confined_raise _
  reading f := grows_aside (aside_reading f)
  lift _ := confined_fromExcept _
  candidates chain := confined_attempt (grows_attempts.toCalls.chain chain)

theorem grows_after (started : Started) (progress : Progress) (attempt : ℕ)
    (attemptStarted : Started) (outcome : Except Exc (V × Metadata)) : Grows (match outcome with
      | .error e => op.afterFailure env started progress attempt attemptStarted e
      | .ok (value, metadata) =>
        op.afterSuccess env started progress attempt attemptStarted value metadata) := by
  rcases outcome with e | ⟨value, metadata⟩
  · exact op.grows_settles.afterFailure env _ _ _ _ _
  · exact op.grows_settles.afterSuccess env _ _ _ _ _ _

theorem grows_runAttempts (started : Started) (remaining attempt : ℕ) (progress : Progress) :
    Grows (op.runAttempts env started remaining attempt progress) :=
  op.grows_settles.runAttempts
    (fun i => confined_attempt (grows_attempts.runSingleAttempt env i)) _ _ _ _

/-! The run as one of the callers. -/

def ownOutcome (i : ℕ) : Except Raised Unit :=
  ((op.checked (op.timedOutcome env i) (.attempt i)).mapError Raised.exception).map fun _ => ()

/-- From attempt `i` on, which finds the system `s`, the turns of the environment are what
    other callers do and how long they take. -/
inductive Accompanied (cb : CircuitBreaker) : ℕ → System → Prop where
  | done {i : ℕ} {s : System} (past : op.maxAttempts < i) : Accompanied cb i s
  | refused {i : ℕ} {s t : System} {e : Exc} (before : Others cb none s t)
      (found : t.breaker = (env.breakerTurn i).before s.breaker)
      (clock : t.now = (env.breakerTurn i).admittedAt)
      (refusal : cb.beforeCall t.now t.breaker = (.error e, t.breaker))
      (later : Accompanied cb (i + 1) (arrive cb t)) : Accompanied cb i s
  | admitted {i : ℕ} {s t u : System} {c : Call} (before : Others cb none s t)
      (found : t.breaker = (env.breakerTurn i).before s.breaker)
      (clock : t.now = (env.breakerTurn i).admittedAt)
      (accepted : (arrive cb t).inFlight = c :: t.inFlight)
      (during : Others cb (some c.id) (arrive cb t) u)
      (found' : u.breaker = (env.breakerTurn i).during (arrive cb t).breaker)
      (clock' : u.now = (env.breakerTurn i).completedAt)
      (later : Accompanied cb (i + 1) (complete cb u c (op.ownOutcome env i))) :
      Accompanied cb i s

/-- After the first `k` effects no Exception is raised from outside in a call of the operation;
    one that the operation raises is its outcome. -/
def FromOutside (p : Option (ℕ × Raised)) (k : ℕ) (es : List Effect) : Prop :=
  ∀ n x i, p = some (n, x) → k ≤ n → es[n]? = some (.primary i) → x.exception? = none

def Tells (p : Option (ℕ × Raised)) (i : ℕ) (o : Except Raised Unit) : Prop :=
  o = op.ownOutcome env i ∨ ∃ n x, p = some (n, x) ∧ o = .error x

/-- The part of the run `m` in the system: from `s` with the session's breaker it takes the
    system to one with the breaker it leaves, and each call of the operation is a call there. -/
def Serves {A : Type} (cb : CircuitBreaker) (s : System) (m : Run A) (Q : A → System → Prop) :
    Prop :=
  ∀ p session tr, session.breaker = s.breaker → FromOutside p tr.length (m p session tr).2.2 →
    ∃ t told es, Joint cb s t told ∧ (m p session tr).2.1.breaker = t.breaker ∧
      (m p session tr).2.2 = tr ++ es ∧
      List.Forall₂ (op.Tells env p) (primaries es) (told.map Prod.snd) ∧
      ∀ a, (m p session tr).1 = .ok a → Q a t

section
variable {op : AsyncOperation V} {env : Environment} {cb : CircuitBreaker} {s : System}
variable {A B : Type}

theorem primaries_aside {es : List Effect} (aside : ∀ e ∈ es, ∀ attempt, e ≠ .primary attempt) :
    primaries es = [] := by
  refine List.filterMap_eq_nil_iff.mpr fun e member => ?_
  cases e with
  | primary attempt => exact absurd rfl (aside _ member attempt)
  | deliver sink event => rfl
  | candidate index => rfl
  | sleep d => rfl

theorem serves_aside {m : Run A} (h : Aside m) : op.Serves env cb s m fun _ t => t = s := by
  intro p session tr same _
  obtain ⟨kept, es, trace, aside⟩ := h p session tr
  exact ⟨s, [], es, .others ⟨[], rfl, by simp⟩, kept.trans same, trace,
    by simp [primaries_aside aside], fun _ _ => rfl⟩

theorem outside_aside {m : Run A} (h : Aside m) (p : Option (ℕ × Raised)) (session : Session)
    (tr : List Effect) : FromOutside p tr.length (m p session tr).2.2 := by
  intro n x i _ late called
  obtain ⟨_, es, trace, aside⟩ := h p session tr
  rw [trace, List.getElem?_append_right late] at called
  exact absurd rfl (aside _ (List.mem_of_getElem? called) i)

/-- The rule for two parts of a run, the first of which is not interrupted in a call by an
    Exception unless the whole is. -/
theorem serves_bind {m : Run A} {f : A → Run B} {P : A → System → Prop} {Q : B → System → Prop}
    (part : ∀ p session tr, FromOutside p tr.length ((m >>= f) p session tr).2.2 →
      FromOutside p tr.length (m p session tr).2.2)
    (first : op.Serves env cb s m P) (second : ∀ a t, P a t → op.Serves env cb t (f a) Q) :
    op.Serves env cb s (m >>= f) Q := by
  intro p session tr same outside
  obtain ⟨t, told, es, joint, breaker, trace, calls, post⟩ :=
    first p session tr same (part p session tr outside)
  rcases out : m p session tr with ⟨r, session', tr'⟩
  rw [out] at breaker trace post
  have longer : tr.length ≤ tr'.length := by simp [show tr' = tr ++ es from trace]
  cases r with
  | ok a =>
    simp only [bind, andThen, out] at outside ⊢
    obtain ⟨u, told', es', joint', breaker', trace', calls', post'⟩ :=
      second a t (post a rfl) p session' tr' breaker
        fun n x i at_ late => outside n x i at_ (Nat.le_trans longer late)
    refine ⟨u, told ++ told', es ++ es', joint.trans joint', breaker', ?_, ?_, post'⟩
    · rw [trace', show tr' = tr ++ es from trace, List.append_assoc]
    · rw [List.map_append, primaries, List.filterMap_append]
      exact List.rel_append calls calls'
  | error x =>
    simp only [bind, andThen, out]
    exact ⟨t, told, es, joint, breaker, trace, calls, fun _ impossible => by cases impossible⟩

/-- A block goes on beside the breaker, so an interruption of a call comes before it. -/
theorem outside_before {m : Run A} {f : A → Run B} (grows : ∀ a, Grows (f a))
    (p : Option (ℕ × Raised)) (session : Session) (tr : List Effect)
    (outside : FromOutside p tr.length ((m >>= f) p session tr).2.2) :
    FromOutside p tr.length (m p session tr).2.2 := by
  intro n x i at_ late called
  refine outside n x i at_ late ?_
  rcases out : m p session tr with ⟨r, session', tr'⟩
  rw [out] at called
  cases r with
  | ok a =>
    obtain ⟨_, more, trace, _⟩ := grows a p session' tr'
    simp only [bind, andThen, out]
    rw [trace, List.getElem?_append_left (List.getElem?_eq_some_iff.mp called).1, called]
  | error x =>
    simp only [bind, andThen, out]
    exact called

theorem serves_mono {m : Run A} {P Q : A → System → Prop} (h : op.Serves env cb s m P)
    (sub : ∀ a t, P a t → Q a t) : op.Serves env cb s m Q := by
  intro p session tr same outside
  obtain ⟨t, told, es, joint, breaker, trace, calls, post⟩ := h p session tr same outside
  exact ⟨t, told, es, joint, breaker, trace, calls, fun a returned => sub a t (post a returned)⟩

theorem serves_after {m : Run A} {f : A → Run B} {Q : B → System → Prop} (h : Aside m)
    (rest : ∀ a, op.Serves env cb s (f a) Q) : op.Serves env cb s (m >>= f) Q :=
  serves_bind (fun p session tr _ => outside_aside h p session tr) (serves_aside h)
    fun a _ same => same ▸ rest a

theorem attempt_rest {Y : Type} {catches : Raised → Option Y} (m : Run A)
    (p : Option (ℕ × Raised)) (session : Session) (tr : List Effect) :
    (attempt catches m p session tr).2 = (m p session tr).2 := by
  rcases out : m p session tr with ⟨r, session', tr'⟩
  cases r with
  | ok a => simp only [attempt, out]
  | error x => cases caught : catches x <;> simp only [attempt, out, caught]

theorem checked_run (op : AsyncOperation V) (outcome : Except Exc V) (occasion : Occasion)
    (p : Option (ℕ × Raised)) (session : Session) (tr : List Effect) :
    (do
      let value ← Run.lift (coroutine outcome)
      let metadata ← Run.lift (coroutine (op.validateValue occasion value))
      return (value, metadata) : Run (V × Metadata)) p session tr =
      ((op.checked outcome occasion).mapError .exception, session, tr) := by
  cases outcome with
  | error e => rfl
  | ok value =>
    simp only [checked, coroutine_ok, bind, andThen, Run.lift, fromExcept, Except.bind,
      Except.mapError]
    cases coroutine (op.validateValue occasion value) <;> rfl

/-- The call of the operation ends as the operation does, or with what interrupts it. -/
theorem call_run (op : AsyncOperation V) (env : Environment) (i : ℕ) (p : Option (ℕ × Raised))
    (session : Session) (tr : List Effect) :
    ∃ o, op.runSingleAttemptWithoutCircuitBreaker env i p session tr =
        (o, session, tr ++ [.primary i]) ∧
      (o = (op.checked (op.timedOutcome env i) (.attempt i)).mapError .exception ∨
        ∃ n x, p = some (n, x) ∧ o = .error x ∧ n = tr.length) := by
  have rest := op.checked_run (op.timedOutcome env i) (.attempt i) p session (tr ++ [.primary i])
  have goes (h : effect (.primary i) p session tr = (.ok (), session, tr ++ [.primary i])) :
      op.runSingleAttemptWithoutCircuitBreaker env i p session tr =
        ((op.checked (op.timedOutcome env i) (.attempt i)).mapError .exception, session,
          tr ++ [.primary i]) := by
    simp only [runSingleAttemptWithoutCircuitBreaker, bind, andThen, h]
    exact rest
  rcases p with _ | ⟨n, x⟩
  · exact ⟨_, goes rfl, .inl rfl⟩
  · by_cases here : n = tr.length
    · refine ⟨.error x, ?_, .inr ⟨n, x, rfl, rfl, here⟩⟩
      simp [runSingleAttemptWithoutCircuitBreaker, bind, andThen, effect, here]
    · exact ⟨_, goes (by simp [effect, here]), .inl rfl⟩

theorem arrive_admits {c : Call} (h : (arrive cb s).inFlight = c :: s.inFlight) :
    cb.beforeCall s.now s.breaker = (.ok c.probe, (arrive cb s).breaker) := by
  rcases admission : cb.beforeCall s.now s.breaker with ⟨r, b⟩
  unfold arrive at h ⊢
  rw [admission] at h ⊢
  cases r with
  | error e => exact absurd h.symm (List.cons_ne_self c _)
  | ok probe =>
    simp only [accept, List.cons.injEq, and_true] at h ⊢
    rw [← h]

theorem serves_attempt (configured : op.circuitBreaker = some cb) {i : ℕ}
    (bound : i ≤ op.maxAttempts) (company : op.Accompanied env cb i s) :
    op.Serves env cb s (Run.tryExcept (op.runSingleAttempt env i))
      fun _ t => op.Accompanied env cb (i + 1) t := by
  intro p session tr same outside
  have turn : op.runSingleAttempt env i = cb.runAsync (env.breakerTurn i)
      (op.runSingleAttemptWithoutCircuitBreaker env i) := by
    rw [runSingleAttempt, configured]
  cases company with
  | done past => exact absurd bound (Nat.not_le_of_lt past)
  | @refused _ _ t e before found clock refusal later =>
    have stays : arrive cb t = t := by simp [arrive, refusal]
    have joint : Joint cb s (arrive cb t) ([] ++ []) :=
      .trans (.others before) (.refused refusal)
    rw [found, clock, ← same] at refusal
    have result : Run.tryExcept (op.runSingleAttempt env i) p session tr =
        (.ok (.error e), { session with
          breaker := t.breaker
          breakerCalls := session.breakerCalls ++ [.beforeCall (.error e) t.breaker] }, tr) := by
      rw [turn, found, ← same]
      simp [Run.tryExcept, attempt, CircuitBreaker.runAsync, bind, andThen, atomic, refusal,
        Except.mapError, Raised.exception?]
    rw [result]
    exact ⟨_, _, [], joint, congrArg System.breaker stays.symm, by simp, by simp [primaries],
      fun _ _ => later⟩
  | @admitted _ _ t u c before found clock accepted during found' clock' later =>
    have admission := arrive_admits accepted
    rw [found, clock, ← same] at admission
    obtain ⟨o, body, ended⟩ := op.call_run env i p { session with
      breaker := (arrive cb t).breaker
      breakerCalls := session.breakerCalls ++ [.beforeCall (.ok c.probe) (arrive cb t).breaker] } tr
    obtain ⟨breakerCalls, left⟩ : ∃ breakerCalls, op.runSingleAttempt env i p session tr =
        (o, { session with
          breaker := (complete cb u c (o.map fun _ => ())).breaker, breakerCalls },
          tr ++ [.primary i]) := by
      refine ⟨session.breakerCalls ++ [.beforeCall (.ok c.probe) (arrive cb t).breaker] ++
        [.afterCall (o.map fun _ => ()) (complete cb u c (o.map fun _ => ())).breaker], ?_⟩
      rw [turn]
      simp [CircuitBreaker.runAsync, bind, andThen, atomic, admission, onExit, body,
        Except.mapError, complete, found', clock']
    have told : op.Tells env p i (o.map fun _ => ()) := by
      rcases ended with rfl | ⟨n, x, at_, rfl, _⟩
      · exact .inl rfl
      · exact .inr ⟨n, x, at_, rfl⟩
    have joint : Joint cb s (complete cb u c (o.map fun _ => ())) [(c.id, o.map fun _ => ())] :=
      .trans (.others before) (.call accepted during)
    have after : (Run.tryExcept (op.runSingleAttempt env i) p session tr).2 =
        ({ session with
          breaker := (complete cb u c (o.map fun _ => ())).breaker, breakerCalls },
          tr ++ [.primary i]) := by
      rw [Run.tryExcept, attempt_rest, left]
    rw [after] at outside ⊢
    refine ⟨_, _, [.primary i], joint, rfl, rfl, by simpa [primaries] using told, ?_⟩
    intro a returned
    rcases ended with rfl | ⟨n, x, at_, rfl, here⟩
    · exact later
    · -- What aborts the call is not caught, so nothing is returned.
      have uncaught := outside n x i at_ (Nat.le_of_eq here.symm) (by simp [here])
      simp [Run.tryExcept, attempt, left, uncaught] at returned

theorem serves_runAttempt (configured : op.circuitBreaker = some cb) {i : ℕ}
    (bound : i ≤ op.maxAttempts) (company : op.Accompanied env cb i s) (started : Started)
    (progress : Progress) :
    op.Serves env cb s (op.runAttempt env started i progress)
      fun _ t => op.Accompanied env cb (i + 1) t := by
  unfold runAttempt
  apply serves_after (aside_reading _)
  intro startedAt
  apply serves_after (aside_reading _)
  intro monotonic
  apply serves_after (op.aside_emitEvent _ _)
  intro _
  apply serves_bind (outside_before (op.grows_after env started progress i ⟨startedAt, monotonic⟩))
    (serves_attempt configured bound company)
  rintro (e | ⟨value, metadata⟩) t later
  · exact serves_mono (serves_aside (op.aside_settles.afterFailure env _ _ _ _ _)) fun _ _ same => same ▸ later
  · exact serves_mono (serves_aside (op.aside_settles.afterSuccess env _ _ _ _ _ _)) fun _ _ same => same ▸ later

theorem serves_runAttempts (configured : op.circuitBreaker = some cb) (started : Started)
    (remaining : ℕ) {i : ℕ} (counted : i + remaining = op.maxAttempts + 1)
    (company : op.Accompanied env cb i s) (progress : Progress) :
    op.Serves env cb s (op.runAttempts env started remaining i progress) fun _ _ => True := by
  induction remaining generalizing i s progress with
  | zero => exact serves_mono (serves_aside (confined_raise _)) fun _ _ _ => trivial
  | succ remaining ih =>
    unfold runAttempts
    refine serves_bind (outside_before ?_)
      (serves_runAttempt configured (by omega) company started progress) ?_
    · rintro (progress' | result)
      · exact op.grows_runAttempts env _ _ _ _
      · exact confined_pure _
    · rintro (progress' | result) t later
      · exact ih (by omega) later progress'
      · exact serves_mono (serves_aside (confined_pure _)) fun _ _ _ => trivial

theorem serves_run (configured : op.circuitBreaker = some cb)
    (company : op.Accompanied env cb 1 s) :
    op.Serves env cb s (op.runWithoutIdempotency env) fun _ _ => True := by
  unfold runWithoutIdempotency
  apply serves_after (aside_reading _)
  intro startedAt
  apply serves_after (aside_reading _)
  intro monotonic
  apply serves_after (op.aside_emitEvent _ _)
  intro _
  exact serves_runAttempts configured _ _ (Nat.add_comm 1 _) company _

end

end AsyncOperation

/-- A run, aborted or not, is what one caller of its breaker does: protocol steps in which each
    call of the operation is admitted once and ends once, with its outcome or with what aborted
    it. A half-open slot that is taken afterwards is held by a call of another caller. -/
theorem run_joins_breaker {V : Type} (op : AsyncOperation V) (env : Environment)
    {cb : CircuitBreaker} (configured : op.circuitBreaker = some cb) {start : ℚ} {s : System}
    (reachable : Reachable (step cb) (initial start) s) (company : op.Accompanied env cb 1 s)
    (session : Session) (same : session.breaker = s.breaker) (p : Option (ℕ × Raised))
    (outside : AsyncOperation.FromOutside p 0 (op.trace env p session)) :
    ∃ t told, Joint cb s t told ∧ Reachable (step cb) (initial start) t ∧
      (op.runWithoutIdempotency env p session []).2.1.breaker = t.breaker ∧
      List.Forall₂ (op.Tells env p) (primaries (op.trace env p session)) (told.map Prod.snd) ∧
      (told.map Prod.fst).Pairwise (· < ·) ∧ (∀ entry ∈ told, Gone t entry.1) ∧
      (t.breaker.halfOpenProbeInFlight = true →
        ∃ c ∈ t.inFlight, ofPeriod t c = true ∧ ∀ entry ∈ told, c.id ≠ entry.1) := by
  obtain ⟨t, told, es, joint, breaker, trace, calls, _⟩ :=
    AsyncOperation.serves_run configured company p session [] same outside
  obtain ⟨⟨ls, whole⟩, gone, order⟩ := joint_run joint (wellFormed_reachable reachable)
  have reached : Reachable (step cb) (initial start) t := by
    obtain ⟨earlier, first⟩ := reachable
    exact ⟨earlier ++ ls, run_append.mpr ⟨s, first, whole⟩⟩
  have effects : op.trace env p session = es := trace
  refine ⟨t, told, joint, reached, breaker, by rw [effects]; exact calls, order,
    fun entry member => (gone entry member).2, ?_⟩
  intro taken
  obtain ⟨c, present, _, current⟩ := (wellFormed_reachable reached).slot taken
  exact ⟨c, present, current, fun entry member => (gone entry member).2.2 c present⟩

/-- The first failure opens its breaker, and the second attempt is the probe. -/
def guarded : AsyncOperation ℕ := { observed with
  retryPolicy := some { maxAttempts := 2, retry_ok := exceptions_given }
  circuitBreaker := some {
    failureThreshold := 1
    recoveryTimeoutSeconds := 10
    threshold_pos := Nat.one_pos
    record_ok := exceptions_given } }

def recovering : Environment := { steady with
  breakerTurn := fun i => if i = 1 then {} else { admittedAt := 10, completedAt := 10 } }

theorem arrive_probing {cb : CircuitBreaker} {s : System} (state : s.breaker.state = .halfOpen)
    (taken : s.breaker.halfOpenProbeInFlight = true) : arrive cb s = s := by
  simp [arrive, CircuitBreaker.beforeCall, state, taken]

/-- Another call arrives during the first attempt and succeeds after it, too late to count;
    a third one is rejected during the second attempt. -/
theorem guarded_accompanied : guarded.Accompanied recovering
    { failureThreshold := 1, recoveryTimeoutSeconds := 10 } 1 (initial 0) := by
  refine .admitted (t := initial 0) (c := ⟨0, false, 0⟩) ⟨[], rfl, by simp⟩ rfl rfl rfl
    ⟨[.arrive], rfl, by simp⟩ rfl rfl ?_
  refine .admitted (c := ⟨2, true, 1⟩) ⟨[.complete 1 (.ok ()), .advance 10], rfl, by simp⟩ rfl
    (by decide +kernel) (by decide +kernel) ⟨[.arrive], rfl, by simp⟩
    (congrArg System.breaker (arrive_probing (by decide +kernel) (by decide +kernel)))
    (by decide +kernel) ?_
  exact .done (by decide)

/-- The second attempt is cancelled in its call, as the probe. -/
theorem cancelled_probe_frees_slot : ∃ t told, Joint
    { failureThreshold := 1, recoveryTimeoutSeconds := 10 } (initial 0) t told ∧
    told.length = 2 ∧ t.breaker.halfOpenProbeInFlight = false := by
  obtain ⟨t, told, joint, _, breaker, calls, _, _, _⟩ := run_joins_breaker guarded recovering rfl
    ⟨[], rfl⟩ guarded_accompanied {} rfl (some (12, .cancelled)) (by rintro n x i ⟨⟩ _ _; rfl)
  refine ⟨t, told, joint, ?_, ?_⟩
  · have each := calls.length_eq
    rw [List.length_map] at each
    rw [← each]
    decide +kernel
  · rw [← breaker]
    decide +kernel

end Relprim
