import Mathlib.Data.Finset.Max
import Mathlib.Order.Basic
import Relprim.IdempotencyAnswers

/-!
Nested executions and freedom from deadlock. A task that is inside the operation
of one key may call `execute` for another; two tasks can then wait for each other.
They cannot when every task takes its keys in one order, as with locks.
-/
namespace Relprim.IdempotencyRuns
open LabelledRuns InMemoryIdempotencyStore Dictionary
variable {Task V R : Type}

def Innermost (s : Store Task V) (id : ℕ) (task : Task) : Prop :=
  ∀ j d, s.callers j = some d → d.task = task → j ≤ id

/-- What a task does while it runs. It calls `execute` only when it waits for no other
    call, and for a key it runs already or one above all keys it runs; its calls end in the
    reverse of the order they began, and none with an uncaught BaseException. -/
def Ordered [LT R] (rank : String → R) (s : Store Task V) : Label Task V → Prop
  | .execute task key _ =>
    (∀ i c f, Waiting s i c f → c.task ≠ task) ∧
    ((∃ i c, Executing s i c ∧ c.task = task ∧ c.key = key) ∨
      ∀ i c, Executing s i c → c.task = task → rank c.key < rank key)
  | .finish id outcome =>
    Caught s (.finish id outcome) ∧ ∀ c, s.callers id = some c → Innermost s id c.task
  | _ => True

theorem caught_of_ordered [LT R] {rank : String → R} {s : Store Task V} {l : Label Task V}
    (ordered : Ordered rank s l) : Caught s l := by
  cases l with
  | finish id o => exact ordered.1
  | _ => trivial

/-- A call that waits is the last of its task, and its key is above those the task runs. -/
structure Nested [LT R] (rank : String → R) (s : Store Task V) : Prop where
  innermost : ∀ i c f, Waiting s i c f → Innermost s i c.task
  above : ∀ i c f, Waiting s i c f → ∀ j d, Executing s j d → d.task = c.task →
    rank d.key < rank c.key

theorem nested_initial [LT R] (rank : String → R) (start : ℚ) :
    Nested rank (initial start : Store Task V) where
  innermost i c f h := by simp [Waiting, initial] at h
  above i c f h := by simp [Waiting, initial] at h

theorem nested_of_callers [LT R] {rank : String → R} {s t : Store Task V} (h : Nested rank s)
    (fewer : ∀ i c, t.callers i = some c → s.callers i = some c) : Nested rank t where
  innermost i c f waiting j d present same :=
    h.innermost i c f ⟨fewer i c waiting.1, waiting.2⟩ j d (fewer j d present) same
  above i c f waiting j d executing same :=
    h.above i c f ⟨fewer i c waiting.1, waiting.2⟩ j d ⟨fewer j d executing.1, executing.2⟩ same

/-- The last call of a task none of whose other calls waits runs its operation, or waits
    for a key above all those the task runs. -/
theorem nested_moves [LT R] {rank : String → R} {s t : Store Task V} (h : Nested rank s) {id : ℕ}
    {x : Caller Task} (last : Innermost s id x.task)
    (alone : ∀ i d f, Waiting s i d f → d.task = x.task → i = id)
    (above : ∀ f, x.phase = .waiting f → ∀ j d, Executing s j d → d.task = x.task →
      rank d.key < rank x.key)
    (callers : t.callers = Function.update s.callers id (some x)) : Nested rank t := by
  have present (i : ℕ) (d : Caller Task) (hi : t.callers i = some d) :
      (i = id ∧ d = x) ∨ (i ≠ id ∧ s.callers i = some d) := by
    rcases caller_update (callers ▸ hi) with ⟨same, new⟩ | before
    · exact .inl ⟨same, (Option.some.inj new).symm⟩
    · exact .inr before
  -- The calls of the task of another waiting call are as before.
  have foreign (i : ℕ) (d : Caller Task) (f : ℕ) (waiting : Waiting s i d f) (other : i ≠ id)
      (j : ℕ) (d' : Caller Task) (hj : t.callers j = some d') (same : d'.task = d.task) :
      s.callers j = some d' := by
    rcases present j d' hj with ⟨_, rfl⟩ | ⟨_, before⟩
    · exact absurd (alone i d f waiting same.symm) other
    · exact before
  constructor
  · intro i d f waiting j d' hj same
    rcases present i d waiting.1 with ⟨rfl, rfl⟩ | ⟨other, before⟩
    · rcases present j d' hj with ⟨rfl, _⟩ | ⟨_, old⟩
      · exact Nat.le_refl j
      · exact last j d' old same
    · exact h.innermost i d f ⟨before, waiting.2⟩ j d'
        (foreign i d f ⟨before, waiting.2⟩ other j d' hj same) same
  · intro i d f waiting j d' executing same
    rcases present i d waiting.1 with ⟨rfl, rfl⟩ | ⟨other, before⟩
    · rcases present j d' executing.1 with ⟨_, rfl⟩ | ⟨_, old⟩
      · cases waiting.2.symm.trans executing.2
      · exact above f waiting.2 j d' ⟨old, executing.2⟩ same
    · exact h.above i d f ⟨before, waiting.2⟩ j d'
        ⟨foreign i d f ⟨before, waiting.2⟩ other j d' executing.1 same, executing.2⟩ same

section
variable [DecidableEq Task] [LT R] {rank : String → R}

theorem nested_enter {s : Store Task V} (coherent : Coherent s) (h : Nested rank s) {id : ℕ}
    {c : Caller Task} (last : Innermost s id c.task)
    (alone : ∀ i d f, Waiting s i d f → d.task = c.task → i = id)
    (above : (∃ i d, Executing s i d ∧ d.task = c.task ∧ d.key = c.key) ∨
      ∀ i d, Executing s i d → d.task = c.task → rank d.key < rank c.key) :
    Nested rank (enter s id c) := by
  have left (t : Store Task V) (callers : t.callers = Function.update s.callers id none) :
      Nested rank t :=
    nested_of_callers h fun i d present => caller_remains (callers ▸ present)
  rcases enter_cases s id c with
    ⟨_, eq⟩ | ⟨e, _, _, _, _, eq⟩ | ⟨e, found, _, ⟨v, _, eq⟩ | ⟨x, _, eq⟩ | ⟨why, eq⟩⟩ <;> rw [eq]
  · exact nested_moves (x := { c with phase := .executing }) h last alone (by simp) rfl
  · exact left _ rfl
  · exact left _ rfl
  · exact left _ rfl
  · refine nested_moves (x := { c with phase := .waiting e.future }) h last alone ?_ rfl
    intro f _
    rcases above with ⟨i, d, executing, task, key⟩ | above
    · obtain ⟨stored, pending⟩ := coherent.owner i d executing
      rw [key, found] at stored
      cases stored
      rcases why with ⟨_, foreign⟩ | cancelled
      · exact absurd task foreign
      · cases pending.symm.trans cancelled
    · exact above

theorem nested_step {s t : Store Task V} (coherent : Coherent s) (h : Nested rank s)
    {l : Label Task V} (ordered : Ordered rank s l) (hs : step s l = some t) : Nested rank t := by
  cases step_shape hs with
  | refused => exact nested_of_callers h fun _ _ present => present
  | @enters task key ttl named positive =>
    have known (j : ℕ) (d : Caller Task) (present : s.callers j = some d) : j ≤ s.nextId :=
      Nat.le_of_lt (coherent_id_lt coherent present)
    refine nested_enter (coherent_next coherent)
      (nested_of_callers h fun _ _ present => present) ?_ ?_ ordered.2
    · exact fun j d present _ => known j d present
    · exact fun i d f waiting same => absurd same (ordered.1 i d f waiting)
  | @finishes id c o executing =>
    exact nested_of_callers h fun i d present =>
      caller_remains (finish_callers s id c o ▸ present)
  | @wakes id c f _ waiting woken =>
    have left (es : List (Event V)) : Nested rank (leave s id es) :=
      nested_of_callers h fun _ _ present => caller_remains present
    unfold wake at woken
    split at woken
    · cases woken
    · cases woken
      exact left _
    · cases woken
      exact left _
    · cases woken
      refine nested_enter coherent h (h.innermost id c f waiting) ?_ (.inr (h.above id c f waiting))
      intro i d g other same
      -- Each of two waiting calls of one task is the last.
      exact Nat.le_antisymm (h.innermost id c f waiting i d other.1 same)
        (h.innermost i d g other id c waiting.1 same.symm)
  | cancels => exact nested_of_callers h fun _ _ present => caller_remains present
  | purges => exact nested_of_callers h fun _ _ present => present
  | advances => exact nested_of_callers h fun _ _ present => present

end

/-- Call `id` can go on: it waits on a resolved future, or its operation runs and no later
    call of its task is in flight. -/
def Ready (s : Store Task V) (id : ℕ) : Prop :=
  (∃ c f, Waiting s id c f ∧ s.futures f ≠ .pending) ∨
    ∃ c, Executing s id c ∧ Innermost s id c.task

theorem caller_phase {s : Store Task V} {i : ℕ} {c : Caller Task} (present : s.callers i = some c) :
    Executing s i c ∨ ∃ f, Waiting s i c f := by
  cases phase : c.phase with
  | executing => exact .inl ⟨present, phase⟩
  | waiting f => exact .inr ⟨f, present, phase⟩

open Classical in
theorem innermost_exists {s : Store Task V} (coherent : Coherent s) {i : ℕ} {c : Caller Task}
    (present : s.callers i = some c) : ∃ j d, s.callers j = some d ∧ d.task = c.task ∧
      Innermost s j c.task := by
  let calls := (Finset.range s.nextId).filter fun j => ∃ d, s.callers j = some d ∧ d.task = c.task
  have member (j : ℕ) : j ∈ calls ↔ ∃ d, s.callers j = some d ∧ d.task = c.task := by
    rw [Finset.mem_filter, Finset.mem_range]
    exact ⟨And.right, fun ⟨d, hd, same⟩ => ⟨coherent_id_lt coherent hd, d, hd, same⟩⟩
  obtain ⟨j, hj, last⟩ := calls.exists_max_image id ⟨i, (member i).mpr ⟨c, present, rfl⟩⟩
  obtain ⟨d, hd, same⟩ := (member j).mp hj
  exact ⟨j, d, hd, same, fun k e hk task => last k ((member k).mpr ⟨e, hk, task⟩)⟩

open Classical in
/-- Of the running operations, that of the highest key is not kept by a nested call. -/
theorem ready_exists [LinearOrder R] {rank : String → R} {s : Store Task V} (coherent : Coherent s)
    (owned : Owned s) (nested : Nested rank s) {i : ℕ} {c : Caller Task}
    (present : s.callers i = some c) : ∃ id, Ready s id := by
  have settled := (settled_iff_owned coherent).mpr owned
  by_contra stuck
  have pending (j : ℕ) (d : Caller Task) (f : ℕ) (waiting : Waiting s j d f) :
      s.futures f = .pending := by
    by_contra resolved
    exact stuck ⟨j, .inl ⟨d, f, waiting, resolved⟩⟩
  have runs : ∃ j d, Executing s j d := by
    rcases caller_phase present with executing | ⟨f, waiting⟩
    · exact ⟨i, c, executing⟩
    · obtain ⟨d, executing, _⟩ := settled.waiting i c f waiting (pending i c f waiting)
      exact ⟨f, d, executing⟩
  let height (j : ℕ) : R := rank (((s.callers j).map Caller.key).getD "")
  let running := (Finset.range s.nextId).filter fun j => ∃ d, Executing s j d
  have member (j : ℕ) : j ∈ running ↔ ∃ d, Executing s j d := by
    rw [Finset.mem_filter, Finset.mem_range]
    exact ⟨And.right, fun ⟨d, hd⟩ => ⟨coherent_id_lt coherent hd.1, d, hd⟩⟩
  obtain ⟨j, hj, highest⟩ := running.exists_max_image height (runs.imp fun j => (member j).mpr)
  obtain ⟨d, executing⟩ := (member j).mp hj
  obtain ⟨k, e, hk, task, last⟩ := innermost_exists coherent executing.1
  rcases caller_phase hk with innermost | ⟨f, waiting⟩
  · exact stuck ⟨k, .inr ⟨e, innermost, task ▸ last⟩⟩
  · -- Its task waits for a higher key, which is running.
    obtain ⟨d', owner, key⟩ := settled.waiting k e f waiting (pending k e f waiting)
    have higher := nested.above k e f waiting j d executing task.symm
    have lower := highest f ((member f).mpr ⟨d', owner⟩)
    simp only [height, owner.1, executing.1, Option.map_some, Option.getD_some, key] at lower
    exact absurd higher (not_lt.mpr lower)

def inFlight (s : Store Task V) : Finset ℕ :=
  (Finset.range s.nextId).filter fun i => (s.callers i).isSome = true

def canWake (s : Store Task V) (i : ℕ) : Bool :=
  match s.callers i with
  | some c => match c.phase with
    | .waiting f => (s.futures f).done
    | .executing => false
  | none => false

/-- What the calls in flight can still do, when no call arrives. -/
def work (s : Store Task V) : ℕ :=
  (inFlight s).card * (inFlight s).card + ((inFlight s).filter fun i => canWake s i = true).card

theorem mem_inFlight {s : Store Task V} (coherent : Coherent s) {i : ℕ} :
    i ∈ inFlight s ↔ ∃ c, s.callers i = some c := by
  rw [inFlight, Finset.mem_filter, Finset.mem_range, Option.isSome_iff_exists]
  exact ⟨And.right, fun ⟨c, hc⟩ => ⟨coherent_id_lt coherent hc, c, hc⟩⟩

theorem done_iff {f : FutureState V} : f.done = true ↔ f ≠ .pending := by
  cases f <;> simp [FutureState.done]

theorem canWake_iff {s : Store Task V} {i : ℕ} :
    canWake s i = true ↔ ∃ c f, Waiting s i c f ∧ s.futures f ≠ .pending := by
  unfold canWake Waiting
  cases caller : s.callers i with
  | none => simp
  | some c =>
    cases phase : c.phase with
    | executing => simp [phase]
    | waiting f => simp [phase, done_iff]

theorem work_leaves {s t : Store Task V} {id : ℕ} (there : id ∈ inFlight s)
    (gone : inFlight t = (inFlight s).erase id) : work t < work s := by
  have fewer := Finset.card_erase_add_one there
  have woken := Finset.card_filter_le ((inFlight s).erase id) fun i => canWake t i = true
  simp only [work, gone]
  nlinarith

theorem work_turns {s t : Store Task V} {id : ℕ} (there : id ∈ inFlight s)
    (same : inFlight t = inFlight s) (woken : canWake s id = true) (asleep : canWake t id = false)
    (others : ∀ i, i ≠ id → canWake t i = canWake s i) : work t < work s := by
  have less : ((inFlight t).filter fun i => canWake t i = true) ⊂
      (inFlight s).filter fun i => canWake s i = true := by
    rw [same, Finset.ssubset_iff_of_subset]
    · exact ⟨id, by simp [there, woken], by simp [asleep]⟩
    · intro i
      simp only [Finset.mem_filter]
      rintro ⟨member, wakes⟩
      by_cases own : i = id
      · rw [own, asleep] at wakes
        cases wakes
      · exact ⟨member, others i own ▸ wakes⟩
  have fewer := Finset.card_lt_card less
  simp only [work, same] at fewer ⊢
  omega

theorem inFlight_leave {s t : Store Task V} {id : ℕ} (nextId : t.nextId = s.nextId)
    (callers : t.callers = Function.update s.callers id none) :
    inFlight t = (inFlight s).erase id := by
  ext i
  by_cases own : i = id
  · simp [inFlight, callers, own]
  · simp [inFlight, callers, nextId, own]

theorem inFlight_stays {s t : Store Task V} {id : ℕ} {c d : Caller Task}
    (present : s.callers id = some c) (nextId : t.nextId = s.nextId)
    (callers : t.callers = Function.update s.callers id (some d)) : inFlight t = inFlight s := by
  ext i
  by_cases own : i = id
  · simp [inFlight, callers, nextId, own, present]
  · simp [inFlight, callers, nextId, own]

theorem canWake_other {s t : Store Task V} {id i : ℕ} {x : Option (Caller Task)}
    (callers : t.callers = Function.update s.callers id x) (futures : t.futures = s.futures)
    (other : i ≠ id) : canWake t i = canWake s i := by
  simp [canWake, callers, futures, other]

def Label.moves : Label Task V → Bool
  | .finish .. | .wake _ | .cancelJoined _ => true
  | _ => false

theorem work_le (s : Store Task V) : work s ≤ (inFlight s).card * ((inFlight s).card + 1) := by
  have woken := Finset.card_filter_le (inFlight s) fun i => canWake s i = true
  rw [work, Nat.mul_succ]
  omega

def proceeds (outcome : ℕ → Except Raised V) (s : Store Task V) (id : ℕ) : Label Task V :=
  if canWake s id then .wake id else .finish id (outcome id)

theorem proceeds_stays (outcome : ℕ → Except Raised V) (s : Store Task V) (id : ℕ) :
    (proceeds outcome s id).executed = none ∧ (proceeds outcome s id).moves = true ∧
      (proceeds outcome s id = .wake id ∨ proceeds outcome s id = .finish id (outcome id)) := by
  unfold proceeds
  split
  · exact ⟨rfl, rfl, .inl rfl⟩
  · exact ⟨rfl, rfl, .inr rfl⟩

section
variable [DecidableEq Task]

theorem work_wake {s t : Store Task V} (coherent : Coherent s) {id f : ℕ} {c : Caller Task}
    (waiting : Waiting s id c f) (woken : wake s id c f = some t) : work t < work s := by
  have there := (mem_inFlight coherent).mpr ⟨c, waiting.1⟩
  unfold wake at woken
  split at woken
  · cases woken
  · cases woken
    exact work_leaves there (inFlight_leave rfl rfl)
  · cases woken
    exact work_leaves there (inFlight_leave rfl rfl)
  · rename_i cancelled
    cases woken
    have wakes : canWake s id = true := canWake_iff.mpr ⟨c, f, waiting, by simp [cancelled]⟩
    rcases enter_cases s id c with
      ⟨_, eq⟩ | ⟨e, _, _, _, _, eq⟩ | ⟨e, found, _, ⟨v, _, eq⟩ | ⟨x, _, eq⟩ | ⟨why, eq⟩⟩ <;> rw [eq]
    · exact work_turns there (inFlight_stays waiting.1 rfl rfl) wakes (by simp [canWake])
        fun i => canWake_other rfl rfl
    · exact work_leaves there (inFlight_leave rfl rfl)
    · exact work_leaves there (inFlight_leave rfl rfl)
    · exact work_leaves there (inFlight_leave rfl rfl)
    · -- No stored future is that of a cancelled owner.
      have pending : s.futures e.future = .pending := by
        rcases why with ⟨pending, _⟩ | resolved
        · exact pending
        · rcases coherent.entry c.key e found with ⟨_, pending⟩ | ⟨v, _, _, result⟩
          · exact pending
          · cases resolved.symm.trans result
      exact work_turns there (inFlight_stays waiting.1 rfl rfl) wakes
        (by simp [canWake, pending, FutureState.done]) fun i => canWake_other rfl rfl

/-- Each move of a call leaves less to do, and nothing else but an arrival adds to it. -/
theorem work_step {s t : Store Task V} (coherent : Coherent s) {l : Label Task V}
    (stays : l.executed = none) (hs : step s l = some t) :
    work t + (if l.moves then 1 else 0) ≤ work s := by
  cases l with
  | execute => cases stays
  | finish id o =>
    obtain ⟨c, executing, rfl⟩ := step_finish_inv hs
    refine work_leaves ((mem_inFlight coherent).mpr ⟨c, executing.1⟩)
      (inFlight_leave ?_ (finish_callers s id c o))
    cases o with
    | ok v => rfl
    | error x => cases x <;> rfl
  | wake id =>
    obtain ⟨c, f, waiting, woken⟩ := step_wake_inv hs
    exact work_wake coherent waiting woken
  | cancelJoined id =>
    obtain ⟨c, f, waiting, rfl⟩ := step_cancel_inv hs
    exact work_leaves ((mem_inFlight coherent).mpr ⟨c, waiting.1⟩) (inFlight_leave rfl rfl)
  | purgeExpired =>
    cases hs
    exact Nat.le_refl _
  | entryCount =>
    cases hs
    exact Nat.le_refl _
  | advance d =>
    simp only [step] at hs
    split at hs <;> cases hs
    exact Nat.le_refl _

theorem work_run {s t : Store Task V} (coherent : Coherent s) {ms : List (Label Task V)}
    (stay : ∀ l ∈ ms, l.executed = none) (h : run step s ms = some t) :
    work t + ms.countP Label.moves ≤ work s := by
  induction ms generalizing s with
  | nil =>
    cases h
    exact Nat.le_refl _
  | cons l ms ih =>
    obtain ⟨u, hu, rest⟩ := run_cons.mp h
    have now := work_step coherent (stay l (List.mem_cons_self ..)) hu
    have later := ih (coherent_step coherent hu)
      (fun m hm => stay m (List.mem_cons_of_mem _ hm)) rest
    rw [List.countP_cons]
    omega

theorem ready_proceeds [LT R] {rank : String → R} {s : Store Task V}
    {outcome : ℕ → Except Raised V} (caught : ∀ i x, outcome i ≠ .error (.baseException x))
    {id : ℕ} (ready : Ready s id) :
    Ordered rank s (proceeds outcome s id) ∧ ∃ t, step s (proceeds outcome s id) = some t := by
  rcases ready with ⟨c, f, waiting, resolved⟩ | ⟨c, executing, last⟩
  · rw [proceeds, if_pos (canWake_iff.mpr ⟨c, f, waiting, resolved⟩)]
    refine ⟨trivial, ?_⟩
    rw [step_wake waiting, wake]
    cases state : s.futures f with
    | pending => exact absurd state resolved
    | result v => exact ⟨_, rfl⟩
    | exception e => exact ⟨_, rfl⟩
    | ownerCancelled => exact ⟨_, rfl⟩
  · have asleep : canWake s id = false := by
      simp [canWake, executing.1, executing.2]
    rw [proceeds, asleep]
    refine ⟨⟨?_, fun d present => ?_⟩, _, step_finish executing _⟩
    · cases ends : outcome id with
      | ok v => trivial
      | error x =>
        cases x with
        | baseException y => exact absurd ends (caught id y)
        | _ => trivial
    · cases executing.1.symm.trans present
      exact last

theorem nextId_run {s t : Store Task V} {ms : List (Label Task V)}
    (stay : ∀ l ∈ ms, l.executed = none) (h : run step s ms = some t) : t.nextId = s.nextId := by
  refine invariant_along (I := fun u => u.nextId = s.nextId) (P := fun _ l => l.executed = none)
    ?_ rfl (along_of_mem (fun l hl _ => stay l hl) s) h
  intro u l v same stays hv
  simpa [stays, same] using step_next hv

/-- While a call is in flight one can move, so that the calls run out of work only when
    none is left. -/
theorem drains [LinearOrder R] {rank : String → R} {outcome : ℕ → Except Raised V}
    (caught : ∀ i x, outcome i ≠ .error (.baseException x)) {s : Store Task V}
    (coherent : Coherent s) (owned : Owned s) (nested : Nested rank s) :
    ∃ ms t, (∀ l ∈ ms, ∃ id, l = .wake id ∨ l = .finish id (outcome id)) ∧
      Along step (Ordered rank) s ms ∧ run step s ms = some t ∧ ∀ i, t.callers i = none := by
  induction hw : work s using Nat.strongRecOn generalizing s with
  | ind n ih =>
    subst hw
    by_cases idle : ∀ i, s.callers i = none
    · exact ⟨[], s, by simp, trivial, rfl, idle⟩
    · obtain ⟨i, busy⟩ := not_forall.mp idle
      obtain ⟨c, present⟩ := Option.ne_none_iff_exists'.mp busy
      obtain ⟨id, ready⟩ := ready_exists coherent owned nested present
      obtain ⟨ordered, t, ht⟩ : Ordered rank s (proceeds outcome s id) ∧ _ :=
        ready_proceeds caught ready
      obtain ⟨stays, moves, kind⟩ := proceeds_stays outcome s id
      have less := work_step coherent stays ht
      rw [moves] at less
      obtain ⟨ms, u, kinds, along, rest, empty⟩ := ih (work t) less
        (coherent_step coherent ht) (owned_step coherent owned (caught_of_ordered ordered) ht)
        (nested_step coherent nested ordered ht) rfl
      refine ⟨proceeds outcome s id :: ms, u, ?_, ⟨ordered, fun v hv => ?_⟩,
        run_cons.mpr ⟨t, ht, rest⟩, empty⟩
      · exact List.forall_mem_cons.mpr ⟨⟨id, kind⟩, kinds⟩
      · cases hv.symm.trans ht
        exact along

/-- When every task takes its keys in one order and no operation ends with an uncaught
    BaseException: in each reachable state with a call in flight some call can go on;
    the calls in flight make at most `n * (n + 1)` more moves, in whatever order and
    whatever they end with; and they can be brought to their end, each call then having
    its one answer. -/
theorem no_deadlock [LinearOrder R] (rank : String → R) (start : ℚ) (ls : List (Label Task V))
    (s : Store Task V) (ordered : Along step (Ordered rank) (initial start) ls)
    (h : run step (initial start) ls = some s) :
    ((∃ i, i ∈ inFlight s) → ∃ id, Ready s id) ∧
    (∀ ms t, (∀ l ∈ ms, l.executed = none) → run step s ms = some t →
      ms.countP Label.moves ≤ (inFlight s).card * ((inFlight s).card + 1)) ∧
    ∀ outcome : ℕ → Except Raised V, (∀ i x, outcome i ≠ .error (.baseException x)) →
      ∃ ms t, (∀ l ∈ ms, ∃ id, l = .wake id ∨ l = .finish id (outcome id)) ∧
        Along step (Ordered rank) s ms ∧ run step s ms = some t ∧
        ∀ i, t.callers i = none ∧
          (history i t.log).countP Event.answers = if i < s.nextId then 1 else 0 := by
  obtain ⟨⟨coherent, owned⟩, nested⟩ : (Coherent s ∧ Owned s) ∧ Nested rank s :=
    invariant_along (I := fun s => (Coherent s ∧ Owned s) ∧ Nested rank s)
      (fun _ _ _ inv ok hs => ⟨⟨coherent_step inv.1.1 hs,
        owned_step inv.1.1 inv.1.2 (caught_of_ordered ok) hs⟩, nested_step inv.1.1 inv.2 ok hs⟩)
      ⟨⟨coherent_initial start, fun k e found => by simp [initial] at found⟩,
        nested_initial rank start⟩ ordered h
  refine ⟨?_, ?_, ?_⟩
  · rintro ⟨i, member⟩
    obtain ⟨c, present⟩ := (mem_inFlight coherent).mp member
    exact ready_exists coherent owned nested present
  · intro ms t stay hms
    exact (Nat.le_add_left ..).trans ((work_run coherent stay hms).trans (work_le s))
  · intro outcome caught
    obtain ⟨ms, t, kinds, along, hms, empty⟩ := drains caught coherent owned nested
    refine ⟨ms, t, kinds, along, hms, fun i => ⟨empty i, ?_⟩⟩
    have known : t.nextId = s.nextId := by
      refine nextId_run (fun l hl => ?_) hms
      obtain ⟨id, rfl | rfl⟩ := kinds l hl <;> rfl
    have answers := (call_answered_once start t ⟨_, run_append.mpr ⟨s, h, hms⟩⟩ i).2.1
    simpa [empty i, known] using answers

end

/-- Task 1 is inside the operation of "a" and waits for that of "bb", which task 2 runs. -/
def nestedWaitRun : List (Label ℕ ℕ) := [.execute 1 "a" 5, .execute 2 "bb" 5, .execute 1 "bb" 5]

theorem nestedWaitRun_ordered :
    Along step (Ordered String.length) (initial 0 : Store ℕ ℕ) nestedWaitRun := by
  refine ⟨⟨?_, .inr ?_⟩, fun s hs => ⟨⟨?_, .inr ?_⟩, fun t ht => ⟨⟨?_, .inr ?_⟩, fun _ _ => trivial⟩⟩⟩
  · simp [Waiting, initial]
  · simp [Executing, initial]
  all_goals
    have one : s.callers = Function.update (fun _ => none) 0 (some ⟨1, "a", 5, .executing⟩) := by
      cases hs
      rfl
  · rintro i c f ⟨present, phase⟩
    rcases caller_update (one ▸ present) with ⟨_, h⟩ | ⟨_, h⟩ <;> cases h
    cases phase
  · rintro i c ⟨present, phase⟩ task
    rcases caller_update (one ▸ present) with ⟨_, h⟩ | ⟨_, h⟩ <;> cases h
    cases task
  all_goals
    have two : t.callers = Function.update s.callers 1 (some ⟨2, "bb", 5, .executing⟩) := by
      cases hs
      cases ht
      rfl
    rw [one] at two
  · rintro i c f ⟨present, phase⟩
    rcases caller_update (two ▸ present) with ⟨_, h⟩ | ⟨_, h⟩
    · cases h
      cases phase
    · rcases caller_update h with ⟨_, h⟩ | ⟨_, h⟩ <;> cases h
      cases phase
  · rintro i c ⟨present, phase⟩ task
    rcases caller_update (two ▸ present) with ⟨_, h⟩ | ⟨_, h⟩
    · cases h
      cases task
    · rcases caller_update h with ⟨_, h⟩ | ⟨_, h⟩ <;> cases h
      decide

theorem no_deadlock_nested : ∃ (s t : Store ℕ ℕ) (ms : List (Label ℕ ℕ)),
    run step (initial 0) nestedWaitRun = some s ∧ (inFlight s).card = 3 ∧
    (∃ id, Ready s id) ∧ run step s ms = some t ∧
    ∀ i < 3, t.callers i = none ∧ (history i t.log).countP Event.answers = 1 := by
  have done : ∃ s : Store ℕ ℕ, run step (initial 0) nestedWaitRun = some s ∧ s.nextId = 3 ∧ (inFlight s).card = 3 :=
    ⟨_, rfl, rfl, rfl⟩
  obtain ⟨s, hs, three, count⟩ := done
  obtain ⟨ready, _, drain⟩ := no_deadlock String.length 0 _ s nestedWaitRun_ordered hs
  obtain ⟨ms, t, _, _, ht, ends⟩ := drain (fun _ => .ok 7) (fun _ _ h => by cases h)
  refine ⟨s, t, ms, hs, count, ready ?_, ht, fun i hi => ?_⟩
  · exact Finset.card_pos.mp (by omega)
  · have answered := ends i
    rwa [if_pos (three ▸ hi)] at answered

/-- Task 1 takes "a" then "b", task 2 takes "b" then "a". -/
def crossedRun : List (Label ℕ ℕ) :=
  [.execute 1 "a" 5, .execute 2 "b" 5, .execute 1 "b" 5, .execute 2 "a" 5]

/-- Without the order the store lets two tasks wait for each other. -/
theorem crossed_keys_deadlock : ∃ s : Store ℕ ℕ, run step (initial 0) crossedRun = some s ∧
    (inFlight s).card = 4 ∧ ∀ id, ¬ Ready s id := by
  have done : ∃ s : Store ℕ ℕ, run step (initial 0) crossedRun = some s ∧ (inFlight s).card = 4 ∧
      s.futures = (fun _ => .pending) ∧ s.callers =
        Function.update (Function.update (Function.update (Function.update (fun _ => none)
          0 (some ⟨1, "a", 5, .executing⟩)) 1 (some ⟨2, "b", 5, .executing⟩))
          2 (some ⟨1, "b", 5, .waiting 1⟩)) 3 (some ⟨2, "a", 5, .waiting 0⟩) :=
    ⟨_, rfl, rfl, rfl, rfl⟩
  obtain ⟨s, hs, count, futures, callers⟩ := done
  refine ⟨s, hs, count, fun id ready => ?_⟩
  rcases ready with ⟨c, f, _, resolved⟩ | ⟨c, ⟨present, phase⟩, last⟩
  · exact resolved (by rw [futures])
  · have second := last 2 ⟨1, "b", 5, .waiting 1⟩ (by simp [callers])
    have third := last 3 ⟨2, "a", 5, .waiting 0⟩ (by simp [callers])
    rw [callers] at present
    rcases caller_update present with ⟨_, h⟩ | ⟨_, h⟩
    · cases h
      cases phase
    rcases caller_update h with ⟨_, h⟩ | ⟨_, h⟩
    · cases h
      cases phase
    rcases caller_update h with ⟨rfl, h⟩ | ⟨_, h⟩
    · cases h
      exact absurd (third rfl) (by decide)
    rcases caller_update h with ⟨rfl, h⟩ | ⟨_, h⟩
    · cases h
      exact absurd (second rfl) (by decide)
    · cases h

end Relprim.IdempotencyRuns
