import Mathlib.Data.List.Basic
import Mathlib.Tactic.Common

/-!
Programs that record their effects in a trace and may be interrupted at one of
them. An interruption `(n, x)` makes the effect at position `n` of the trace
raise `x`. `Ends` is the big-step judgement of the uninterrupted program;
`Clean` says that an interruption cuts the trace and nothing else.
-/
namespace Interruptible

/-- From the interruption, the state and the trace so far to the outcome. -/
def Program (X E S A : Type) := Option (ℕ × X) → S → List E → Except X A × S × List E

namespace Program
variable {X Y E S A B : Type}

def ret (a : A) : Program X E S A := fun _ s tr => (.ok a, s, tr)

def andThen (m : Program X E S A) (f : A → Program X E S B) : Program X E S B := fun p s tr =>
  match m p s tr with
  | (.ok a, s', tr') => f a p s' tr'
  | (.error x, s', tr') => (.error x, s', tr')

instance : Monad (Program X E S) where
  pure := ret
  bind := andThen

def fromExcept (r : Except X A) : Program X E S A := fun _ s tr => (r, s, tr)

def raise (x : X) : Program X E S A := fromExcept (.error x)

/-- A step on the state that cannot be interrupted. -/
def atomic (f : S → Except X A × S) : Program X E S A := fun _ s tr => ((f s).1, (f s).2, tr)

/-- A suspension point: the effect is recorded and may raise. -/
def effect (e : E) : Program X E S Unit := fun p s tr =>
  match p with
  | some (n, x) => (if n = tr.length then .error x else .ok (), s, tr ++ [e])
  | none => (.ok (), s, tr ++ [e])

/-- `try` with a handler for what `catches` recognises; the handler runs on the result. -/
def attempt (catches : X → Option Y) (body : Program X E S A) : Program X E S (Except Y A) :=
  fun p s tr =>
    match body p s tr with
    | (.ok a, s', tr') => (.ok (.ok a), s', tr')
    | (.error x, s', tr') =>
      match catches x with
      | some y => (.ok (.error y), s', tr')
      | none => (.error x, s', tr')

/-- The state is adjusted once the body has ended, however it ended. -/
def onExit (f : Except X A → S → S) (body : Program X E S A) : Program X E S A := fun p s tr =>
  let (r, s', tr') := body p s tr
  (r, f r s', tr')

end Program

open Program
variable {X Y E S A B : Type}

/-! The uninterrupted program. -/

/-- Started in `s` without an interruption, `m` ends with `r` in `s'` after the effects `es`. -/
def Ends (m : Program X E S A) (s : S) (r : Except X A) (s' : S) (es : List E) : Prop :=
  ∀ tr, m none s tr = (r, s', tr ++ es)

theorem ends_pure (a : A) (s : S) : Ends (pure a : Program X E S A) s (.ok a) s [] := by
  intro tr
  simp [pure, ret]

theorem ends_fromExcept (r : Except X A) (s : S) :
    Ends (fromExcept r : Program X E S A) s r s [] := by
  intro tr
  simp [fromExcept]

theorem ends_raise (x : X) (s : S) : Ends (raise x : Program X E S A) s (.error x) s [] :=
  ends_fromExcept _ s

theorem ends_atomic (f : S → Except X A × S) (s : S) :
    Ends (atomic f : Program X E S A) s (f s).1 (f s).2 [] := by
  intro tr
  simp [atomic]

theorem ends_effect (e : E) (s : S) : Ends (effect e : Program X E S Unit) s (.ok ()) s [e] := by
  intro tr
  rfl

theorem ends_bind {m : Program X E S A} {f : A → Program X E S B} {s s' s'' : S} {a : A}
    {r : Except X B} {es es' : List E} (first : Ends m s (.ok a) s' es)
    (second : Ends (f a) s' r s'' es') : Ends (m >>= f) s r s'' (es ++ es') := by
  intro tr
  simp only [bind, andThen, first tr, second (tr ++ es), List.append_assoc]

theorem ends_bind_error {m : Program X E S A} {f : A → Program X E S B} {s s' : S} {x : X}
    {es : List E} (first : Ends m s (.error x) s' es) : Ends (m >>= f) s (.error x) s' es := by
  intro tr
  simp only [bind, andThen, first tr]

theorem ends_attempt_ok {catches : X → Option Y} {m : Program X E S A} {s s' : S} {a : A}
    {es : List E} (body : Ends m s (.ok a) s' es) :
    Ends (attempt catches m) s (.ok (.ok a)) s' es := by
  intro tr
  simp only [attempt, body tr]

theorem ends_attempt_caught {catches : X → Option Y} {m : Program X E S A} {s s' : S} {x : X}
    {y : Y} {es : List E} (body : Ends m s (.error x) s' es) (caught : catches x = some y) :
    Ends (attempt catches m) s (.ok (.error y)) s' es := by
  intro tr
  simp only [attempt, body tr, caught]

theorem ends_onExit {f : Except X A → S → S} {m : Program X E S A} {s s' : S} {r : Except X A}
    {es : List E} (body : Ends m s r s' es) : Ends (onExit f m) s r (f r s') es := by
  intro tr
  simp only [onExit, body tr]

/-! The interrupted program. -/

/-- A property of traces that the empty one has and concatenation keeps. -/
structure Shape (E : Type) where
  holds : List E → Prop
  nil : holds []
  append : ∀ es ds, holds es → holds ds → holds (es ++ ds)

def Shape.all (P : E → Prop) : Shape E where
  holds es := ∀ e ∈ es, P e
  nil := by simp
  append es ds first second e member := (List.mem_append.mp member).elim (first e) (second e)

def Shape.blocks (B : List E → Prop) : Shape E where
  holds es := ∃ bs : List (List E), es = bs.flatten ∧ ∀ b ∈ bs, B b
  nil := ⟨[], rfl, by simp⟩
  append := by
    rintro es ds ⟨bs, rfl, first⟩ ⟨cs, rfl, second⟩
    refine ⟨bs ++ cs, List.flatten_append.symm, fun b member => ?_⟩
    exact (List.mem_append.mp member).elim (first b) (second b)

theorem Shape.blocks_single {B : List E → Prop} {b : List E} (h : B b) : (Shape.blocks B).holds b :=
  ⟨[b], by simp, by simpa using h⟩

theorem Shape.blocks_of_all {B : List E → Prop} {P : E → Prop} (single : ∀ e, P e → B [e])
    {es : List E} (h : (Shape.all P).holds es) : (Shape.blocks B).holds es := by
  induction es with
  | nil => exact (Shape.blocks B).nil
  | cons e es ih =>
    have head := Shape.blocks_single (single e (h e List.mem_cons_self))
    exact (Shape.blocks B).append [e] es head (ih fun d member => h d (List.mem_cons_of_mem _ member))

/-- The effects of `m` have the shape `G`, and an interruption which `allowed` lets an effect
    raise stops `m` at this effect with what was raised. -/
structure Clean (allowed : E → X → Prop) (G : Shape E) (m : Program X E S A) : Prop where
  grows : ∀ s tr, ∃ es, (m none s tr).2.2 = tr ++ es ∧ G.holds es
  same : ∀ n x s tr, n < tr.length ∨ (m none s tr).2.2.length ≤ n →
    m (some (n, x)) s tr = m none s tr
  cut : ∀ n x s tr e, tr.length ≤ n → (m none s tr).2.2[n]? = some e → allowed e x →
    (m (some (n, x)) s tr).1 = .error x ∧
      (m (some (n, x)) s tr).2.2 = (m none s tr).2.2.take (n + 1)

variable {allowed : E → X → Prop} {G H : Shape E}

theorem clean_of_silent {m : Program X E S A} (silent : ∀ p s tr, (m p s tr).2.2 = tr)
    (blind : ∀ p s tr, m p s tr = m none s tr) : Clean allowed G m where
  grows s tr := ⟨[], by simp [silent], G.nil⟩
  same n x s tr _ := blind _ s tr
  cut n x s tr e late found _ := by
    rw [silent, List.getElem?_eq_none late] at found
    cases found

theorem clean_pure (a : A) : Clean allowed G (pure a : Program X E S A) :=
  clean_of_silent (fun _ _ _ => rfl) fun _ _ _ => rfl

theorem clean_fromExcept (r : Except X A) : Clean allowed G (fromExcept r : Program X E S A) :=
  clean_of_silent (fun _ _ _ => rfl) fun _ _ _ => rfl

theorem clean_raise (x : X) : Clean allowed G (raise x : Program X E S A) := clean_fromExcept _

theorem clean_atomic (f : S → Except X A × S) :
    Clean allowed G (atomic f : Program X E S A) :=
  clean_of_silent (fun _ _ _ => rfl) fun _ _ _ => rfl

theorem clean_effect {e : E} (h : G.holds [e]) :
    Clean allowed G (effect e : Program X E S Unit) where
  grows s tr := ⟨[e], rfl, h⟩
  same n x s tr away := by
    have ne : n ≠ tr.length := by
      simp [effect] at away
      omega
    simp [effect, ne]
  cut n x s tr d late found _ := by
    have here : n = tr.length := by
      have lt := (List.getElem?_eq_some_iff.mp found).1
      simp [effect] at lt
      omega
    subst here
    simp [effect, List.take_of_length_le]

/-- A clean program whose effects are known to have another shape as well. -/
theorem clean_reshape {m : Program X E S A} (h : Clean allowed G m)
    (other : ∀ s tr, ∃ es, (m none s tr).2.2 = tr ++ es ∧ H.holds es) : Clean allowed H m :=
  ⟨other, h.same, h.cut⟩

theorem clean_mono {m : Program X E S A} (h : Clean allowed G m)
    (sub : ∀ es, G.holds es → H.holds es) : Clean allowed H m := by
  apply clean_reshape h
  intro s tr
  obtain ⟨es, trace, shape⟩ := h.grows s tr
  exact ⟨es, trace, sub es shape⟩

theorem clean_bind {m : Program X E S A} {f : A → Program X E S B} (hm : Clean allowed G m)
    (hf : ∀ a, Clean allowed G (f a)) : Clean allowed G (m >>= f) where
  grows s tr := by
    obtain ⟨es, trace, shape⟩ := hm.grows s tr
    rcases out : m none s tr with ⟨r, s', tr'⟩
    rw [out] at trace
    cases r with
    | ok a =>
      obtain ⟨ds, more, rest⟩ := (hf a).grows s' tr'
      refine ⟨es ++ ds, ?_, G.append es ds shape rest⟩
      simp only [bind, andThen, out, more]
      rw [show tr' = tr ++ es from trace, List.append_assoc]
    | error x =>
      refine ⟨es, ?_, shape⟩
      simp only [bind, andThen, out]
      exact trace
  same n x s tr away := by
    obtain ⟨es, trace, _⟩ := hm.grows s tr
    rcases out : m none s tr with ⟨r, s', tr'⟩
    rw [out] at trace
    have longer : tr.length ≤ tr'.length := by simp [show tr' = tr ++ es from trace]
    cases r with
    | ok a =>
      obtain ⟨ds, more, _⟩ := (hf a).grows s' tr'
      simp only [bind, andThen, out] at away ⊢
      have total : tr'.length ≤ ((f a) none s' tr').2.2.length := by simp [more]
      rw [hm.same n x s tr (by rw [out]; simp only; omega), out]
      exact (hf a).same n x s' tr' (by omega)
    | error y =>
      simp only [bind, andThen, out] at away ⊢
      rw [hm.same n x s tr (by rw [out]; exact away), out]
  cut n x s tr e late found ok := by
    obtain ⟨es, trace, _⟩ := hm.grows s tr
    rcases out : m none s tr with ⟨r, s', tr'⟩
    rw [out] at trace
    by_cases inside : n < tr'.length
    · -- The interruption hits the first program, whose trace the second one only extends.
      have whole : ∃ ds, ((m >>= f) none s tr).2.2 = tr' ++ ds := by
        cases r with
        | ok a =>
          obtain ⟨ds, more, _⟩ := (hf a).grows s' tr'
          exact ⟨ds, by simp only [bind, andThen, out, more]⟩
        | error y => exact ⟨[], by simp only [bind, andThen, out, List.append_nil]⟩
      obtain ⟨ds, whole⟩ := whole
      rw [whole, List.getElem?_append_left inside] at found
      obtain ⟨raised, stopped⟩ := hm.cut n x s tr e late (by rw [out]; exact found) ok
      rcases cutOut : m (some (n, x)) s tr with ⟨r', s'', tr''⟩
      rw [cutOut] at raised stopped
      rw [out] at stopped
      simp only at raised stopped
      subst raised
      have result : (m >>= f) (some (n, x)) s tr = (.error x, s'', tr'') := by
        simp only [bind, andThen, cutOut]
      rw [result, whole, List.take_append_of_le_length (by omega)]
      exact ⟨rfl, stopped⟩
    · -- The first program runs as usual.
      have first := hm.same n x s tr (by rw [out]; simp only; omega)
      rw [out] at first
      cases r with
      | ok a =>
        simp only [bind, andThen, out, first] at found ⊢
        exact (hf a).cut n x s' tr' e (by omega) found ok
      | error y =>
        simp only [bind, andThen, out] at found
        rw [List.getElem?_eq_none (by omega)] at found
        cases found

/-- A handler that catches nothing its body's effects may raise is transparent. -/
theorem clean_attempt {catches : X → Option Y} {m : Program X E S A} (h : Clean allowed G m)
    (through : ∀ es e x, G.holds es → e ∈ es → allowed e x → catches x = none) :
    Clean allowed G (attempt catches m) := by
  have trace (p : Option (ℕ × X)) (s : S) (tr : List E) :
      (attempt catches m p s tr).2.2 = (m p s tr).2.2 := by
    rcases out : m p s tr with ⟨r, s', tr'⟩
    cases r with
    | ok a => simp only [attempt, out]
    | error x => cases caught : catches x <;> simp only [attempt, out, caught]
  constructor
  · intro s tr
    rw [trace]
    exact h.grows s tr
  · intro n x s tr away
    rw [trace] at away
    simp only [attempt, h.same n x s tr away]
  · intro n x s tr e late found ok
    rw [trace] at found
    obtain ⟨raised, stopped⟩ := h.cut n x s tr e late found ok
    obtain ⟨es, grown, shape⟩ := h.grows s tr
    have member : e ∈ es := by
      rw [grown, List.getElem?_append_right late] at found
      exact List.mem_of_getElem? found
    rw [trace, trace]
    refine ⟨?_, stopped⟩
    rcases out : m (some (n, x)) s tr with ⟨r, s', tr'⟩
    rw [out] at raised
    simp only at raised
    subst raised
    simp only [attempt, out, through es e x shape member ok]

theorem clean_onExit {f : Except X A → S → S} {m : Program X E S A} (h : Clean allowed G m) :
    Clean allowed G (onExit f m) where
  grows s tr := h.grows s tr
  same n x s tr away := by simp only [onExit, h.same n x s tr away]
  cut n x s tr e late found ok := h.cut n x s tr e late found ok

/-- The block around a position of a trace made of blocks. -/
theorem block_at {bs : List (List E)} {n : ℕ} {e : E} (h : bs.flatten[n]? = some e) :
    ∃ before b after j, bs = before ++ b :: after ∧ n = before.flatten.length + j ∧
      b[j]? = some e := by
  induction bs generalizing n with
  | nil => simp at h
  | cons b bs ih =>
    by_cases inside : n < b.length
    · rw [List.flatten_cons, List.getElem?_append_left inside] at h
      exact ⟨[], b, bs, n, rfl, by simp, h⟩
    · have beyond := Nat.le_of_not_lt inside
      rw [List.flatten_cons, List.getElem?_append_right beyond] at h
      obtain ⟨before, c, after, j, split, position, found⟩ := ih h
      refine ⟨b :: before, c, after, j, by simp [split], ?_, found⟩
      simp only [List.flatten_cons, List.length_append]
      omega

/-! What a program returns, whether or not it is interrupted. -/

def Yields (m : Program X E S A) (P : A → Prop) : Prop :=
  ∀ p s tr a, (m p s tr).1 = .ok a → P a

theorem yields_any (m : Program X E S A) : Yields m fun _ => True := fun _ _ _ _ _ => trivial

theorem yields_pure {a : A} {P : A → Prop} (h : P a) : Yields (pure a : Program X E S A) P := by
  rintro p s tr b ⟨⟩
  exact h

theorem yields_fromExcept {r : Except X A} {P : A → Prop} (h : ∀ a, r = .ok a → P a) :
    Yields (fromExcept r : Program X E S A) P :=
  fun _ _ _ a returned => h a returned

theorem yields_raise {x : X} {P : A → Prop} : Yields (raise x : Program X E S A) P :=
  yields_fromExcept fun _ impossible => by cases impossible

theorem yields_bind {m : Program X E S A} {f : A → Program X E S B} {P : A → Prop} {Q : B → Prop}
    (first : Yields m P) (second : ∀ a, P a → Yields (f a) Q) : Yields (m >>= f) Q := by
  intro p s tr b returned
  rcases out : m p s tr with ⟨r, s', tr'⟩
  cases r with
  | ok a =>
    simp only [bind, andThen, out] at returned
    exact second a (first p s tr a (by rw [out])) p s' tr' b returned
  | error x =>
    simp only [bind, andThen, out] at returned
    cases returned

theorem yields_attempt {catches : X → Option Y} {m : Program X E S A} {P : A → Prop}
    (body : Yields m P) : Yields (attempt catches m) fun r => ∀ a, r = .ok a → P a := by
  rintro p s tr r returned a rfl
  rcases out : m p s tr with ⟨r, s', tr'⟩
  cases r with
  | ok b =>
    simp only [attempt, out] at returned
    cases returned
    exact body p s tr a (by rw [out])
  | error x => cases caught : catches x <;> simp [attempt, out, caught] at returned

theorem yields_onExit {f : Except X A → S → S} {m : Program X E S A} {P : A → Prop}
    (body : Yields m P) : Yields (onExit f m) P := by
  intro p s tr a returned
  exact body p s tr a returned

/-! What the uninterrupted program does, returns and raises. -/

def Performs (G : E → Prop) (m : Program X E S A) (P : A → Prop) (Q : X → Prop) : Prop :=
  ∀ s tr, (∃ es, (m none s tr).2.2 = tr ++ es ∧ ∀ e ∈ es, G e) ∧
    (∀ a, (m none s tr).1 = .ok a → P a) ∧ ∀ x, (m none s tr).1 = .error x → Q x

section
variable {D : E → Prop} {P : A → Prop} {Q : X → Prop}

theorem performs_mono {m : Program X E S A} {P' : A → Prop} {Q' : X → Prop}
    (h : Performs D m P Q) (values : ∀ a, P a → P' a) (errors : ∀ x, Q x → Q' x) :
    Performs D m P' Q' := by
  intro s tr
  obtain ⟨effects, returned, raised⟩ := h s tr
  exact ⟨effects, fun a out => values a (returned a out), fun x out => errors x (raised x out)⟩

theorem performs_fromExcept {r : Except X A} (values : ∀ a, r = .ok a → P a)
    (errors : ∀ x, r = .error x → Q x) : Performs D (fromExcept r : Program X E S A) P Q :=
  fun _ _ => ⟨⟨[], (List.append_nil _).symm, nofun⟩, values, errors⟩

theorem performs_pure {a : A} (h : P a) : Performs D (pure a : Program X E S A) P Q :=
  performs_fromExcept (r := .ok a) (fun _ same => Except.ok.inj same ▸ h) nofun

theorem performs_raise {x : X} (h : Q x) : Performs D (raise x : Program X E S A) P Q :=
  performs_fromExcept nofun fun _ same => Except.error.inj same ▸ h

theorem performs_atomic {f : S → Except X A × S} (values : ∀ s a, (f s).1 = .ok a → P a)
    (errors : ∀ s x, (f s).1 = .error x → Q x) : Performs D (atomic f : Program X E S A) P Q :=
  fun s _ => ⟨⟨[], (List.append_nil _).symm, nofun⟩, values s, errors s⟩

theorem performs_effect {e : E} (h : D e) :
    Performs D (effect e : Program X E S Unit) (fun _ => True) Q :=
  fun _ _ => ⟨⟨[e], rfl, by simpa using h⟩, fun _ _ => trivial, nofun⟩

theorem performs_bind {m : Program X E S A} {f : A → Program X E S B} {R : B → Prop}
    (first : Performs D m P Q) (second : ∀ a, P a → Performs D (f a) R Q) :
    Performs D (m >>= f) R Q := by
  intro s tr
  obtain ⟨⟨es, trace, effects⟩, returned, raised⟩ := first s tr
  rcases out : m none s tr with ⟨r, t, tr'⟩
  rw [out] at trace returned raised
  cases r with
  | ok a =>
    obtain ⟨⟨ds, more, rest⟩, returned', raised'⟩ := second a (returned a rfl) t tr'
    simp only [bind, andThen, out]
    refine ⟨⟨es ++ ds, ?_, fun e member => ?_⟩, returned', raised'⟩
    · rw [more, show tr' = tr ++ es from trace, List.append_assoc]
    · exact (List.mem_append.mp member).elim (effects e) (rest e)
  | error x =>
    simp only [bind, andThen, out]
    refine ⟨⟨es, trace, effects⟩, nofun, ?_⟩
    rintro y ⟨⟩
    exact raised x rfl

theorem performs_attempt {catches : X → Option Y} {m : Program X E S A} {Q' : X → Prop}
    (body : Performs D m P Q) (uncaught : ∀ x, Q x → catches x = none → Q' x) :
    Performs D (attempt catches m) (fun r => ∀ a, r = .ok a → P a) Q' := by
  intro s tr
  obtain ⟨effects, returned, raised⟩ := body s tr
  rcases out : m none s tr with ⟨r, t, tr'⟩
  rw [out] at effects returned raised
  cases r with
  | ok a =>
    simp only [attempt, out]
    refine ⟨effects, ?_, nofun⟩
    rintro r ⟨⟩ b ⟨⟩
    exact returned a rfl
  | error x =>
    cases caught : catches x with
    | some y =>
      simp only [attempt, out, caught]
      refine ⟨effects, ?_, nofun⟩
      rintro r ⟨⟩ b impossible
      cases impossible
    | none =>
      simp only [attempt, out, caught]
      refine ⟨effects, nofun, ?_⟩
      rintro y ⟨⟩
      exact uncaught x (raised x rfl) caught

theorem performs_onExit {f : Except X A → S → S} {m : Program X E S A}
    (body : Performs D m P Q) : Performs D (onExit f m) P Q :=
  fun s tr => body s tr

end

/-! What a program leaves alone, whether or not it is interrupted. -/

/-- The effects of `m` satisfy `G`, and what `f` reads of the state stays as it is. -/
def Confined (G : E → Prop) (f : S → Y) (m : Program X E S A) : Prop :=
  ∀ p s tr, f (m p s tr).2.1 = f s ∧ ∃ es, (m p s tr).2.2 = tr ++ es ∧ ∀ e ∈ es, G e

section
variable {D : E → Prop} {f : S → Y}

theorem confined_fromExcept (r : Except X A) :
    Confined D f (fromExcept r : Program X E S A) :=
  fun _ _ _ => ⟨rfl, [], (List.append_nil _).symm, nofun⟩

theorem confined_pure (a : A) : Confined D f (pure a : Program X E S A) :=
  confined_fromExcept (.ok a)

theorem confined_raise (x : X) : Confined D f (raise x : Program X E S A) :=
  confined_fromExcept (.error x)

theorem confined_atomic {g : S → Except X A × S} (keeps : ∀ s, f (g s).2 = f s) :
    Confined D f (atomic g : Program X E S A) :=
  fun _ s _ => ⟨keeps s, [], (List.append_nil _).symm, nofun⟩

theorem confined_effect {e : E} (h : D e) : Confined D f (effect e : Program X E S Unit) := by
  intro p s tr
  rcases p with _ | ⟨n, x⟩ <;> exact ⟨rfl, [e], rfl, by simpa using h⟩

theorem confined_bind {m : Program X E S A} {g : A → Program X E S B} (first : Confined D f m)
    (second : ∀ a, Confined D f (g a)) : Confined D f (m >>= g) := by
  intro p s tr
  obtain ⟨kept, es, trace, effects⟩ := first p s tr
  rcases out : m p s tr with ⟨r, t, tr'⟩
  rw [out] at kept trace
  cases r with
  | ok a =>
    obtain ⟨kept', ds, more, rest⟩ := second a p t tr'
    simp only [bind, andThen, out]
    refine ⟨kept'.trans kept, es ++ ds, ?_, fun e member => ?_⟩
    · rw [more, show tr' = tr ++ es from trace, List.append_assoc]
    · exact (List.mem_append.mp member).elim (effects e) (rest e)
  | error x =>
    simp only [bind, andThen, out]
    exact ⟨kept, es, trace, effects⟩

theorem confined_onExit {g : Except X A → S → S} {m : Program X E S A}
    (keeps : ∀ r s, f (g r s) = f s) (body : Confined D f m) : Confined D f (onExit g m) := by
  intro p s tr
  obtain ⟨kept, trace⟩ := body p s tr
  exact ⟨(keeps _ _).trans kept, trace⟩

theorem confined_attempt {Z : Type} {catches : X → Option Z} {m : Program X E S A}
    (body : Confined D f m) : Confined D f (attempt catches m) := by
  intro p s tr
  obtain ⟨kept, trace⟩ := body p s tr
  rcases out : m p s tr with ⟨r, t, tr'⟩
  rw [out] at kept trace
  cases r with
  | ok a =>
    simp only [attempt, out]
    exact ⟨kept, trace⟩
  | error x => cases caught : catches x <;> simp only [attempt, out, caught] <;> exact ⟨kept, trace⟩

end

/-! Where a clock in the state has got to. -/

/-- Uninterrupted, from any state in which the clock shows `n`: the clock of `m` only goes on,
    what `m` returns satisfies `P` with what the clock then shows, and what it raises `Q`. -/
def Advances (clock : S → ℕ) (n : ℕ) (m : Program X E S A) (P : A → ℕ → Prop) (Q : X → Prop) :
    Prop :=
  ∀ s tr, clock s = n → n ≤ clock (m none s tr).2.1 ∧
    (∀ a, (m none s tr).1 = .ok a → P a (clock (m none s tr).2.1)) ∧
    ∀ x, (m none s tr).1 = .error x → Q x

section
variable {clock : S → ℕ} {n : ℕ} {P : A → ℕ → Prop} {Q : X → Prop}

theorem advances_mono {m : Program X E S A} {P' : A → ℕ → Prop} {Q' : X → Prop}
    (h : Advances clock n m P Q) (values : ∀ a k, n ≤ k → P a k → P' a k)
    (errors : ∀ x, Q x → Q' x) : Advances clock n m P' Q' := by
  intro s tr shows
  obtain ⟨on, returned, raised⟩ := h s tr shows
  exact ⟨on, fun a out => values a _ on (returned a out), fun x out => errors x (raised x out)⟩

theorem advances_fromExcept {r : Except X A} (values : ∀ a, r = .ok a → P a n)
    (errors : ∀ x, r = .error x → Q x) : Advances clock n (fromExcept r : Program X E S A) P Q := by
  rintro s tr rfl
  exact ⟨Nat.le_refl _, values, errors⟩

theorem advances_pure {a : A} (h : P a n) : Advances clock n (pure a : Program X E S A) P Q :=
  advances_fromExcept (r := .ok a) (fun _ same => Except.ok.inj same ▸ h) nofun

theorem advances_raise {x : X} (h : Q x) : Advances clock n (raise x : Program X E S A) P Q :=
  advances_fromExcept nofun fun _ same => Except.error.inj same ▸ h

theorem advances_atomic {f : S → Except X A × S} (on : ∀ s, clock s = n → n ≤ clock (f s).2)
    (values : ∀ s a, clock s = n → (f s).1 = .ok a → P a (clock (f s).2))
    (errors : ∀ s x, (f s).1 = .error x → Q x) :
    Advances clock n (atomic f : Program X E S A) P Q :=
  fun s _ shows => ⟨on s shows, fun a => values s a shows, errors s⟩

theorem advances_effect (e : E) :
    Advances clock n (effect e : Program X E S Unit) (fun _ k => k = n) Q := by
  rintro s tr rfl
  exact ⟨Nat.le_refl _, fun _ _ => rfl, nofun⟩

theorem advances_bind {m : Program X E S A} {f : A → Program X E S B} {R : B → ℕ → Prop}
    (first : Advances clock n m P Q)
    (second : ∀ a k, n ≤ k → P a k → Advances clock k (f a) R Q) :
    Advances clock n (m >>= f) R Q := by
  intro s tr shows
  obtain ⟨on, returned, raised⟩ := first s tr shows
  rcases out : m none s tr with ⟨r, t, tr'⟩
  rw [out] at on returned raised
  cases r with
  | ok a =>
    obtain ⟨on', returned', raised'⟩ := second a _ on (returned a rfl) t tr' rfl
    simp only [bind, andThen, out]
    exact ⟨Nat.le_trans on on', returned', raised'⟩
  | error x =>
    simp only [bind, andThen, out]
    refine ⟨on, nofun, ?_⟩
    rintro y ⟨⟩
    exact raised x rfl

theorem advances_attempt {catches : X → Option Y} {m : Program X E S A} {Q' : X → Prop}
    (body : Advances clock n m P Q) (uncaught : ∀ x, Q x → catches x = none → Q' x) :
    Advances clock n (attempt catches m) (fun r k => ∀ a, r = .ok a → P a k) Q' := by
  intro s tr shows
  obtain ⟨on, returned, raised⟩ := body s tr shows
  rcases out : m none s tr with ⟨r, t, tr'⟩
  rw [out] at on returned raised
  cases r with
  | ok a =>
    simp only [attempt, out]
    refine ⟨on, ?_, nofun⟩
    rintro r ⟨⟩ b ⟨⟩
    exact returned a rfl
  | error x =>
    cases caught : catches x with
    | some y =>
      simp only [attempt, out, caught]
      refine ⟨on, ?_, nofun⟩
      rintro r ⟨⟩ b impossible
      cases impossible
    | none =>
      simp only [attempt, out, caught]
      refine ⟨on, nofun, ?_⟩
      rintro y ⟨⟩
      exact uncaught x (raised x rfl) caught

theorem advances_onExit {f : Except X A → S → S} {m : Program X E S A}
    (still : ∀ r s, clock (f r s) = clock s) (body : Advances clock n m P Q) :
    Advances clock n (onExit f m) P Q := by
  intro s tr shows
  obtain ⟨on, returned, raised⟩ := body s tr shows
  simp only [onExit, still]
  exact ⟨on, returned, raised⟩

end

end Interruptible
