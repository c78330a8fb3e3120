import Mathlib.Data.List.Forall2
import Mathlib.Tactic.Common

/-!
Computations that may fail, passes of them over lists, and lists that are related element
by element.
-/
namespace Fallible
variable {A B C E : Type}

theorem except_bind_iff {x : Except E A} {f : A → Except E B} {b : B} :
    (x >>= f) = .ok b ↔ ∃ a, x = .ok a ∧ f a = .ok b := by
  cases x with
  | error e => simp [bind, Except.bind]
  | ok a => simp [bind, Except.bind]

theorem except_bind_ok {x : Except E A} {f : A → Except E B} {b : B}
    (h : (x >>= f) = .ok b) : ∃ a, x = .ok a ∧ f a = .ok b := except_bind_iff.mp h

theorem toOption_eq_some {x : Except E A} {a : A} : x.toOption = some a ↔ x = .ok a := by
  cases x with
  | error e => exact ⟨nofun, nofun⟩
  | ok b => simp [Except.toOption]

/-! Checks. -/

/-- `x` succeeds exactly if `P` holds, and an error of it satisfies `Q`. -/
inductive Decides (x : Except E A) (P : Prop) (Q : E → Prop) : Prop where
  | accepts {a : A} (ok : x = .ok a) (h : P)
  | refuses {e : E} (error : x = .error e) (no : ¬ P) (h : Q e)

section
variable {P R : Prop} {Q Q' : E → Prop}

theorem decides_congr {x : Except E A} (h : Decides x P Q) (same : P ↔ R)
    (sub : ∀ e, Q e → Q' e) : Decides x R Q' := by
  cases h with
  | accepts ok h => exact .accepts ok (same.mp h)
  | refuses error no h => exact .refuses error (fun r => no (same.mpr r)) (sub _ h)

theorem decides_bind {x : Except E A} {f : A → Except E B} (first : Decides x P Q)
    (second : ∀ a, x = .ok a → Decides (f a) R Q) : Decides (x >>= f) (P ∧ R) Q := by
  cases first with
  | accepts ok h =>
    subst ok
    exact decides_congr (second _ rfl) ⟨fun r => ⟨h, r⟩, fun both => both.2⟩ fun _ h => h
  | refuses error no h =>
    subst error
    exact .refuses rfl (fun both => no both.1) h

end

/-! Passes. -/

theorem mapM_ok_iff {f : A → Except E B} {as : List A} {bs : List B} :
    as.mapM f = .ok bs ↔ List.Forall₂ (fun a b => f a = .ok b) as bs := by
  induction as generalizing bs with
  | nil => simp [pure, Except.pure, eq_comm]
  | cons a as ih =>
    rw [List.mapM_cons, except_bind_iff]
    constructor
    · rintro ⟨b, first, h⟩
      obtain ⟨rest, more, same⟩ := except_bind_ok h
      cases same
      exact .cons first (ih.mp more)
    · intro h
      cases h with
      | cons first more => exact ⟨_, first, except_bind_iff.mpr ⟨_, ih.mpr more, rfl⟩⟩

theorem mapM_total {f : A → Except E B} {as : List A}
    (h : ∀ a ∈ as, ∃ b, f a = .ok b) :
    ∃ bs, List.Forall₂ (fun a b => f a = .ok b) as bs := by
  induction as with
  | nil => exact ⟨[], .nil⟩
  | cons a as ih =>
    obtain ⟨⟨b, first⟩, more⟩ := List.forall_mem_cons.mp h
    obtain ⟨bs, rest⟩ := ih more
    exact ⟨b :: bs, .cons first rest⟩

theorem mapM_eq_some {f : A → Option B} {as : List A} {bs : List B} :
    as.mapM f = some bs ↔ List.Forall₂ (fun a b => f a = some b) as bs := by
  induction as generalizing bs with
  | nil => simp [eq_comm]
  | cons a as ih =>
    rw [List.mapM_cons]
    constructor
    · intro whole
      cases here : f a with
      | none => simp [here] at whole
      | some b =>
        cases rest : as.mapM f with
        | none => simp [here, rest] at whole
        | some cs =>
          simp only [here, rest, Option.bind_eq_bind, Option.bind_some] at whole
          cases whole
          exact .cons here (ih.mp rest)
    · rintro (_ | ⟨first, more⟩)
      simp [first, ih.mpr more]

theorem mapM_isSome {f : A → Option B} {as : List A} :
    (as.mapM f).isSome = true ↔ ∀ a ∈ as, (f a).isSome = true := by
  induction as with
  | nil => simp
  | cons a as ih =>
    rw [List.forall_mem_cons, ← ih, List.mapM_cons]
    cases f a <;> cases as.mapM f <;> simp

/-- Two selections of which one extends the other agree on a list only where they agree on
    each of its members. -/
theorem filterMap_eq_iff {f g : A → Option B} {as : List A}
    (extends_ : ∀ a ∈ as, ∀ b, g a = some b → f a = some b) :
    as.filterMap f = as.filterMap g ↔ ∀ a ∈ as, f a = g a := by
  have shorter (as : List A) (extends_ : ∀ a ∈ as, ∀ b, g a = some b → f a = some b) :
      (as.filterMap g).length ≤ (as.filterMap f).length := by
    induction as with
    | nil => exact Nat.le_refl _
    | cons a as ih =>
      have rest := ih fun c member => extends_ c (List.mem_cons_of_mem _ member)
      cases here : g a with
      | some b =>
        rw [List.filterMap_cons_some here,
          List.filterMap_cons_some (extends_ a List.mem_cons_self b here)]
        simpa using rest
      | none =>
        rw [List.filterMap_cons_none here]
        cases other : f a with
        | none => rwa [List.filterMap_cons_none other]
        | some c =>
          rw [List.filterMap_cons_some other, List.length_cons]
          omega
  constructor
  · intro same
    induction as with
    | nil => simp
    | cons a as ih =>
      have rest : ∀ c ∈ as, ∀ b, g c = some b → f c = some b :=
        fun c member => extends_ c (List.mem_cons_of_mem _ member)
      cases here : g a with
      | some b =>
        have there := extends_ a List.mem_cons_self b here
        rw [List.filterMap_cons_some here, List.filterMap_cons_some there] at same
        intro c member
        rcases List.mem_cons.mp member with rfl | later
        · rw [here, there]
        · exact ih rest (List.cons.inj same).2 c later
      | none =>
        rw [List.filterMap_cons_none here] at same
        cases there : f a with
        | none =>
          rw [List.filterMap_cons_none there] at same
          intro c member
          rcases List.mem_cons.mp member with rfl | later
          · rw [here, there]
          · exact ih rest same c later
        | some b =>
          have lengths := congrArg List.length same
          have least := shorter as rest
          rw [List.filterMap_cons_some there, List.length_cons] at lengths
          omega
  · exact List.filterMap_congr

/-! Related lists. -/

theorem map_eq_map_iff {f : A → C} {g : B → C} {as : List A} {bs : List B} :
    as.map f = bs.map g ↔ List.Forall₂ (fun a b => f a = g b) as bs := by
  rw [← List.forall₂_eq_eq_eq, List.forall₂_map_left_iff, List.forall₂_map_right_iff]

theorem forall₂_mem {R : A → B → Prop} {as : List A} {bs : List B}
    (h : List.Forall₂ R as bs) {a : A} (member : a ∈ as) : ∃ b ∈ bs, R a b := by
  induction h with
  | nil => cases member
  | cons first rest ih =>
    rcases List.mem_cons.mp member with rfl | later
    · exact ⟨_, List.mem_cons_self, first⟩
    · obtain ⟨b, there, related⟩ := ih later
      exact ⟨b, List.mem_cons_of_mem _ there, related⟩

theorem forall₂_comp {P : A → B → Prop} {Q : A → C → Prop} {R : B → C → Prop}
    (compose : ∀ a b c, P a b → Q a c → R b c) {as : List A} {bs : List B} {cs : List C}
    (first : List.Forall₂ P as bs) (second : List.Forall₂ Q as cs) : List.Forall₂ R bs cs := by
  induction first generalizing cs with
  | nil =>
    cases second
    exact .nil
  | cons here _ ih =>
    cases second with
    | cons there more => exact .cons (compose _ _ _ here there) (ih more)

theorem forall₂_append_left {R : A → B → Prop} {as bs : List A} {cs : List B}
    (h : List.Forall₂ R (as ++ bs) cs) :
    ∃ front back, cs = front ++ back ∧ List.Forall₂ R as front ∧ List.Forall₂ R bs back := by
  have first := List.forall₂_take_append _ _ _ h.flip
  have second := List.forall₂_drop_append _ _ _ h.flip
  exact ⟨_, _, (List.take_append_drop as.length cs).symm, first.flip, second.flip⟩

theorem forall₂_append_right {R : A → B → Prop} {as : List A} {bs cs : List B}
    (h : List.Forall₂ R as (bs ++ cs)) :
    ∃ front back, as = front ++ back ∧ List.Forall₂ R front bs ∧ List.Forall₂ R back cs :=
  ⟨_, _, (List.take_append_drop bs.length as).symm, List.forall₂_take_append _ _ _ h,
    List.forall₂_drop_append _ _ _ h⟩

end Fallible
