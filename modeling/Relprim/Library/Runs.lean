import Mathlib.Data.List.Basic
import Mathlib.Data.List.Induction
import Mathlib.Data.Set.Basic
import Mathlib.Tactic.Common

/-!
Runs of a deterministic labelled step function. A label that is not enabled
has no successor. Invariants are proved once per step and then hold along
every run; a condition on the steps of a run is carried by `Along`.
-/
namespace LabelledRuns
variable {S L : Type}

def run (step : S → L → Option S) : S → List L → Option S
  | s, [] => some s
  | s, l :: ls => (step s l).bind fun t => run step t ls

def Reachable (step : S → L → Option S) (init s : S) : Prop := ∃ ls, run step init ls = some s

/-- Every step the run takes, from the state it is taken in, satisfies `P`. -/
def Along (step : S → L → Option S) (P : S → L → Prop) : S → List L → Prop
  | _, [] => True
  | s, l :: ls => P s l ∧ ∀ t ∈ step s l, Along step P t ls

instance decidableAlong {step : S → L → Option S} {P : S → L → Prop} [∀ s l, Decidable (P s l)] :
    ∀ (s : S) (ls : List L), Decidable (Along step P s ls)
  | _, [] => .isTrue trivial
  | s, _ :: ls =>
    have : ∀ t, Decidable (Along step P t ls) := fun t => decidableAlong t ls
    inferInstanceAs (Decidable (_ ∧ ∀ t ∈ step s _, Along step P t ls))

theorem run_cons {step : S → L → Option S} {s t : S} {l : L} {ls : List L} :
    run step s (l :: ls) = some t ↔ ∃ u, step s l = some u ∧ run step u ls = some t := by
  simp [run, Option.bind_eq_some_iff]

theorem run_append {step : S → L → Option S} {s t : S} {ls ms : List L} :
    run step s (ls ++ ms) = some t ↔ ∃ u, run step s ls = some u ∧ run step u ms = some t := by
  induction ls generalizing s with
  | nil => simp [run]
  | cons l ls ih =>
    rw [List.cons_append, run_cons]
    constructor
    · rintro ⟨u, hu, rest⟩
      obtain ⟨v, hv, last⟩ := ih.mp rest
      exact ⟨v, run_cons.mpr ⟨u, hu, hv⟩, last⟩
    · rintro ⟨v, hv, last⟩
      obtain ⟨u, hu, rest⟩ := run_cons.mp hv
      exact ⟨u, hu, ih.mpr ⟨v, rest, last⟩⟩

theorem run_snoc {step : S → L → Option S} {s t : S} {l : L} {ls : List L} :
    run step s (ls ++ [l]) = some t ↔ ∃ u, run step s ls = some u ∧ step u l = some t := by
  rw [run_append]
  simp [run]

theorem reachable_snoc {step : S → L → Option S} {init s t : S} {l : L}
    (h : Reachable step init s) (last : step s l = some t) : Reachable step init t := by
  obtain ⟨ls, run⟩ := h
  exact ⟨ls ++ [l], run_snoc.mpr ⟨s, run, last⟩⟩

/-- The invariant rule with a condition on the steps taken. -/
theorem invariant_along {step : S → L → Option S} {P : S → L → Prop} {I : S → Prop}
    (keep : ∀ s l t, I s → P s l → step s l = some t → I t) {s t : S} {ls : List L}
    (start : I s) (ok : Along step P s ls) (h : run step s ls = some t) : I t := by
  induction ls generalizing s with
  | nil =>
    cases h
    exact start
  | cons l ls ih =>
    obtain ⟨u, hu, rest⟩ := run_cons.mp h
    exact ih (keep s l u start ok.1 hu) (ok.2 u hu) rest

theorem along_of_mem {step : S → L → Option S} {P : S → L → Prop} {ls : List L}
    (h : ∀ l ∈ ls, ∀ s, P s l) (s : S) : Along step P s ls := by
  induction ls generalizing s with
  | nil => trivial
  | cons l ls ih =>
    exact ⟨h l (List.mem_cons_self ..) s, fun t _ => ih (fun m hm => h m (List.mem_cons_of_mem _ hm)) t⟩

theorem along_of_forall {step : S → L → Option S} {P : S → L → Prop} (h : ∀ s l, P s l)
    (s : S) (ls : List L) : Along step P s ls :=
  along_of_mem (fun l _ t => h t l) s

/-- The invariant rule: what the start satisfies and each step keeps holds after every run. -/
theorem invariant_run {step : S → L → Option S} {I : S → Prop}
    (keep : ∀ s l t, I s → step s l = some t → I t) {s t : S} {ls : List L}
    (start : I s) (h : run step s ls = some t) : I t :=
  invariant_along (P := fun _ _ => True) (fun s l t hs _ => keep s l t hs) start
    (along_of_forall (fun _ _ => trivial) s ls) h

theorem invariant_reachable {step : S → L → Option S} {I : S → Prop} {init s : S}
    (start : I init) (keep : ∀ s l t, I s → step s l = some t → I t)
    (h : Reachable step init s) : I s := by
  obtain ⟨ls, run⟩ := h
  exact invariant_run keep start run

/-- Two conditions that agree on every state the invariant allows agree along whole runs. -/
theorem along_congr {step : S → L → Option S} {P Q : S → L → Prop} {I : S → Prop}
    (keep : ∀ s l t, I s → step s l = some t → I t)
    (same : ∀ s l, I s → (P s l ↔ Q s l)) {s : S} (start : I s) (ls : List L) :
    Along step P s ls ↔ Along step Q s ls := by
  induction ls generalizing s with
  | nil => exact Iff.rfl
  | cons l ls ih =>
    constructor
    · rintro ⟨now, later⟩
      exact ⟨(same s l start).mp now, fun t ht =>
        (ih (keep s l t start ht)).mp (later t ht)⟩
    · rintro ⟨now, later⟩
      exact ⟨(same s l start).mpr now, fun t ht =>
        (ih (keep s l t start ht)).mpr (later t ht)⟩

/-! What each step of a run adds to a history kept outside the state. -/

def trace {E : Type} (step : S → L → Option S) (f : S → L → S → E) : S → List L → List E
  | _, [] => []
  | s, l :: ls =>
    match step s l with
    | some t => f s l t :: trace step f t ls
    | none => []

theorem trace_snoc {E : Type} {step : S → L → Option S} {f : S → L → S → E} {s t u : S}
    {ls : List L} {l : L} (h : run step s ls = some t) (last : step t l = some u) :
    trace step f s (ls ++ [l]) = trace step f s ls ++ [f t l u] := by
  induction ls generalizing s with
  | nil =>
    cases h
    simp [trace, last]
  | cons m ls ih =>
    obtain ⟨v, hv, rest⟩ := run_cons.mp h
    simp only [List.cons_append, trace, hv, ih rest]

/-- The invariant rule for a state together with such a history. -/
theorem invariant_trace {E : Type} {step : S → L → Option S} {f : S → L → S → E}
    {I : S → List E → Prop} {init s : S} {ls : List L} (start : I init [])
    (keep : ∀ l ∈ ls, ∀ s hs t, I s hs → step s l = some t → I t (hs ++ [f s l t]))
    (h : run step init ls = some s) : I s (trace step f init ls) := by
  induction ls using List.reverseRecOn generalizing s with
  | nil =>
    cases h
    exact start
  | append_singleton ls l ih =>
    obtain ⟨u, before, last⟩ := run_snoc.mp h
    rw [trace_snoc before last]
    have old := ih (fun m hm => keep m (List.mem_append_left _ hm)) before
    exact keep l (by simp) u _ s old last

/-! A history grows at its end. What each event owes to the history before it is
    proved when the event is appended. -/

def Justified {E : Type} (P : List E → E → Prop) (log : List E) : Prop :=
  ∀ before e after, log = before ++ e :: after → P before e

theorem justified_nil {E : Type} (P : List E → E → Prop) : Justified P [] := by
  intro before e after h
  simp at h

theorem justified_snoc {E : Type} {P : List E → E → Prop} {log : List E} {e : E}
    (old : Justified P log) (new : P log e) : Justified P (log ++ [e]) := by
  intro before d after h
  rcases List.eq_nil_or_concat after with rfl | ⟨init, last, rfl⟩
  · obtain ⟨rfl, same⟩ := List.append_inj' h rfl
    cases same
    exact new
  · rw [List.concat_eq_append, ← List.cons_append, ← List.append_assoc] at h
    exact old before d init (List.append_inj' h rfl).1

/-! Runs that can be continued. -/

/-- By labels that `Q` allows, the state can be brought to where `P` holds. -/
def Attains (step : S → L → Option S) (Q : L → Prop) (s : S) (P : S → Prop) : Prop :=
  ∃ ls t, (∀ l ∈ ls, Q l) ∧ run step s ls = some t ∧ P t

theorem attains_now {step : S → L → Option S} {Q : L → Prop} {s : S} {P : S → Prop} (h : P s) :
    Attains step Q s P := ⟨[], s, by simp, rfl, h⟩

theorem attains_step {step : S → L → Option S} {Q : L → Prop} {s t : S} {P : S → Prop} {l : L}
    (allowed : Q l) (next : step s l = some t) (h : Attains step Q t P) : Attains step Q s P := by
  obtain ⟨ls, u, each, rest, last⟩ := h
  exact ⟨l :: ls, u, List.forall_mem_cons.mpr ⟨allowed, each⟩, run_cons.mpr ⟨t, next, rest⟩, last⟩

theorem Attains.trans {step : S → L → Option S} {Q : L → Prop} {s : S} {P R : S → Prop}
    (h : Attains step Q s P) (next : ∀ t, P t → Attains step Q t R) : Attains step Q s R := by
  obtain ⟨ls, t, each, first, there⟩ := h
  obtain ⟨ms, u, each', second, last⟩ := next t there
  exact ⟨ls ++ ms, u, List.forall_mem_append.mpr ⟨each, each'⟩, run_append.mpr ⟨t, first, second⟩,
    last⟩

end LabelledRuns
