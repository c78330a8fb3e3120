import Mathlib.Data.Finset.Card
import Mathlib.Data.List.AList

/-!
Dictionaries with distinct keys: Mathlib's association lists at a constant
value type, with the operations a mutable mapping offers. Every law is about
`lookup`, since the order of the entries is never observed.
-/
namespace Dictionary
variable {K V : Type} [DecidableEq K]

abbrev Dict (K V : Type) := AList fun _ : K => V

/-- A dictionary display; of two pairs with one key the first counts. -/
def ofPairs (ps : List (K × V)) : Dict K V :=
    (ps.map fun p => (⟨p.1, p.2⟩ : Sigma fun _ => V)).toAList

/-- `d.update(e)`: the entries of `e` replace those of `d`. -/
def update (d e : Dict K V) : Dict K V := e ∪ d

def keep (p : V → Bool) (d : Dict K V) : Dict K V :=
  ⟨d.entries.filter fun e => p e.2, d.nodupKeys.sublist List.filter_sublist⟩

def allValues (p : V → Bool) (d : Dict K V) : Bool := d.entries.all fun e => p e.2

def items (d : Dict K V) : List (K × V) := d.entries.map fun e => (e.1, e.2)

theorem lookup_ofPairs (ps : List (K × V)) (k : K) : (ofPairs ps).lookup k = ps.lookup k := by
  rw [ofPairs, AList.lookup_to_alist]
  induction ps with
  | nil => rfl
  | cons p ps ih =>
    obtain ⟨a, v⟩ := p
    by_cases same : k = a
    · subst same
      simp
    · have other : (k == a) = false := by simpa using same
      simp only [List.map_cons, List.lookup_cons, other]
      rw [List.dlookup_cons_ne _ _ same]
      exact ih

theorem mem_items {d : Dict K V} {k : K} {v : V} : (k, v) ∈ items d ↔ d.lookup k = some v := by
  rw [← Option.mem_def, AList.mem_lookup_iff, items, List.mem_map]
  constructor
  · rintro ⟨⟨a, b⟩, member, same⟩
    cases same
    exact member
  · intro member
    exact ⟨⟨k, v⟩, member, rfl⟩

omit [DecidableEq K] in
theorem items_nodup (d : Dict K V) : ((items d).map Prod.fst).Nodup := by
  rw [items, List.map_map]
  exact d.nodupKeys

theorem lookup_ofPairs_iff {ps : List (K × V)} (distinct : (ps.map Prod.fst).Nodup) {k : K}
    {v : V} :
    (ofPairs ps).lookup k = some v ↔ (k, v) ∈ ps := by
  rw [lookup_ofPairs]
  induction ps with
  | nil => simp
  | cons p ps ih =>
    obtain ⟨a, b⟩ := p
    rw [List.map_cons, List.nodup_cons] at distinct
    by_cases same : k = a
    · subst same
      have once : (k, v) ∉ ps := fun member => distinct.1 (List.mem_map.mpr ⟨(k, v), member, rfl⟩)
      simp [once, eq_comm]
    · have other : (k == a) = false := by simpa using same
      rw [List.lookup_cons, other, List.mem_cons, ← ih distinct.2]
      simp [same]

theorem lookup_update (d e : Dict K V) (k : K) :
    (update d e).lookup k = (e.lookup k).or (d.lookup k) := by
  by_cases present : k ∈ e
  · rw [update, AList.lookup_union_left present]
    obtain ⟨v, hv⟩ := Option.isSome_iff_exists.mp (AList.lookup_isSome.mpr present)
    simp [hv]
  · rw [update, AList.lookup_union_right present, AList.lookup_eq_none.mpr present]
    rfl

theorem lookup_keep (p : V → Bool) (d : Dict K V) (k : K) :
    (keep p d).lookup k = (d.lookup k).filter p := by
  ext v
  rw [Option.filter_eq_some_iff]
  change v ∈ (keep p d).lookup k ↔ v ∈ d.lookup k ∧ p v = true
  rw [AList.mem_lookup_iff, AList.mem_lookup_iff]
  simp [keep]

theorem lookup_keep_eq_some {p : V → Bool} {d : Dict K V} {k : K} {v : V} :
    (keep p d).lookup k = some v ↔ d.lookup k = some v ∧ p v = true := by
  rw [lookup_keep, Option.filter_eq_some_iff]

theorem lookup_insert (d : Dict K V) (a k : K) (v : V) :
    (d.insert a v).lookup k = if k = a then some v else d.lookup k := by
  by_cases same : k = a
  · subst same
    simp
  · simp [same, AList.lookup_insert_ne same]

/-! Insertion of the entries of another dictionary under other keys. -/

section
variable {J : Type} [DecidableEq J]

/-- The entries whose value satisfies `p`, each under the key that `f` gives it. -/
def insertMapped (f : J → K) (p : V → Bool) (base : Dict K V) (es : List (J × V)) : Dict K V :=
  es.foldl (fun d e => if p e.2 then d.insert (f e.1) e.2 else d) base

theorem lookup_insertMapped {f : J → K} (inj : Function.Injective f) (p : V → Bool)
    {es : List (J × V)} (distinct : (es.map Prod.fst).Nodup) (base : Dict K V) (j : J) :
    (insertMapped f p base es).lookup (f j) = ((es.lookup j).filter p).or (base.lookup (f j)) := by
  induction es generalizing base with
  | nil => rfl
  | cons e es ih =>
    obtain ⟨a, v⟩ := e
    rw [List.map_cons, List.nodup_cons] at distinct
    rw [insertMapped, List.foldl_cons]
    change (insertMapped f p _ es).lookup (f j) = _
    rw [ih distinct.2]
    by_cases same : j = a
    · subst same
      have later : es.lookup j = none := List.lookup_eq_none_iff.mpr fun e member => by
        simpa using fun same => distinct.1 (List.mem_map.mpr ⟨e, member, same.symm⟩)
      by_cases passes : p v = true
      · simp [later, passes, Option.filter_some]
      · simp [later, passes, Option.filter_some]
    · have other : (j == a) = false := by simpa using same
      have apart : f j ≠ f a := fun h => same (inj h)
      by_cases passes : p v = true
      · simp [List.lookup_cons, other, passes, apart]
      · simp [List.lookup_cons, other, passes]

omit [DecidableEq J] in
theorem lookup_insertMapped_other {f : J → K} (p : V → Bool) (es : List (J × V)) (base : Dict K V)
    {k : K} (other : ∀ j, f j ≠ k) : (insertMapped f p base es).lookup k = base.lookup k := by
  induction es generalizing base with
  | nil => rfl
  | cons e es ih =>
    rw [insertMapped, List.foldl_cons]
    change (insertMapped f p _ es).lookup k = _
    rw [ih]
    split
    · rw [lookup_insert, if_neg (Ne.symm (other e.1))]
    · rfl

theorem lookup_items (d : Dict J V) (j : J) : (items d).lookup j = d.lookup j := by
  rw [← lookup_ofPairs]
  ext v
  rw [lookup_ofPairs_iff (items_nodup d), mem_items]

end

theorem lookup_erase (d : Dict K V) (a k : K) :
    (d.erase a).lookup k = if k = a then none else d.lookup k := by
  by_cases same : k = a
  · subst same
    simp
  · simp [same, AList.lookup_erase_ne same]

omit [DecidableEq K] in
theorem length_keep (p : V → Bool) (d : Dict K V) :
    (keep p d).keys.length + d.entries.countP (fun e => !p e.2) = d.keys.length := by
  simp only [AList.keys, List.keys, List.length_map, keep, ← List.countP_eq_length_filter]
  rw [List.length_eq_countP_add_countP fun e : Sigma fun _ => V => p e.2]
  simp

theorem keys_split (p : V → Bool) (d : Dict K V) : ∃ yes no : Finset K, Disjoint yes no ∧
    (∀ k, k ∈ yes ↔ ∃ v, d.lookup k = some v ∧ p v = true) ∧
    (∀ k, k ∈ no ↔ ∃ v, d.lookup k = some v ∧ p v = false) ∧
    yes.card + no.card = d.keys.length := by
  have members (q : V → Bool) (k : K) :
      k ∈ (keep q d).keys.toFinset ↔ ∃ v, d.lookup k = some v ∧ q v = true := by
    rw [List.mem_toFinset, ← AList.mem_keys, ← AList.lookup_isSome, Option.isSome_iff_exists]
    simp only [lookup_keep_eq_some]
  have size (q : V → Bool) : (keep q d).keys.toFinset.card = (keep q d).keys.length :=
    List.toFinset_card_of_nodup (keep q d).keys_nodup
  refine ⟨(keep p d).keys.toFinset, (keep (fun v => !p v) d).keys.toFinset, ?_, members p, ?_, ?_⟩
  · rw [Finset.disjoint_left]
    intro k yes no
    obtain ⟨v, found, holds⟩ := (members p k).mp yes
    obtain ⟨w, again, fails⟩ := (members (fun v => !p v) k).mp no
    cases found.symm.trans again
    simp [holds] at fails
  · intro k
    simpa using members (fun v => !p v) k
  · rw [size, size, ← length_keep p d]
    simp [keep, AList.keys, List.keys, List.countP_eq_length_filter]

theorem mem_ofPairs {ps : List (K × V)} {k : K} : k ∈ ofPairs ps ↔ k ∈ ps.map Prod.fst := by
  rw [← AList.lookup_isSome, lookup_ofPairs]
  induction ps with
  | nil => simp
  | cons p ps ih =>
    obtain ⟨a, v⟩ := p
    by_cases same : k = a
    · simp [same]
    · have other : (k == a) = false := by simpa using same
      simp only [List.lookup_cons, other, List.map_cons, List.mem_cons, same, false_or]
      exact ih

theorem mem_update {d e : Dict K V} {k : K} : k ∈ update d e ↔ k ∈ d ∨ k ∈ e := by
  rw [update, AList.mem_union]
  exact Or.comm

def HasKeys (d : Dict K V) (ks : List K) : Prop := ∀ k, k ∈ d ↔ k ∈ ks

theorem hasKeys_ofPairs (ps : List (K × V)) : HasKeys (ofPairs ps) (ps.map Prod.fst) :=
  fun _ => mem_ofPairs

omit [DecidableEq K] in
theorem hasKeys_empty : HasKeys (∅ : Dict K V) [] := fun k => by simp [AList.mem_keys]

theorem hasKeys_update {d e : Dict K V} {ks ls : List K} (hd : HasKeys d ks) (he : HasKeys e ls) :
    HasKeys (update d e) (ks ++ ls) := by
  intro k
  rw [mem_update, hd k, he k, List.mem_append]

theorem hasKeys_insert {d : Dict K V} {ks : List K} (h : HasKeys d ks) {k : K} (present : k ∈ ks)
    (v : V) : HasKeys (d.insert k v) ks := by
  intro l
  rw [AList.mem_insert, h l]
  constructor
  · rintro (rfl | there)
    · exact present
    · exact there
  · exact Or.inr

omit [DecidableEq K] in
theorem hasKeys_congr {d : Dict K V} {ks ls : List K} (h : HasKeys d ks) (sub : ks ⊆ ls)
    (sup : ls ⊆ ks) : HasKeys d ls :=
  fun k => (h k).trans ⟨fun member => sub member, fun member => sup member⟩

theorem lookup_absent {d : Dict K V} {ks : List K} (h : HasKeys d ks) {k : K} (absent : k ∉ ks) :
    d.lookup k = none :=
  AList.lookup_eq_none.mpr fun member => absent ((h k).mp member)

theorem allValues_iff {p : V → Bool} {d : Dict K V} :
    allValues p d = true ↔ ∀ k v, d.lookup k = some v → p v = true := by
  rw [allValues, List.all_eq_true]
  constructor
  · intro all k v found
    exact all ⟨k, v⟩ (AList.mem_lookup_iff.mp found)
  · rintro all ⟨k, v⟩ member
    exact all k v (AList.mem_lookup_iff.mpr member)

theorem allValues_update {p : V → Bool} {d e : Dict K V} (hd : allValues p d = true)
    (he : allValues p e = true) : allValues p (update d e) = true := by
  rw [allValues_iff] at *
  intro k v found
  rw [lookup_update, Option.or_eq_some_iff] at found
  rcases found with new | ⟨_, old⟩
  · exact he k v new
  · exact hd k v old

theorem allValues_ofPairs {p : V → Bool} {ps : List (K × V)} (h : ∀ q ∈ ps, p q.2 = true) :
    allValues p (ofPairs ps) = true := by
  rw [allValues_iff]
  intro k v found
  rw [lookup_ofPairs] at found
  obtain ⟨before, after, split, _⟩ := List.lookup_eq_some_iff.mp found
  exact h (k, v) (by simp [split])

end Dictionary
