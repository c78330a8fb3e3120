import Mathlib.Data.Nat.Digits.Lemmas

/-!
Text as sequences of code points, in which a surrogate may stand alone, and the
decimal numerals in it: as short as they can be, or padded to a width.
-/
namespace Text

abbrev CodePoint := Fin 0x110000

abbrev Str := List CodePoint

def code (c : Char) : CodePoint :=
  ⟨c.toNat, by
    rcases c.valid with low | ⟨_, high⟩
    · have bound : c.toNat < 0xD800 := low
      omega
    · exact high⟩

def chr (n : ℕ) : CodePoint := ⟨n % 0x110000, Nat.mod_lt n (by decide)⟩

theorem chr_val (c : CodePoint) : chr c.val = c := Fin.ext (Nat.mod_eq_of_lt c.isLt)

def ofString (s : String) : Str := s.toList.map code

def isSurrogate (c : CodePoint) : Bool := 0xD800 ≤ c.val && c.val < 0xE000

def Utf8 (s : Str) : Prop := ∀ c ∈ s, isSurrogate c = false

instance (s : Str) : Decidable (Utf8 s) := List.decidableBAll (isSurrogate · = false) s

theorem code_injective : Function.Injective code := by
  intro c d same
  exact Char.toNat_inj.mp (Fin.mk.inj same)

theorem ofString_injective : Function.Injective ofString := by
  intro s t same
  exact String.toList_inj.mp ((List.map_injective_iff.mpr code_injective) same)

theorem isSurrogate_iff {c : CodePoint} :
    isSurrogate c = true ↔ 0xD800 ≤ c.val ∧ c.val < 0xE000 := by
  simp [isSurrogate]

theorem code_scalar (c : Char) : isSurrogate (code c) = false := by
  rw [Bool.eq_false_iff, ne_eq, isSurrogate_iff]
  rintro ⟨above, below⟩
  rcases c.valid with low | ⟨high, _⟩
  · have bound : (code c).val < 0xD800 := low
    omega
  · have bound : 0xDFFF < (code c).val := high
    omega

theorem utf8_ofString (s : String) : Utf8 (ofString s) := by
  intro c member
  obtain ⟨d, _, rfl⟩ := List.mem_map.mp member
  exact code_scalar d

theorem utf8_append {s t : Str} : Utf8 (s ++ t) ↔ Utf8 s ∧ Utf8 t :=
  List.forall_mem_append

theorem utf8_cons {c : CodePoint} {s : Str} :
    Utf8 (c :: s) ↔ isSurrogate c = false ∧ Utf8 s :=
  List.forall_mem_cons

/-- The string of the text, where every code point is a scalar value. -/
def asString (s : Str) : String := String.ofList (s.map fun c => Char.ofNat c.val)

theorem ofString_asString {s : Str} (h : Utf8 s) : ofString (asString s) = s := by
  rw [ofString, asString, String.toList_ofList, List.map_map]
  refine Eq.trans (List.map_congr_left fun c member => ?_) (List.map_id s)
  have plain : ¬ (0xD800 ≤ c.val ∧ c.val < 0xE000) := by
    rw [← isSurrogate_iff, h c member]
    exact Bool.false_ne_true
  have scalar : c.val.isValidChar := by
    have bound := c.isLt
    unfold Nat.isValidChar
    omega
  refine Fin.ext ?_
  change (Char.ofNat c.val).toNat = c.val
  rw [Char.ofNat, dif_pos scalar]
  rfl

/-! Digits. -/

def digit (d : ℕ) : CodePoint := ⟨48 + d % 10, by omega⟩

def isDigit (c : CodePoint) : Bool := 48 ≤ c.val && c.val ≤ 57

def digitValue (c : CodePoint) : ℕ := c.val - 48

theorem isDigit_iff {c : CodePoint} : isDigit c = true ↔ 48 ≤ c.val ∧ c.val ≤ 57 := by
  simp [isDigit]

theorem isDigit_digit (d : ℕ) : isDigit (digit d) = true := by
  have val : (digit d).val = 48 + d % 10 := rfl
  rw [isDigit_iff, val]
  omega

theorem digitValue_digit {d : ℕ} (h : d < 10) : digitValue (digit d) = d := by
  simp only [digitValue, digit]
  omega

theorem digit_scalar {c : CodePoint} (h : isDigit c = true) : isSurrogate c = false := by
  rw [isDigit_iff] at h
  rw [Bool.eq_false_iff, ne_eq, isSurrogate_iff]
  omega

theorem utf8_digits {s : Str} (h : ∀ c ∈ s, isDigit c = true) : Utf8 s :=
  fun c member => digit_scalar (h c member)

def value (s : Str) : ℕ := s.foldl (fun n c => 10 * n + digitValue c) 0

theorem value_snoc (s : Str) (c : CodePoint) : value (s ++ [c]) = 10 * value s + digitValue c := by
  simp [value]

def natural (n : ℕ) : Str :=
  if n = 0 then [digit 0] else (Nat.digits 10 n).reverse.map digit

theorem natural_digits (n : ℕ) : ∀ c ∈ natural n, isDigit c = true := by
  intro c member
  unfold natural at member
  split at member
  · rw [List.mem_singleton.mp member]
    exact isDigit_digit 0
  · obtain ⟨d, _, rfl⟩ := List.mem_map.mp member
    exact isDigit_digit d

theorem natural_ne_nil (n : ℕ) : natural n ≠ [] := by
  unfold natural
  split
  · simp
  · rename_i positive
    simp [Nat.digits_ne_nil_iff_ne_zero.mpr positive]

theorem value_natural (n : ℕ) : value (natural n) = n := by
  have folded (ds : List ℕ) (small : ∀ d ∈ ds, d < 10) :
      value (ds.reverse.map digit) = Nat.ofDigits 10 ds := by
    induction ds with
    | nil => rfl
    | cons d ds ih =>
      obtain ⟨first, rest⟩ := List.forall_mem_cons.mp small
      rw [List.reverse_cons, List.map_append, List.map_singleton, value_snoc, ih rest,
        digitValue_digit first, Nat.ofDigits_cons]
      exact Nat.add_comm _ _
  unfold natural
  split
  · rename_i zero
    rw [zero]
    rfl
  · rw [folded _ fun d member => Nat.digits_lt_base (by decide) member, Nat.ofDigits_digits]

theorem natural_head {n : ℕ} {c : CodePoint} {s : Str} (h : natural n = c :: s)
    (zero : c = digit 0) : s = [] := by
  unfold natural at h
  split at h
  · exact (List.cons.inj h).2.symm
  · rename_i positive
    have nonzero := Nat.getLast_digit_ne_zero 10 positive
    have first : (natural n).head? = some (digit ((Nat.digits 10 n).getLast
        (Nat.digits_ne_nil_iff_ne_zero.mpr positive))) := by
      rw [natural, if_neg positive, List.head?_map, List.head?_reverse,
        List.getLast?_eq_some_getLast (Nat.digits_ne_nil_iff_ne_zero.mpr positive)]
      rfl
    rw [natural, if_neg positive, h] at first
    have small := Nat.digits_lt_base (b := 10) (m := n) (by decide)
      (List.getLast_mem (Nat.digits_ne_nil_iff_ne_zero.mpr positive))
    have same : digitValue (digit 0) = digitValue (digit ((Nat.digits 10 n).getLast
        (Nat.digits_ne_nil_iff_ne_zero.mpr positive))) := by
      rw [← zero, Option.some.inj first]
    rw [digitValue_digit (by decide), digitValue_digit small] at same
    exact absurd same.symm nonzero

def padded : ℕ → ℕ → Str
  | 0, _ => []
  | w + 1, n => padded w (n / 10) ++ [digit n]

theorem padded_length (w n : ℕ) : (padded w n).length = w := by
  induction w generalizing n with
  | zero => rfl
  | succ w ih => simp [padded, ih]

theorem padded_digits (w n : ℕ) : ∀ c ∈ padded w n, isDigit c = true := by
  induction w generalizing n with
  | zero => simp [padded]
  | succ w ih =>
    intro c member
    rcases List.mem_append.mp member with front | last
    · exact ih (n / 10) c front
    · rw [List.mem_singleton.mp last]
      exact isDigit_digit n

theorem value_padded {w n : ℕ} (h : n < 10 ^ w) : value (padded w n) = n := by
  induction w generalizing n with
  | zero =>
    rw [pow_zero] at h
    rw [padded]
    simp only [value, List.foldl_nil]
    omega
  | succ w ih =>
    have less : n / 10 < 10 ^ w := by
      rw [pow_succ] at h
      omega
    have last : digitValue (digit n) = n % 10 := by
      simp only [digitValue, digit]
      omega
    rw [padded, value_snoc, ih less, last]
    omega

/-- Of two numerals of one width the smaller number has the smaller one, whatever follows. -/
theorem padded_lt {w m n : ℕ} (less : m < n) (bound : n < 10 ^ w) (s t : Str) :
    padded w m ++ s < padded w n ++ t := by
  induction w generalizing m n s t with
  | zero =>
    rw [pow_zero] at bound
    omega
  | succ w ih =>
    rw [pow_succ] at bound
    simp only [padded, List.append_assoc, List.singleton_append]
    by_cases front : m / 10 < n / 10
    · exact ih front (by omega) _ _
    · have same : m / 10 = n / 10 := by omega
      have last : digit m < digit n := by
        rw [Fin.lt_def]
        simp only [digit]
        omega
      rw [same]
      exact List.append_left_lt (List.cons_lt_cons_iff.mpr (.inl last))

def spanDigits (s : Str) : Str × Str := (s.takeWhile isDigit, s.dropWhile isDigit)

theorem spanDigits_append {ds rest : Str} (digits : ∀ c ∈ ds, isDigit c = true)
    (stop : ∀ c ∈ rest.head?, isDigit c = false) : spanDigits (ds ++ rest) = (ds, rest) := by
  have none : rest.takeWhile isDigit = [] ∧ rest.dropWhile isDigit = rest := by
    cases rest with
    | nil => exact ⟨rfl, rfl⟩
    | cons c rest =>
      have other := stop c rfl
      simp [other]
  rw [spanDigits, List.takeWhile_append_of_pos digits, List.dropWhile_append_of_pos digits,
    none.1, none.2, List.append_nil]

end Text
