import Relprim.Library.Fallible
import Relprim.Library.Json

/-!
What `dumps` writes `loads` reads back, and UTF-8 can encode it if it can encode every
string in it.
-/
namespace Json
open Text Fallible
variable {F : Type} {fmt : Format F}

/-! Strings. -/

def inHex (c : CodePoint) : Bool := (shortEscapes.lookup c).isNone && decide (c.val < 0x20)

theorem unescape_short {c e : CodePoint} (h : shortEscapes.lookup c = some e) :
    e ≠ code 'u' ∧ unescape e = some c := by
  have all : shortEscapes.all (fun p => p.2 ≠ code 'u' ∧ unescape p.2 = some p.1) = true := by
    decide
  obtain ⟨before, after, split, _⟩ := List.lookup_eq_some_iff.mp h
  simpa using List.all_eq_true.mp all (c, e) (by simp [split])

theorem hex4_control {c : CodePoint} (h : c.val < 0x20) :
    hex4 (digit 0) (digit 0) (hexDigit (c.val / 16)) (hexDigit (c.val % 16)) = some c := by
  have all : ∀ n < 0x20, hex4 (digit 0) (digit 0) (hexDigit (n / 16)) (hexDigit (n % 16)) =
      some (chr n) := by decide
  rw [all c.val h]
  exact congrArg some (chr_val c)

theorem units_quote (rest : Str) : units (quote :: rest) = some ([], rest) := by
  rw [units.eq_def]
  exact if_pos rfl

theorem units_raw {c : CodePoint} (quotes : c ≠ quote) (backslashes : c ≠ backslash)
    (plain : ¬ c.val < 0x20) (rest : Str) :
    units (c :: rest) = (units rest).map fun r => ((c, false) :: r.1, r.2) := by
  rw [units.eq_def]
  simp only
  rw [if_neg quotes, if_neg backslashes, if_neg plain]
  cases units rest <;> rfl

theorem units_short {c e : CodePoint} (other : e ≠ code 'u') (back : unescape e = some c)
    (rest : Str) :
    units (backslash :: e :: rest) = (units rest).map fun r => ((c, false) :: r.1, r.2) := by
  rw [units.eq_def]
  simp only
  rw [if_neg (by decide), if_pos trivial, if_neg other, back]
  cases units rest <;> rfl

theorem units_hex {a b c d n : CodePoint} (read : hex4 a b c d = some n) (rest : Str) :
    units (backslash :: code 'u' :: a :: b :: c :: d :: rest) =
      (units rest).map fun r => ((n, true) :: r.1, r.2) := by
  rw [units.eq_def]
  simp only
  rw [if_neg (by decide), if_pos trivial, if_pos trivial, read]
  cases units rest <;> rfl

theorem units_escapeChar (c : CodePoint) (rest : Str) :
    units (escapeChar c ++ rest) = (units rest).map fun r => ((c, inHex c) :: r.1, r.2) := by
  unfold escapeChar
  cases short : shortEscapes.lookup c with
  | some e =>
    obtain ⟨other, back⟩ := unescape_short short
    have plain : inHex c = false := by simp [inHex, short]
    rw [plain]
    exact units_short other back rest
  | none =>
    simp only
    split
    · rename_i control
      have hex : inHex c = true := by simp [inHex, short, control]
      rw [hex]
      exact units_hex (hex4_control control) rest
    · rename_i plain
      have raw : inHex c = false := by simp [inHex, plain]
      have keys : ∀ p ∈ shortEscapes, c ≠ p.1 := by
        rw [List.lookup_eq_none_iff] at short
        intro p member same
        simpa [same] using short p member
      rw [raw]
      exact units_raw (keys (quote, quote) (by decide)) (keys (backslash, backslash) (by decide))
        plain rest

theorem units_escaped (s rest : Str) :
    units (s.flatMap escapeChar ++ quote :: rest) = some (s.map fun c => (c, inHex c), rest) := by
  induction s with
  | nil => exact units_quote rest
  | cons c s ih =>
    rw [List.flatMap_cons, List.append_assoc, units_escapeChar, ih]
    rfl

theorem inHex_notHigh {c : CodePoint} (h : inHex c = true) : isHigh c = false := by
  simp only [inHex, Bool.and_eq_true, decide_eq_true_eq] at h
  simp only [isHigh, Bool.and_eq_false_iff, decide_eq_false_iff_not]
  omega

theorem joinPairs_raw (s : Str) : joinPairs none (s.map fun c => (c, inHex c)) = s := by
  induction s with
  | nil => rfl
  | cons c s ih =>
    have alone : (inHex c && isHigh c) = false := by
      cases hex : inHex c with
      | false => rfl
      | true => rw [inHex_notHigh hex, Bool.and_false]
    simp only [List.map_cons, joinPairs]
    rw [alone, if_neg (by decide), ih]

theorem scanString_quoted (s rest : Str) :
    scanString (s.flatMap escapeChar ++ quote :: rest) = some (s, rest) := by
  rw [scanString, units_escaped, Option.map_some]
  exact congrArg (fun t => some (t, rest)) (joinPairs_raw s)

/-! Numerals. -/

/-- `-?(0|[1-9][0-9]*)(\.[0-9]+)?([eE][-+]?[0-9]+)?`, part by part. -/
inductive Sign : Str → Prop where
  | absent : Sign []
  | minus : Sign [minus]

inductive Integer : Str → Prop where
  | zero : Integer [digit 0]
  | nonzero {c : CodePoint} {ds : Str} (first : isDigit c = true) (nonzero : c ≠ digit 0)
      (digits : ∀ d ∈ ds, isDigit d = true) : Integer (c :: ds)

inductive Fraction : Str → Prop where
  | absent : Fraction []
  | present {ds : Str} (digits : ∀ d ∈ ds, isDigit d = true) (some : ds ≠ []) : Fraction (point :: ds)

inductive Exponent : Str → Prop where
  | absent : Exponent []
  | present {e : CodePoint} {sign ds : Str} (marked : e = code 'e' ∨ e = code 'E')
      (signed : sign = [] ∨ sign = [minus] ∨ sign = [plus]) (digits : ∀ d ∈ ds, isDigit d = true)
      (some : ds ≠ []) : Exponent (e :: (sign ++ ds))

structure Numeral.Grammatical (n : Numeral) : Prop where
  sign : Sign n.sign
  integer : Integer n.integer
  fraction : Fraction n.fraction
  exponent : Exponent n.exponent

inductive Follows : Str → Prop where
  | comma (rest : Str) : Follows (comma :: rest)
  | brace (rest : Str) : Follows (rightBrace :: rest)

def Stops (p : CodePoint → Prop) (s : Str) : Prop := ∀ c ∈ s.head?, ¬ p c

theorem stops_cons {p : CodePoint → Prop} {c : CodePoint} (h : ¬ p c) (s : Str) : Stops p
    (c :: s) := by
  intro d first
  cases first
  exact h

theorem follows_stops {p : CodePoint → Prop} {rest : Str} (h : Follows rest) (first : ¬ p comma)
    (second : ¬ p rightBrace) : Stops p rest := by
  cases h with
  | comma rest => exact stops_cons first rest
  | brace rest => exact stops_cons second rest

theorem spanDigits_stops {ds s : Str} (digits : ∀ c ∈ ds, isDigit c = true)
    (stop : Stops (isDigit · = true) s) : spanDigits (ds ++ s) = (ds, s) :=
  spanDigits_append digits fun c first => Bool.eq_false_iff.mpr (stop c first)

theorem integer_head {ds : Str} (h : Integer ds) : ∃ c rest, ds = c :: rest ∧ isDigit c = true := by
  cases h with
  | zero => exact ⟨digit 0, [], rfl, by decide⟩
  | @nonzero c ds first _ _ => exact ⟨c, ds, rfl, first⟩

theorem scanSign_sign {sign s : Str} (h : Sign sign) (stop : Stops (· = minus) s) :
    scanSign (sign ++ s) = (sign, s) := by
  cases h with
  | absent =>
    cases s with
    | nil => rfl
    | cons c s => exact if_neg (stop c rfl)
  | minus => simp [scanSign]

theorem scanInteger_integer {ds s : Str} (h : Integer ds) (stop : Stops (isDigit · = true) s) :
    scanInteger (ds ++ s) = some (ds, s) := by
  cases h with
  | zero => simp [scanInteger]
  | @nonzero c ds first nonzero digits =>
    have all : ∀ d ∈ c :: ds, isDigit d = true := List.forall_mem_cons.mpr ⟨first, digits⟩
    have whole := spanDigits_stops all stop
    rw [List.cons_append] at whole ⊢
    simp only [scanInteger]
    rw [if_neg nonzero, if_pos first, whole]

theorem scanFraction_fraction {ds s : Str} (h : Fraction ds)
    (stop : Stops (fun c => isDigit c = true ∨ c = point) s) : scanFraction (ds ++ s) = (ds, s) := by
  cases h with
  | absent =>
    cases s with
    | nil => rfl
    | cons c s => exact if_neg fun both => stop c rfl (.inr both.1)
  | @present ds digits some =>
    have whole := spanDigits_stops digits fun c first digit => stop c first (.inl digit)
    rw [List.cons_append]
    simp only [scanFraction, whole]
    exact if_pos ⟨trivial, some⟩

theorem scanExponentSign_signed {sign s : Str} (h : sign = [] ∨ sign = [minus] ∨ sign = [plus])
    (stop : Stops (fun c => c = minus ∨ c = plus) s) : scanExponentSign (sign ++ s) = (sign, s) := by
  rcases h with rfl | rfl | rfl
  · cases s with
    | nil => rfl
    | cons c s => exact if_neg (stop c rfl)
  · simp [scanExponentSign]
  · simp [scanExponentSign]

theorem digit_not_sign {c : CodePoint} (h : isDigit c = true) : ¬ (c = minus ∨ c = plus) := by
  rintro (rfl | rfl) <;> exact absurd h (by decide)

theorem scanExponent_exponent {ex s : Str} (h : Exponent ex)
    (stop : Stops (fun c => isDigit c = true ∨ c = code 'e' ∨ c = code 'E') s) :
    scanExponent (ex ++ s) = (ex, s) := by
  cases h with
  | absent =>
    cases s with
    | nil => rfl
    | cons c s => exact if_neg fun both => stop c rfl (.inr both.1)
  | @present e sign ds marked signed digits some =>
    have unsigned : Stops (fun c => c = minus ∨ c = plus) (ds ++ s) := by
      cases ds with
      | nil => exact absurd rfl some
      | cons d ds => exact stops_cons (digit_not_sign (digits d List.mem_cons_self)) (ds ++ s)
    have signs := scanExponentSign_signed signed unsigned
    have whole := spanDigits_stops digits fun c first digit => stop c first (.inl digit)
    rw [List.cons_append, List.append_assoc]
    simp only [scanExponent, signs, whole]
    exact if_pos ⟨marked, some⟩

theorem exponent_stops {p : CodePoint → Prop} {ex s : Str} (h : Exponent ex) (stop : Stops p s)
    (lower : ¬ p (code 'e')) (upper : ¬ p (code 'E')) : Stops p (ex ++ s) := by
  cases h with
  | absent => exact stop
  | @present e sign ds marked _ _ _ =>
    apply stops_cons
    rcases marked with rfl | rfl
    · exact lower
    · exact upper

theorem fraction_stops {p : CodePoint → Prop} {fr s : Str} (h : Fraction fr) (stop : Stops p s)
    (dot : ¬ p point) : Stops p (fr ++ s) := by
  cases h with
  | absent => exact stop
  | @present ds _ _ => exact stops_cons dot _

theorem scanNumeral_grammatical {n : Numeral} (h : n.Grammatical) {rest : Str}
    (follows : Follows rest) :
    scanNumeral (n.text ++ rest) = some (n, rest) := by
  obtain ⟨c, ds, whole, first⟩ := integer_head h.integer
  have positive : Stops (· = minus) (n.integer ++ (n.fraction ++ (n.exponent ++ rest))) := by
    rw [whole, List.cons_append]
    intro d here same
    cases here
    exact digit_not_sign first (.inl same)
  have afterExponent : Stops (fun c => isDigit c = true ∨ c = code 'e' ∨ c = code 'E') rest :=
    follows_stops follows (by decide) (by decide)
  have afterFraction : Stops (fun c => isDigit c = true ∨ c = point) (n.exponent ++ rest) :=
    exponent_stops h.exponent (follows_stops follows (by decide) (by decide)) (by decide) (by decide)
  have afterInteger : Stops (isDigit · = true) (n.fraction ++ (n.exponent ++ rest)) :=
    fraction_stops h.fraction (fun c first digit => afterFraction c first (.inl digit)) (by decide)
  simp only [scanNumeral, Numeral.text, List.append_assoc, scanSign_sign h.sign positive,
    scanInteger_integer h.integer afterInteger, scanFraction_fraction h.fraction afterFraction,
    scanExponent_exponent h.exponent afterExponent, Option.bind_eq_bind, Option.bind_some]
  rfl

/-! Scalars. -/

/-- `repr` writes a finite float as a numeral with a fraction or an exponent, and `float` is
    its inverse. -/
structure Format.Lawful (fmt : Format F) : Prop where
  numeral : ∀ x, fmt.isfinite x = true → ∃ n : Numeral, n.Grammatical ∧
    (n.fraction ≠ [] ∨ n.exponent ≠ []) ∧ n.text = fmt.repr x
  float_repr : ∀ x, fmt.isfinite x = true → fmt.float (fmt.repr x) = x

theorem word_append (w : String) (a : A) (rest : Str) :
    word w a (ofString w ++ rest) = some (a, rest) := by
  have present : (ofString w).isPrefixOf (ofString w ++ rest) = true := by simp
  rw [word, if_pos present, List.drop_left]

theorem numeral_head {n : Numeral} (h : n.Grammatical) :
    ∃ c s, n.text = c :: s ∧ (c = minus ∨ isDigit c = true) := by
  obtain ⟨c, ds, whole, first⟩ := integer_head h.integer
  cases signed : n.sign with
  | nil => exact ⟨c, ds ++ (n.fraction ++ n.exponent), by simp [Numeral.text, signed, whole], .inr first⟩
  | cons d s =>
    have sign := h.sign
    rw [signed] at sign
    cases sign
    exact ⟨minus, n.integer ++ (n.fraction ++ n.exponent), by simp [Numeral.text, signed], .inl rfl⟩

theorem scanScalar_numeral {n : Numeral} (h : n.Grammatical) {rest : Str} (follows : Follows rest) :
    scanScalar fmt (n.text ++ rest) = (n.scalar fmt).map fun v => (v, rest) := by
  have scanned := scanNumeral_grammatical h follows
  obtain ⟨c, s, whole, first⟩ := numeral_head h
  rw [whole, List.cons_append] at scanned ⊢
  have other (d : CodePoint) (sign : d ≠ minus) (digit : isDigit d = false) : c ≠ d := by
    rintro rfl
    rcases first with rfl | digit'
    · exact sign rfl
    · rw [digit] at digit'
      cases digit'
  simp only [scanScalar, scanned]
  rw [if_neg (other quote (by decide) (by decide)), if_neg (other (code 'n') (by decide) (by decide)),
    if_neg (other (code 't') (by decide) (by decide)),
    if_neg (other (code 'f') (by decide) (by decide))]

theorem integer_natural (n : ℕ) : Integer (natural n) := by
  cases shape : natural n with
  | nil => exact absurd shape (natural_ne_nil n)
  | cons c s =>
    have digits := natural_digits n
    rw [shape] at digits
    obtain ⟨first, rest⟩ := List.forall_mem_cons.mp digits
    by_cases zero : c = digit 0
    · rw [natural_head shape zero, zero]
      exact .zero
    · exact .nonzero first zero rest

def intNumeral (n : ℤ) : Numeral where
  sign := if n < 0 then [minus] else []
  integer := natural n.natAbs
  fraction := []
  exponent := []

theorem intNumeral_grammatical (n : ℤ) : (intNumeral n).Grammatical where
  sign := by
    unfold intNumeral
    split
    · exact .minus
    · exact .absent
  integer := integer_natural n.natAbs
  fraction := .absent
  exponent := .absent

theorem intText_eq_some {n : ℤ} {t : Str} (h : intText fmt n = some t) :
    t = (intNumeral n).text ∧ (intNumeral n).scalar fmt = some (.int n) := by
  unfold intText at h
  split at h
  · rename_i within
    refine ⟨by simp [← Option.some.inj h, Numeral.text, intNumeral], ?_⟩
    simp only [Numeral.scalar, intNumeral, and_self, if_true, within, value_natural]
    by_cases negative : n < 0
    · rw [if_pos negative, if_neg (by decide)]
      congr
      omega
    · rw [if_neg negative, if_pos rfl]
      congr
      omega
  · cases h

theorem scanScalar_text (lawful : fmt.Lawful) {v : Scalar F} {t : Str}
    (h : scalarText fmt v = some t)
    {rest : Str} (follows : Follows rest) : scanScalar fmt (t ++ rest) = some (v, rest) := by
  cases v with
  | null =>
    cases h
    exact word_append "null" Scalar.null rest
  | bool b =>
    cases b with
    | true =>
      cases h
      exact word_append "true" (Scalar.bool true) rest
    | false =>
      cases h
      exact word_append "false" (Scalar.bool false) rest
  | int n =>
    obtain ⟨rfl, back⟩ := intText_eq_some h
    rw [scanScalar_numeral (intNumeral_grammatical n) follows, back]
    rfl
  | float x =>
    simp only [scalarText] at h
    split at h
    · rename_i finite
      obtain ⟨n, grammatical, float, text⟩ := lawful.numeral x finite
      cases h
      have marked : ¬ (n.fraction = [] ∧ n.exponent = []) := by tauto
      rw [← text, scanScalar_numeral grammatical follows, Numeral.scalar, if_neg marked, text,
        lawful.float_repr x finite]
      rfl
    · cases h
  | str s =>
    cases h
    rw [quoted, List.cons_append, List.append_assoc, List.singleton_append]
    simp only [scanScalar]
    rw [if_pos trivial, scanString_quoted]
    rfl

/-! Objects. -/

theorem skipBlanks_cons {c : CodePoint} (h : isBlank c = false) (s : Str) :
    skipBlanks (c :: s) = c :: s := by
  simp [skipBlanks, h]

theorem text_head (lawful : fmt.Lawful) {v : Scalar F} {t : Str} (h : scalarText fmt v = some t) :
    ∃ c s, t = c :: s ∧ isBlank c = false ∧ c ≠ leftBrace ∧ c ≠ leftBracket := by
  have numeral {n : Numeral} (grammatical : n.Grammatical) : ∃ c s, n.text = c :: s ∧
      isBlank c = false ∧ c ≠ leftBrace ∧ c ≠ leftBracket := by
    obtain ⟨c, s, text, first⟩ := numeral_head grammatical
    refine ⟨c, s, text, ?_⟩
    rcases first with rfl | digit
    · decide
    · rw [isDigit_iff] at digit
      refine ⟨?_, ?_, ?_⟩
      · simp only [isBlank, List.mem_cons, List.not_mem_nil, or_false, decide_eq_false_iff_not]
        omega
      · rintro rfl
        exact absurd digit (by decide)
      · rintro rfl
        exact absurd digit (by decide)
  cases v with
  | null =>
    cases h
    exact ⟨code 'n', ofString "ull", by decide, by decide, by decide, by decide⟩
  | bool b =>
    cases b with
    | true =>
      cases h
      exact ⟨code 't', ofString "rue", by decide, by decide, by decide, by decide⟩
    | false =>
      cases h
      exact ⟨code 'f', ofString "alse", by decide, by decide, by decide, by decide⟩
  | int n =>
    obtain ⟨rfl, _⟩ := intText_eq_some h
    exact numeral (intNumeral_grammatical n)
  | float x =>
    simp only [scalarText] at h
    split at h
    · rename_i finite
      obtain ⟨n, grammatical, _, text⟩ := lawful.numeral x finite
      cases h
      rw [← text]
      exact numeral grammatical
    · cases h
  | str s =>
    cases h
    exact ⟨quote, _, rfl, by decide, by decide, by decide⟩

theorem scanValue_text (lawful : fmt.Lawful) {v : Scalar F} {t : Str}
    (h : scalarText fmt v = some t)
    {rest : Str} (follows : Follows rest) (fuel : ℕ) :
    scanValue fmt (fuel + 1) (skipBlanks (t ++ rest)) = some (.scalar v, rest) := by
  obtain ⟨c, s, text, blank, brace, bracket⟩ := text_head lawful h
  have scanned := scanScalar_text lawful h follows
  rw [text, List.cons_append] at scanned ⊢
  rw [skipBlanks_cons blank]
  simp only [scanValue]
  rw [if_neg brace, if_neg bracket, scanned]
  rfl

theorem memberText_eq_some {m : Str × Scalar F} {t : Str} (h : memberText fmt m = some t) :
    ∃ text, scalarText fmt m.2 = some text ∧ ∀ after, t ++ after =
      quote :: (m.1.flatMap escapeChar ++ quote :: (colon :: (text ++ after))) := by
  obtain ⟨text, written, rfl⟩ := Option.map_eq_some_iff.mp h
  exact ⟨text, written, fun after => by simp [quoted]⟩

theorem members_last (lawful : fmt.Lawful) {m : Str × Scalar F} {t : Str}
    (h : memberText fmt m = some t) (fuel depth : ℕ) (rest : Str) :
    members (scanValue fmt (depth + 1)) (fuel + 1) (t ++ rightBrace :: rest) =
      some ([(m.1, .scalar m.2)], rest) := by
  obtain ⟨text, written, whole⟩ := memberText_eq_some h
  have value := scanValue_text lawful written (.brace rest) depth
  have close : skipBlanks (rightBrace :: rest) = rightBrace :: rest := skipBlanks_cons (by decide) rest
  have separator (s : Str) : skipBlanks (colon :: s) = colon :: s := skipBlanks_cons (by decide) s
  simp only [whole, members, expect, if_true, scanString_quoted, separator, value, close,
    Option.bind_eq_bind, Option.bind_some]
  rfl

theorem members_more (lawful : fmt.Lawful) {m : Str × Scalar F} {t : Str}
    (h : memberText fmt m = some t) (fuel depth : ℕ) (rest : Str) :
    members (scanValue fmt (depth + 1)) (fuel + 1) (t ++ comma :: rest) =
      (members (scanValue fmt (depth + 1)) fuel (skipBlanks rest)).map fun r =>
        ((m.1, .scalar m.2) :: r.1, r.2) := by
  obtain ⟨text, written, whole⟩ := memberText_eq_some h
  have value := scanValue_text lawful written (.comma rest) depth
  have close : skipBlanks (comma :: rest) = comma :: rest := skipBlanks_cons (by decide) rest
  have separator (s : Str) : skipBlanks (colon :: s) = colon :: s := skipBlanks_cons (by decide) s
  have other : comma ≠ rightBrace := by decide
  simp only [whole, members, expect, if_true, scanString_quoted, separator, value, close,
    Option.bind_eq_bind, Option.bind_some, if_neg other]
  cases members (scanValue fmt (depth + 1)) fuel (skipBlanks rest) <;> rfl

theorem intercalate_head {m : Str × Scalar F} {t : Str} (h : memberText fmt m = some t)
    (ts : List Str) (rest : Str) : ∃ s, [comma].intercalate (t :: ts) ++ rest = quote :: s := by
  obtain ⟨text, _, whole⟩ := memberText_eq_some h
  cases ts with
  | nil => exact ⟨_, by rw [List.intercalate_singleton, whole]⟩
  | cons u us =>
    exact ⟨_, by rw [List.intercalate_cons_cons, List.append_assoc, List.append_assoc, whole]⟩

theorem intercalate_length (t : Str) (ts : List Str) :
    ts.length ≤ ([comma].intercalate (t :: ts)).length := by
  induction ts generalizing t with
  | nil => exact Nat.zero_le _
  | cons u us ih =>
    have rest := ih u
    rw [List.intercalate_cons_cons]
    simp only [List.length_append, List.length_cons, List.length_nil]
    omega

theorem members_texts (lawful : fmt.Lawful) {m : Str × Scalar F} {ms : List (Str × Scalar F)}
    {t : Str} {ts : List Str} (first : memberText fmt m = some t)
    (more : List.Forall₂ (fun m t => memberText fmt m = some t) ms ts) (rest : Str) {fuel : ℕ}
    (enough : ms.length < fuel) (depth : ℕ) :
    members (scanValue fmt (depth + 1)) fuel ([comma].intercalate (t :: ts) ++ rightBrace :: rest) =
      some ((m :: ms).map fun m => (m.1, .scalar m.2), rest) := by
  induction more generalizing m t fuel with
  | nil =>
    obtain ⟨fuel, rfl⟩ := Nat.exists_eq_add_one_of_ne_zero (Nat.ne_of_gt enough)
    rw [List.intercalate_singleton]
    exact members_last lawful first fuel depth rest
  | @cons m' t' ms ts second more ih =>
    obtain ⟨fuel, rfl⟩ := Nat.exists_eq_add_one_of_ne_zero (Nat.ne_of_gt (Nat.zero_lt_of_lt enough))
    have next := ih second (Nat.lt_of_succ_lt_succ enough)
    have quotes : skipBlanks ([comma].intercalate (t' :: ts) ++ rightBrace :: rest) =
        [comma].intercalate (t' :: ts) ++ rightBrace :: rest := by
      obtain ⟨s, starts⟩ := intercalate_head second ts (rightBrace :: rest)
      rw [starts]
      exact skipBlanks_cons (by decide) s
    rw [List.intercalate_cons_cons, List.append_assoc, List.append_assoc, List.singleton_append,
      members_more lawful first, quotes, next]
    rfl

theorem loads_objectText (lawful : fmt.Lawful) {ms : List (Str × Scalar F)} {ts : List Str}
    (h : List.Forall₂ (fun m t => memberText fmt m = some t) ms ts) :
    loads fmt (objectText ts) = some (.object (ms.map fun m => (m.1, .scalar m.2))) := by
  have open_ : skipBlanks (objectText ts) = objectText ts := skipBlanks_cons (by decide) _
  have scanned : scanValue fmt ((objectText ts).length + 1) (objectText ts) =
      some (.object (ms.map fun m => (m.1, .scalar m.2)), []) := by
    cases h with
    | nil => rfl
    | @cons m t ms ts first more =>
      have count : ms.length < (objectText (t :: ts)).length := by
        have least := intercalate_length t ts
        have lengths := more.length_eq
        simp only [objectText, List.length_cons, List.length_append]
        omega
      obtain ⟨s, starts⟩ := intercalate_head first ts [rightBrace]
      obtain ⟨depth, deep⟩ := Nat.exists_eq_add_one_of_ne_zero (Nat.ne_of_gt (Nat.zero_lt_of_lt count))
      have read := members_texts lawful first more [] count depth
      rw [← deep] at read
      have quotes : skipBlanks (quote :: s) = quote :: s := skipBlanks_cons (by decide) s
      have other : quote ≠ rightBrace := by decide
      generalize (objectText (t :: ts)).length = fuel at read
      rw [starts] at read
      rw [objectText, starts]
      simp only [scanValue, if_true, quotes, if_neg other, read]
      rfl
  rw [loads, open_, scanned]
  rfl

/-! What can be written, and what UTF-8 can encode. -/

def Scalar.Writable (fmt : Format F) : Scalar F → Prop
  | .int n => fmt.within (natural n.natAbs).length = true
  | .float x => fmt.isfinite x = true
  | _ => True

theorem scalarText_isSome {v : Scalar F} : (scalarText fmt v).isSome = true ↔ v.Writable fmt := by
  cases v with
  | null => exact ⟨fun _ => trivial, fun _ => rfl⟩
  | bool b => cases b <;> exact ⟨fun _ => trivial, fun _ => rfl⟩
  | int n => simp [scalarText, intText, Scalar.Writable]
  | float x => simp [scalarText, Scalar.Writable]
  | str s => exact ⟨fun _ => trivial, fun _ => rfl⟩

theorem dumps_eq_some {ms : List (Str × Scalar F)} {text : Str} (h : dumps fmt ms = some text) :
    ∃ ts, List.Forall₂ (fun m t => memberText fmt m = some t) (sortKeys ms) ts ∧
      text = objectText ts := by
  obtain ⟨ts, written, rfl⟩ := Option.map_eq_some_iff.mp h
  exact ⟨ts, mapM_eq_some.mp written, rfl⟩

theorem sortKeys_perm (ms : List (Str × Scalar F)) : (sortKeys ms).Perm ms :=
  List.perm_insertionSort _ ms

/-- `loads` is the inverse of `dumps`, but for the order of the keys. -/
theorem loads_dumps (lawful : fmt.Lawful) {ms : List (Str × Scalar F)} {text : Str}
    (h : dumps fmt ms = some text) :
    loads fmt text = some (.object ((sortKeys ms).map fun m => (m.1, .scalar m.2))) := by
  obtain ⟨ts, written, rfl⟩ := dumps_eq_some h
  exact loads_objectText lawful written

theorem dumps_isSome {ms : List (Str × Scalar F)} :
    (dumps fmt ms).isSome = true ↔ ∀ m ∈ ms, m.2.Writable fmt := by
  rw [dumps, Option.isSome_map, mapM_isSome]
  constructor
  · intro all m member
    have written := all m ((sortKeys_perm ms).mem_iff.mpr member)
    rw [memberText, Option.isSome_map] at written
    exact scalarText_isSome.mp written
  · intro all m member
    rw [memberText, Option.isSome_map]
    exact scalarText_isSome.mpr (all m ((sortKeys_perm ms).mem_iff.mp member))

def Scalar.Utf8 : Scalar F → Prop
  | .str s => Text.Utf8 s
  | _ => True

theorem utf8_escapeChar {c : CodePoint} :
    Utf8 (escapeChar c) ↔ isSurrogate c = false := by
  unfold escapeChar
  cases short : shortEscapes.lookup c with
  | some e =>
    have all : shortEscapes.all (fun p => !isSurrogate p.1 && !isSurrogate p.2) = true := by decide
    obtain ⟨before, after, split, _⟩ := List.lookup_eq_some_iff.mp short
    have both := List.all_eq_true.mp all (c, e) (by simp [split])
    have first : isSurrogate backslash = false := by decide
    simp only [Bool.and_eq_true, Bool.not_eq_true'] at both
    simp [Utf8, both, first]
  | none =>
    simp only
    split
    · rename_i control
      have low : isSurrogate c = false := by
        rw [Bool.eq_false_iff, ne_eq, isSurrogate_iff]
        omega
      have hex : ∀ d < 32, isSurrogate (hexDigit d) = false := by decide
      have fixed : Utf8 [backslash, code 'u', digit 0, digit 0] := by decide
      have digits : Utf8 [hexDigit (c.val / 16), hexDigit (c.val % 16)] :=
        List.forall_mem_cons.mpr ⟨hex _ (by omega), List.forall_mem_cons.mpr
          ⟨hex _ (by omega), List.forall_mem_nil _⟩⟩
      exact ⟨fun _ => low, fun _ => utf8_append.mpr ⟨fixed, digits⟩⟩
    · simp [Utf8]

theorem utf8_quoted {s : Str} : Utf8 (quoted s) ↔ Utf8 s := by
  have escaped : Utf8 (s.flatMap escapeChar) ↔ Utf8 s := by
    induction s with
    | nil => rfl
    | cons c s ih => rw [List.flatMap_cons, utf8_append, ih, utf8_escapeChar, utf8_cons]
  rw [quoted, utf8_cons, utf8_append, escaped]
  have quotes : Utf8 [quote] := by decide
  have first : isSurrogate quote = false := by decide
  tauto

theorem utf8_exponent {s : Str} (h : Exponent s) : Utf8 s := by
  cases h with
  | absent => decide
  | present marked signed digits _ =>
    apply utf8_cons.mpr ⟨?_, utf8_append.mpr ⟨?_, utf8_digits digits⟩⟩
    · rcases marked with rfl | rfl <;> decide
    · rcases signed with rfl | rfl | rfl <;> decide

theorem utf8_numeral {n : Numeral} (h : n.Grammatical) : Utf8 n.text := by
  have sign {s : Str} (h : Sign s) : Utf8 s := by
    cases h <;> decide
  have integer {s : Str} (h : Integer s) : Utf8 s := by
    cases h with
    | zero => decide
    | nonzero first _ digits => exact utf8_digits (List.forall_mem_cons.mpr ⟨first, digits⟩)
  have fraction {s : Str} (h : Fraction s) : Utf8 s := by
    cases h with
    | absent => decide
    | present digits _ => exact utf8_cons.mpr ⟨by decide, utf8_digits digits⟩
  exact utf8_append.mpr ⟨sign h.sign, utf8_append.mpr ⟨integer h.integer,
    utf8_append.mpr ⟨fraction h.fraction, utf8_exponent h.exponent⟩⟩⟩

theorem utf8_scalarText (lawful : fmt.Lawful) {v : Scalar F} {t : Str}
    (h : scalarText fmt v = some t) : Utf8 t ↔ v.Utf8 := by
  cases v with
  | null =>
    cases h
    exact ⟨fun _ => trivial, fun _ => utf8_ofString "null"⟩
  | bool b =>
    cases b with
    | true =>
      cases h
      exact ⟨fun _ => trivial, fun _ => utf8_ofString "true"⟩
    | false =>
      cases h
      exact ⟨fun _ => trivial, fun _ => utf8_ofString "false"⟩
  | int n =>
    obtain ⟨rfl, _⟩ := intText_eq_some h
    exact ⟨fun _ => trivial, fun _ => utf8_numeral (intNumeral_grammatical n)⟩
  | float x =>
    simp only [scalarText] at h
    split at h
    · rename_i finite
      obtain ⟨n, grammatical, _, text⟩ := lawful.numeral x finite
      cases h
      rw [← text]
      exact ⟨fun _ => trivial, fun _ => utf8_numeral grammatical⟩
    · cases h
  | str s =>
    cases h
    exact utf8_quoted

/-- UTF-8 can encode what is written if it can encode the strings in it. -/
theorem utf8_dumps (lawful : fmt.Lawful) {ms : List (Str × Scalar F)} {text : Str}
    (h : dumps fmt ms = some text) :
    Utf8 text ↔ ∀ m ∈ ms, Utf8 m.1 ∧ m.2.Utf8 := by
  obtain ⟨ts, written, rfl⟩ := dumps_eq_some h
  have each {m : Str × Scalar F} {t : Str} (h : memberText fmt m = some t) :
      Utf8 t ↔ Utf8 m.1 ∧ m.2.Utf8 := by
    obtain ⟨text, scalar, rfl⟩ := Option.map_eq_some_iff.mp h
    have separator : isSurrogate colon = false := by decide
    rw [utf8_append, utf8_quoted, utf8_cons, utf8_scalarText lawful scalar]
    tauto
  have joined (ts : List Str) : Utf8 ([comma].intercalate ts) ↔ ∀ t ∈ ts, Utf8 t := by
    induction ts with
    | nil => simp [Utf8]
    | cons t ts ih =>
      cases ts with
      | nil => simp
      | cons u us =>
        have separator : Utf8 [comma] := by decide
        rw [List.intercalate_cons_cons, utf8_append, utf8_append, ih, List.forall_mem_cons (a := t)]
        tauto
  have texts : (∀ t ∈ ts, Utf8 t) ↔ ∀ m ∈ sortKeys ms, Utf8 m.1 ∧ m.2.Utf8 := by
    clear h
    generalize sortKeys ms = sorted at written
    induction written with
    | nil => simp
    | @cons m t ms ts first _ ih =>
      rw [List.forall_mem_cons (a := t), List.forall_mem_cons (a := m), ih, each first]
  have braces : isSurrogate leftBrace = false ∧ Utf8 [rightBrace] := by decide
  rw [objectText, utf8_cons, utf8_append, joined, texts]
  constructor
  · rintro ⟨_, all, _⟩ m member
    exact all m ((sortKeys_perm ms).mem_iff.mpr member)
  · intro all
    exact ⟨braces.1, fun m member => all m ((sortKeys_perm ms).mem_iff.mp member), braces.2⟩

end Json
