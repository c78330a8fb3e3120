import Relprim.Library.Calendar

/-!
ISO 8601 at any offset: microseconds are written only where there are any, and the
seconds of an offset only where it has some.
-/
namespace Calendar
open Text

def microsText (n : ℕ) : Str := if n = 0 then [] else code '.' :: padded 6 n

def Fields.shortText (f : Fields) : Str :=
  padded 4 f.date.year ++ code '-' :: (padded 2 f.date.month ++ code '-' ::
    (padded 2 f.date.day ++ code 'T' :: (padded 2 f.hour ++ code ':' :: (padded 2 f.minute ++
    code ':' :: (padded 2 f.second ++ microsText f.microsecond)))))

/-- The seconds of an offset, which has `n` microseconds beside its minutes. -/
def secondsText (n : ℕ) : Str :=
  if n = 0 then [] else code ':' :: (padded 2 (n / secondMicros) ++ microsText (n % secondMicros))

def offsetText (offset : ℤ) : Str :=
  (if offset < 0 then code '-' else code '+') :: (padded 2 (offset.natAbs / hourMicros) ++
    code ':' :: (padded 2 (offset.natAbs / minuteMicros % 60) ++
    secondsText (offset.natAbs % minuteMicros)))

def isoformatAt (time : ℕ) (offset : ℤ) : Str := (fieldsOf time).shortText ++ offsetText offset

def readMicros (s : Str) : Option (ℕ × Str) :=
  match readChar '.' s with
  | some s => readNumber 6 s
  | none => some (0, s)

def readSeconds (s : Str) : Option (ℕ × Str) :=
  match readChar ':' s with
  | some s => do
    let (seconds, s) ← readNumber 2 s
    let (micros, s) ← readMicros s
    return (seconds * secondMicros + micros, s)
  | none => some (0, s)

def readShortFields (s : Str) : Option (Fields × Str) := do
  let (year, s) ← readNumber 4 s
  let s ← readChar '-' s
  let (month, s) ← readNumber 2 s
  let s ← readChar '-' s
  let (day, s) ← readNumber 2 s
  let s ← readChar 'T' s
  let (hour, s) ← readNumber 2 s
  let s ← readChar ':' s
  let (minute, s) ← readNumber 2 s
  let s ← readChar ':' s
  let (second, s) ← readNumber 2 s
  let (microsecond, s) ← readMicros s
  return (⟨⟨year, month, day⟩, hour, minute, second, microsecond⟩, s)

def readAnyOffset (s : Str) : Option ℤ := do
  let (negative, s) ← readSign s
  let (hours, s) ← readNumber 2 s
  let s ← readChar ':' s
  let (minutes, s) ← readNumber 2 s
  let (micros, s) ← readSeconds s
  let offset : ℤ := (hours * hourMicros + minutes * minuteMicros + micros : ℕ)
  if s = [] then return if negative then -offset else offset else none

def readIsoformat (s : Str) : Option (ℕ × ℤ) := do
  let (fields, s) ← readShortFields s
  let offset ← readAnyOffset s
  return (fields.micros, offset)

theorem readChar_other {c d : Char} (other : code d ≠ code c) (rest : Str) :
    readChar c (code d :: rest) = none := if_neg other

/-- Where a part that may be missing is read, what follows it does not look like it. -/
theorem readMicros_text {n : ℕ} (h : n < 10 ^ 6) {rest : Str} (stop : readChar '.' rest = none) :
    readMicros (microsText n ++ rest) = some (n, rest) := by
  unfold microsText
  by_cases none_ : n = 0
  · subst none_
    simp [readMicros, stop]
  · rw [if_neg none_, List.cons_append, readMicros, readChar_code]
    exact readNumber_padded h rest

theorem readShortFields_text {f : Fields} (h : f.Fits) {rest : Str}
    (stop : readChar '.' rest = none) : readShortFields (f.shortText ++ rest) = some (f, rest) := by
  simp only [Fields.shortText, List.append_assoc, List.cons_append]
  refine Option.bind_eq_some_iff.mpr ⟨_, readNumber_padded h.year _, ?_⟩
  refine Option.bind_eq_some_iff.mpr ⟨_, readChar_code '-' _, ?_⟩
  refine Option.bind_eq_some_iff.mpr ⟨_, readNumber_padded h.month _, ?_⟩
  refine Option.bind_eq_some_iff.mpr ⟨_, readChar_code '-' _, ?_⟩
  refine Option.bind_eq_some_iff.mpr ⟨_, readNumber_padded h.day _, ?_⟩
  refine Option.bind_eq_some_iff.mpr ⟨_, readChar_code 'T' _, ?_⟩
  refine Option.bind_eq_some_iff.mpr ⟨_, readNumber_padded h.hour _, ?_⟩
  refine Option.bind_eq_some_iff.mpr ⟨_, readChar_code ':' _, ?_⟩
  refine Option.bind_eq_some_iff.mpr ⟨_, readNumber_padded h.minute _, ?_⟩
  refine Option.bind_eq_some_iff.mpr ⟨_, readChar_code ':' _, ?_⟩
  refine Option.bind_eq_some_iff.mpr ⟨_, readNumber_padded h.second _, ?_⟩
  exact Option.bind_eq_some_iff.mpr ⟨_, readMicros_text h.microsecond stop, rfl⟩

theorem readSeconds_text {n : ℕ} (h : n < minuteMicros) :
    readSeconds (secondsText n) = some (n, []) := by
  unfold secondsText
  by_cases none_ : n = 0
  · subst none_
    rfl
  · have seconds : n / secondMicros < 10 ^ 2 := by
      simp only [minuteMicros, secondMicros] at h ⊢
      omega
    have micros : n % secondMicros < 10 ^ 6 := Nat.mod_lt _ (by decide)
    have rest := @readMicros_text _ micros [] rfl
    rw [List.append_nil] at rest
    rw [if_neg none_, readSeconds, readChar_code]
    simp only [readNumber_padded seconds, rest, Option.bind_eq_bind, Option.bind_some, Option.pure_def]
    rw [Nat.mul_comm, Nat.div_add_mod]

theorem readAnyOffset_text {offset : ℤ} (h : offset.natAbs < dayMicros) :
    readAnyOffset (offsetText offset) = some offset := by
  have hours : offset.natAbs / hourMicros < 10 ^ 2 := by
    simp only [dayMicros, hourMicros, minuteMicros, secondMicros] at h ⊢
    omega
  have minutes : offset.natAbs / minuteMicros % 60 < 10 ^ 2 :=
    Nat.lt_trans (Nat.mod_lt _ (by decide)) (by decide)
  have seconds : offset.natAbs % minuteMicros < minuteMicros := Nat.mod_lt _ (by decide)
  have total : offset.natAbs / hourMicros * hourMicros +
      offset.natAbs / minuteMicros % 60 * minuteMicros + offset.natAbs % minuteMicros =
      offset.natAbs := by
    simp only [hourMicros, minuteMicros, secondMicros]
    omega
  have sign (rest : Str) : readSign ((if offset < 0 then code '-' else code '+') :: rest) =
      some (decide (offset < 0), rest) := by
    by_cases negative : offset < 0
    · simp [negative, readSign, readChar, show code '-' ≠ code '+' by decide]
    · simp [negative, readSign, readChar]
  unfold readAnyOffset offsetText
  simp only [sign, readNumber_padded hours, readChar_code, readNumber_padded minutes,
    readSeconds_text seconds, total, Option.bind_eq_bind, Option.bind_some, if_true]
  by_cases negative : offset < 0
  · rw [if_pos (decide_eq_true negative), Int.ofNat_natAbs_of_nonpos negative.le, neg_neg]
    rfl
  · rw [if_neg (by simpa using negative), Int.natAbs_of_nonneg (Int.not_lt.mp negative)]
    rfl

theorem readIsoformat_isoformatAt {time : ℕ} (early : time < endOfTime) {offset : ℤ}
    (short : offset.natAbs < dayMicros) : readIsoformat (isoformatAt time offset) =
      some (time, offset) := by
  obtain ⟨fits, _, micros⟩ := fieldsOf_spec early
  have stop : readChar '.' (offsetText offset) = none := by
    unfold offsetText
    by_cases negative : offset < 0
    · rw [if_pos negative]
      exact readChar_other (by decide) _
    · rw [if_neg negative]
      exact readChar_other (by decide) _
  simp only [readIsoformat, isoformatAt, readShortFields_text fits stop, readAnyOffset_text short,
    Option.bind_eq_bind, Option.bind_some, micros]
  rfl

theorem utf8_microsText (n : ℕ) : Utf8 (microsText n) := by
  unfold microsText
  split
  · exact fun _ member => absurd member List.not_mem_nil
  · exact utf8_cons.mpr ⟨code_scalar _, utf8_digits (padded_digits 6 n)⟩

theorem utf8_isoformatAt (time : ℕ) (offset : ℤ) : Utf8 (isoformatAt time offset) := by
  have field (width n : ℕ) : Utf8 (padded width n) := utf8_digits (padded_digits width n)
  have separated (width n : ℕ) (c : Char) {rest : Str} (h : Utf8 rest) :
      Utf8 (padded width n ++ code c :: rest) :=
    utf8_append.mpr ⟨field width n, utf8_cons.mpr ⟨code_scalar c, h⟩⟩
  have fields : Utf8 (fieldsOf time).shortText :=
    separated _ _ _ (separated _ _ _ (separated _ _ _ (separated _ _ _ (separated _ _ _
      (utf8_append.mpr ⟨field _ _, utf8_microsText _⟩)))))
  have seconds (n : ℕ) : Utf8 (secondsText n) := by
    unfold secondsText
    split
    · exact fun _ member => absurd member List.not_mem_nil
    · exact utf8_cons.mpr ⟨code_scalar _, utf8_append.mpr ⟨field _ _, utf8_microsText _⟩⟩
  have sign : isSurrogate (if offset < 0 then code '-' else code '+') = false := by
    split <;> exact code_scalar _
  exact utf8_append.mpr ⟨fields, utf8_cons.mpr ⟨sign, separated _ _ _
    (utf8_append.mpr ⟨field _ _, seconds _⟩)⟩⟩

end Calendar
