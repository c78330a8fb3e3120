import Relprim.Library.Text

/-!
The proleptic Gregorian calendar and the ISO 8601 text of an instant. Instants are
counted in microseconds from the start of year 1 in UTC.
-/
namespace Calendar
open Text

def isLeap (year : ℕ) : Bool := year % 4 = 0 && (year % 100 ≠ 0 || year % 400 = 0)

def daysInMonth (year month : ℕ) : ℕ :=
  if month = 2 then if isLeap year then 29 else 28
  else if month ∈ [4, 6, 9, 11] then 30 else 31

def daysBeforeYear (year : ℕ) : ℕ :=
  (year - 1) * 365 + (year - 1) / 4 - (year - 1) / 100 + (year - 1) / 400

/-- The year of a day, which the mean length of a year misses by one at most. -/
def yearOf (day : ℕ) : ℕ :=
  let year := day * 400 / 146097 + 1
  if daysBeforeYear (year + 1) ≤ day then year + 1
  else if daysBeforeYear year ≤ day then year else year - 1

/-- The month and its day, `day` days after the start of `month`; `left` months follow it. -/
def monthDay (year : ℕ) : ℕ → ℕ → ℕ → ℕ × ℕ
  | 0, month, day => (month, day + 1)
  | left + 1, month, day =>
    if day < daysInMonth year month then (month, day + 1)
    else monthDay year left (month + 1) (day - daysInMonth year month)

structure Date where
  year : ℕ
  month : ℕ
  day : ℕ

def dateOf (day : ℕ) : Date :=
  let year := yearOf day
  let (month, day) := monthDay year 11 1 (day - daysBeforeYear year)
  ⟨year, month, day⟩

def daysOfMonths (year month : ℕ) : ℕ → ℕ
  | 0 => 0
  | count + 1 => daysInMonth year month + daysOfMonths year (month + 1) count

def Date.ordinal (d : Date) : ℕ :=
  daysBeforeYear d.year + daysOfMonths d.year 1 (d.month - 1) + (d.day - 1)

structure Date.Valid (d : Date) : Prop where
  year : 1 ≤ d.year
  month : 1 ≤ d.month ∧ d.month ≤ 12
  day : 1 ≤ d.day ∧ d.day ≤ daysInMonth d.year d.month

theorem daysBeforeYear_succ {year : ℕ} (pos : 1 ≤ year) :
    daysBeforeYear (year + 1) = daysBeforeYear year + 365 + if isLeap year then 1 else 0 := by
  obtain ⟨n, rfl⟩ := Nat.exists_eq_add_of_le' pos
  have leap : isLeap (n + 1) = true ↔ 4 ∣ n + 1 ∧ (¬ 100 ∣ n + 1 ∨ 400 ∣ n + 1) := by
    simp [isLeap, Nat.dvd_iff_mod_eq_zero]
  have centuries : 100 ∣ n + 1 → 4 ∣ n + 1 := Nat.dvd_trans (by decide)
  have cycles : 400 ∣ n + 1 → 100 ∣ n + 1 := Nat.dvd_trans (by decide)
  have few : n / 100 ≤ n * 365 + n / 4 := Nat.le_add_right_of_le
    ((Nat.div_le_self n 100).trans (Nat.le_mul_of_pos_right n (by decide)))
  simp only [daysBeforeYear, Nat.add_sub_cancel, Nat.succ_div, leap]
  by_cases fourth : 4 ∣ n + 1
  · by_cases century : 100 ∣ n + 1
    · by_cases cycle : 400 ∣ n + 1
      · simp only [fourth, century, cycle, if_true, not_true, or_true, and_self]
        omega
      · simp only [fourth, century, cycle, if_true, if_false, not_true, or_self, and_false]
        omega
    · have cycle : ¬ 400 ∣ n + 1 := fun h => century (cycles h)
      simp only [fourth, century, cycle, if_true, if_false, not_false_eq_true, true_or, and_self]
      omega
  · have century : ¬ 100 ∣ n + 1 := fun h => fourth (centuries h)
    have cycle : ¬ 400 ∣ n + 1 := fun h => century (cycles h)
    simp only [fourth, century, cycle, if_false, false_and]
    omega

theorem daysOfMonths_year (year : ℕ) :
    daysOfMonths year 1 12 = 365 + if isLeap year then 1 else 0 := by
  simp only [daysOfMonths, daysInMonth]
  cases isLeap year <;> rfl

theorem yearOf_bounds (day : ℕ) :
    1 ≤ yearOf day ∧ daysBeforeYear (yearOf day) ≤ day ∧ day < daysBeforeYear (yearOf day + 1) := by
  unfold yearOf
  simp only
  split
  · rename_i above
    unfold daysBeforeYear at above ⊢
    omega
  · rename_i below
    split
    · rename_i here
      exact ⟨Nat.le_add_left 1 _, here, Nat.lt_of_not_le below⟩
    · rename_i before
      unfold daysBeforeYear at before below ⊢
      omega

theorem monthDay_spec (year left month day : ℕ) (h : day < daysOfMonths year month (left + 1)) :
    ∃ count ≤ left, (monthDay year left month day).1 = month + count ∧
      1 ≤ (monthDay year left month day).2 ∧
      (monthDay year left month day).2 ≤ daysInMonth year (month + count) ∧
      daysOfMonths year month count + ((monthDay year left month day).2 - 1) = day := by
  induction left generalizing month day with
  | zero =>
    simp only [daysOfMonths, Nat.add_zero] at h
    exact ⟨0, Nat.le_refl 0, rfl, Nat.le_add_left 1 day, h, by simp [daysOfMonths, monthDay]⟩
  | succ left ih =>
    unfold monthDay
    split
    · rename_i here
      exact ⟨0, Nat.zero_le _, rfl, Nat.le_add_left 1 day, here, by simp [daysOfMonths]⟩
    · rename_i later
      rw [daysOfMonths] at h
      have rest : day - daysInMonth year month < daysOfMonths year (month + 1) (left + 1) := by
        omega
      obtain ⟨count, few, number, least, most, sum⟩ := ih (month + 1) _ rest
      refine ⟨count + 1, Nat.succ_le_succ few, by omega, least, ?_, ?_⟩
      · rwa [show month + (count + 1) = month + 1 + count by omega]
      · rw [daysOfMonths]
        omega

theorem dateOf_valid (day : ℕ) : (dateOf day).Valid ∧ (dateOf day).ordinal = day := by
  obtain ⟨pos, least, most⟩ := yearOf_bounds day
  have inside : day - daysBeforeYear (yearOf day) < daysOfMonths (yearOf day) 1 12 := by
    rw [daysOfMonths_year]
    rw [daysBeforeYear_succ pos] at most
    omega
  obtain ⟨count, few, month, first, last, sum⟩ := monthDay_spec (yearOf day) 11 1 _ inside
  have number : (dateOf day).month = 1 + count := month
  constructor
  · constructor
    · exact pos
    · omega
    · rw [number]
      exact ⟨first, last⟩
  · have before : (dateOf day).month - 1 = count := by omega
    rw [Date.ordinal, before]
    change daysBeforeYear (yearOf day) + daysOfMonths (yearOf day) 1 count +
      ((monthDay (yearOf day) 11 1 (day - daysBeforeYear (yearOf day))).2 - 1) = day
    omega

/-! ISO 8601 with microseconds. -/

def secondMicros : ℕ := 1000000
def minuteMicros : ℕ := 60 * secondMicros
def hourMicros : ℕ := 60 * minuteMicros
def dayMicros : ℕ := 24 * hourMicros

def endOfTime : ℕ := daysBeforeYear 10000 * dayMicros

structure Fields where
  date : Date
  hour : ℕ
  minute : ℕ
  second : ℕ
  microsecond : ℕ

def fieldsOf (instant : ℕ) : Fields where
  date := dateOf (instant / dayMicros)
  hour := instant % dayMicros / hourMicros
  minute := instant % dayMicros / minuteMicros % 60
  second := instant % dayMicros / secondMicros % 60
  microsecond := instant % dayMicros % secondMicros

def Fields.micros (f : Fields) : ℕ :=
  f.date.ordinal * dayMicros + f.hour * hourMicros + f.minute * minuteMicros +
    f.second * secondMicros + f.microsecond

def Fields.valid (f : Fields) : Bool :=
  1 ≤ f.date.year && 1 ≤ f.date.month && f.date.month ≤ 12 && 1 ≤ f.date.day &&
    f.date.day ≤ daysInMonth f.date.year f.date.month && f.hour < 24 && f.minute < 60 && f.second < 60

def Fields.text (f : Fields) : Str :=
  padded 4 f.date.year ++ code '-' :: (padded 2 f.date.month ++ code '-' ::
    (padded 2 f.date.day ++ code 'T' :: (padded 2 f.hour ++ code ':' :: (padded 2 f.minute ++
    code ':' :: (padded 2 f.second ++ code '.' :: padded 6 f.microsecond)))))

/-- `isoformat(timespec="microseconds")` of an instant in UTC. -/
def isoformat (instant : ℕ) : Str := (fieldsOf instant).text ++ ofString "+00:00"

def readNumber (width : ℕ) (s : Str) : Option (ℕ × Str) :=
  let digits := s.take width
  if digits.length = width ∧ digits.all isDigit then some (value digits, s.drop width) else none

def readChar (c : Char) (s : Str) : Option Str :=
  match s with
  | d :: rest => if d = code c then some rest else none
  | [] => none

def readFields (s : Str) : Option (Fields × Str) := do
  let (year, s) ← readNumber 4 s
  let s ← readChar '-' s
  let (month, s) ← readNumber 2 s
  let s ← readChar '-' s
  let (day, s) ← readNumber 2 s
  let s ← readChar 'T' s
  let (hour, s) ← readNumber 2 s
  let s ← readChar ':' s
  let (minute, s) ← readNumber 2 s
  let s ← readChar ':' s
  let (second, s) ← readNumber 2 s
  let s ← readChar '.' s
  let (microsecond, s) ← readNumber 6 s
  return (⟨⟨year, month, day⟩, hour, minute, second, microsecond⟩, s)

def readSign (s : Str) : Option (Bool × Str) :=
  match readChar '+' s with
  | some s => some (false, s)
  | none => (readChar '-' s).map fun s => (true, s)

def readOffset (s : Str) : Option ℤ := do
  let (negative, s) ← readSign s
  let (hours, s) ← readNumber 2 s
  let s ← readChar ':' s
  let (minutes, s) ← readNumber 2 s
  if s = [] ∧ hours < 24 ∧ minutes < 60 then
    let offset : ℤ := (hours * hourMicros + minutes * minuteMicros : ℕ)
    return if negative then -offset else offset
  else none

/-- `fromisoformat` of the texts that `isoformat` writes, at any offset: the instant and the
    offset. -/
def fromisoformat (s : Str) : Option (ℤ × ℤ) := do
  let (fields, s) ← readFields s
  let offset ← readOffset s
  if fields.valid then return ((fields.micros : ℤ) - offset, offset) else none

theorem readNumber_padded {width n : ℕ} (h : n < 10 ^ width) (rest : Str) :
    readNumber width (padded width n ++ rest) = some (n, rest) := by
  have front : (padded width n ++ rest).take width = padded width n := by
    rw [List.take_append_of_le_length (Nat.le_of_eq (padded_length width n).symm),
      List.take_of_length_le (Nat.le_of_eq (padded_length width n))]
  have back : (padded width n ++ rest).drop width = rest := by
    rw [List.drop_append_of_le_length (Nat.le_of_eq (padded_length width n).symm),
      List.drop_of_length_le (Nat.le_of_eq (padded_length width n)), List.nil_append]
  have digits : (padded width n).all isDigit = true := List.all_eq_true.mpr (padded_digits width n)
  rw [readNumber, front, back, if_pos ⟨padded_length width n, digits⟩, value_padded h]

theorem readChar_code (c : Char) (rest : Str) : readChar c (code c :: rest) = some rest :=
  if_pos rfl

structure Fields.Fits (f : Fields) : Prop where
  year : f.date.year < 10 ^ 4
  month : f.date.month < 10 ^ 2
  day : f.date.day < 10 ^ 2
  hour : f.hour < 10 ^ 2
  minute : f.minute < 10 ^ 2
  second : f.second < 10 ^ 2
  microsecond : f.microsecond < 10 ^ 6

theorem readFields_text {f : Fields} (h : f.Fits) (rest : Str) :
    readFields (f.text ++ rest) = some (f, rest) := by
  simp only [Fields.text, List.append_assoc, List.cons_append]
  refine Option.bind_eq_some_iff.mpr ⟨_, readNumber_padded h.year _, ?_⟩
  refine Option.bind_eq_some_iff.mpr ⟨_, readChar_code '-' _, ?_⟩
  refine Option.bind_eq_some_iff.mpr ⟨_, readNumber_padded h.month _, ?_⟩
  refine Option.bind_eq_some_iff.mpr ⟨_, readChar_code '-' _, ?_⟩
  refine Option.bind_eq_some_iff.mpr ⟨_, readNumber_padded h.day _, ?_⟩
  refine Option.bind_eq_some_iff.mpr ⟨_, readChar_code 'T' _, ?_⟩
  refine Option.bind_eq_some_iff.mpr ⟨_, readNumber_padded h.hour _, ?_⟩
  refine Option.bind_eq_some_iff.mpr ⟨_, readChar_code ':' _, ?_⟩
  refine Option.bind_eq_some_iff.mpr ⟨_, readNumber_padded h.minute _, ?_⟩
  refine Option.bind_eq_some_iff.mpr ⟨_, readChar_code ':' _, ?_⟩
  refine Option.bind_eq_some_iff.mpr ⟨_, readNumber_padded h.second _, ?_⟩
  refine Option.bind_eq_some_iff.mpr ⟨_, readChar_code '.' _, ?_⟩
  exact Option.bind_eq_some_iff.mpr ⟨_, readNumber_padded h.microsecond _, rfl⟩

theorem daysInMonth_le (year month : ℕ) : daysInMonth year month ≤ 31 := by
  unfold daysInMonth
  split
  · split <;> decide
  · split <;> decide

theorem daysBeforeYear_mono {y z : ℕ} (h : y ≤ z) : daysBeforeYear y ≤ daysBeforeYear z := by
  induction h with
  | refl => exact Nat.le_refl _
  | @step z _ ih =>
    cases z with
    | zero => exact ih
    | succ z =>
      rw [daysBeforeYear_succ (Nat.le_add_left 1 z)]
      omega

theorem year_lt {day : ℕ} (h : day < daysBeforeYear 10000) : yearOf day < 10000 := by
  by_contra late
  have before := daysBeforeYear_mono (Nat.le_of_not_lt late)
  have started := (yearOf_bounds day).2.1
  omega

/-- The fields of an instant before year 10000, which tell the instant. -/
theorem fieldsOf_spec {instant : ℕ} (h : instant < endOfTime) :
    (fieldsOf instant).Fits ∧ (fieldsOf instant).valid = true ∧ (fieldsOf instant).micros = instant := by
  have early : instant / dayMicros < daysBeforeYear 10000 :=
    Nat.div_lt_of_lt_mul (by rwa [Nat.mul_comm])
  obtain ⟨⟨year, ⟨month, months⟩, day, days⟩, ordinal⟩ := dateOf_valid (instant / dayMicros)
  have years : (dateOf (instant / dayMicros)).year < 10000 := year_lt early
  have short := daysInMonth_le (dateOf (instant / dayMicros)).year (dateOf (instant / dayMicros)).month
  have hour : instant % dayMicros / hourMicros < 24 := by
    simp only [dayMicros, hourMicros, minuteMicros, secondMicros]
    omega
  have minute : instant % dayMicros / minuteMicros % 60 < 60 := Nat.mod_lt _ (by decide)
  have second : instant % dayMicros / secondMicros % 60 < 60 := Nat.mod_lt _ (by decide)
  have micro : instant % dayMicros % secondMicros < 10 ^ 6 := Nat.mod_lt _ (by decide)
  refine ⟨⟨years, ?_, ?_, ?_, ?_, ?_, micro⟩, ?_, ?_⟩
  · exact Nat.lt_of_le_of_lt months (by decide)
  · exact Nat.lt_of_le_of_lt (days.trans short) (by decide)
  · exact Nat.lt_trans hour (by decide)
  · exact Nat.lt_trans minute (by decide)
  · exact Nat.lt_trans second (by decide)
  · simp [Fields.valid, fieldsOf, year, month, months, day, days, hour, minute, second]
  · rw [Fields.micros]
    change (dateOf (instant / dayMicros)).ordinal * dayMicros + _ + _ + _ + _ = instant
    rw [ordinal]
    simp only [fieldsOf, dayMicros, hourMicros, minuteMicros, secondMicros]
    omega

theorem readOffset_utc : readOffset (ofString "+00:00") = some 0 := by decide

theorem fromisoformat_isoformat {instant : ℕ} (h : instant < endOfTime) :
    fromisoformat (isoformat instant) = some ((instant : ℤ), 0) := by
  obtain ⟨fits, valid, micros⟩ := fieldsOf_spec h
  simp only [fromisoformat, isoformat, readFields_text fits, readOffset_utc, Option.bind_eq_bind,
    Option.bind_some, valid, if_true, micros, Int.sub_zero]
  rfl

theorem utf8_isoformat (instant : ℕ) : Utf8 (isoformat instant) := by
  have field (width n : ℕ) : Utf8 (padded width n) := utf8_digits (padded_digits width n)
  have separated (width n : ℕ) (c : Char) {rest : Str} (h : Utf8 rest) :
      Utf8 (padded width n ++ code c :: rest) :=
    utf8_append.mpr ⟨field width n, utf8_cons.mpr ⟨code_scalar c, h⟩⟩
  have fields : Utf8 (fieldsOf instant).text :=
    separated _ _ _ (separated _ _ _ (separated _ _ _ (separated _ _ _ (separated _ _ _
      (separated _ _ _ (field _ _))))))
  exact utf8_append.mpr ⟨fields, utf8_ofString _⟩

end Calendar
