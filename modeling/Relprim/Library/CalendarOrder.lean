import Relprim.Library.Calendar

/-!
The order of the texts of instants: field by field, the earlier instant has the smaller
text, since every field has a fixed width and the larger ones come first.
-/
namespace Calendar
open Text

/-- The first fields decide, or if they are equal what follows them. -/
def Leads (m n : ℕ) (rest : Prop) : Prop := m < n ∨ m = n ∧ rest

theorem Leads.imp {m n : ℕ} {P Q : Prop} (h : Leads m n P) (weaken : P → Q) : Leads m n Q :=
  Or.imp_right (And.imp_right weaken) h

/-! Dates. -/

theorem daysOfMonths_succ (year month count : ℕ) :
    daysOfMonths year month (count + 1) =
      daysOfMonths year month count + daysInMonth year (month + count) := by
  induction count generalizing month with
  | zero => simp [daysOfMonths]
  | succ count ih =>
    rw [daysOfMonths, ih, daysOfMonths, show month + (count + 1) = month + 1 + count by omega]
    omega

theorem daysOfMonths_mono (year : ℕ) {m n : ℕ} (h : m ≤ n) :
    daysOfMonths year 1 m ≤ daysOfMonths year 1 n := by
  induction h with
  | refl => exact Nat.le_refl _
  | step _ ih =>
    rw [daysOfMonths_succ]
    omega

def Date.Before (d e : Date) : Prop :=
  Leads d.year e.year (Leads d.month e.month (d.day < e.day))

theorem ordinal_month {d : Date} (valid : d.Valid) :
    d.ordinal < daysBeforeYear d.year + daysOfMonths d.year 1 d.month := by
  obtain ⟨month, rest⟩ := Nat.exists_eq_add_of_le' valid.month.1
  have whole := daysOfMonths_succ d.year 1 month
  have days := valid.day
  rw [Date.ordinal, rest, Nat.add_sub_cancel, whole]
  rw [rest, Nat.add_comm month 1] at days
  omega

theorem ordinal_year {d : Date} (valid : d.Valid) : d.ordinal < daysBeforeYear (d.year + 1) := by
  have month := ordinal_month valid
  have months := daysOfMonths_mono d.year valid.month.2
  rw [daysOfMonths_year] at months
  rw [daysBeforeYear_succ valid.year]
  omega

theorem ordinal_lt {d e : Date} (valid : d.Valid) (h : d.Before e) : d.ordinal < e.ordinal := by
  rcases h with year | ⟨year, month | ⟨month, day⟩⟩
  · have before := ordinal_year valid
    have years : daysBeforeYear (d.year + 1) ≤ daysBeforeYear e.year := daysBeforeYear_mono year
    have started : daysBeforeYear e.year ≤ e.ordinal := by
      unfold Date.ordinal
      omega
    omega
  · have before := ordinal_month valid
    have months := daysOfMonths_mono e.year (Nat.le_sub_one_of_lt month)
    have started : daysBeforeYear e.year + daysOfMonths e.year 1 (e.month - 1) ≤ e.ordinal := by
      unfold Date.ordinal
      omega
    rw [year] at before
    omega
  · have positive := valid.day.1
    unfold Date.ordinal
    rw [year, month]
    omega

theorem date_trichotomy (d e : Date) : d.Before e ∨ d = e ∨ e.Before d := by
  obtain ⟨year, month, day⟩ := d
  obtain ⟨year', month', day'⟩ := e
  simp only [Date.Before, Leads, Date.mk.injEq]
  omega

theorem dateOf_before {m n : ℕ} (h : m < n) : (dateOf m).Before (dateOf n) := by
  obtain ⟨_, start⟩ := dateOf_valid m
  obtain ⟨valid, stop⟩ := dateOf_valid n
  rcases date_trichotomy (dateOf m) (dateOf n) with before | same | after
  · exact before
  · rw [← start, ← stop, same] at h
    exact absurd h (Nat.lt_irrefl _)
  · have reversed := ordinal_lt valid after
    omega

/-! Fields. -/

def Fields.Before (f g : Fields) : Prop :=
  Leads f.date.year g.date.year (Leads f.date.month g.date.month (Leads f.date.day g.date.day
    (Leads f.hour g.hour (Leads f.minute g.minute (Leads f.second g.second
      (f.microsecond < g.microsecond))))))

theorem fieldsOf_before {m n : ℕ} (h : m < n) : (fieldsOf m).Before (fieldsOf n) := by
  rcases Nat.lt_or_eq_of_le (Nat.div_le_div_right (c := dayMicros) (Nat.le_of_lt h)) with day | day
  · exact (dateOf_before day).imp fun rest => rest.imp fun days => .inl days
  · have time : Leads (fieldsOf m).hour (fieldsOf n).hour (Leads (fieldsOf m).minute
        (fieldsOf n).minute (Leads (fieldsOf m).second (fieldsOf n).second
          ((fieldsOf m).microsecond < (fieldsOf n).microsecond))) := by
      simp only [Leads, fieldsOf, dayMicros, hourMicros, minuteMicros, secondMicros] at day ⊢
      omega
    have date : (fieldsOf m).date = (fieldsOf n).date := congrArg dateOf day
    rw [Fields.Before, date]
    exact .inr ⟨rfl, .inr ⟨rfl, .inr ⟨rfl, time⟩⟩⟩

/-! Texts. -/

theorem field_lt {w m n : ℕ} {s t : Str} (bound : n < 10 ^ w) (h : Leads m n (s < t)) :
    padded w m ++ s < padded w n ++ t := by
  rcases h with less | ⟨rfl, rest⟩
  · exact padded_lt less bound s t
  · exact List.append_left_lt rest

theorem separated_lt {w m n : ℕ} {s t : Str} (bound : n < 10 ^ w) (c : Char)
    (h : Leads m n (s < t)) : padded w m ++ code c :: s < padded w n ++ code c :: t :=
  field_lt bound (h.imp fun rest => List.cons_lt_cons_iff.mpr (.inr ⟨rfl, rest⟩))

theorem text_lt {f g : Fields} (fits : g.Fits) (h : f.Before g) (suffix : Str) :
    f.text ++ suffix < g.text ++ suffix := by
  simp only [Fields.text, List.append_assoc, List.cons_append]
  refine separated_lt fits.year '-' (h.imp fun h => ?_)
  refine separated_lt fits.month '-' (h.imp fun h => ?_)
  refine separated_lt fits.day 'T' (h.imp fun h => ?_)
  refine separated_lt fits.hour ':' (h.imp fun h => ?_)
  refine separated_lt fits.minute ':' (h.imp fun h => ?_)
  refine separated_lt fits.second '.' (h.imp fun h => ?_)
  exact field_lt fits.microsecond (.inl h)

theorem isoformat_strictMono {m n : ℕ} (less : m < n) (bound : n < endOfTime) :
    isoformat m < isoformat n :=
  text_lt (fieldsOf_spec bound).1 (fieldsOf_before less) _

/-- Texts compare as the instants do. -/
theorem isoformat_lt_iff {m n : ℕ} (first : m < endOfTime) (second : n < endOfTime) :
    isoformat m < isoformat n ↔ m < n := by
  constructor
  · intro texts
    rcases Nat.lt_trichotomy m n with less | rfl | greater
    · exact less
    · exact absurd texts (List.lt_irrefl _)
    · exact absurd texts (List.lt_asymm (isoformat_strictMono greater first))
  · exact fun less => isoformat_strictMono less second

theorem isoformat_inj {m n : ℕ} (first : m < endOfTime) (second : n < endOfTime) :
    isoformat m = isoformat n ↔ m = n := by
  constructor
  · intro texts
    rcases Nat.lt_trichotomy m n with less | same | greater
    · have texts' := isoformat_strictMono less second
      rw [texts] at texts'
      exact absurd texts' (List.lt_irrefl _)
    · exact same
    · have texts' := isoformat_strictMono greater first
      rw [texts] at texts'
      exact absurd texts' (List.lt_irrefl _)
  · exact congrArg isoformat

end Calendar
