import Mathlib.Algebra.GroupWithZero.Nat
import Structor.Python

/-!
# Dates

A date carries the proof that it is in the calendar. Dates are passed on as texts of the form
`%Y-%m-%d`; what such a text is read as is the date that was written.

## Main definitions

* `Date`, `DateTime` -- a day, and a time of a day
* `Date.strftime`, `strptime` -- the text of a date, and the date of a text
* `Date.endOfMonth` -- the last day of the month
-/
namespace Structor.Python

def isLeap (year : ℕ) : Bool := year % 4 = 0 && (year % 100 ≠ 0 || year % 400 = 0)

/-- The number of days of a month. -/
def monthrange (year month : ℕ) : ℕ :=
  if month = 2 then
    if isLeap year then 29 else 28
  else if month = 4 ∨ month = 6 ∨ month = 9 ∨ month = 11 then 30
  else 31

structure Date where
  year : ℕ
  month : ℕ
  day : ℕ
  year_mem : 1 ≤ year ∧ year ≤ 9999
  month_mem : 1 ≤ month ∧ month ≤ 12
  day_mem : 1 ≤ day ∧ day ≤ monthrange year month
deriving DecidableEq

/-- `datetime(year, month, day)` -/
def date (year month day : ℕ) : Except Error Date :=
  if h : (1 ≤ year ∧ year ≤ 9999) ∧ (1 ≤ month ∧ month ≤ 12) ∧
      1 ≤ day ∧ day ≤ monthrange year month then
    .ok ⟨year, month, day, h.1, h.2.1, h.2.2⟩
  else .error .valueError

/-! ## The order of dates -/

theorem monthrange_mem (year month : ℕ) :
    28 ≤ monthrange year month ∧ monthrange year month ≤ 31 := by
  unfold monthrange
  split_ifs <;> simp

/-- The number of a date, in the order of the calendar. -/
def Date.number (d : Date) : ℕ := (12 * d.year + d.month) * 32 + d.day

instance : LE Date := ⟨fun d e => d.number ≤ e.number⟩

theorem Date.le_def {d e : Date} : d ≤ e ↔ d.number ≤ e.number := Iff.rfl

instance (d e : Date) : Decidable (d ≤ e) := inferInstanceAs (Decidable (d.number ≤ e.number))

/-- Dates are compared by year, month and day. -/
theorem Date.le_iff {d e : Date} : d ≤ e ↔ d.year < e.year ∨
    d.year = e.year ∧ (d.month < e.month ∨ d.month = e.month ∧ d.day ≤ e.day) := by
  have hmonth := d.month_mem
  have hmonth' := e.month_mem
  have hday := d.day_mem
  have hday' := e.day_mem
  have hrange := (monthrange_mem d.year d.month).2
  have hrange' := (monthrange_mem e.year e.month).2
  rw [Date.le_def, Date.number, Date.number]
  omega

theorem Date.le_refl (d : Date) : d ≤ d := Nat.le_refl d.number

theorem Date.le_trans {d e f : Date} (h : d ≤ e) (h' : e ≤ f) : d ≤ f := Nat.le_trans h h'

/-- `%Y-%m`, as numbers. -/
def Date.SameMonth (d e : Date) : Prop := d.year = e.year ∧ d.month = e.month

/-! ## The last day of the month -/

/-- The month has not ended before the date, so the days that are added stay in the month. -/
def Date.endOfMonth (d : Date) : Date where
  year := d.year
  month := d.month
  day := d.day + (monthrange d.year d.month - d.day)
  year_mem := d.year_mem
  month_mem := d.month_mem
  day_mem := by
    have h := d.day_mem
    omega

theorem Date.le_endOfMonth (d : Date) : d ≤ d.endOfMonth :=
  Date.le_iff.mpr (.inr ⟨rfl, .inr ⟨rfl, Nat.le_add_right _ _⟩⟩)

/-- Up to the end of the month, dates are in the month. -/
theorem Date.sameMonth_of_le {d e : Date} (h : d ≤ e) (h' : e ≤ d.endOfMonth) :
    d.SameMonth e := by
  have hyear : d.endOfMonth.year = d.year := rfl
  have hmonth : d.endOfMonth.month = d.month := rfl
  rw [Date.le_iff] at h h'
  rw [Date.SameMonth]
  omega

/-- The last day of a month comes no later than that of a later month. -/
theorem Date.endOfMonth_le {d e : Date} (h : d ≤ e) : d.endOfMonth ≤ e.endOfMonth := by
  have hyear : d.endOfMonth.year = d.year := rfl
  have hmonth : d.endOfMonth.month = d.month := rfl
  have hday : d.endOfMonth.day = monthrange d.year d.month := by
    have h := d.day_mem
    show d.day + (monthrange d.year d.month - d.day) = _
    omega
  have hyear' : e.endOfMonth.year = e.year := rfl
  have hmonth' : e.endOfMonth.month = e.month := rfl
  have hday' : e.endOfMonth.day = monthrange e.year e.month := by
    have h := e.day_mem
    show e.day + (monthrange e.year e.month - e.day) = _
    omega
  rw [Date.le_iff] at h ⊢
  rw [hyear, hmonth, hday, hyear', hmonth', hday']
  rcases h with h | ⟨h, h' | ⟨h', -⟩⟩
  · omega
  · omega
  · rw [h, h']
    omega

/-! ## Times -/

/-- The number of microseconds of a day. -/
def dayLength : ℕ := 86400000000

/-- A day and the microseconds since its midnight. -/
structure DateTime where
  date : Date
  time : Fin dayLength
deriving DecidableEq

def DateTime.number (t : DateTime) : ℕ := t.date.number * dayLength + t.time

instance : LE DateTime := ⟨fun t u => t.number ≤ u.number⟩

theorem DateTime.le_def {t u : DateTime} : t ≤ u ↔ t.number ≤ u.number := Iff.rfl

theorem DateTime.le_refl (t : DateTime) : t ≤ t := Nat.le_refl t.number

theorem DateTime.le_trans {t u v : DateTime} (h : t ≤ u) (h' : u ≤ v) : t ≤ v :=
  Nat.le_trans h h'

instance (t u : DateTime) : Decidable (t ≤ u) :=
  inferInstanceAs (Decidable (t.number ≤ u.number))

/-- The midnight at which a day begins. -/
def Date.midnight (d : Date) : DateTime := ⟨d, 0, by decide⟩

theorem DateTime.date_le {t u : DateTime} (h : t ≤ u) : t.date ≤ u.date := by
  have ht := t.time.isLt
  have hu := u.time.isLt
  rw [DateTime.le_def, DateTime.number, DateTime.number] at h
  rw [Date.le_def]
  unfold dayLength at *
  omega

theorem Date.midnight_le {d e : Date} (h : d ≤ e) : d.midnight ≤ e.midnight := by
  rw [DateTime.le_def, DateTime.number, DateTime.number]
  exact Nat.add_le_add_right (Nat.mul_le_mul_right _ h) _

theorem Date.midnight_le_iff {d e : Date} : d.midnight ≤ e.midnight ↔ d ≤ e :=
  ⟨DateTime.date_le, Date.midnight_le⟩

/-! ## The texts of dates -/

/-- A numeral with zeros before it, `%0<width>d`. -/
def zeroPadded (width n : ℕ) : Str := (Nat.toDigits 10 n).leftpad width '0'

def Date.text (d : Date) : Str :=
  zeroPadded 4 d.year ++ '-' :: zeroPadded 2 d.month ++ '-' :: zeroPadded 2 d.day

/-- `strftime("%Y-%m-%d")`, which has no years before 1900. -/
def Date.strftime (d : Date) : Except Error Str :=
  if d.year < 1900 then .error .valueError else .ok d.text

/-- A number of so many digits. -/
def field (least most : ℕ) (s : Str) : Option ℕ :=
  if least ≤ s.length ∧ s.length ≤ most ∧ s.all Char.isDigit then
    some (Nat.ofDigitChars 10 s 0)
  else none

/-- A blank may stand for the first digit of the day. -/
def dayField : Str → Option ℕ
  | ' ' :: digits => field 2 2 ('0' :: digits)
  | digits => field 1 2 digits

/-- `datetime.strptime(s, "%Y-%m-%d")` -/
def strptime (s : Str) : Except Error Date :=
  match s.splitOn '-' with
  | [year, month, day] =>
      match field 4 4 year, field 1 2 month, dayField day with
      | some year, some month, some day => date year month day
      | _, _, _ => .error .valueError
  | _ => .error .valueError

theorem length_zeroPadded {width n : ℕ} (hwidth : 0 < width) (h : n < 10 ^ width) :
    (zeroPadded width n).length = width := by
  have hle := (Nat.length_toDigits_le_iff (n := n) (by decide) hwidth).mpr h
  rw [zeroPadded, List.length_leftpad]
  omega

theorem isDigit_zeroPadded {width n : ℕ} {c : Char} (hc : c ∈ zeroPadded width n) :
    c.isDigit = true := by
  rw [zeroPadded, List.leftpad, List.mem_append] at hc
  rcases hc with hc | hc
  · rw [List.eq_of_mem_replicate hc]
    rfl
  · exact Nat.isDigit_of_mem_toDigits (by decide) (by decide) hc

theorem dash_not_mem_zeroPadded (width n : ℕ) : '-' ∉ zeroPadded width n := by
  intro h
  exact absurd (isDigit_zeroPadded h) (by decide)

theorem ofDigitChars_zeroPadded (width n : ℕ) :
    Nat.ofDigitChars 10 (zeroPadded width n) 0 = n := by
  rw [zeroPadded, List.leftpad, Nat.ofDigitChars_append, Nat.ofDigitChars_replicate_zero,
    Nat.mul_zero, Nat.ofDigitChars_ten_toDigits]

theorem field_zeroPadded {least width n : ℕ} (hwidth : 0 < width) (hleast : least ≤ width)
    (h : n < 10 ^ width) : field least width (zeroPadded width n) = some n := by
  have hlength := length_zeroPadded hwidth h
  have hdigits : (zeroPadded width n).all Char.isDigit = true :=
    List.all_eq_true.mpr fun c hc => isDigit_zeroPadded hc
  rw [field, if_pos ⟨by omega, by omega, hdigits⟩, ofDigitChars_zeroPadded]

/-- A day of two digits does not begin with a blank. -/
theorem dayField_zeroPadded {n : ℕ} (h : n < 10 ^ 2) : dayField (zeroPadded 2 n) = some n := by
  rw [dayField]
  · exact field_zeroPadded (by decide) (by decide) h
  · intro digits heq
    have hblank : ' ' ∈ zeroPadded 2 n := by
      rw [heq]
      exact List.mem_cons_self
    exact absurd (isDigit_zeroPadded hblank) (by decide)

/-- What is read from the text of a date is the date. -/
theorem strptime_text (d : Date) : strptime d.text = .ok d := by
  have hyear := d.year_mem
  have hmonth := d.month_mem
  have hday := d.day_mem
  have hrange := (monthrange_mem d.year d.month).2
  have hsplit : d.text.splitOn '-' =
      [zeroPadded 4 d.year, zeroPadded 2 d.month, zeroPadded 2 d.day] := by
    rw [Date.text, List.append_assoc, List.cons_append,
      List.splitOn_append_cons_self_of_not_mem (dash_not_mem_zeroPadded _ _),
      List.splitOn_append_cons_self_of_not_mem (dash_not_mem_zeroPadded _ _),
      List.splitOn_eq_singleton (dash_not_mem_zeroPadded _ _)]
  have hfields : field 4 4 (zeroPadded 4 d.year) = some d.year ∧
      field 1 2 (zeroPadded 2 d.month) = some d.month ∧
      dayField (zeroPadded 2 d.day) = some d.day := by
    refine ⟨field_zeroPadded ?_ ?_ ?_, field_zeroPadded ?_ ?_ ?_, dayField_zeroPadded ?_⟩
    all_goals omega
  simp only [strptime, hsplit, hfields.1, hfields.2.1, hfields.2.2, date]
  rw [dif_pos ⟨hyear, hmonth, hday⟩]

theorem strftime_eq {d : Date} (h : 1900 ≤ d.year) : d.strftime = .ok d.text := by
  rw [Date.strftime, if_neg (Nat.not_lt.mpr h)]

end Structor.Python
