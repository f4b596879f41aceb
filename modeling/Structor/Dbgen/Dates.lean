import Mathlib.Tactic.IntervalCases
import Structor.Blocks
import Structor.Python.Date

/-!
# The dates of the star schema data generator

Dates are numbers `yyddd` of a year of this century's predecessor and a day in it.
`julian` gives the number of the day so many days after the start date, `mk_time` splits it
into month and day, and `mk_ascdate` is the table of all order dates.

## Main results

* `unjulian_julian`, `julian_unjulian` -- the two conversions are inverse to each other
* `mkTime_eq` -- the dates of the table follow each other through the calendar
-/
namespace Structor.Dbgen

open Structor.Blocks Structor.Python

def startDate : ℕ := 92001
def totDate : ℕ := 2557
def jdayBase : ℕ := 8035
def tStartDay : ℕ := 3

/-- `LEAP`: a year that 100 divides is never a leap year. -/
def leap (y : ℕ) : ℕ := if y % 4 = 0 ∧ y % 100 ≠ 0 then 1 else 0

/-- The loop of `julian` at the first day of year `yr`. -/
def julianLoop (yr offset : ℕ) : ℕ :=
  let result := yr * 1000 + 1
  let yend := yr * 1000 + 365 + leap yr
  if yend < result + offset then julianLoop (yr + 1) (offset - (yend - result + 1))
  else result + offset
termination_by offset
decreasing_by omega

def julian (date : ℕ) : ℕ := julianLoop (startDate / 1000) (date - startDate)

def unjulian (date : ℕ) : ℕ :=
  ∑ i ∈ Finset.Ico (startDate / 1000) (date / 1000), (365 + leap i) + (date % 1000 - 1)

/-- The days up to the end of a month, in a year that is not a leap year. -/
def monthsDcnt : List ℕ := [0, 31, 59, 90, 120, 151, 181, 212, 243, 273, 304, 334, 365]

def leapAdj (yr mnth : ℕ) : ℕ := if leap yr = 1 ∧ 2 ≤ mnth then 1 else 0

def dcnt (yr mnth : ℕ) : ℕ := monthsDcnt.getD mnth 0 + leapAdj yr mnth

structure DssTime where
  timekey : ℕ
  alpha : Str
  year : ℕ
  month : ℤ
  week : ℕ
  day : ℕ
deriving DecidableEq

/-- `while (d > months[m].dcnt + LEAP_ADJ(y, m)) m++`, up to the last month. -/
def monthLoop (y d : ℕ) : ℕ → ℕ → ℕ
  | 0, m => m
  | left + 1, m => if dcnt y m < d then monthLoop y d left (m + 1) else m

/-- `PR_DATE`. -/
def prDate (yr mn dy : ℕ) : Str := "19" ++ zeroPadded 2 yr ++ zeroPadded 2 mn ++ zeroPadded 2 dy

def mkTime (index : ℕ) : DssTime :=
  let y := julian (index + startDate - 1) / 1000
  let d := julian (index + startDate - 1) % 1000
  let m := monthLoop y d 12 0
  { timekey := index + jdayBase
    alpha := prDate y m
      (d - monthsDcnt.getD (m - 1) 0 - if leap y = 1 ∧ 2 < m then 1 else 0)
    year := 1900 + y
    month := m + 12 * y - 70 * 12
    week := (d + tStartDay - 1) / 7 + 1
    day := d - monthsDcnt.getD (m - 1) 0 - leapAdj y (m - 1) }

/-- The table of the order dates. -/
def mkAscdate : List Str := (List.range totDate).map fun i => (mkTime (i + 1)).alpha

/-! ## Numerals -/

theorem decimal_natCast (n : ℕ) : decimal n = Nat.toDigits 10 n := by
  simp [decimal, Int.repr, Nat.repr]

/-- One more digit. -/
theorem zeroPadded_succ {k b : ℕ} (hk : 0 < k) :
    zeroPadded (k + 1) b = zeroPadded k (b / 10) ++ [Nat.digitChar (b % 10)] := by
  unfold zeroPadded List.leftpad
  rcases lt_or_ge b 10 with h | h
  · rw [Nat.toDigits_of_lt_base h, Nat.div_eq_of_lt h, Nat.mod_eq_of_lt h]
    obtain ⟨j, rfl⟩ : ∃ j, k = j + 1 := ⟨k - 1, by omega⟩
    simp [List.replicate_succ']
  · rw [Nat.toDigits_of_base_le (by norm_num) h]
    simp

theorem zeroPadded_one {b : ℕ} (hb : b < 10) : zeroPadded 1 b = [Nat.digitChar b] := by
  rw [zeroPadded, Nat.toDigits_of_lt_base hb]
  rfl

/-- The numeral of a number whose last `k` digits are those of `b`. -/
theorem toDigits_append_zeroPadded {a b k : ℕ} (ha : 0 < a) (hk : 0 < k) (hb : b < 10 ^ k) :
    Nat.toDigits 10 (a * 10 ^ k + b) = Nat.toDigits 10 a ++ zeroPadded k b := by
  induction k, hk using Nat.le_induction generalizing b with
  | base =>
      have hquot : (a * 10 ^ 1 + b) / 10 = a := by omega
      have hlast : (a * 10 ^ 1 + b) % 10 = b := by omega
      rw [zeroPadded_one (by simpa using hb), Nat.toDigits_of_base_le (by norm_num) (by omega),
        hquot, hlast]
  | succ k hk ih =>
      have hlow : b / 10 < 10 ^ k := by
        rw [pow_succ] at hb
        omega
      have hpow : a * 10 ^ (k + 1) + b = 10 * (a * 10 ^ k + b / 10) + b % 10 := by
        rw [pow_succ, ← mul_assoc]
        omega
      have hpos : 0 < a * 10 ^ k := Nat.mul_pos ha (by positivity)
      have hquot : (10 * (a * 10 ^ k + b / 10) + b % 10) / 10 = a * 10 ^ k + b / 10 := by omega
      have hlast : (10 * (a * 10 ^ k + b / 10) + b % 10) % 10 = b % 10 := by omega
      rw [hpow, zeroPadded_succ (by omega), ← List.append_assoc, ← ih hlow,
        Nat.toDigits_of_base_le (by norm_num) (by omega), hquot, hlast]

/-! ## Years -/

/-- The number of days of a year. -/
def yearLength (y : ℕ) : ℕ := 365 + leap y

theorem leap_le (y : ℕ) : leap y ≤ 1 := by
  unfold leap
  split_ifs <;> omega

theorem yearLength_pos (y : ℕ) : 0 < yearLength y := by
  unfold yearLength
  omega

theorem julianLoop_eq (yr offset : ℕ) :
    julianLoop yr offset =
      (locate yearLength yr offset).1 * 1000 + (locate yearLength yr offset).2 + 1 := by
  induction offset using Nat.strong_induction_on generalizing yr with
  | _ offset ih =>
      rw [julianLoop.eq_def]
      dsimp only
      split_ifs with h
      · have hle : yearLength yr ≤ offset := by
          unfold yearLength
          omega
        have hlen : yr * 1000 + 365 + leap yr - (yr * 1000 + 1) + 1 = yearLength yr := by
          unfold yearLength
          omega
        rw [hlen, ih _ (by have := yearLength_pos yr; omega),
          ← locate_of_le yearLength_pos hle]
      · rw [locate_of_lt (by unfold yearLength; omega)]
        simp only
        omega

/-- The year and the day of the year so many days after the start date. -/
theorem julian_eq (k : ℕ) :
    julian (startDate + k) =
      (locate yearLength 92 k).1 * 1000 + (locate yearLength 92 k).2 + 1 := by
  rw [julian, Nat.add_sub_cancel_left]
  exact julianLoop_eq 92 k

theorem julian_div_mod (k : ℕ) :
    julian (startDate + k) / 1000 = (locate yearLength 92 k).1 ∧
      julian (startDate + k) % 1000 = (locate yearLength 92 k).2 + 1 := by
  have hlt : (locate yearLength 92 k).2 < 365 + leap (locate yearLength 92 k).1 :=
    locate_lt yearLength_pos 92 k
  have hle := leap_le (locate yearLength 92 k).1
  rw [julian_eq]
  omega

theorem unjulian_eq (date : ℕ) :
    unjulian date = ∑ i ∈ Finset.Ico 92 (date / 1000), yearLength i + (date % 1000 - 1) := rfl

/-- **`unjulian` undoes `julian`.** -/
theorem unjulian_julian (k : ℕ) : unjulian (julian (startDate + k)) = k := by
  obtain ⟨hdiv, hmod⟩ := julian_div_mod k
  rw [unjulian_eq, hdiv, hmod, Nat.add_sub_cancel]
  exact sum_locate yearLength_pos 92 k

/-- **`julian` undoes `unjulian`**, on the days of the years from the start date on. -/
theorem julian_unjulian {y d : ℕ} (hy : 92 ≤ y) (hd : 1 ≤ d) (hd' : d ≤ 365 + leap y) :
    julian (startDate + unjulian (y * 1000 + d)) = y * 1000 + d := by
  have hle := leap_le y
  have hdiv : (y * 1000 + d) / 1000 = y := by omega
  have hmod : (y * 1000 + d) % 1000 = d := by omega
  rw [unjulian_eq, hdiv, hmod, julian_eq,
    locate_sum yearLength_pos hy (by unfold yearLength; omega)]
  simp only
  omega

/-! ## Months -/

/-- The number of days of a month. -/
def monthLength (y m : ℕ) : ℕ :=
  if m = 2 then 28 + leap y else if m = 4 ∨ m = 6 ∨ m = 9 ∨ m = 11 then 30 else 31

theorem monthLength_pos (y m : ℕ) : 0 < monthLength y m := by
  unfold monthLength
  split_ifs <;> omega

theorem leap_eq_zero_or_one (y : ℕ) : leap y = 0 ∨ leap y = 1 := by
  have := leap_le y
  omega

theorem dcnt_eq (y : ℕ) {m : ℕ} (hm : m ≤ 12) :
    dcnt y m = ∑ i ∈ Finset.Ico 1 (m + 1), monthLength y i := by
  rcases leap_eq_zero_or_one y with h | h <;> interval_cases m <;>
    simp [dcnt, monthsDcnt, leapAdj, monthLength, Finset.sum_Ico_succ_top, h]

theorem yearLength_eq (y : ℕ) : yearLength y = ∑ i ∈ Finset.Ico 1 13, monthLength y i := by
  rw [← dcnt_eq y (le_refl 12)]
  rcases leap_eq_zero_or_one y with h | h <;>
    simp [yearLength, dcnt, monthsDcnt, leapAdj, h]

theorem dcnt_mono (y : ℕ) {m n : ℕ} (hmn : m ≤ n) (hn : n ≤ 12) : dcnt y m ≤ dcnt y n := by
  rw [dcnt_eq y (hmn.trans hn), dcnt_eq y hn]
  exact Finset.sum_le_sum_of_subset (Finset.Ico_subset_Ico_right (by omega))

theorem monthLoop_eq {y d m : ℕ} (hlt : ∀ i < m, dcnt y i < d) (hle : d ≤ dcnt y m)
    (left i : ℕ) (hi : i ≤ m) (hm : m ≤ i + left) : monthLoop y d left i = m := by
  induction left generalizing i with
  | zero =>
      obtain rfl : i = m := by omega
      rfl
  | succ left ih =>
      rw [monthLoop]
      rcases hi.eq_or_lt with rfl | h
      · rw [if_neg (not_lt.mpr hle)]
      · rw [if_pos (hlt i h), ih (i + 1) h (by omega)]

/-- Year, month and day of a day of a year. -/
def splitMonth (p : ℕ × ℕ) : ℕ × ℕ × ℕ :=
  let m := locate (monthLength p.1) 1 p.2
  (p.1, m.1, m.2 + 1)

/-- Year, month and day so many days after the start date. -/
def dayAt (k : ℕ) : ℕ × ℕ × ℕ := splitMonth (locate yearLength 92 k)

/-- The next day is in the same month, or the first of the next one. -/
def nextDay (t : ℕ × ℕ × ℕ) : ℕ × ℕ × ℕ :=
  if t.2.2 < monthLength t.1 t.2.1 then (t.1, t.2.1, t.2.2 + 1)
  else if t.2.1 < 12 then (t.1, t.2.1 + 1, 1) else (t.1 + 1, 1, 1)

theorem nextDay_of_lt {y m d : ℕ} (h : d < monthLength y m) :
    nextDay (y, m, d) = (y, m, d + 1) := if_pos h

theorem nextDay_of_last {y m d : ℕ} (h : ¬ d < monthLength y m) :
    nextDay (y, m, d) = if m < 12 then (y, m + 1, 1) else (y + 1, 1, 1) := if_neg h

theorem month_le (y : ℕ) {d : ℕ} (h : d < yearLength y) :
    (locate (monthLength y) 1 d).1 ≤ 12 := by
  rw [yearLength_eq] at h
  have := locate_fst_lt (monthLength_pos y) h
  omega

theorem dayAt_valid (k : ℕ) :
    92 ≤ (dayAt k).1 ∧ (1 ≤ (dayAt k).2.1 ∧ (dayAt k).2.1 ≤ 12) ∧
      1 ≤ (dayAt k).2.2 ∧ (dayAt k).2.2 ≤ monthLength (dayAt k).1 (dayAt k).2.1 := by
  have hyear := locate_lt yearLength_pos 92 k
  exact ⟨le_locate yearLength_pos 92 k, ⟨le_locate (monthLength_pos _) 1 _, month_le _ hyear⟩,
    Nat.succ_pos _, locate_lt (monthLength_pos _) 1 _⟩

/-- **The loop over the months finds month and day.** -/
theorem mkTime_eq (k : ℕ) :
    (mkTime (k + 1)).alpha = prDate (dayAt k).1 (dayAt k).2.1 (dayAt k).2.2 ∧
      (mkTime (k + 1)).year = 1900 + (dayAt k).1 ∧ (mkTime (k + 1)).day = (dayAt k).2.2 := by
  obtain ⟨hdiv, hmod⟩ := julian_div_mod k
  have hindex : k + 1 + startDate - 1 = startDate + k := by omega
  have hyear := locate_lt yearLength_pos 92 k
  have hmonth := month_le _ hyear
  obtain ⟨hone, hlt, hsum⟩ := locate_spec (monthLength_pos (locate yearLength 92 k).1) 1
    (locate yearLength 92 k).2
  simp only [dayAt, splitMonth, mkTime, hindex, hdiv, hmod]
  generalize locate yearLength 92 k = p at hmonth hone hlt hsum ⊢
  generalize locate (monthLength p.1) 1 p.2 = q at hmonth hone hlt hsum ⊢
  obtain ⟨m, hm⟩ : ∃ m, q.1 = m + 1 := ⟨q.1 - 1, by omega⟩
  rw [hm] at hmonth hlt hsum ⊢
  have hbefore : dcnt p.1 m = ∑ i ∈ Finset.Ico 1 (m + 1), monthLength p.1 i :=
    dcnt_eq p.1 (by omega)
  have hupto : dcnt p.1 (m + 1) = dcnt p.1 m + monthLength p.1 (m + 1) := by
    rw [dcnt_eq p.1 hmonth, Finset.sum_Ico_succ_top (by omega), hbefore]
  have hloop : monthLoop p.1 (p.2 + 1) 12 0 = m + 1 := by
    refine monthLoop_eq (fun i hi => ?_) (by omega) 12 0 (by omega) (by omega)
    have := dcnt_mono p.1 (show i ≤ m by omega) (by omega)
    omega
  have hadj : dcnt p.1 m = monthsDcnt.getD m 0 + leapAdj p.1 m := rfl
  have hadj' : leapAdj p.1 m = if leap p.1 = 1 ∧ 2 < m + 1 then 1 else 0 := by
    simp only [leapAdj, Nat.lt_succ_iff]
  have hday : p.2 + 1 - monthsDcnt.getD m 0 - leapAdj p.1 m = q.2 + 1 := by omega
  simp only [hloop, Nat.add_sub_cancel, ← hadj', hday, and_self]

/-- The year ends with the last day of its last month. -/
theorem lt_yearLength_iff {y d : ℕ} (hd : d < yearLength y) :
    d + 1 < yearLength y ↔
      (locate (monthLength y) 1 d).2 + 1 < monthLength y (locate (monthLength y) 1 d).1 ∨
        (locate (monthLength y) 1 d).1 < 12 := by
  have hmonth := month_le y hd
  obtain ⟨hone, hlt, hsum⟩ := locate_spec (monthLength_pos y) 1 d
  generalize locate (monthLength y) 1 d = q at hmonth hone hlt hsum ⊢
  have htop : yearLength y = dcnt y 12 := by rw [yearLength_eq, dcnt_eq y le_rfl]
  have hdcnt : dcnt y q.1 = ∑ i ∈ Finset.Ico 1 q.1, monthLength y i + monthLength y q.1 := by
    rw [dcnt_eq y hmonth, Finset.sum_Ico_succ_top hone]
  rcases hmonth.eq_or_lt with h | h
  · rw [h] at hdcnt hsum hlt ⊢
    omega
  · have hmore : dcnt y (q.1 + 1) ≤ dcnt y 12 := dcnt_mono y h le_rfl
    have hstep : dcnt y (q.1 + 1) = dcnt y q.1 + monthLength y (q.1 + 1) := by
      rw [dcnt_eq y h, dcnt_eq y hmonth, Finset.sum_Ico_succ_top (by omega)]
    have := monthLength_pos y (q.1 + 1)
    omega

/-- The day after a day of a year. -/
theorem nextDay_splitMonth {y d : ℕ} (hd : d < yearLength y) :
    nextDay (splitMonth (y, d)) =
      splitMonth (if d + 1 < yearLength y then (y, d + 1) else (y + 1, 0)) := by
  have hnext := locate_succ (monthLength_pos y) 1 d
  have hend := lt_yearLength_iff hd
  have hfirst : locate (monthLength (y + 1)) 1 0 = (1, 0) := locate_of_lt (monthLength_pos _ _)
  by_cases h₁ : (locate (monthLength y) 1 d).2 + 1 < monthLength y (locate (monthLength y) 1 d).1
  · rw [if_pos (hend.mpr (.inl h₁)), splitMonth, nextDay_of_lt h₁]
    simp only [splitMonth, hnext, if_pos h₁]
  by_cases h₂ : (locate (monthLength y) 1 d).1 < 12
  · rw [if_pos (hend.mpr (.inr h₂)), splitMonth, nextDay_of_last h₁, if_pos h₂]
    simp only [splitMonth, hnext, if_neg h₁]
  · rw [if_neg fun h => (hend.mp h).elim h₁ h₂, splitMonth, nextDay_of_last h₁, if_neg h₂]
    simp only [splitMonth, hfirst]

/-- **The days follow each other through the calendar.** -/
theorem dayAt_succ (k : ℕ) : dayAt (k + 1) = nextDay (dayAt k) := by
  have hyear := locate_lt yearLength_pos 92 k
  rw [dayAt, dayAt, locate_succ yearLength_pos, nextDay_splitMonth hyear]

end Structor.Dbgen
