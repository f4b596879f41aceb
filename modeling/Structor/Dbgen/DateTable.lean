import Structor.Dbgen.Dates

/-!
# The date table of the star schema

A row is made from the local time of the start of 1992 plus a number of days. The time zone
gives the seconds that are added to a time before it is split, which change where it has a
summer time.

## Main results

* `datekey_eq` -- the keys are the texts of `mk_ascdate`, in the same order
* `mkDate_next` -- a row and the one that follows it
-/
namespace Structor.Dbgen

open Structor.Blocks Structor.Python

/-! ## Local time -/

/-- The fields of `struct tm` that are read. -/
structure Tm where
  tmMday : ℕ
  tmMon : ℕ
  tmYear : ℕ
  tmWday : ℕ
  tmYday : ℕ
deriving DecidableEq

def daysOfYear (y : ℕ) : ℕ := if isLeap y then 366 else 365

/-- The time of so many days after the start of 1970, a Thursday. -/
def tmOfDay (n : ℕ) : Tm :=
  let y := locate daysOfYear 1970 n
  let m := locate (monthrange y.1) 1 y.2
  { tmMday := m.2 + 1, tmMon := m.1 - 1, tmYear := y.1 - 1900, tmWday := (n + 4) % 7,
    tmYday := y.2 }

/-- `localtime`, with the seconds that the zone is ahead at a time. -/
def localtime (zone : ℤ → ℤ) (time : ℤ) : Tm := tmOfDay ((time + zone time) / 86400).toNat

/-! ## Rows -/

structure Season where
  name : Str
  startDay : ℕ
  startMonth : ℕ
  endDay : ℕ
  endMonth : ℕ

def seasons : List Season :=
  [⟨"Christmas", 1, 11, 31, 12⟩, ⟨"Summer", 1, 5, 31, 8⟩, ⟨"Winter", 1, 1, 31, 3⟩,
    ⟨"Spring", 1, 4, 30, 4⟩, ⟨"Fall", 1, 9, 31, 10⟩]

/-- Month and day. -/
def holidays : List (ℕ × ℕ) :=
  [(12, 24), (1, 1), (2, 20), (4, 20), (5, 20), (7, 20), (8, 20), (9, 20), (10, 20), (11, 20)]

def monthNames : List Str :=
  ["January", "February", "March", "April", "May", "June", "July", "Augest", "September",
    "Octorber", "November", "December"]

def weekdayNames : List Str :=
  ["Sunday", "Monday", "Tuesday", "Wednesday", "Thursday", "Friday", "Saturday"]

def daysInAMonth : List ℕ := [31, 28, 31, 30, 31, 30, 31, 31, 30, 31, 30, 31]
def daysInAMonthL : List ℕ := [31, 29, 31, 30, 31, 30, 31, 31, 30, 31, 30, 31]

def genSeason (month day : ℕ) : Str :=
  match seasons.find? fun s => s.startMonth ≤ month && month ≤ s.endMonth && s.startDay ≤ day
      && day ≤ s.endDay with
  | some s => s.name
  | none => []

def genHolidayFl (month day : ℕ) : Str := if (month, day) ∈ holidays then "1" else "0"

def isLastDayInMonth (year month day : ℕ) : Bool :=
  day = (if leap year = 1 then daysInAMonthL else daysInAMonth).getD (month - 1) 0

structure DateT where
  datekey : ℕ
  date : Str
  dayofweek : Str
  month : Str
  year : ℕ
  yearmonthnum : ℕ
  yearmonth : Str
  daynuminweek : ℕ
  daynuminmonth : ℕ
  daynuminyear : ℕ
  monthnuminyear : ℕ
  weeknuminyear : ℕ
  sellingseason : Str
  slen : ℕ
  lastdayinweekfl : Str
  lastdayinmonthfl : Str
  holidayfl : Str
  weekdayfl : Str
deriving DecidableEq

def dStartdate : ℤ := 694245661

/-- `numDateTime` -/
def rowTime (index : ℕ) : ℤ := dStartdate + ((index : ℤ) - 1) * 60 * 60 * 24

def mkDate (zone : ℤ → ℤ) (index : ℕ) : DateT :=
  let localTime := localtime zone (rowTime index)
  let daynuminweek := (localTime.tmWday + 1) % 7 + 1
  let monthnuminyear := localTime.tmMon + 1
  let dayofweek := weekdayNames.getD (daynuminweek - 1) []
  let month := monthNames.getD (monthnuminyear - 1) []
  let year := localTime.tmYear + 1900
  let daynuminmonth := localTime.tmMday
  let daynuminyear := localTime.tmYday + 1
  let sellingseason := genSeason monthnuminyear daynuminmonth
  { datekey := year * 10000 + monthnuminyear * 100 + daynuminmonth
    date := month ++ " ".toList ++ decimal daynuminmonth ++ ", ".toList ++ decimal year
    dayofweek := dayofweek
    month := month
    year := year
    yearmonthnum := year * 100 + monthnuminyear
    yearmonth := month.take 3 ++ decimal year
    daynuminweek := daynuminweek
    daynuminmonth := daynuminmonth
    daynuminyear := daynuminyear
    monthnuminyear := monthnuminyear
    weeknuminyear := daynuminyear / 7 + 1
    sellingseason := sellingseason
    slen := sellingseason.length
    lastdayinweekfl := if daynuminweek = 7 then "1" else "0"
    -- the flag is the other way round than its name says
    lastdayinmonthfl := if isLastDayInMonth year monthnuminyear daynuminmonth then "0" else "1"
    holidayfl := genHolidayFl monthnuminyear daynuminmonth
    weekdayfl := if daynuminweek ≠ 1 ∧ daynuminweek ≠ 7 then "1" else "0" }

/-! ## The two calendars -/

theorem daysOfYear_pos (y : ℕ) : 0 < daysOfYear y := by
  unfold daysOfYear
  split_ifs <;> omega

/-- Until the end of 1999 `LEAP` is the rule of the calendar. -/
theorem isLeap_iff {y : ℕ} (hy : y < 100) (hpos : 0 < y) :
    isLeap (1900 + y) = true ↔ leap y = 1 := by
  unfold isLeap leap
  by_cases h : y % 4 = 0
  · have h₁ : (1900 + y) % 4 = 0 := by omega
    have h₂ : (1900 + y) % 100 ≠ 0 := by omega
    have h₃ : y % 100 ≠ 0 := by omega
    simp [h, h₁, h₂, h₃]
  · have h₁ : ¬ (1900 + y) % 4 = 0 := by omega
    simp [h, h₁]

theorem daysOfYear_eq {y : ℕ} (hy : y < 100) (hpos : 0 < y) :
    daysOfYear (1900 + y) = yearLength y := by
  have hleap := isLeap_iff hy hpos
  have hle := leap_le y
  unfold daysOfYear yearLength
  split_ifs with h
  · have := hleap.mp h
    omega
  · have : ¬ leap y = 1 := fun h' => h (hleap.mpr h')
    omega

theorem monthrange_eq {y : ℕ} (hy : y < 100) (hpos : 0 < y) (m : ℕ) :
    monthrange (1900 + y) m = monthLength y m := by
  have hleap := isLeap_iff hy hpos
  have hle := leap_le y
  unfold monthrange monthLength
  split_ifs with h₁ h₂ h₃ <;> first | rfl | skip
  · have := hleap.mp h₂
    omega
  · have : ¬ leap y = 1 := fun h' => h₂ (hleap.mpr h')
    omega

/-- The days from the start of 1970 to the start of 1992, and from there to 2000. -/
theorem sum_daysOfYear : ∑ i ∈ Finset.Ico 1970 1992, daysOfYear i = 8035 := by decide

theorem sum_yearLength : ∑ i ∈ Finset.Ico 92 100, yearLength i = 2922 := by decide

theorem year_lt {k : ℕ} (hk : k < 2922) : (locate yearLength 92 k).1 < 100 := by
  rw [← sum_yearLength] at hk
  exact locate_fst_lt yearLength_pos hk

/-- The year of a day, and the day in it. -/
theorem locate_daysOfYear {k : ℕ} (hk : k < 2922) :
    locate daysOfYear 1970 (8035 + k) =
      ((locate yearLength 92 k).1 + 1900, (locate yearLength 92 k).2) := by
  have hshift := locate_shift daysOfYear_pos 1900 92 k
  have hcongr : locate (fun i => daysOfYear (i + 1900)) 92 k = locate yearLength 92 k := by
    refine locate_congr yearLength_pos (fun i => daysOfYear_pos _) fun i hi hi' => ?_
    rw [add_comm i, daysOfYear_eq (by have := year_lt hk; omega) (by omega)]
  rw [← sum_daysOfYear, locate_sum_add daysOfYear_pos (by norm_num), ← hcongr]
  exact hshift

/-- What is read of the local time of the days until the end of 1999. -/
theorem tmOfDay_eq {k : ℕ} (hk : k < 2922) :
    tmOfDay (8035 + k) =
      { tmMday := (dayAt k).2.2, tmMon := (dayAt k).2.1 - 1, tmYear := (dayAt k).1,
        tmWday := (8035 + k + 4) % 7, tmYday := (locate yearLength 92 k).2 } := by
  have hy := year_lt hk
  have hy' := le_locate yearLength_pos 92 k
  have hmonth : monthrange ((locate yearLength 92 k).1 + 1900) =
      monthLength (locate yearLength 92 k).1 := by
    funext m
    rw [add_comm, monthrange_eq hy (by omega)]
  simp only [tmOfDay, locate_daysOfYear hk, hmonth, dayAt, splitMonth, Nat.add_sub_cancel]

def numDays : ℕ := 2556

/-- The zones in which the rows begin with the first day of 1992. -/
def FromFirst (zone : ℤ → ℤ) : Prop :=
  ∀ n, 1 ≤ n → n ≤ numDays → -21661 ≤ zone (rowTime n) ∧ zone (rowTime n) < 64739

/-- The zones in which they begin with the last day of 1991. -/
def FromEve (zone : ℤ → ℤ) : Prop :=
  ∀ n, 1 ≤ n → n ≤ numDays → -108061 ≤ zone (rowTime n) ∧ zone (rowTime n) < -21661

theorem FromFirst.const {offset : ℤ} (hlow : -21661 ≤ offset) (hhigh : offset < 64739) :
    FromFirst fun _ => offset := fun _ _ _ => ⟨hlow, hhigh⟩

theorem rowTime_succ (k : ℕ) : rowTime (k + 1) = 694245661 + 86400 * k := by
  rw [rowTime, dStartdate]
  push_cast
  omega

theorem FromFirst.localtime_eq {zone : ℤ → ℤ} (h : FromFirst zone) {k : ℕ} (hk : k < numDays) :
    localtime zone (rowTime (k + 1)) = tmOfDay (8035 + k) := by
  obtain ⟨hlow, hhigh⟩ := h (k + 1) (by omega) hk
  rw [localtime]
  have htime := rowTime_succ k
  congr 1
  omega

theorem FromEve.localtime_eq {zone : ℤ → ℤ} (h : FromEve zone) {k : ℕ} (hk : k + 1 < numDays) :
    localtime zone (rowTime (k + 2)) = tmOfDay (8035 + k) := by
  obtain ⟨hlow, hhigh⟩ := h (k + 2) (by omega) hk
  rw [localtime]
  have htime : rowTime (k + 2) = _ := rowTime_succ (k + 1)
  push_cast at htime
  congr 1
  omega

/-! ## Keys and texts -/

/-- The key of a day is its text, read as a number. -/
theorem decimal_datekey {y m d : ℕ} (hy : y < 100) (hm : m < 100) (hd : d < 100) :
    decimal (((1900 + y) * 10000 + m * 100 + d : ℕ) : ℤ) = prDate y m d := by
  have hsplit : (1900 + y) * 10000 + m * 100 + d =
      ((19 * 10 ^ 2 + y) * 10 ^ 2 + m) * 10 ^ 2 + d := by
    omega
  have hcentury : Nat.toDigits 10 19 = "19".toList := by decide
  rw [decimal_natCast, hsplit, toDigits_append_zeroPadded (by omega) two_pos hd,
    toDigits_append_zeroPadded (by omega) two_pos hm,
    toDigits_append_zeroPadded (by norm_num) two_pos hy, hcentury]
  rfl

/-- The fields of a day of the table. -/
theorem mkDate_of_localtime {zone : ℤ → ℤ} {k n : ℕ} (hk : k < 2922)
    (hlocal : localtime zone (rowTime n) = tmOfDay (8035 + k)) :
    decimal (mkDate zone n).datekey = prDate (dayAt k).1 (dayAt k).2.1 (dayAt k).2.2 := by
  obtain ⟨hy, ⟨hm₁, hm₂⟩, hd₁, hd₂⟩ := dayAt_valid k
  have hlen : monthLength (dayAt k).1 (dayAt k).2.1 ≤ 31 := by
    have := leap_le (dayAt k).1
    unfold monthLength
    split_ifs <;> omega
  have hy' : (dayAt k).1 < 100 := year_lt hk
  simp only [mkDate, hlocal, tmOfDay_eq hk]
  rw [Nat.sub_add_cancel hm₁, add_comm (dayAt k).1 1900]
  exact decimal_datekey hy' (by omega) (by omega)

theorem getElem?_mkAscdate {k : ℕ} (hk : k < totDate) :
    mkAscdate[k]? = some (prDate (dayAt k).1 (dayAt k).2.1 (dayAt k).2.2) := by
  rw [mkAscdate, List.getElem?_map, List.getElem?_range hk, Option.map_some, (mkTime_eq k).1]

/-- **The keys of the date table are the texts of the order dates**, in the same order. -/
theorem datekey_eq {zone : ℤ → ℤ} (hzone : FromFirst zone) {k : ℕ} (hk : k < numDays) :
    mkAscdate[k]? = some (decimal (mkDate zone (k + 1)).datekey) := by
  have hlocal := hzone.localtime_eq hk
  unfold numDays at hk
  rw [getElem?_mkAscdate (by unfold totDate; omega), mkDate_of_localtime (by omega) hlocal]

theorem datekey_eq_leapDay :
    mkAscdate[59]? = some (decimal (mkDate (fun _ => 0) (59 + 1)).datekey) :=
  datekey_eq (.const (by decide) (by decide)) (by decide)

/-- Where the rows begin with one of the two days, each order date up to the last but some is a
key of the table. -/
theorem exists_datekey {zone : ℤ → ℤ} (hzone : FromFirst zone ∨ FromEve zone) {k : ℕ}
    (hk : k + 1 < numDays) {text : Str} (htext : mkAscdate[k]? = some text) :
    ∃ n, 1 ≤ n ∧ n ≤ numDays ∧ decimal (mkDate zone n).datekey = text := by
  have hlast : k + 1 < 2556 := hk
  rw [getElem?_mkAscdate (by unfold totDate; omega), Option.some_inj] at htext
  rw [← htext]
  rcases hzone with hzone | hzone
  · exact ⟨k + 1, by omega, by omega,
      mkDate_of_localtime (by omega) (hzone.localtime_eq (by omega))⟩
  · exact ⟨k + 2, by omega, hk, mkDate_of_localtime (by omega) (hzone.localtime_eq hk)⟩

/-! ## Rows that follow each other -/

theorem isLastDayInMonth_iff {y m d : ℕ} (hy : 0 < y) (hy' : y < 100) (hm : 1 ≤ m) (hm' : m ≤ 12) :
    isLastDayInMonth (1900 + y) m d = true ↔ d = monthLength y m := by
  have hleap : leap (1900 + y) = leap y := by
    unfold leap
    congr 1
    simp only [eq_iff_iff]
    omega
  rw [isLastDayInMonth, decide_eq_true_iff, hleap]
  rcases leap_eq_zero_or_one y with h | h <;> interval_cases m <;>
    simp [daysInAMonth, daysInAMonthL, monthLength, h]

/-- Each day of the calendar is in a season. -/
theorem genSeason_ne_nil {y m d : ℕ} (hm : 1 ≤ m ∧ m ≤ 12) (hd : 1 ≤ d ∧ d ≤ monthLength y m) :
    genSeason m d ≠ [] := by
  obtain ⟨hm₁, hm₂⟩ := hm
  obtain ⟨hd₁, hd₂⟩ := hd
  have hle := leap_le y
  have h31 : d ≤ 31 := by
    unfold monthLength at hd₂
    split_ifs at hd₂ <;> omega
  have h30 : m = 4 → d ≤ 30 := by
    rintro rfl
    simpa [monthLength] using hd₂
  interval_cases m <;> simp_all [genSeason, seasons]

/-- **A row and the next one.** The days follow each other; the name of the weekday is that of
the next day, and the flag of the last day of a month is `0` there and `1` elsewhere. -/
theorem mkDate_next {zone : ℤ → ℤ} (hzone : FromFirst zone) {k : ℕ} (hk : k + 1 < numDays) :
    let row := mkDate zone (k + 1)
    let next := mkDate zone (k + 2)
    (next.year - 1900, next.monthnuminyear, next.daynuminmonth) =
        nextDay (row.year - 1900, row.monthnuminyear, row.daynuminmonth) ∧
      row.dayofweek = weekdayNames.getD (localtime zone (rowTime (k + 2))).tmWday [] ∧
      (row.lastdayinmonthfl = "0" ↔ next.daynuminmonth = 1) ∧ row.sellingseason ≠ [] := by
  have hrow := hzone.localtime_eq (k := k) (by omega)
  have hnext := hzone.localtime_eq hk
  unfold numDays at hk
  obtain ⟨hy, hm, hd⟩ := dayAt_valid k
  have hy' : (dayAt k).1 < 100 := year_lt (by omega)
  have hsucc := dayAt_succ k
  have hnextMonth := (dayAt_valid (k + 1)).2.1.1
  rw [tmOfDay_eq (by omega)] at hrow hnext
  have hone : (dayAt (k + 1)).2.2 = 1 ↔
      (dayAt k).2.2 = monthLength (dayAt k).1 (dayAt k).2.1 := by
    rw [hsucc]
    unfold nextDay
    split_ifs <;> simp <;> omega
  have hlast := isLastDayInMonth_iff (d := (dayAt k).2.2) (by omega) hy' hm.1 hm.2
  refine ⟨?_, ?_, ?_, ?_⟩
  · simp only [mkDate, hrow, hnext, Nat.add_sub_cancel, Nat.sub_add_cancel hm.1,
      Nat.sub_add_cancel hnextMonth]
    exact hsucc
  · simp only [mkDate, hrow, hnext]
    congr 1
    omega
  · simp only [mkDate, hrow, hnext, Nat.sub_add_cancel hm.1, add_comm (dayAt k).1 1900, hone,
      ← hlast]
    split_ifs with h <;> simp [h]
  · simp only [mkDate, hrow, Nat.sub_add_cancel hm.1]
    exact genSeason_ne_nil hm hd

theorem mkDate_next_leapDay :
    (mkDate (fun _ => 0) (59 + 1)).lastdayinmonthfl = "0" ↔
      (mkDate (fun _ => 0) (59 + 2)).daynuminmonth = 1 :=
  (mkDate_next (.const (by decide) (by decide)) (by decide)).2.2.1

end Structor.Dbgen
