import Structor.Dbgen.FlatTable

/-!
# The queries of the star schema

The queries on Hive and on Druid, each as the rows that its sum runs over. The sums themselves
are in floating point. On Druid all columns but three are texts.

## Main results

* `Star.queries` -- the queries of the flights 2 to 4 sum up the same on Hive and on Druid
* `druidCond_eq_iff` -- the lines that the first flight on Druid misreads
* `genTable_queries`, `genTable_queries1` -- so it is for the tables of the job
-/
namespace Structor.Dbgen

open Structor.Blocks Structor.Python

/-! ## The queries -/

/-- The queries of the flights 2 to 4. -/
inductive Query
  | q2_1 | q2_2 | q2_3 | q3_1 | q3_2 | q3_3 | q3_4 | q4_1 | q4_2 | q4_3

/-- What a select sums up: the columns of `group by` and the value, of the rows that are left. -/
def summands {R : Type} (rows : List R) (cond : R → Bool) (groupBy : R → List Str)
    (value : R → ℤ) : List (List Str × ℤ) :=
  (rows.filter cond).map fun r => (groupBy r, value r)

/-- `s <= t` of texts. -/
def textLe : Str → Str → Bool
  | [], _ => true
  | _ :: _, [] => false
  | a :: s, b :: t => a < b || (a == b && textLe s t)

/-- `queries`, on the tables. -/
def hiveQuery (T : Tables) : Query → List (List Str × ℤ)
  | .q2_1 => summands (flight2 T)
      (fun (_, _, p, s) => p.category == "MFGR#12".toList && s.regionName == "AMERICA".toList)
      (fun (_, d, p, _) => [decimal d.year, p.brand]) fun (l, _, _, _) => l.revenue
  | .q2_2 => summands (flight2 T)
      (fun (_, _, p, s) => textLe "MFGR#2221".toList p.brand &&
        textLe p.brand "MFGR#2228".toList && s.regionName == "ASIA".toList)
      (fun (_, d, p, _) => [decimal d.year, p.brand]) fun (l, _, _, _) => l.revenue
  | .q2_3 => summands (flight2 T)
      (fun (_, _, p, s) => p.brand == "MFGR#2239".toList && s.regionName == "EUROPE".toList)
      (fun (_, d, p, _) => [decimal d.year, p.brand]) fun (l, _, _, _) => l.revenue
  | .q3_1 => summands (flight3 T)
      (fun (c, _, s, d) => c.regionName == "ASIA".toList && s.regionName == "ASIA".toList &&
        (1992 ≤ d.year && d.year ≤ 1997))
      (fun (c, _, s, d) => [c.nationName, s.nationName, decimal d.year])
      fun (_, l, _, _) => l.revenue
  | .q3_2 => summands (flight3 T)
      (fun (c, _, s, d) => c.nationName == "UNITED STATES".toList &&
        s.nationName == "UNITED STATES".toList && (1992 ≤ d.year && d.year ≤ 1997))
      (fun (c, _, s, d) => [c.city, s.city, decimal d.year]) fun (_, l, _, _) => l.revenue
  | .q3_3 => summands (flight3 T)
      (fun (c, _, s, d) => (c.city == "UNITED KI1".toList || c.city == "UNITED KI5".toList) &&
        (s.city == "UNITED KI1".toList || s.city == "UNITED KI5".toList) &&
        (1992 ≤ d.year && d.year ≤ 1997))
      (fun (c, _, s, d) => [c.city, s.city, decimal d.year]) fun (_, l, _, _) => l.revenue
  | .q3_4 => summands (flight3 T)
      (fun (c, _, s, d) => (c.city == "UNITED KI1".toList || c.city == "UNITED KI5".toList) &&
        (s.city == "UNITED KI1".toList || s.city == "UNITED KI5".toList) &&
        d.yearmonth == "Dec1997".toList)
      (fun (c, _, s, d) => [c.city, s.city, decimal d.year]) fun (_, l, _, _) => l.revenue
  | .q4_1 => summands (flatJoin T)
      (fun r => r.customer.regionName == "AMERICA".toList &&
        r.supplier.regionName == "AMERICA".toList &&
        (r.part.mfgr == "MFGR#1".toList || r.part.mfgr == "MFGR#2".toList))
      (fun r => [decimal r.date.year, r.customer.nationName])
      fun r => r.lineorder.revenue - r.lineorder.suppCost
  | .q4_2 => summands (flatJoin T)
      (fun r => r.customer.regionName == "AMERICA".toList &&
        r.supplier.regionName == "AMERICA".toList && (r.date.year == 1997 || r.date.year == 1998) &&
        (r.part.mfgr == "MFGR#1".toList || r.part.mfgr == "MFGR#2".toList))
      (fun r => [decimal r.date.year, r.supplier.nationName, r.part.category])
      fun r => r.lineorder.revenue - r.lineorder.suppCost
  | .q4_3 => summands (flatJoin T)
      (fun r => r.customer.regionName == "AMERICA".toList &&
        r.supplier.nationName == "UNITED STATES".toList &&
        (r.date.year == 1997 || r.date.year == 1998) && r.part.category == "MFGR#14".toList)
      (fun r => [decimal r.date.year, r.supplier.city, r.part.brand])
      fun r => r.lineorder.revenue - r.lineorder.suppCost

/-- `queries.druid`, on the flat table. -/
def druidQuery (rows : List DruidRow) : Query → List (List Str × ℤ)
  | .q2_1 => summands rows
      (fun r => r.pCategory == "MFGR#12".toList && r.sRegion == "AMERICA".toList)
      (fun r => [r.dYear, r.pBrand1]) DruidRow.loRevenue
  | .q2_2 => summands rows
      (fun r => textLe "MFGR#2221".toList r.pBrand1 && textLe r.pBrand1 "MFGR#2228".toList &&
        r.sRegion == "ASIA".toList)
      (fun r => [r.dYear, r.pBrand1]) DruidRow.loRevenue
  | .q2_3 => summands rows
      (fun r => r.pBrand1 == "MFGR#2239".toList && r.sRegion == "EUROPE".toList)
      (fun r => [r.dYear, r.pBrand1]) DruidRow.loRevenue
  | .q3_1 => summands rows
      (fun r => r.cRegion == "ASIA".toList && r.sRegion == "ASIA".toList &&
        (textLe "1992".toList r.dYear && textLe r.dYear "1997".toList))
      (fun r => [r.cNation, r.sNation, r.dYear]) DruidRow.loRevenue
  | .q3_2 => summands rows
      (fun r => r.cNation == "UNITED STATES".toList && r.sNation == "UNITED STATES".toList &&
        (textLe "1992".toList r.dYear && textLe r.dYear "1997".toList))
      (fun r => [r.cCity, r.sCity, r.dYear]) DruidRow.loRevenue
  | .q3_3 => summands rows
      (fun r => (r.cCity == "UNITED KI1".toList || r.cCity == "UNITED KI5".toList) &&
        (r.sCity == "UNITED KI1".toList || r.sCity == "UNITED KI5".toList) &&
        (textLe "1992".toList r.dYear && textLe r.dYear "1997".toList))
      (fun r => [r.cCity, r.sCity, r.dYear]) DruidRow.loRevenue
  | .q3_4 => summands rows
      (fun r => (r.cCity == "UNITED KI1".toList || r.cCity == "UNITED KI5".toList) &&
        (r.sCity == "UNITED KI1".toList || r.sCity == "UNITED KI5".toList) &&
        r.dYearmonth == "Dec1997".toList)
      (fun r => [r.cCity, r.sCity, r.dYear]) DruidRow.loRevenue
  | .q4_1 => summands rows
      (fun r => r.cRegion == "AMERICA".toList && r.sRegion == "AMERICA".toList &&
        (r.pMfgr == "MFGR#1".toList || r.pMfgr == "MFGR#2".toList))
      (fun r => [r.dYear, r.cNation]) DruidRow.netRevenue
  | .q4_2 => summands rows
      (fun r => r.cRegion == "AMERICA".toList && r.sRegion == "AMERICA".toList &&
        (r.dYear == "1997".toList || r.dYear == "1998".toList) &&
        (r.pMfgr == "MFGR#1".toList || r.pMfgr == "MFGR#2".toList))
      (fun r => [r.dYear, r.sNation, r.pCategory]) DruidRow.netRevenue
  | .q4_3 => summands rows
      (fun r => r.cRegion == "AMERICA".toList && r.sNation == "UNITED STATES".toList &&
        (r.dYear == "1997".toList || r.dYear == "1998".toList) &&
        r.pCategory == "MFGR#14".toList)
      (fun r => [r.dYear, r.sCity, r.pBrand1]) DruidRow.netRevenue

/-- The years of the date table. -/
def tableYears : Finset ℕ := Finset.Icc 1992 1999

/-- Of the years of the table the texts compare as the numbers. -/
theorem between_year_text : ∀ y ∈ tableYears,
    (textLe "1992".toList (decimal y) && textLe (decimal y) "1997".toList) =
      (decide (1992 ≤ y) && decide (y ≤ 1997)) := by
  decide

theorem eq_year_text : ∀ y ∈ tableYears, ((decimal y == "1997".toList) = (y == 1997)) ∧
    (decimal y == "1998".toList) = (y == 1998) := by
  decide

theorem summands_map {R S : Type} (f : R → S) (rows : List R) (cond : S → Bool)
    (groupBy : S → List Str) (value : S → ℤ) :
    summands (rows.map f) cond groupBy value =
      summands rows (cond ∘ f) (groupBy ∘ f) (value ∘ f) := by
  rw [summands, List.filter_map, List.map_map]
  rfl

theorem summands_congr {R : Type} {rows : List R} {cond cond' : R → Bool}
    (h : ∀ r ∈ rows, cond r = cond' r) (groupBy : R → List Str) (value : R → ℤ) :
    summands rows cond groupBy value = summands rows cond' groupBy value := by
  rw [summands, summands, List.filter_congr h]

theorem mem_of_mem_flatJoin {T : Tables} {r : FlatRow} (hr : r ∈ flatJoin T) :
    r.date ∈ T.dates ∧ r.lineorder ∈ T.lineorder := by
  simp only [flatJoin, List.mem_flatMap, List.mem_map] at hr
  obtain ⟨l, hl, c, _, d, hd, p, _, s, _, rfl⟩ := hr
  exact ⟨(List.mem_filter.mp hd).1, hl⟩

/-- **The queries sum up the same on both sides** if each line has its row in the other tables
and the years are in the range where their texts compare as the numbers. -/
theorem Star.queries {T : Tables} (h : Star T) (hyears : ∀ d ∈ T.dates, d.year ∈ tableYears)
    (q : Query) : hiveQuery T q = druidQuery (ssbDruid T) q := by
  have hyear : ∀ r ∈ flatJoin T, r.date.year ∈ tableYears := fun r hr =>
    hyears r.date (mem_of_mem_flatJoin hr).1
  have hbetween := fun r hr => between_year_text _ (hyear r hr)
  have heq := fun r hr => eq_year_text _ (hyear r hr)
  cases q <;> simp only [hiveQuery, druidQuery, ssbDruid, h.flight2_eq, h.flight3_eq, summands_map]
  case q3_1 | q3_2 | q3_3 =>
    refine summands_congr (fun r hr => ?_) _ _
    simp only [Function.comp_apply, FlatRow.select, hbetween r hr]
  case q4_2 | q4_3 =>
    refine summands_congr (fun r hr => ?_) _ _
    simp only [Function.comp_apply, FlatRow.select, (heq r hr).1, (heq r hr).2]
  all_goals rfl

/-! ## The first flight -/

inductive Query1
  | q1_1 | q1_2 | q1_3

/-- The conditions on the date. -/
def dateCond : Query1 → DateT → Bool
  | .q1_1, d => d.year == 1993
  | .q1_2, d => d.yearmonthnum == 199401
  | .q1_3, d => d.weeknuminyear == 6 && d.year == 1994

/-- The conditions of `queries`. -/
def hiveCond : Query1 → Lineorder × DateT → Bool
  | .q1_1, (l, d) => dateCond .q1_1 d && (1 ≤ l.discount && l.discount ≤ 3) && l.quantity < 25
  | .q1_2, (l, d) => dateCond .q1_2 d && (4 ≤ l.discount && l.discount ≤ 6) &&
      (26 ≤ l.quantity && l.quantity ≤ 35)
  | .q1_3, (l, d) => dateCond .q1_3 d && (5 ≤ l.discount && l.discount ≤ 7) &&
      (26 ≤ l.quantity && l.quantity ≤ 35)

def between (low high s : Str) : Bool := textLe low s && textLe s high

/-- The conditions of `queries.druid`. -/
def druidCond : Query1 → DruidRow → Bool
  | .q1_1, r => r.dYear == "1993".toList && between "1.0".toList "3.0".toList r.loDiscount &&
      !textLe "25.0".toList r.loQuantity
  | .q1_2, r => r.dYearmonthnum == "199401".toList &&
      between "4.0".toList "6.0".toList r.loDiscount &&
      between "26.0".toList "35.0".toList r.loQuantity
  | .q1_3, r => (r.dWeeknuminyear == "6".toList && r.dYear == "1994".toList) &&
      between "5.0".toList "7.0".toList r.loDiscount &&
      between "26.0".toList "35.0".toList r.loQuantity

def hiveQuery1 (T : Tables) (q : Query1) : List (List Str × ℤ) :=
  summands (flight1 T) (hiveCond q) (fun _ => []) fun (l, _) => l.extendedPrice * l.discount

def druidQuery1 (rows : List DruidRow) (q : Query1) : List (List Str × ℤ) :=
  summands rows (druidCond q) (fun _ => []) DruidRow.discountedPrice

/-- The lines whose numbers are in order otherwise than their texts. -/
def Misread : Query1 → Lineorder → Prop
  | .q1_1, l => (1 ≤ l.discount ∧ l.discount ≤ 3 ∧ 3 ≤ l.quantity ∧ l.quantity ≤ 9) ∨
      (l.discount = 10 ∧ (l.quantity ≤ 2 ∨ 10 ≤ l.quantity ∧ l.quantity ≤ 24))
  | .q1_2, l => 4 ≤ l.discount ∧ l.discount ≤ 6 ∧ l.quantity = 3
  | .q1_3, l => 5 ≤ l.discount ∧ l.discount ≤ 7 ∧ l.quantity = 3

/-- The ranges of the quantity and the discount of a line. -/
structure Measured (l : Lineorder) : Prop where
  quantity : 1 ≤ l.quantity ∧ l.quantity ≤ 50
  discount : 0 ≤ l.discount ∧ l.discount ≤ 10

theorem quantity_text : ∀ n ∈ Finset.Icc 1 50,
    textLe "25.0".toList (doubleText (n : ℕ)) = decide (3 ≤ n ∧ (n ≤ 9 ∨ 25 ≤ n)) ∧
      between "26.0".toList "35.0".toList (doubleText (n : ℕ)) =
        decide (n = 3 ∨ 26 ≤ n ∧ n ≤ 35) := by
  decide

theorem discount_text : ∀ n ∈ Finset.Icc 0 10,
    between "1.0".toList "3.0".toList (doubleText (n : ℕ)) = decide (1 ≤ n ∧ n ≤ 3 ∨ n = 10) ∧
      between "4.0".toList "6.0".toList (doubleText (n : ℕ)) = decide (4 ≤ n ∧ n ≤ 6) ∧
      between "5.0".toList "7.0".toList (doubleText (n : ℕ)) = decide (5 ≤ n ∧ n ≤ 7) := by
  decide

theorem beq_decimal (m n : ℕ) : (decimal m == decimal n) = (m == n) := by
  rw [Bool.eq_iff_iff, beq_iff_eq, beq_iff_eq]
  exact ⟨fun h => Int.ofNat_inj.mp (decimal_injective h), fun h => h ▸ rfl⟩

theorem dateCond_text (d : DateT) :
    (decimal d.year == "1993".toList) = dateCond .q1_1 d ∧
      (decimal d.yearmonthnum == "199401".toList) = dateCond .q1_2 d ∧
      (decimal d.weeknuminyear == "6".toList && decimal d.year == "1994".toList) =
        dateCond .q1_3 d := by
  have hyear : "1993".toList = decimal (1993 : ℕ) := by decide
  have hmonth : "199401".toList = decimal (199401 : ℕ) := by decide
  have hweek : "6".toList = decimal (6 : ℕ) := by decide
  have hnext : "1994".toList = decimal (1994 : ℕ) := by decide
  rw [hyear, hmonth, hweek, hnext]
  simp only [beq_decimal, dateCond, and_self]

/-- **What the texts change in the first flight.** The conditions on both sides are the same but
for the lines of the dates whose numbers are misread. -/
theorem druidCond_eq_iff {r : FlatRow} (h : Measured r.lineorder) (q : Query1) :
    druidCond q r.select = hiveCond q (r.lineorder, r.date) ↔
      ¬ (dateCond q r.date = true ∧ Misread q r.lineorder) := by
  obtain ⟨⟨hq, hq'⟩, hd, hd'⟩ := h
  obtain ⟨n, hn⟩ := Int.eq_ofNat_of_zero_le (by omega : 0 ≤ r.lineorder.quantity)
  obtain ⟨m, hm⟩ := Int.eq_ofNat_of_zero_le hd
  obtain ⟨hlow, hrange⟩ := quantity_text n (Finset.mem_Icc.mpr (by omega))
  obtain ⟨h₁, h₂, h₃⟩ := discount_text m (Finset.mem_Icc.mpr (by omega))
  obtain ⟨hdate₁, hdate₂, hdate₃⟩ := dateCond_text r.date
  cases q with
  | q1_1 =>
      simp only [druidCond, FlatRow.select, hiveCond, Misread, hdate₁, hn, hm, hlow, h₁]
      cases dateCond .q1_1 r.date
      · simp
      · rw [Bool.eq_iff_iff]
        simp only [Bool.and_eq_true, Bool.not_eq_true', decide_eq_true_eq, decide_eq_false_iff_not,
          true_and]
        omega
  | q1_2 =>
      simp only [druidCond, FlatRow.select, hiveCond, Misread, hdate₂, hn, hm, hrange, h₂]
      cases dateCond .q1_2 r.date
      · simp
      · rw [Bool.eq_iff_iff]
        simp only [Bool.and_eq_true, decide_eq_true_eq, true_and]
        omega
  | q1_3 =>
      simp only [druidCond, FlatRow.select, hiveCond, Misread, hdate₃, hn, hm, hrange, h₃]
      cases dateCond .q1_3 r.date
      · simp
      · rw [Bool.eq_iff_iff]
        simp only [Bool.and_eq_true, decide_eq_true_eq, true_and]
        omega

/-- Without misread lines the first flight sums up the same, too. -/
theorem Star.queries1 {T : Tables} (h : Star T) {q : Query1}
    (heq : ∀ r ∈ flatJoin T, druidCond q r.select = hiveCond q (r.lineorder, r.date)) :
    hiveQuery1 T q = druidQuery1 (ssbDruid T) q := by
  rw [hiveQuery1, druidQuery1, ssbDruid, h.flight1_eq, summands_map, summands_map]
  exact summands_congr (fun r hr => (heq r hr).symm) _ _

/-! ## The queries on the tables of the job -/

/-- The years of the rows of the date table. -/
theorem year_mkDate {zone : ℤ → ℤ} (hzone : FromFirst zone) {k : ℕ} (hk : k < numDays) :
    (mkDate zone (k + 1)).year ∈ tableYears := by
  have hlocal := hzone.localtime_eq hk
  unfold numDays at hk
  rw [tmOfDay_eq (by omega)] at hlocal
  have hy : 92 ≤ (dayAt k).1 := le_locate yearLength_pos 92 k
  have hy' : (dayAt k).1 < 100 := year_lt (by omega)
  simp only [mkDate, hlocal, tableYears, Finset.mem_Icc]
  omega

theorem year_of_mem_output {e : Env} (hscale : 1 < e.scale) (hzone : FromFirst e.zone)
    {d : DateT}
    (hd : d ∈ (tablesOf (outputOf ((List.range e.scale).flatMap (shareOutput e e.scale)))).dates) :
    d.year ∈ tableYears := by
  obtain ⟨row, hrow, hd⟩ := List.mem_filterMap.mp hd
  rw [outputOf_date e (by omega), shareRows, stepRange_dates hscale] at hrow
  obtain ⟨i, hi, τ, rfl⟩ := of_mem_mapM hrow
  obtain ⟨hpos, hle⟩ := List.mem_range'_1.mp hi
  obtain ⟨k, rfl⟩ := Nat.exists_eq_add_of_le' hpos
  obtain rfl : mkDate e.zone (k + 1) = d := Option.some.inj hd
  exact year_mkDate hzone (by omega)

theorem measured_mkLine (e : Env) (o : Order) (tmpDate : ℤ) (lcnt : ℕ) :
    Returns (fun l => Measured l.1) (mkLine e o tmpDate lcnt) := by
  refine Returns.bind_any fun partkey => Returns.bind_any fun suppkey => ?_
  refine ((metered_dssRandom 1 50 lQtySd).returns fun _ _ h => h.2 (by norm_num) (by norm_num)).bind
    fun quantity hquantity => ?_
  refine ((metered_dssRandom 0 10 lDcntSd).returns fun _ _ h => h.2 (by norm_num)
    (by norm_num)).bind fun discount hdiscount => ?_
  refine Returns.bind_any fun tax => Returns.bind_any fun cDate => Returns.bind_any fun mode => ?_
  exact Returns.pure ⟨hquantity, hdiscount⟩

theorem measured_mkOrder (e : Env) (index updNum : ℕ) :
    Returns (fun o => ∀ l ∈ o.lineorders, Measured l) (mkOrder e index updNum) := by
  refine Returns.bind_any fun tmpDate => Returns.bind_any fun custkey => ?_
  refine Returns.bind_any fun priority => Returns.bind_any fun clerk => ?_
  refine Returns.bind_any fun lines => ?_
  refine (Returns.mapM fun i _ => measured_mkLine e _ tmpDate i).bind fun drawn hdrawn =>
    Returns.pure fun l hl => ?_
  obtain ⟨l', hl', rfl⟩ := List.mem_map.mp hl
  exact ⟨(hdrawn l' hl').quantity, (hdrawn l' hl').discount⟩

theorem measured_output {e : Env} {procs : ℕ} {l : Lineorder}
    (hl : l ∈ (tablesOf (outputOf ((List.range procs).flatMap (shareOutput e procs)))).lineorder) :
    Measured l := by
  obtain ⟨o, ho, hl⟩ := exists_order_of_mem hl
  rw [outputOf_flatMap] at ho
  obtain ⟨k, _, ho⟩ := List.mem_flatMap.mp ho
  obtain ⟨i, _, τ, hrow⟩ := of_mem_mapM (show Row.line o ∈ shareRows e .line procs 0 k from ho)
  have hsame : Row.line o = Row.line (mkOrder e i (0 % 10000) (rowStart τ)).1 := hrow
  obtain rfl := Row.line.inj hsame
  exact measured_mkOrder e i (0 % 10000) (rowStart τ) l hl

/-- **Druid and Hive sum up the same** in the queries of the flights 2 to 4, on the tables of the
job. -/
theorem genTable_queries {e : Env} (he : e.Drawable) (hone : e.scale ≠ 1)
    (hlog : Real.exp e.floorLog ≤ e.scale) (hzone : FromFirst e.zone) :
    ∃ out, genTable e none none = some out ∧ ∀ q,
      hiveQuery (tablesOf (outputOf out)) q =
        druidQuery (ssbDruid (tablesOf (outputOf out))) q := by
  have hscale : 1 < e.scale := by have := he.scale_pos; omega
  exact ⟨_, genTable_default he hscale, (star_output he hscale hlog hzone).queries
    fun d hd => year_of_mem_output hscale hzone hd⟩

theorem genTable_queries_sample :
    ∃ out, genTable sampleEnv none none = some out ∧ ∀ q,
      hiveQuery (tablesOf (outputOf out)) q = druidQuery (ssbDruid (tablesOf (outputOf out))) q :=
  genTable_queries sampleEnv_drawable (by decide) (by norm_num [sampleEnv])
    sampleEnv_fromFirst

/-- **The first flight on Druid** treats exactly the misread lines of the dates otherwise, and
sums up the same where there are none. -/
theorem genTable_queries1 {e : Env} (he : e.Drawable) (hone : e.scale ≠ 1)
    (hlog : Real.exp e.floorLog ≤ e.scale) (hzone : FromFirst e.zone) :
    ∃ out, genTable e none none = some out ∧
      let T := tablesOf (outputOf out)
      ∀ q, (∀ r ∈ flatJoin T, druidCond q r.select = hiveCond q (r.lineorder, r.date) ↔
          ¬ (dateCond q r.date = true ∧ Misread q r.lineorder)) ∧
        ((∀ r ∈ flatJoin T, ¬ (dateCond q r.date = true ∧ Misread q r.lineorder)) →
          hiveQuery1 T q = druidQuery1 (ssbDruid T) q) := by
  have hscale : 1 < e.scale := by have := he.scale_pos; omega
  refine ⟨_, genTable_default he hscale, fun q => ?_⟩
  have hcond (r : FlatRow) (hr : r ∈ flatJoin (tablesOf (outputOf
      ((List.range e.scale).flatMap (shareOutput e e.scale))))) :=
    druidCond_eq_iff (measured_output (mem_of_mem_flatJoin hr).2) q
  exact ⟨hcond, fun hread => (star_output he hscale hlog hzone).queries1
    fun r hr => (hcond r hr).mpr (hread r hr)⟩

theorem genTable_queries1_sample :
    ∃ out, genTable sampleEnv none none = some out ∧
      let T := tablesOf (outputOf out)
      ∀ q, (∀ r ∈ flatJoin T, druidCond q r.select = hiveCond q (r.lineorder, r.date) ↔
          ¬ (dateCond q r.date = true ∧ Misread q r.lineorder)) ∧
        ((∀ r ∈ flatJoin T, ¬ (dateCond q r.date = true ∧ Misread q r.lineorder)) →
          hiveQuery1 T q = druidQuery1 (ssbDruid T) q) :=
  genTable_queries1 sampleEnv_drawable (by decide) (by norm_num [sampleEnv])
    sampleEnv_fromFirst

end Structor.Dbgen
