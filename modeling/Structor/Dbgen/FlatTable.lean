import Structor.Dbgen.GenTable

/-!
# The flat table for Druid

`index_ssb.sql` joins the five tables of the star schema into one table, and the queries on
Druid read that table where those on Hive join what they need. A join is a bag of rows; here its
rows stand in the order of the lines.

## Main results

* `Star.lines` -- the flat table has each line once
* `Star.flight1_eq`, `Star.flight2_eq`, `Star.flight3_eq` -- the joins of the queries
* `genTable_flatJoin` -- so it is for the tables of the job
-/
namespace Structor.Dbgen

open Structor.Python

/-! ## The tables and their joins -/

structure Tables where
  customer : List Customer
  dates : List DateT
  lineorder : List Lineorder
  part : List Part
  supplier : List Supplier

def Row.toCustomer : Row → Option Customer
  | .cust c => some c
  | _ => none

def Row.toDate : Row → Option DateT
  | .date d => some d
  | _ => none

def Row.toPart : Row → Option Part
  | .part p => some p
  | _ => none

def Row.toSupplier : Row → Option Supplier
  | .supp s => some s
  | _ => none

def Row.toLines : Row → List Lineorder
  | .line o => o.lineorders
  | _ => []

/-- The tables of the directories. -/
def tablesOf (tbl : Table → List Row) : Tables where
  customer := (tbl .cust).filterMap Row.toCustomer
  dates := (tbl .date).filterMap Row.toDate
  lineorder := (tbl .line).flatMap Row.toLines
  part := (tbl .part).filterMap Row.toPart
  supplier := (tbl .supp).filterMap Row.toSupplier

section Joins

variable (T : Tables) (l : Lineorder)

/-- `lo_custkey = c_custkey` -/
def customersOf : List Customer := T.customer.filter fun c => (c.custkey : ℤ) = l.custkey

/-- `lo_orderdate = d_datekey`, of the texts in the files. -/
def datesOf : List DateT := T.dates.filter fun d => decimal d.datekey = l.orderdate

/-- `lo_partkey = p_partkey` -/
def partsOf : List Part := T.part.filter fun p => (p.partkey : ℤ) = l.partkey

/-- `lo_suppkey = s_suppkey` -/
def suppliersOf : List Supplier := T.supplier.filter fun s => (s.suppkey : ℤ) = l.suppkey

end Joins

/-- A row of the join of all tables. -/
structure FlatRow where
  customer : Customer
  date : DateT
  lineorder : Lineorder
  part : Part
  supplier : Supplier

/-- What `index_ssb.sql` selects from, and the queries `Q4.1` to `Q4.3`. -/
def flatJoin (T : Tables) : List FlatRow :=
  T.lineorder.flatMap fun l => (customersOf T l).flatMap fun c => (datesOf T l).flatMap fun d =>
    (partsOf T l).flatMap fun p => (suppliersOf T l).map fun s => ⟨c, d, l, p, s⟩

/-- What `Q1.1` to `Q1.3` select from. -/
def flight1 (T : Tables) : List (Lineorder × DateT) :=
  T.lineorder.flatMap fun l => (datesOf T l).map fun d => (l, d)

/-- What `Q2.1` to `Q2.3` select from. -/
def flight2 (T : Tables) : List (Lineorder × DateT × Part × Supplier) :=
  T.lineorder.flatMap fun l => (datesOf T l).flatMap fun d => (partsOf T l).flatMap fun p =>
    (suppliersOf T l).map fun s => (l, d, p, s)

/-- What `Q3.1` to `Q3.4` select from. -/
def flight3 (T : Tables) : List (Customer × Lineorder × Supplier × DateT) :=
  T.lineorder.flatMap fun l => (customersOf T l).flatMap fun c =>
    (suppliersOf T l).flatMap fun s => (datesOf T l).map fun d => (c, l, s, d)

/-! ## The flat table -/

/-- The columns of `ssb_druid`. The time is the text before its cast. -/
structure DruidRow where
  time : Str
  cCity : Str
  cNation : Str
  cRegion : Str
  dWeeknuminyear : Str
  dYear : Str
  dYearmonth : Str
  dYearmonthnum : Str
  loDiscount : Str
  loQuantity : Str
  pBrand1 : Str
  pCategory : Str
  pMfgr : Str
  sCity : Str
  sNation : Str
  sRegion : Str
  loRevenue : ℤ
  discountedPrice : ℤ
  netRevenue : ℤ

/-- The text of a whole number of at most seven digits in floating point. -/
def doubleText (z : ℤ) : Str := decimal z ++ ".0".toList

def FlatRow.select (r : FlatRow) : DruidRow where
  time := decimal r.date.year ++ "-".toList ++ decimal r.date.monthnuminyear ++ "-".toList ++
    decimal r.date.daynuminmonth
  cCity := r.customer.city
  cNation := r.customer.nationName
  cRegion := r.customer.regionName
  dWeeknuminyear := decimal r.date.weeknuminyear
  dYear := decimal r.date.year
  dYearmonth := r.date.yearmonth
  dYearmonthnum := decimal r.date.yearmonthnum
  loDiscount := doubleText r.lineorder.discount
  loQuantity := doubleText r.lineorder.quantity
  pBrand1 := r.part.brand
  pCategory := r.part.category
  pMfgr := r.part.mfgr
  sCity := r.supplier.city
  sNation := r.supplier.nationName
  sRegion := r.supplier.regionName
  loRevenue := r.lineorder.revenue
  discountedPrice := r.lineorder.extendedPrice * r.lineorder.discount
  netRevenue := r.lineorder.revenue - r.lineorder.suppCost

/-- `index_ssb.sql` -/
def ssbDruid (T : Tables) : List DruidRow := (flatJoin T).map FlatRow.select

/-! ## Stars -/

/-- Each line refers to one row of each other table. -/
structure Star (T : Tables) : Prop where
  customer : ∀ l ∈ T.lineorder, ∃ c, customersOf T l = [c]
  date : ∀ l ∈ T.lineorder, ∃ d, datesOf T l = [d]
  part : ∀ l ∈ T.lineorder, ∃ p, partsOf T l = [p]
  supplier : ∀ l ∈ T.lineorder, ∃ s, suppliersOf T l = [s]

section Flights

variable {T : Tables} (h : Star T)

include h

/-- The join of all tables has a row for each line. -/
theorem Star.map_flatJoin {α : Type} (f : FlatRow → α) {g : Lineorder → List α}
    (hg : ∀ l ∈ T.lineorder, ∀ c d p s, customersOf T l = [c] → datesOf T l = [d] →
      partsOf T l = [p] → suppliersOf T l = [s] → g l = [f ⟨c, d, l, p, s⟩]) :
    T.lineorder.flatMap g = (flatJoin T).map f := by
  rw [flatJoin, List.map_flatMap]
  refine List.flatMap_congr fun l hl => ?_
  obtain ⟨c, hc⟩ := h.customer l hl
  obtain ⟨d, hd⟩ := h.date l hl
  obtain ⟨p, hp⟩ := h.part l hl
  obtain ⟨s, hs⟩ := h.supplier l hl
  rw [hg l hl c d p s hc hd hp hs]
  simp only [hc, hd, hp, hs, List.flatMap_singleton, List.map_singleton]

/-- **The flat table has each line once.** -/
theorem Star.lines : (flatJoin T).map FlatRow.lineorder = T.lineorder := by
  rw [← h.map_flatJoin (g := fun l => [l]) FlatRow.lineorder fun _ _ _ _ _ _ _ _ _ _ => rfl,
    List.flatMap_singleton']

theorem Star.flight1_eq : flight1 T = (flatJoin T).map fun r => (r.lineorder, r.date) :=
  h.map_flatJoin _ fun l _ c d p s _ hd _ _ => by rw [hd, List.map_singleton]

theorem Star.flight2_eq :
    flight2 T = (flatJoin T).map fun r => (r.lineorder, r.date, r.part, r.supplier) :=
  h.map_flatJoin _ fun l _ c d p s _ hd hp hs => by
    simp only [hd, hp, hs, List.flatMap_singleton, List.map_singleton]

theorem Star.flight3_eq :
    flight3 T = (flatJoin T).map fun r => (r.customer, r.lineorder, r.supplier, r.date) :=
  h.map_flatJoin _ fun l _ c d p s hc hd _ hs => by
    simp only [hc, hd, hs, List.flatMap_singleton, List.map_singleton]

end Flights

/-! ## The tables of the job -/

/-- Of rows with different keys one has the key. -/
theorem filter_key_eq {β κ κ' : Type} [DecidableEq κ'] {key : β → κ} {text : κ → κ'}
    (htext : Function.Injective text) {rows : List β} (hkeys : (rows.map key).Nodup) {b : β}
    (hb : b ∈ rows) : rows.filter (fun r => text (key r) = text (key b)) = [b] := by
  induction rows with
  | nil => exact absurd hb List.not_mem_nil
  | cons r rows ih =>
      rw [List.map_cons, List.nodup_cons] at hkeys
      have hother : ∀ r' ∈ rows, text (key r') ≠ text (key r) := fun r' hr' heq =>
        hkeys.1 (htext heq ▸ List.mem_map_of_mem hr')
      rcases List.mem_cons.mp hb with rfl | hb
      · rw [List.filter_cons_of_pos (by simp), List.filter_eq_nil_iff.mpr]
        exact fun r' hr' => by simpa using hother r' hr'
      · rw [List.filter_cons_of_neg (by simpa using (hother b hb).symm), ih hkeys.2 hb]

/-- Tables whose keys are different. -/
structure UniqueKeys (T : Tables) : Prop where
  customer : (T.customer.map Customer.custkey).Nodup
  dates : (T.dates.map DateT.datekey).Nodup
  part : (T.part.map Part.partkey).Nodup
  supplier : (T.supplier.map Supplier.suppkey).Nodup

theorem exists_order_of_mem {tbl : Table → List Row} {l : Lineorder}
    (hl : l ∈ (tablesOf tbl).lineorder) : ∃ o, Row.line o ∈ tbl .line ∧ l ∈ o.lineorders := by
  obtain ⟨row, hrow, hl⟩ := List.mem_flatMap.mp hl
  cases row with
  | line o => exact ⟨o, hrow, hl⟩
  | _ => exact absurd hl List.not_mem_nil

/-- References to tables with different keys. -/
theorem UniqueKeys.star {tbl : Table → List Row} (h : UniqueKeys (tablesOf tbl))
    (href : ReferencesHold tbl) : Star (tablesOf tbl) where
  customer l hl := by
    obtain ⟨o, ho, hl⟩ := exists_order_of_mem hl
    obtain ⟨c, hc, hkey⟩ := href.cust o ho l hl
    rw [customersOf, ← hkey]
    exact ⟨c, filter_key_eq Nat.cast_injective h.customer (List.mem_filterMap.mpr ⟨_, hc, rfl⟩)⟩
  date l hl := by
    obtain ⟨o, ho, hl⟩ := exists_order_of_mem hl
    obtain ⟨d, hd, hkey⟩ := href.orderdate o ho l hl
    have htext : Function.Injective fun n : ℕ => decimal n := fun m n heq =>
      Int.ofNat_inj.mp (decimal_injective heq)
    rw [datesOf, ← hkey]
    exact ⟨d, filter_key_eq htext h.dates (List.mem_filterMap.mpr ⟨_, hd, rfl⟩)⟩
  part l hl := by
    obtain ⟨o, ho, hl⟩ := exists_order_of_mem hl
    obtain ⟨p, hp, hkey⟩ := href.part o ho l hl
    rw [partsOf, ← hkey]
    exact ⟨p, filter_key_eq Nat.cast_injective h.part (List.mem_filterMap.mpr ⟨_, hp, rfl⟩)⟩
  supplier l hl := by
    obtain ⟨o, ho, hl⟩ := exists_order_of_mem hl
    obtain ⟨s, hs, hkey⟩ := href.supp o ho l hl
    rw [suppliersOf, ← hkey]
    exact ⟨s, filter_key_eq Nat.cast_injective h.supplier (List.mem_filterMap.mpr ⟨_, hs, rfl⟩)⟩

section Keys

variable {e : Env} {i : ℕ} {row : Row}

theorem RowOk.toCustomer (h : RowOk e .cust i row) :
    ∃ c, row.toCustomer = some c ∧ c.custkey = i := by
  cases row with
  | cust c => exact ⟨c, rfl, h.1⟩
  | _ => exact h.elim

theorem RowOk.toDate (h : RowOk e .date i row) :
    ∃ d, row.toDate = some d ∧ d.datekey = (mkDate e.zone i).datekey := by
  cases row with
  | date d => exact ⟨d, rfl, congrArg DateT.datekey h⟩
  | _ => exact h.elim

theorem RowOk.toPart (h : RowOk e .part i row) : ∃ p, row.toPart = some p ∧ p.partkey = i := by
  cases row with
  | part p => exact ⟨p, rfl, h.1⟩
  | _ => exact h.elim

theorem RowOk.toSupplier (h : RowOk e .supp i row) :
    ∃ s, row.toSupplier = some s ∧ s.suppkey = i := by
  cases row with
  | supp s => exact ⟨s, rfl, h.1⟩
  | _ => exact h.elim

end Keys

/-- The keys of rows with numbers, if a row tells its key by its number. -/
theorem map_key_filterMap {β : Type} {R : ℕ → Row → Prop} (ofRow : Row → Option β) (key : β → ℕ)
    (k : ℕ → ℕ) (hkey : ∀ i row, R i row → ∃ b, ofRow row = some b ∧ key b = k i) {is : List ℕ}
    {rows : List Row} (h : List.Forall₂ R is rows) :
    (rows.filterMap ofRow).map key = is.map k := by
  induction h with
  | nil => rfl
  | @cons i row is rows hrow hrows ih =>
      obtain ⟨b, hb, hi⟩ := hkey i row hrow
      rw [List.filterMap_cons_some hb, List.map_cons, List.map_cons, hi, ih]

/-- The dates of the first of as many steps as the scale. -/
theorem stepRange_dates {scale : ℕ} (hscale : 1 < scale) :
    stepRange .date scale scale 0 = List.range' 1 numDays := by
  have hcount : (stepRows .date scale scale).1 = numDays := by
    rw [stepRows_eq _ _ (by omega)]
    exact Nat.mul_div_cancel numDays (by omega)
  rw [stepRange, if_neg (by omega), hcount, mul_zero, zero_add]

theorem rowOk_dates {e : Env} (he : e.Drawable) (hscale : 1 < e.scale) :
    List.Forall₂ (RowOk e .date) (List.range' 1 numDays) (shareRows e .date e.scale 0 0) := by
  rw [shareRows, stepRange_dates hscale]
  exact Returns.mapM_forall₂ _ (rowOk_genRow he .date) _

theorem nodup_datekeys {zone : ℤ → ℤ} (hzone : FromFirst zone) :
    ((List.range' 1 numDays).map fun i => (mkDate zone i).datekey).Nodup := by
  refine List.Nodup.map_on (fun i hi j hj hij => ?_) List.nodup_range'
  obtain ⟨hipos, hi⟩ := List.mem_range'_1.mp hi
  obtain ⟨hjpos, hj⟩ := List.mem_range'_1.mp hj
  obtain ⟨i, rfl⟩ := Nat.exists_eq_add_of_le' hipos
  obtain ⟨j, rfl⟩ := Nat.exists_eq_add_of_le' hjpos
  rw [datekey_mkDate hzone (by omega), datekey_mkDate hzone (by omega)] at hij
  rw [strictMono_dayKey.injective hij]

/-- The keys of the tables are different if there are as many mappers as the scale. -/
theorem uniqueKeys_output {e : Env} (he : e.Drawable) (hscale : 1 < e.scale)
    (hzone : FromFirst e.zone) :
    UniqueKeys (tablesOf (outputOf ((List.range e.scale).flatMap (shareOutput e e.scale)))) := by
  have hrows : ∀ t ≠ Table.date, List.Forall₂ (RowOk e t) (List.range' 1 (t.base * e.scale))
      (outputOf ((List.range e.scale).flatMap (shareOutput e e.scale)) t) := by
    intro t ht
    rw [outputOf_flatMap]
    simpa only [ht, false_and, if_false] using rowOk_shareRows he t (by omega)
  have hkeys (n : ℕ) : ((List.range' 1 n).map id).Nodup := by
    rw [List.map_id]
    exact List.nodup_range'
  refine ⟨?_, ?_, ?_, ?_⟩
  · rw [tablesOf, map_key_filterMap Row.toCustomer Customer.custkey id
      (fun _ _ => RowOk.toCustomer) (hrows .cust (by decide))]
    exact hkeys _
  · rw [tablesOf, outputOf_date e (by omega), map_key_filterMap Row.toDate DateT.datekey
      (fun i => (mkDate e.zone i).datekey) (fun _ _ => RowOk.toDate) (rowOk_dates he hscale)]
    exact nodup_datekeys hzone
  · rw [tablesOf, map_key_filterMap Row.toPart Part.partkey id (fun _ _ => RowOk.toPart)
      (hrows .part (by decide))]
    exact hkeys _
  · rw [tablesOf, map_key_filterMap Row.toSupplier Supplier.suppkey id
      (fun _ _ => RowOk.toSupplier) (hrows .supp (by decide))]
    exact hkeys _

/-- The output of the job with its default number of mappers. -/
theorem genTable_default {e : Env} (he : e.Drawable) (hscale : 1 < e.scale) :
    genTable e none none = some ((List.range e.scale).flatMap (shareOutput e e.scale)) := by
  have hshare : e.scale / e.scale ≤ max32bScale := by
    rw [Nat.div_self he.scale_pos]
    decide
  exact genTable_eq he hshare hscale.ne' hscale.ne'

/-- The lines of the job refer to one row of each table. -/
theorem star_output {e : Env} (he : e.Drawable) (hscale : 1 < e.scale)
    (hlog : Real.exp e.floorLog ≤ e.scale) (hzone : FromFirst e.zone) :
    Star (tablesOf (outputOf ((List.range e.scale).flatMap (shareOutput e e.scale)))) :=
  (uniqueKeys_output he hscale hzone).star
    (references_output he hscale le_rfl hlog hzone)

/-- **The flat table of the job.** With as many mappers as the scale, which is the default, the
join of the five tables has each line once, and the joins of the queries are the flat table
without the columns of the other tables. -/
theorem genTable_flatJoin {e : Env} (he : e.Drawable) (hone : e.scale ≠ 1)
    (hlog : Real.exp e.floorLog ≤ e.scale) (hzone : FromFirst e.zone) :
    ∃ out, genTable e none none = some out ∧
      let T := tablesOf (outputOf out)
      (flatJoin T).map FlatRow.lineorder = T.lineorder ∧
        flight1 T = (flatJoin T).map (fun r => (r.lineorder, r.date)) ∧
        flight2 T = (flatJoin T).map (fun r => (r.lineorder, r.date, r.part, r.supplier)) ∧
        flight3 T = (flatJoin T).map fun r => (r.customer, r.lineorder, r.supplier, r.date) := by
  have hscale : 1 < e.scale := by have := he.scale_pos; omega
  have hstar := star_output he hscale hlog hzone
  exact ⟨_, genTable_default he hscale, hstar.lines, hstar.flight1_eq, hstar.flight2_eq,
    hstar.flight3_eq⟩

theorem genTable_flatJoin_sample :
    ∃ out, genTable sampleEnv none none = some out ∧
      (flatJoin (tablesOf (outputOf out))).map FlatRow.lineorder =
        (tablesOf (outputOf out)).lineorder := by
  obtain ⟨out, hout, hlines, _⟩ := genTable_flatJoin sampleEnv_drawable (by decide)
    (by norm_num [sampleEnv]) sampleEnv_fromFirst
  exact ⟨out, hout, hlines⟩

end Structor.Dbgen
