import Structor.Delimited
import Structor.Dbgen.GenTable

/-!
# The flat files of the star schema

`print.c` writes a row with a separator behind every field, a mapper copies the lines of the
files, and the tables of `text.sql` read them as text with that separator. The texts in the
fields come from the file of the distributions.

## Main results

* `readDist_printable` -- no distribution of a file has a separator in its texts
* `flat_genRow` -- the fields of a row are those of the columns, without a separator
* `genTable_tables` -- the tables have the rows of the job
-/
namespace Structor.Dbgen

open Structor.Delimited Structor.Python

/-! ## Printing -/

def separator : Char := '|'

/-- `PR_STRT`, the fields and `PR_END`. -/
def prRecord (fields : List Str) : Str := terminated separator fields ++ ['\n']

def prCust (c : Customer) : List Str :=
  [decimal c.custkey, c.name, c.address, c.city, c.nationName, c.regionName, c.phone,
    c.mktsegment]

def prLine (o : Order) : List (List Str) :=
  o.lineorders.map fun l =>
    [prHuge l.okey, decimal l.linenumber, decimal l.custkey, decimal l.partkey,
      decimal l.suppkey, l.orderdate, l.opriority, decimal l.shipPriority, decimal l.quantity,
      decimal l.extendedPrice, decimal l.orderTotalprice, decimal l.discount,
      decimal l.revenue, decimal l.suppCost, decimal l.tax, l.commitDate, l.shipmode]

def prPart (p : Part) : List Str :=
  [decimal p.partkey, p.name, p.mfgr, p.category, p.brand, p.color, p.type, decimal p.size,
    p.container]

def prSupp (s : Supplier) : List Str :=
  [decimal s.suppkey, s.name, s.address, s.city, s.nationName, s.regionName, s.phone]

def prDateT (d : DateT) : List Str :=
  [decimal d.datekey, d.date, d.dayofweek, d.month, decimal d.year, decimal d.yearmonthnum,
    d.yearmonth, decimal d.daynuminweek, decimal d.daynuminmonth, decimal d.daynuminyear,
    decimal d.monthnuminyear, decimal d.weeknuminyear, d.sellingseason, d.lastdayinweekfl,
    d.lastdayinmonthfl, d.holidayfl, d.weekdayfl]

/-- The records of a row: an order has one for each line. -/
def Row.records : Row → List (List Str)
  | .part p => [prPart p]
  | .supp s => [prSupp s]
  | .cust c => [prCust c]
  | .date d => [prDateT d]
  | .line o => prLine o

/-- What is printed to the file of a table. -/
def tblFile (rows : List Row) : Str := (rows.flatMap Row.records).flatMap prRecord

/-! ## Tables on the files -/

/-- The loop of the mapper: each line of the file, written with a line feed. -/
def mapperFile (file : Str) : Str := terminated '\n' (readLines file)

def columns : Table → List Str
  | .part => ["p_partkey", "p_name", "p_mfgr", "p_category", "p_brand1", "p_color", "p_type",
      "p_size", "p_container"]
  | .supp => ["s_suppkey", "s_name", "s_address", "s_city", "s_nation", "s_region", "s_phone"]
  | .cust => ["c_custkey", "c_name", "c_address", "c_city", "c_nation", "c_region", "c_phone",
      "c_mktsegment"]
  | .date => ["d_datekey", "d_date", "d_dayofweek", "d_month", "d_year", "d_yearmonthnum",
      "d_yearmonth", "d_daynuminweek", "d_daynuminmonth", "d_daynuminyear", "d_monthnuminyear",
      "d_weeknuminyear", "d_sellingseason", "d_lastdayinweekfl", "d_lastdayinmonthfl",
      "d_holidayfl", "d_weekdayfl"]
  | .line => ["lo_orderkey", "lo_linenumber", "lo_custkey", "lo_partkey", "lo_suppkey",
      "lo_orderdate", "lo_ordpriority", "lo_shippriority", "lo_quantity", "lo_extendedprice",
      "lo_ordtotalprice", "lo_discount", "lo_revenue", "lo_supplycost", "lo_tax",
      "lo_commitdate", "lo_shipmode"]

/-- The value of a part of a line: one text stands for null. -/
def partValue (part : Str) : Option Str := if part = "\\N".toList then none else some part

/-- A line of a delimited table: each column has the value of the part at its place, or null if
there is none. -/
def delimitedRow (columns : List Str) (line : Str) : List (Option Str) :=
  (List.range columns.length).map fun i => (line.splitOn separator)[i]?.bind partValue

/-- The rows of a table, from the files that the mappers wrote for it. -/
def textTable (out : List (Table × List Row)) (t : Table) : List (List (Option Str)) :=
  (out.filter fun r => r.1 = t).flatMap fun r =>
    (readLines (mapperFile (tblFile r.2))).map (delimitedRow (columns t))

/-- `load_dists`: all distributions are read, also those that no row is made from. What rows
cannot be made from is an error here. -/
def loadDists (file : Str) : Except ReadError Dists := do
  let pCntrSet ← readDist file "p_cntr"
  let colors ← readDist file "colors"
  let pTypesSet ← readDist file "p_types"
  let nations ← readDist file "nations"
  let regions ← readDist file "regions"
  let oPrioritySet ← readDist file "o_oprio"
  let _ ← readDist file "instruct"
  let lSmodeSet ← readDist file "smode"
  let _ ← readDist file "category"
  let _ ← readDist file "rflag"
  let cMsegSet ← readDist file "msegmnt"
  let _ ← ["nouns".toList, "verbs".toList, "adjectives".toList, "adverbs".toList,
    "auxillaries".toList, "terminators".toList, "articles".toList, "prepositions".toList,
    "grammar".toList, "np".toList, "vp".toList].mapM (readDist file)
  let d : DistSets :=
    { nations, regions, oPrioritySet, lSmodeSet, cMsegSet, colors, pTypesSet, pCntrSet }
  if h : d.Usable then pure ⟨d, h⟩ else throw .undefined

/-! ## Texts without a separator -/

/-- A text that may stand in a field. -/
def Printable (s : Str) : Prop := ∀ c ∈ s, c ≠ separator ∧ c ≠ '\n' ∧ c ≠ '\r' ∧ c ≠ '\\'

instance (s : Str) : Decidable (Printable s) := List.decidableBAll _ s

theorem Printable.mono {s s' : Str} (h : Printable s) (hsub : s' ⊆ s) : Printable s' :=
  fun c hc => h c (hsub hc)

theorem printable_append {s s' : Str} : Printable (s ++ s') ↔ Printable s ∧ Printable s' :=
  List.forall_mem_append

theorem printable_nil : Printable [] := by decide

theorem printable_digits {s : Str} (h : ∀ c ∈ s, c.isDigit = true ∨ c = '-') : Printable s := by
  intro c hc
  rcases h c hc with hdigit | rfl
  · refine ⟨?_, ?_, ?_, ?_⟩ <;> rintro rfl <;> exact absurd hdigit (by decide)
  · decide

@[simp] theorem printable_decimal (z : ℤ) : Printable (decimal z) :=
  printable_digits fun _ hc => mem_decimal hc

@[simp] theorem printable_zeroPadded (width n : ℕ) : Printable (zeroPadded width n) :=
  printable_digits fun _ hc => .inl (isDigit_zeroPadded hc)

theorem printable_getD {l : List Str} (h : ∀ s ∈ l, Printable s) (i : ℕ) :
    Printable (l.getD i []) := by
  rw [List.getD_eq_getElem?_getD]
  cases hi : l[i]? with
  | none => exact printable_nil
  | some s => exact h s (List.mem_of_getElem? hi)

/-! ## The texts of the distributions -/

/-- A text that every reader takes for the same characters: in ASCII, without an end of a line
that `fgets` knows nothing of, and without the text of null. -/
def PlainText (s : Str) : Prop := ∀ c ∈ s, c.toNat < 128 ∧ c ≠ '\r' ∧ c ≠ '\\'

instance (s : Str) : Decidable (PlainText s) := List.decidableBAll _ s

def Distribution.Printable (d : Distribution) : Prop := ∀ m ∈ d.list, Dbgen.Printable m.text

theorem mem_lines {s : Str} {l : Str} (hl : l ∈ lines s) : l ⊆ s := by
  induction s using lines.induct with
  | case1 s h =>
      rw [lines, dif_pos h] at hl
      exact absurd hl List.not_mem_nil
  | case2 s h ih =>
      rw [lines, dif_neg h] at hl
      have hsplit := fgets_append 255 s
      rcases List.mem_cons.mp hl with rfl | hl
      · exact fun c hc => hsplit ▸ List.mem_append_left _ hc
      · exact fun c hc => hsplit ▸ List.mem_append_right _ (ih hl hc)

theorem findName_subset {name : Str} {ls rest : List Str} (h : findName name ls = .ok (some rest)) :
    rest ⊆ ls := by
  induction ls with
  | nil => exact absurd h (by simp [findName])
  | cons l ls ih =>
      have hnext : findName name ls = .ok (some rest) → rest ⊆ l :: ls := fun h =>
        List.subset_cons_of_subset l (ih h)
      rw [findName] at h
      split_ifs at h
      · exact hnext h
      · split at h
        · cases h
        · split_ifs at h
          · split at h
            · cases h
            · split_ifs at h
              · cases h
                exact List.subset_cons_self ..
              · exact hnext h
          · exact hnext h

theorem mem_cutLine {l : Str} {c : Char} (hc : c ∈ cutLine l) : c ≠ '\n' ∧ c ∈ l := by
  have hmem := (List.takeWhile_prefix _).subset hc
  have hends := List.mem_takeWhile_imp hmem
  rw [decide_eq_true_iff] at hends
  exact ⟨hends.1, (List.takeWhile_prefix _).subset hmem⟩

/-- The text of a member ends at the first separator. -/
theorem printable_token {l token : Str} {weight : ℤ} (hl : PlainText l)
    (h : scanMember (cutLine l) = some (token, weight)) : Printable token := by
  have htoken : token = (cutLine l).takeWhile (· ≠ '|') := by
    simp only [scanMember] at h
    split_ifs at h
    obtain ⟨w, _, hw⟩ := Option.map_eq_some_iff.mp h
    exact (congrArg Prod.fst hw).symm
  intro c hc
  rw [htoken] at hc
  obtain ⟨hfeed, hmem⟩ := mem_cutLine ((List.takeWhile_prefix _).subset hc)
  exact ⟨by simpa [separator] using List.mem_takeWhile_imp hc, hfeed, (hl c hmem).2⟩

theorem readMembers_printable {ls : List Str} (hls : ∀ l ∈ ls, PlainText l) {room : ℤ}
    {target : Option Distribution} (htarget : ∀ d ∈ target, d.Printable)
    {result : Option Distribution × Bool} (h : readMembers room ls target = .ok result) :
    ∀ d ∈ result.1, d.Printable := by
  induction ls generalizing room target with
  | nil =>
      obtain rfl := Except.ok.inj h
      exact htarget
  | cons l ls ih =>
      have hrest := fun l' hl' => hls l' (List.mem_cons_of_mem l hl')
      rw [readMembers] at h
      split_ifs at h
      · exact ih hrest htarget h
      · obtain rfl := Except.ok.inj h
        exact htarget
      · split at h
        · exact ih hrest htarget h
        · next token weight hscan =>
          split_ifs at h
          · split at h
            · cases h
            · exact ih hrest (by simp [Distribution.Printable]) h
          · split at h <;> cases h
          · split at h
            · cases h
            · next d =>
              split_ifs at h
              · refine ih hrest ?_ h
                rintro _ ⟨⟩
                have htoken := printable_token (hls l List.mem_cons_self) hscan
                simpa [Distribution.Printable, or_imp, forall_and, htoken] using htarget d rfl

/-- **No text of a distribution has a separator**, in a file of plain text. -/
theorem readDist_printable {file name : Str} (hfile : PlainText file) {d : Distribution}
    (h : readDist file name = .ok d) : d.Printable := by
  have hlines : ∀ l ∈ lines file, PlainText l := fun l hl c hc => hfile c (mem_lines hl hc)
  obtain ⟨found, hfound, h⟩ := bind_eq_ok h
  obtain ⟨⟨target, ended⟩, hread, h⟩ := bind_eq_ok h
  have hafter : ∀ l ∈ found.getD [], PlainText l := by
    cases found with
    | none => exact fun l hl => absurd hl List.not_mem_nil
    | some rest => exact fun l hl => hlines l (findName_subset hfound hl)
  have htarget := readMembers_printable hafter (by simp) hread
  dsimp only at h
  split_ifs at h
  obtain rfl := Except.ok.inj h
  cases target with
  | none => simp [Distribution.Printable]
  | some d => exact htarget d rfl

/-- The distributions that rows are made from. -/
structure Dists.Printable (d : Dists) : Prop where
  nations : d.nations.Printable
  regions : d.regions.Printable
  oPrioritySet : d.oPrioritySet.Printable
  lSmodeSet : d.lSmodeSet.Printable
  cMsegSet : d.cMsegSet.Printable
  colors : d.colors.Printable
  pTypesSet : d.pTypesSet.Printable
  pCntrSet : d.pCntrSet.Printable

theorem loadDists_printable {file : Str} (hfile : PlainText file) {d : Dists}
    (h : loadDists file = .ok d) : d.Printable := by
  obtain ⟨pCntrSet, h₁, h⟩ := bind_eq_ok h
  obtain ⟨colors, h₂, h⟩ := bind_eq_ok h
  obtain ⟨pTypesSet, h₃, h⟩ := bind_eq_ok h
  obtain ⟨nations, h₄, h⟩ := bind_eq_ok h
  obtain ⟨regions, h₅, h⟩ := bind_eq_ok h
  obtain ⟨oPrioritySet, h₆, h⟩ := bind_eq_ok h
  obtain ⟨_, _, h⟩ := bind_eq_ok h
  obtain ⟨lSmodeSet, h₇, h⟩ := bind_eq_ok h
  obtain ⟨_, _, h⟩ := bind_eq_ok h
  obtain ⟨_, _, h⟩ := bind_eq_ok h
  obtain ⟨cMsegSet, h₈, h⟩ := bind_eq_ok h
  obtain ⟨_, _, h⟩ := bind_eq_ok h
  dsimp only at h
  split_ifs at h
  obtain rfl := Except.ok.inj h
  constructor <;> exact readDist_printable hfile ‹_›

/-! ## What the rows are made from -/

theorem printable_distMember {d : Distribution} (h : d.Printable) (i : ℕ) :
    Printable (distMember d i) :=
  forall_distMember printable_nil h i

theorem returns_pickStr {d : Distribution} (h : d.Printable) (c : ℕ) :
    Returns (fun r => Printable r.2) (pickStr d c) :=
  Returns.bind_any fun _ => Returns.pure (printable_distMember h _)

theorem returns_pickNation {d : Dists} (h : d.Printable) (sd : ℕ) :
    Returns (fun r => Printable r.2.1 ∧ Printable r.2.2) (pickNation d sd) :=
  Returns.bind_any fun _ =>
    Returns.pure ⟨printable_distMember h.nations _, printable_distMember h.regions _⟩

theorem returns_genCity {nationName : Str} (h : Printable nationName) :
    Returns Printable (genCity nationName) := by
  refine Returns.bind_any fun pick => Returns.pure ?_
  have htake : Printable (nationName.take (cityFix - 1)) := h.mono (List.take_subset _ _)
  have hblank : Printable (List.replicate ((cityFix - 1) - (nationName.take (cityFix - 1)).length)
      ' ') := fun c hc => (List.eq_of_mem_replicate hc) ▸ by decide
  rw [List.rightpad, printable_append, printable_append]
  exact ⟨⟨htake, hblank⟩, printable_decimal pick⟩

theorem returns_genPhone (ind seed : ℕ) : Returns Printable (genPhone ind seed) := by
  refine Returns.bind_any fun _ => Returns.bind_any fun _ => Returns.bind_any fun _ =>
    Returns.pure ?_
  have hdash : Printable "-".toList := by decide
  simp only [printable_append, printable_zeroPadded, hdash, and_self]

theorem printable_alphaNum : Printable alphaNum := by decide

theorem returns_vStr (sd : ℕ) : Returns Printable (vStr addrLen sd) :=
  (metered_vStr sd).returns fun _ _ h => printable_alphaNum.mono h.2.2

/-- A text of members has only blanks between them. -/
theorem returns_aggStr {d : Distribution} (h : d.Printable) (count col : ℕ) :
    Returns Printable (aggStr d count col) := by
  refine Returns.bind_any fun perm => Returns.pure ?_
  refine Printable.mono ?_ (List.dropLast_subset _)
  intro c hc
  obtain ⟨i, _, hc⟩ := List.mem_flatMap.mp hc
  have hblank : Printable [' '] := by decide
  exact printable_append.mpr ⟨printable_distMember h _, hblank⟩ c hc

theorem printable_genColor {name : Str} (h : Printable name) :
    Printable (genColor name).1 ∧ Printable (genColor name).2 :=
  ⟨h.mono (List.takeWhile_prefix _).subset,
    h.mono fun _ hc => (List.dropWhile_suffix _).subset (List.mem_of_mem_tail hc)⟩

theorem printable_ascDate (date : ℤ) : Printable (ascDate date) := by
  refine printable_getD (fun s hs => ?_) _
  obtain ⟨i, _, rfl⟩ := List.mem_map.mp hs
  have hcentury : Printable "19".toList := by decide
  simp only [mkTime, prDate, printable_append, printable_zeroPadded, hcentury, and_self]

theorem printable_prHuge (data : Huge) : Printable (prHuge data) := by
  rw [prHuge]
  split_ifs
  · exact printable_decimal _
  · exact printable_append.mpr ⟨printable_decimal _, printable_zeroPadded _ _⟩

theorem printable_genSeason (month day : ℕ) : Printable (genSeason month day) := by
  have hseasons : ∀ s ∈ seasons, Printable s.name := by decide
  rw [genSeason]
  split
  · next s hs => exact hseasons s (List.mem_of_find?_eq_some hs)
  · exact printable_nil

/-! ## The rows -/

/-- The fields of a record are those of the columns. -/
def FlatRecord (t : Table) (fields : List Str) : Prop :=
  fields.length = (columns t).length ∧ ∀ f ∈ fields, Printable f

theorem length_columns : (columns .part).length = 9 ∧ (columns .supp).length = 7 ∧
    (columns .cust).length = 8 ∧ (columns .date).length = 17 ∧ (columns .line).length = 17 := by
  decide

theorem printable_flag (p : Prop) [Decidable p] {a b : Str} (ha : Printable a)
    (hb : Printable b) : Printable (if p then a else b) := by
  split_ifs
  · exact ha
  · exact hb

theorem flat_mkDate (zone : ℤ → ℤ) (index : ℕ) :
    FlatRecord .date (prDateT (mkDate zone index)) := by
  have hmonths : ∀ i, Printable (monthNames.getD i []) := printable_getD (by decide)
  have hdays : ∀ i, Printable (weekdayNames.getD i []) := printable_getD (by decide)
  have hmonth : ∀ i, Printable ((monthNames.getD i []).take 3) := fun i =>
    (hmonths i).mono (List.take_subset _ _)
  have hzero : Printable "0".toList := by decide
  have hone : Printable "1".toList := by decide
  have hblank : Printable " ".toList ∧ Printable ", ".toList := by decide
  refine ⟨by simp only [prDateT, length_columns, List.length_cons, List.length_nil], ?_⟩
  simp only [prDateT, mkDate, genHolidayFl, List.forall_mem_cons, List.not_mem_nil,
    printable_append, printable_decimal, printable_genSeason, hmonths, hdays, hmonth, hblank,
    printable_flag, hzero, hone, and_self, false_imp_iff, implies_true]

theorem flat_mkCust {e : Env} (he : e.dists.Printable) (nCust : ℕ) :
    Returns (fun c => FlatRecord .cust (prCust c)) (mkCust e nCust) := by
  refine (returns_vStr cAddrSd).bind fun address haddr => ?_
  refine (returns_pickNation he cNtrgSd).bind fun nation hnation => ?_
  refine (returns_genCity hnation.1).bind fun city hcity => ?_
  refine (returns_genPhone nation.1 cPhneSd).bind fun phone hphone => ?_
  refine (returns_pickStr he.cMsegSet cMsegSd).bind fun segment hsegment => Returns.pure ?_
  have hname : Printable ("Customer#".toList ++ zeroPadded 9 nCust) :=
    printable_append.mpr ⟨by decide, printable_zeroPadded _ _⟩
  refine ⟨by simp only [prCust, length_columns, List.length_cons, List.length_nil], ?_⟩
  simp only [prCust, List.forall_mem_cons, List.not_mem_nil, printable_decimal, haddr, hnation,
    hcity, hphone, hsegment, hname, true_and, false_imp_iff, implies_true]

theorem flat_mkSupp {e : Env} (he : e.dists.Printable) (index : ℕ) :
    Returns (fun s => FlatRecord .supp (prSupp s)) (mkSupp e index) := by
  refine (returns_vStr sAddrSd).bind fun address haddr => ?_
  refine (returns_pickNation he sNtrgSd).bind fun nation hnation => ?_
  refine (returns_genCity hnation.1).bind fun city hcity => ?_
  refine (returns_genPhone nation.1 cPhneSd).bind fun phone hphone => Returns.pure ?_
  have hname : Printable ("Supplier#".toList ++ zeroPadded 9 index) :=
    printable_append.mpr ⟨by decide, printable_zeroPadded _ _⟩
  refine ⟨by simp only [prSupp, length_columns, List.length_cons, List.length_nil], ?_⟩
  simp only [prSupp, List.forall_mem_cons, List.not_mem_nil, printable_decimal, haddr, hnation,
    hcity, hphone, hname, true_and, false_imp_iff, implies_true]

theorem flat_mkPart {e : Env} (he : e.dists.Printable) (index : ℕ) :
    Returns (fun p => FlatRecord .part (prPart p)) (mkPart e index) := by
  refine (returns_aggStr he.colors pNameScl pNameSd).bind fun name hname => ?_
  refine Returns.bind_any fun mfgr => Returns.bind_any fun cat => Returns.bind_any fun brnd => ?_
  refine (returns_pickStr he.pTypesSet pTypeSd).bind fun type htype => ?_
  refine Returns.bind_any fun size => ?_
  refine (returns_pickStr he.pCntrSet pCntrSd).bind fun container hcontainer => Returns.pure ?_
  have hsplit := printable_genColor hname
  have hmfgr : Printable "MFGR#".toList := by decide
  refine ⟨by simp only [prPart, length_columns, List.length_cons, List.length_nil], ?_⟩
  simp only [prPart, List.forall_mem_cons, List.not_mem_nil, printable_append, printable_decimal,
    hsplit, hmfgr, htype, hcontainer, true_and, false_imp_iff, implies_true]

/-- What is promised of the texts of a line, whatever the order is given later. -/
structure LineTexts (l : Lineorder) : Prop where
  orderdate : Printable l.orderdate
  opriority : Printable l.opriority
  commitDate : Printable l.commitDate
  shipmode : Printable l.shipmode

theorem flat_mkLine {e : Env} (he : e.dists.Printable) {o : Order} (hdate : Printable o.odate)
    (hprio : Printable o.opriority) (tmpDate : ℤ) (lcnt : ℕ) :
    Returns (fun l => LineTexts l.1) (mkLine e o tmpDate lcnt) := by
  refine Returns.bind_any fun partkey => Returns.bind_any fun suppkey => Returns.bind_any
    fun quantity => Returns.bind_any fun discount => Returns.bind_any fun tax =>
      Returns.bind_any fun cDate => ?_
  refine (returns_pickStr he.lSmodeSet lSmodeSd).bind fun mode hmode => Returns.pure ?_
  constructor <;> dsimp only
  · exact hdate
  · exact hprio.mono (List.take_subset _ _)
  · exact printable_ascDate _
  · exact hmode

theorem flat_prLine {o : Order} (h : ∀ l ∈ o.lineorders, LineTexts l) :
    ∀ fields ∈ prLine o, FlatRecord .line fields := by
  intro fields hfields
  obtain ⟨l, hl, rfl⟩ := List.mem_map.mp hfields
  obtain ⟨hdate, hprio, hcommit, hmode⟩ := h l hl
  refine ⟨by simp only [length_columns, List.length_cons, List.length_nil], ?_⟩
  simp only [List.forall_mem_cons, List.not_mem_nil, printable_decimal, printable_prHuge, hdate,
    hprio, hcommit, hmode, true_and, false_imp_iff, implies_true]

/-- The lines keep their texts when they are given the total of the order. -/
theorem flat_setLines (o : Order) {drawn : List (Lineorder × ℤ)}
    (h : ∀ l ∈ drawn, LineTexts l.1) : ∀ fields ∈ prLine (o.setLines drawn),
      FlatRecord .line fields := by
  refine flat_prLine fun l hl => ?_
  obtain ⟨l', hl', rfl⟩ := List.mem_map.mp hl
  obtain ⟨hdate, hprio, hcommit, hmode⟩ := h l' hl'
  exact ⟨hdate, hprio, hcommit, hmode⟩

theorem flat_mkOrder {e : Env} (he : e.dists.Printable) (index updNum : ℕ) :
    Returns (fun o => ∀ fields ∈ prLine o, FlatRecord .line fields) (mkOrder e index updNum) := by
  refine Returns.bind_any fun tmpDate => Returns.bind_any fun custkey => ?_
  refine (returns_pickStr he.oPrioritySet oPrioSd).bind fun prio hprio => ?_
  refine Returns.bind_any fun clerk => Returns.bind_any fun lines => ?_
  refine (Returns.mapM fun lcnt _ => flat_mkLine he ?_ ?_ tmpDate lcnt).bind fun drawn hdrawn =>
    Returns.pure (flat_setLines _ hdrawn)
  · dsimp only
    exact printable_ascDate tmpDate
  · exact hprio

/-- **The fields of a row are those of the columns**, without a separator. -/
theorem flat_genRow {e : Env} (he : e.dists.Printable) (t : Table) (updNum i : ℕ) :
    Returns (fun row => ∀ fields ∈ row.records, FlatRecord t fields) (genRow e t updNum i) := by
  refine Returns.bind_any fun _ => ?_
  have hrow : Returns (fun row => ∀ fields ∈ row.records, FlatRecord t fields)
      (mkRow e updNum i t) := by
    have hone : ∀ {t fields}, FlatRecord t fields → ∀ fields' ∈ [fields], FlatRecord t fields' :=
      fun h fields' hfields => List.mem_singleton.mp hfields ▸ h
    cases t with
    | part => exact (flat_mkPart he i).map fun p hp => hone hp
    | supp => exact (flat_mkSupp he i).map fun s hs => hone hs
    | cust => exact (flat_mkCust he i).map fun c hc => hone hc
    | date => exact Returns.pure (hone (flat_mkDate e.zone i))
    | line => exact (flat_mkOrder he i _).map fun o ho => ho
  exact hrow.bind fun row hrow => Returns.bind_any fun _ => Returns.pure hrow

/-! ## The tables -/

theorem oneLine_terminated {fields : List Str} (h : ∀ f ∈ fields, Printable f) :
    OneLine (terminated separator fields) := by
  have hmem : ∀ c ∈ terminated separator fields, c ≠ '\n' ∧ c ≠ '\r' := by
    intro c hc
    rcases mem_terminated hc with rfl | ⟨f, hf, hc⟩
    · decide
    · exact ⟨(h f hf c hc).2.1, (h f hf c hc).2.2.1⟩
  exact ⟨fun hc => (hmem _ hc).1 rfl, fun hc => (hmem _ hc).2 rfl⟩

theorem tblFile_eq (rows : List Row) :
    tblFile rows = terminated '\n' ((rows.flatMap Row.records).map (terminated separator)) := by
  rw [tblFile, terminated, List.flatMap_map]
  rfl

theorem partValue_of_printable {f : Str} (h : Printable f) : partValue f = some f := by
  refine if_neg ?_
  rintro rfl
  exact (h '\\' List.mem_cons_self).2.2.2 rfl

/-- The part behind the last separator is in no column. -/
theorem delimitedRow_terminated {t : Table} {fields : List Str} (h : FlatRecord t fields) :
    delimitedRow (columns t) (terminated separator fields) = fields.map some := by
  have hsep : ∀ f ∈ fields, separator ∉ f := fun f hf hc => (h.2 f hf _ hc).1 rfl
  rw [delimitedRow, splitOn_terminated hsep, ← h.1]
  refine List.ext_getElem (by simp) fun i hi _ => ?_
  have hi : i < fields.length := by simpa using hi
  have hvalue := partValue_of_printable (h.2 _ (List.getElem_mem hi))
  simp [List.getElem?_append_left hi, List.getElem?_eq_getElem hi, hvalue]

/-- A file is read back as its records. -/
theorem readLines_mapperFile {t : Table} {rows : List Row}
    (h : ∀ row ∈ rows, ∀ fields ∈ row.records, FlatRecord t fields) :
    (readLines (mapperFile (tblFile rows))).map (delimitedRow (columns t)) =
      (rows.flatMap Row.records).map (List.map some) := by
  have hrecords : ∀ fields ∈ rows.flatMap Row.records, FlatRecord t fields := fun fields hf => by
    obtain ⟨row, hrow, hf⟩ := List.mem_flatMap.mp hf
    exact h row hrow fields hf
  have hlines : ∀ line ∈ (rows.flatMap Row.records).map (terminated separator), OneLine line := by
    intro line hline
    obtain ⟨fields, hfields, rfl⟩ := List.mem_map.mp hline
    exact oneLine_terminated (hrecords fields hfields).2
  rw [mapperFile, tblFile_eq, readLines_terminated hlines, readLines_terminated hlines,
    List.map_map]
  exact List.map_congr_left fun fields hf => delimitedRow_terminated (hrecords fields hf)

/-- The rows of a mapper. -/
theorem flat_runCommand {e : Env} (he : e.dists.Printable) {c : Command} {t : Table}
    {rows : List Row} (h : runCommand e c = some (t, rows)) :
    ∀ row ∈ rows, ∀ fields ∈ row.records, FlatRecord t fields := by
  obtain ⟨t', _, h⟩ := Option.bind_eq_some_iff.mp h
  obtain ⟨rows', hrows, h⟩ := Option.bind_eq_some_iff.mp h
  obtain ⟨rfl, rfl⟩ := Prod.mk.inj (Option.some.inj h)
  obtain ⟨⟨rowcnt, extra, σ⟩, _, rfl⟩ := Option.map_eq_some_iff.mp hrows
  exact Returns.mapM (fun i _ => flat_genRow he t' 0 i) σ

/-- A file of the distributions of `sampleDists`. -/
def sampleLines : List Str :=
  ["BEGIN nations", "COUNT|2", "ALGERIA|0", "ARGENTINA|1", "END nations",
    "BEGIN regions", "COUNT|2", "AFRICA|1", "AMERICA|1", "END regions",
    "BEGIN o_oprio", "COUNT|1", "1-URGENT|1", "END o_oprio",
    "BEGIN smode", "COUNT|1", "AIR|1", "END smode",
    "BEGIN msegmnt", "COUNT|1", "BUILDING|1", "END msegmnt",
    "BEGIN colors", "COUNT|3", "almond|1", "antique|1", "aquamarine|1", "END colors",
    "BEGIN p_types", "COUNT|1", "STANDARD ANODIZED TIN|1", "END p_types",
    "BEGIN p_cntr", "COUNT|1", "SM CASE|1", "END p_cntr"]

set_option maxRecDepth 4000 in
theorem plainText_sampleLines : PlainText (joinLines sampleLines) := by
  decide

set_option maxRecDepth 4000 in
theorem loadDists_sampleLines : loadDists (joinLines sampleLines) = .ok sampleDists := by
  have hfitting : Fitting sampleLines := by simp [Fitting, sampleLines]
  have hlines := lines_joinLines hfitting
  simp only [loadDists, readDist, hlines]
  with_unfolding_all rfl

/-- **The tables have the rows of the job**, record by record and field by field. -/
theorem genTable_tables {file : Str} (hfile : PlainText file) {e : Env}
    (hdists : loadDists file = .ok e.dists) {table : Option Str} {parallel : Option ℕ}
    {out : List (Table × List Row)} (hout : genTable e table parallel = some out) (t : Table) :
    textTable out t = ((outputOf out t).flatMap Row.records).map (List.map some) := by
  have he := loadDists_printable hfile hdists
  have hflat : ∀ r ∈ out, ∀ row ∈ r.2, ∀ fields ∈ row.records, FlatRecord r.1 fields := by
    obtain ⟨option, _, hout⟩ := Option.bind_eq_some_iff.mp hout
    dsimp only at hout
    split_ifs at hout
    intro r hr
    obtain ⟨c, _, hc⟩ := exists_of_mem_mapM hout hr
    exact flat_runCommand he hc
  rw [textTable, outputOf, List.flatMap_assoc, List.map_flatMap]
  refine List.flatMap_congr fun r hr => ?_
  obtain ⟨hr, ht⟩ := List.mem_filter.mp hr
  have ht : r.1 = t := of_decide_eq_true ht
  exact readLines_mapperFile (ht ▸ hflat r hr)

theorem genTable_tables_sample :
    ∃ out, genTable sampleEnv none (some 2) = some out ∧
      ∀ t, textTable out t = ((outputOf out t).flatMap Row.records).map (List.map some) :=
  have hout := @genTable_eq sampleEnv sampleEnv_drawable 2 (by decide) (by decide) (by decide)
  ⟨_, hout, genTable_tables plainText_sampleLines loadDists_sampleLines hout⟩

end Structor.Dbgen
