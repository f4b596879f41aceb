import Structor.Csv
import Structor.Keyed
import Structor.Overwrite
import Structor.Python

/-!
# The charts of the dashboard

The timings of the BI queries are read from the result files of two versions and merged by
name. They are shown in two charts, in which a query is labelled with the digits of its name.

## Main definitions

* `reading` -- the rows that the reader of the module csv yields, and whether it raises
* `getTbench1Data` -- the times of a result file
* `getBiTimings` -- the two charts
* `OwnEntry` -- a query has an entry to itself
-/
namespace Structor.Dashboard
open Python
variable {β : Type}

/-! ## Files of comma-separated rows -/

/-- Where the reader is after a character, as far as quotes are concerned. -/
def next : Csv.State → Char → Csv.State
  | .quoted, c => if c = '"' then .quote else .quoted
  | .quote, c => if c = '"' then .quoted else if c = ',' then .start else .field
  | .start, c => if c = '"' then .quoted else if c = ',' then .start else .field
  | .field, c => if c = ',' then .start else .field

/-- A quoted field goes on in the next line. -/
def isOpen (text : Str) : Bool :=
  match text.foldl next .start with
  | .quoted => true
  | _ => false

/-- The default of `csv.field_size_limit`. -/
def fieldSizeLimit : ℕ := 131072

/-- What the reader yields, and whether it raises after that. -/
structure Reading where
  rows : List (List Str)
  raises : Bool

/-- A row, unless something follows its end or a field is too long. -/
def record (text : Str) : Option (List Str) :=
  (Csv.readRow text).filter fun row => !row.any fun field => decide (fieldSizeLimit < field.length)

/-- The reader on the lines that are left. The text of an unfinished row comes first. -/
def readingLines : Str → List Str → Reading
  | text, [] =>
      if text = [] then ⟨[], false⟩
      else
        match record text with
        | none => ⟨[], true⟩
        | some row => ⟨[row], false⟩
  | text, line :: lines =>
      if '\x00' ∈ line then ⟨[], true⟩
      else if isOpen (text ++ line) then readingLines (text ++ line) lines
      else
        match record (text ++ line) with
        | none => ⟨[], true⟩
        | some row => ⟨row :: (readingLines [] lines).rows, (readingLines [] lines).raises⟩

def reading (text : Str) : Reading := readingLines [] (fileLines text)

/-! ## The timings -/

/-- `''.join(re.findall('\d+', s))` -/
def getNumber (s : Str) : Str := ((s.splitOnP fun c => !c.isDigit).filter (· ≠ [])).flatten

/-- The name and the time of a row. -/
def nameAndTime (row : List Str) : Except Error (Str × Str) := do
  let name ← item row 4
  let _status ← item row 6
  let time ← item row 17
  pure (name, time)

/-- The loop over the rows, which ends at the first row that raises. -/
def readRecords : List (List Str) → List (Str × Str) → List (Str × Str)
  | [], records => records
  | row :: rows, records =>
      match nameAndTime row with
      | .ok x => readRecords rows (Keyed.put Prod.fst x records)
      | .error _ => records

/-- The rows after the header, none for a file that cannot be opened. -/
def dataRows : Option Str → List (List Str)
  | none => []
  | some text => (reading text).rows.tail

/-- The dictionary of a version. Whatever is raised ends the reading. -/
def getTbench1Data (file : Option Str) : List (Str × Str) := readRecords (dataRows file) []

/-- `records.get(k) or "0"` -/
def timeOr0 (records : List (Str × Str)) (k : Str) : Str :=
  match Keyed.get Prod.fst k records with
  | some x => if x.2 = [] then "0" else x.2
  | none => "0"

/-- The old and the new time. -/
abbrev Timing : Type := Str × Str

def tbenchData (v1 v2 : List (Str × Str)) : List (Str × Timing) :=
  (v1.map Prod.fst ++ v2.map Prod.fst).foldl
    (fun data k => Keyed.put Prod.fst (k, timeOr0 v1 k, timeOr0 v2 k) data) []

/-- A dictionary lists its items in an order of its own. -/
def Order : Type :=
  { order : List (Str × Timing) → List (Str × Timing) // ∀ items, (order items).Perm items }

def otherInteractive : Str := "hive-otherinteractive"

/-- A comprehension over the items of one of the charts: the digits of the name are the key,
and a later item replaces an earlier one. -/
def chart (value : Str × Timing → β) (other : Bool) (items : List (Str × Timing)) :
    Str → Option β :=
  writeAll ((items.filter fun x => decide (otherInteractive <+: x.1) == other).map fun x =>
    (getNumber x.1, value x))

/-- The charts, with something that is kept of each item. -/
def biTimings (value : Str × Timing → β) (order : Order) (old new : Option Str) (other : Bool) :
    Str → Option β :=
  chart value other (order.1 (tbenchData (getTbench1Data old) (getTbench1Data new)))

/-- The charts `(other_interactive, faster_queries)`. -/
def getBiTimings (order : Order) (old new : Option Str) :
    (Str → Option Timing) × (Str → Option Timing) :=
  (biTimings Prod.snd order old new true, biTimings Prod.snd order old new false)

/-! ## What is expected of the charts -/

/-- A row names the query. -/
def Names (name : Str) (row : List Str) : Prop := row[4]? = some name

instance (name : Str) (row : List Str) : Decidable (Names name row) :=
  inferInstanceAs (Decidable (row[4]? = some name))

/-- The reader raises nothing in the file. Where it does, the record at which it raises and
all that follow it are lost, since whatever is raised ends the reading. -/
def Accepted : Option Str → Prop
  | none => True
  | some text => (reading text).raises = false

/-- The name is in a row of the file. -/
def Occurs (file : Option Str) (name : Str) : Prop := ∃ row ∈ dataRows file, Names name row

/-- The time of the last row with the name, `0` if there is none. -/
def lastTime (rows : List (List Str)) (name : Str) : Str :=
  match (rows.reverse.find? fun row => Names name row).bind fun row => row[17]? with
  | some time => if time = [] then "0" else time
  | none => "0"

/-- The query's own times. -/
def ownTiming (old new : Option Str) (name : Str) : Timing :=
  (lastTime (dataRows old) name, lastTime (dataRows new) name)

/-- The entry under the query's number is the query's and has its times. -/
def OwnEntry (order : Order) (old new : Option Str) (name : Str) (other : Bool) : Prop :=
  biTimings Prod.fst order old new other (getNumber name) = some name ∧
    (if other then (getBiTimings order old new).1 else (getBiTimings order old new).2)
      (getNumber name) = some (ownTiming old new name)

/-- No record of the files is lost in reading, and every query has an entry to itself in
exactly one of the charts. -/
structure Lossless (order : Order) (old new : Option Str) : Prop where
  accepted : Accepted old ∧ Accepted new
  entry : ∀ name, Occurs old name ∨ Occurs new name → ∃! other, OwnEntry order old new name other

/-- The row has all columns that are used. -/
def Complete (row : List Str) : Prop := 17 < row.length

instance (row : List Str) : Decidable (Complete row) :=
  inferInstanceAs (Decidable (17 < row.length))

/-- The rows before the first one that is too short. -/
def completeRows (file : Option Str) : List (List Str) :=
  (dataRows file).takeWhile fun row => Complete row

/-- No query gets its name or its time from a row that is too short or after such a row. -/
def AllRead (old new : Option Str) : Prop :=
  ∀ name, Occurs old name ∨ Occurs new name →
    (∃ row ∈ completeRows old ++ completeRows new, Names name row) ∧
      (lastTime (completeRows old) name, lastTime (completeRows new) name) =
        ownTiming old new name

/-- The queries of a chart have different digits. -/
def Separate (old new : Option Str) : Prop :=
  ∀ a b, (Occurs old a ∨ Occurs new a) → (Occurs old b ∨ Occurs new b) →
    (otherInteractive <+: a ↔ otherInteractive <+: b) → getNumber a = getNumber b → a = b

/-! ## What is read -/

/-- The name and the time of a complete row. -/
def entryOf (row : List Str) : Str × Str := (row.getD 4 [], row.getD 17 [])

theorem item_eq_of_lt {l : List Str} (k : ℕ) (h : k < l.length) :
    item l k = .ok (l.getD k []) := by
  have hneg : ¬ (k : ℤ) < 0 := by omega
  simp only [item, if_neg hneg, Int.toNat_natCast, List.getElem?_eq_getElem h,
    List.getD_eq_getElem?_getD, Option.getD_some]

theorem nameAndTime_of_complete {row : List Str} (h : Complete row) :
    nameAndTime row = .ok (entryOf row) := by
  have hlength : 17 < row.length := h
  have h4 : item row 4 = .ok (row.getD 4 []) := item_eq_of_lt 4 (by omega)
  have h6 : item row 6 = .ok (row.getD 6 []) := item_eq_of_lt 6 (by omega)
  have h17 : item row 17 = .ok (row.getD 17 []) := item_eq_of_lt 17 hlength
  rw [nameAndTime, h4, ok_bind, h6, ok_bind, h17, ok_bind]
  rfl

theorem item_eq_error {l : List Str} (k : ℕ) (h : ¬ k < l.length) :
    item l k = .error .indexError := by
  have hneg : ¬ (k : ℤ) < 0 := by omega
  have hnone : l[k]? = none := List.getElem?_eq_none (by omega)
  simp only [item, if_neg hneg, Int.toNat_natCast, hnone]

theorem nameAndTime_of_not_complete {row : List Str} (h : ¬ Complete row) :
    nameAndTime row = .error .indexError := by
  have h17 : item row 17 = .error .indexError := item_eq_error 17 h
  rw [nameAndTime]
  by_cases h4 : 4 < row.length
  · have hfour : item row 4 = .ok (row.getD 4 []) := item_eq_of_lt 4 h4
    rw [hfour, ok_bind]
    by_cases h6 : 6 < row.length
    · have hsix : item row 6 = .ok (row.getD 6 []) := item_eq_of_lt 6 h6
      rw [hsix, ok_bind, h17, error_bind]
    · have hsix : item row 6 = .error .indexError := item_eq_error 6 h6
      rw [hsix, error_bind]
  · have hfour : item row 4 = .error .indexError := item_eq_error 4 h4
    rw [hfour, error_bind]

theorem readRecords_eq (rows : List (List Str)) (records : List (Str × Str)) :
    readRecords rows records = ((rows.takeWhile fun row => Complete row).map entryOf).foldl
      (fun records x => Keyed.put Prod.fst x records) records := by
  induction rows generalizing records with
  | nil => rfl
  | cons row rows ih =>
      by_cases h : Complete row
      · rw [readRecords, nameAndTime_of_complete h, List.takeWhile_cons_of_pos (by simpa using h),
          List.map_cons, List.foldl_cons]
        exact ih _
      · rw [readRecords, nameAndTime_of_not_complete h,
          List.takeWhile_cons_of_neg (by simpa using h)]
        rfl

theorem mem_completeRows {file : Option Str} {row : List Str} (h : row ∈ completeRows file) :
    row ∈ dataRows file ∧ Complete row := by
  have hcomplete := List.mem_takeWhile_imp h
  exact ⟨(List.takeWhile_sublist _).subset h, by simpa using hcomplete⟩

theorem names_iff {row : List Str} (h : Complete row) (name : Str) :
    Names name row ↔ (entryOf row).1 = name := by
  have hlength : 17 < row.length := h
  have hlt : 4 < row.length := by omega
  rw [Names, entryOf, List.getD_eq_getElem?_getD, List.getElem?_eq_getElem hlt, Option.getD_some,
    Option.some.injEq]

theorem time_eq {row : List Str} (h : Complete row) : row[17]? = some (entryOf row).2 := by
  have hlength : 17 < row.length := h
  rw [entryOf, List.getD_eq_getElem?_getD, List.getD_eq_getElem?_getD,
    List.getElem?_eq_getElem hlength, Option.getD_some]

/-- The dictionary gives each query the time of its last row. -/
theorem timeOr0_getTbench1Data (file : Option Str) (name : Str) :
    timeOr0 (getTbench1Data file) name = lastTime (completeRows file) name := by
  have hget : Keyed.get Prod.fst name (getTbench1Data file) =
      ((completeRows file).reverse.find? fun row => Names name row).map entryOf := by
    rw [getTbench1Data, readRecords_eq, Keyed.get_foldl_put, Keyed.get, ← List.map_reverse,
      List.find?_map]
    refine congrArg (Option.map entryOf) (List.find?_congr fun row hrow => ?_)
    have hcomplete := (mem_completeRows (List.mem_reverse.mp hrow)).2
    simp only [Function.comp_apply, names_iff hcomplete]
  rw [timeOr0, lastTime, hget]
  cases hfind : (completeRows file).reverse.find? fun row => Names name row with
  | none => rfl
  | some row =>
      have hmem := List.mem_reverse.mp (List.mem_of_find?_eq_some hfind)
      rw [Option.map_some, Option.bind_some, time_eq (mem_completeRows hmem).2]

theorem mem_keys_getTbench1Data {file : Option Str} {name : Str} :
    name ∈ (getTbench1Data file).map Prod.fst ↔ ∃ row ∈ completeRows file, Names name row := by
  rw [← Keyed.get_isSome_iff, getTbench1Data, readRecords_eq, Keyed.get_foldl_put,
    Keyed.get_isSome_iff, List.map_reverse, List.mem_reverse, List.map_map, List.mem_map]
  refine exists_congr fun row => and_congr_right fun hrow => ?_
  rw [names_iff (mem_completeRows hrow).2]
  rfl

/-- Every name of either version is an item, with its times. -/
theorem mem_tbenchData {v1 v2 : List (Str × Str)} {x : Str × Timing} :
    x ∈ tbenchData v1 v2 ↔ (x.1 ∈ v1.map Prod.fst ∨ x.1 ∈ v2.map Prod.fst) ∧
      x.2 = (timeOr0 v1 x.1, timeOr0 v2 x.1) := by
  have hfold : tbenchData v1 v2 = ((v1.map Prod.fst ++ v2.map Prod.fst).map
      fun k => (k, timeOr0 v1 k, timeOr0 v2 k)).foldl (fun data x => Keyed.put Prod.fst x data)
        [] := by
    rw [tbenchData, List.foldl_map]
  have hmem {y : Str × Timing} (hy : y ∈ tbenchData v1 v2) :
      y.1 ∈ v1.map Prod.fst ++ v2.map Prod.fst ∧ y.2 = (timeOr0 v1 y.1, timeOr0 v2 y.1) := by
    rw [hfold] at hy
    obtain ⟨k, hk, rfl⟩ := List.mem_map.mp (Keyed.mem_of_mem_foldl_put hy)
    exact ⟨hk, rfl⟩
  rw [← List.mem_append]
  constructor
  · exact hmem
  · rintro ⟨hkey, hvalue⟩
    have hsome : (Keyed.get Prod.fst x.1 (tbenchData v1 v2)).isSome = true := by
      rw [hfold, Keyed.get_foldl_put, Keyed.get_isSome_iff, List.map_reverse, List.mem_reverse,
        List.map_map]
      exact List.mem_map.mpr ⟨x.1, hkey, rfl⟩
    obtain ⟨y, hy⟩ := Option.isSome_iff_exists.mp hsome
    have hsame := Keyed.key_of_get hy
    have hyx : y = x := by
      apply Prod.ext hsame
      rw [(hmem (Keyed.mem_of_get hy)).2, hvalue, hsame]
    rw [← hyx]
    exact Keyed.mem_of_get hy

/-! ## What is shown -/

variable {order : Order} {old new : Option Str} {name : Str} {other : Bool}

def items (order : Order) (old new : Option Str) : List (Str × Timing) :=
  order.1 (tbenchData (getTbench1Data old) (getTbench1Data new))

/-- The items are the queries of the complete rows, with their times in these rows. -/
theorem mem_items {x : Str × Timing} : x ∈ items order old new ↔
    (∃ row ∈ completeRows old ++ completeRows new, Names x.1 row) ∧
      x.2 = (lastTime (completeRows old) x.1, lastTime (completeRows new) x.1) := by
  rw [items, (order.2 _).mem_iff, mem_tbenchData, mem_keys_getTbench1Data,
    mem_keys_getTbench1Data, timeOr0_getTbench1Data, timeOr0_getTbench1Data]
  simp only [List.mem_append, or_and_right, exists_or]

/-- What is kept of the items is kept of the entries. -/
theorem biTimings_eq (value : Str × Timing → β) (order : Order) (old new : Option Str)
    (other : Bool) (k : Str) :
    biTimings value order old new other k = (biTimings id order old new other k).map value := by
  rw [biTimings, biTimings, chart, chart, ← writeAll_map, List.map_map]
  rfl

/-- An entry is an item of the chart. -/
theorem of_biTimings {k : Str} {x : Str × Timing}
    (h : biTimings id order old new other k = some x) :
    x ∈ items order old new ∧ decide (otherInteractive <+: x.1) = other ∧ getNumber x.1 = k := by
  obtain ⟨earlier, later, hsplit, -⟩ := writeAll_eq_some_iff.mp h
  have hmem : (k, x) ∈ earlier ++ (k, x) :: later := List.mem_append_right _ List.mem_cons_self
  rw [← hsplit] at hmem
  obtain ⟨y, hy, heq⟩ := List.mem_map.mp hmem
  obtain ⟨hk, rfl⟩ := Prod.mk.inj heq
  obtain ⟨hy, hside⟩ := List.mem_filter.mp hy
  exact ⟨hy, beq_iff_eq.mp hside, hk⟩

/-- A query's own entry is the item of the query. -/
theorem ownEntry_iff : OwnEntry order old new name other ↔
    biTimings id order old new other (getNumber name) = some (name, ownTiming old new name) := by
  have hselect :
      (if other then (getBiTimings order old new).1 else (getBiTimings order old new).2) =
      biTimings Prod.snd order old new other := by
    cases other <;> rfl
  rw [OwnEntry, hselect, biTimings_eq Prod.fst, biTimings_eq Prod.snd]
  cases biTimings id order old new other (getNumber name) with
  | none => simp
  | some x => simp only [Option.map_some, Option.some.injEq, Prod.ext_iff]

/-- An own entry is in the chart that the name belongs to. -/
theorem OwnEntry.side (h : OwnEntry order old new name other) :
    decide (otherInteractive <+: name) = other :=
  (of_biTimings (ownEntry_iff.mp h)).2.1

/-- Every item is the entry under its number exactly if no two items of a chart have the same
number. -/
theorem biTimings_items_iff (order : Order) (old new : Option Str) (other : Bool) :
    (∀ x ∈ items order old new, decide (otherInteractive <+: x.1) = other →
        biTimings Prod.fst order old new other (getNumber x.1) = some x.1) ↔
      ∀ x ∈ items order old new, ∀ y ∈ items order old new,
        decide (otherInteractive <+: x.1) = other → decide (otherInteractive <+: y.1) = other →
          getNumber x.1 = getNumber y.1 → x.1 = y.1 := by
  have hkept := @kept_iff Str (Str × Timing) Str _ (((items order old new).filter fun x =>
    decide (otherInteractive <+: x.1) == other).map fun x => (getNumber x.1, x)) Prod.fst
  have hwrites : ∀ x : Str × Timing, (getNumber x.1, x) ∈ ((items order old new).filter fun x =>
      decide (otherInteractive <+: x.1) == other).map (fun x => (getNumber x.1, x)) ↔
        x ∈ items order old new ∧ decide (otherInteractive <+: x.1) = other := by
    intro x
    rw [List.mem_map]
    constructor
    · rintro ⟨y, hy, heq⟩
      rw [← (Prod.mk.inj heq).2]
      exact (List.mem_filter.mp hy).imp_right beq_iff_eq.mp
    · rintro ⟨hx, hside⟩
      exact ⟨x, List.mem_filter.mpr ⟨hx, beq_iff_eq.mpr hside⟩, rfl⟩
  constructor
  · intro h x hx y hy hside hside' hnumber
    have hshown := h x hx hside
    rw [hnumber, h y hy hside'] at hshown
    exact (Option.some.inj hshown).symm
  · intro h x hx hside
    rw [biTimings_eq]
    refine hkept.mpr ?_ (getNumber x.1, x) ((hwrites x).mpr ⟨hx, hside⟩)
    intro v hv w hw hnumber
    obtain ⟨y, hy, rfl⟩ := List.mem_map.mp hv
    obtain ⟨z, hz, rfl⟩ := List.mem_map.mp hw
    obtain ⟨hy, hy'⟩ := List.mem_filter.mp hy
    obtain ⟨hz, hz'⟩ := List.mem_filter.mp hz
    exact h y hy z hz (beq_iff_eq.mp hy') (beq_iff_eq.mp hz') hnumber

theorem exists_item (hread : AllRead old new) (h : Occurs old name ∨ Occurs new name)
    (order : Order) : (name, ownTiming old new name) ∈ items order old new := by
  obtain ⟨hrow, htimes⟩ := hread name h
  exact mem_items.mpr ⟨hrow, htimes.symm⟩

theorem occurs_of_mem_items {x : Str × Timing} (h : x ∈ items order old new) :
    Occurs old x.1 ∨ Occurs new x.1 := by
  obtain ⟨⟨row, hrow, hnames⟩, -⟩ := mem_items.mp h
  rcases List.mem_append.mp hrow with hrow | hrow
  · exact .inl ⟨row, (mem_completeRows hrow).1, hnames⟩
  · exact .inr ⟨row, (mem_completeRows hrow).1, hnames⟩

theorem Lossless.own (h : Lossless order old new) (hname : Occurs old name ∨ Occurs new name) :
    OwnEntry order old new name (decide (otherInteractive <+: name)) := by
  obtain ⟨other, hother, -⟩ := h.entry name hname
  rwa [hother.side]

theorem Lossless.allRead (h : Lossless order old new) : AllRead old new := by
  intro name hname
  obtain ⟨hrow, htimes⟩ := mem_items.mp (of_biTimings (ownEntry_iff.mp (h.own hname))).1
  exact ⟨hrow, htimes.symm⟩

theorem Lossless.separate (h : Lossless order old new) : Separate old new := by
  intro a b ha hb hside hnumber
  have hentry := ownEntry_iff.mp (h.own ha)
  rw [decide_eq_decide.mpr hside, hnumber, ownEntry_iff.mp (h.own hb)] at hentry
  exact (congrArg Prod.fst (Option.some.inj hentry)).symm

/-- The charts lose no query exactly if the files are accepted by the reader, every query is
read and no two queries of a chart have the same digits in their names. -/
theorem getBiTimings_lossless_iff (order : Order) (old new : Option Str) :
    Lossless order old new ↔
      (Accepted old ∧ Accepted new) ∧ AllRead old new ∧ Separate old new := by
  constructor
  · intro h
    exact ⟨h.accepted, h.allRead, h.separate⟩
  · rintro ⟨haccepted, hread, hseparate⟩
    refine ⟨haccepted, fun name hname => ?_⟩
    have hshown := (biTimings_items_iff order old new (decide (otherInteractive <+: name))).mpr
      (fun x hx y hy hx' hy' => hseparate x.1 y.1 (occurs_of_mem_items hx) (occurs_of_mem_items hy)
        (decide_eq_decide.mp (hx'.trans hy'.symm))) _ (exists_item hread hname order) rfl
    rw [biTimings_eq] at hshown
    obtain ⟨x, hx, hx'⟩ := Option.map_eq_some_iff.mp hshown
    have hitem := of_biTimings hx
    refine ⟨decide (otherInteractive <+: name), ownEntry_iff.mpr (hx.trans ?_),
      fun other h => h.side.symm⟩
    obtain ⟨-, htimes⟩ := mem_items.mp hitem.1
    obtain ⟨-, htimes'⟩ := mem_items.mp (exists_item hread hname order)
    have hname' : x.1 = name := hx'
    rw [hname'] at htimes
    exact congrArg some (Prod.ext hname' (htimes.trans htimes'.symm))

def header : Str := "t,lt,ts,s,lb,rc,rm,tn,dt,by,ng,na,nuser,scale,runid,nodes,query,end,time\n"

/-- Results of two of the queries, of one version and of the next one. -/
def hdp234 : Str := header ++
  ("12695,21,1458441142523,true,hive-5mostprofitable-01,200,OK,User-0 1-1,text,11,1,1,1,2,1,1," ++
    "1458441155218,12.695\r\n" : String) ++
  ("52,0,1458449463835,true,hive-top5bystate-01,200,OK,User-0 1-1,text,115,1,1,1,2,1,1," ++
    "1458449463887,0.052\r\n" : String)

def hdp250 : Str := header ++
  ("1377,14,1460825402290,true,hive-5mostprofitable-01,200,OK,User-0 1-1,text,11,1,1,1,2,1,1," ++
    "1460825403667,1.377\n" : String) ++
  ("273,0,1460839700082,true,hive-top5bystate-01,200,OK,User-0 1-1,text,121,1,1,1,2,1,1," ++
    "1460839700355,0.273\n" : String)

/-- Both names have the digits `501`, so one of the queries is not shown. -/
theorem not_lossless_hdp250 : ¬ ∃ order, Lossless order (some hdp234) (some hdp250) := by
  have hnames : (dataRows (some hdp250)).map (fun row => row[4]?) =
      [some "hive-5mostprofitable-01".toList, some "hive-top5bystate-01".toList] := by
    decide +kernel
  have hoccurs {name : Str} (h : some name ∈ (dataRows (some hdp250)).map fun row => row[4]?) :
      Occurs (some hdp250) name := by
    obtain ⟨row, hrow, heq⟩ := List.mem_map.mp h
    exact ⟨row, hrow, heq⟩
  rintro ⟨order, h⟩
  rw [hnames] at hoccurs
  have hsame := h.separate "hive-5mostprofitable-01" "hive-top5bystate-01"
    (.inr (hoccurs (by simp))) (.inr (hoccurs (by simp))) (by decide) (by decide +kernel)
  exact absurd hsame (by decide)

end Structor.Dashboard
