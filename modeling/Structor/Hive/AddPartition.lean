import Mathlib.Data.Char
import Mathlib.Data.List.Lex
import Mathlib.Logic.Function.Basic
import Mathlib.Order.MinMax
import Structor.Python
import Structor.Steps

/-!
# The stored procedure that adds a partition (`addpartition.hplsql`)

The run id of the next partition is the greatest one of the latest date with an `X` before
it. Every run id comes before itself with an `X` in front, so that the new one is greater
than all others.

## Main definitions

* `Warehouse` -- the partitions, the files and the table of states
* `addpartition` -- one run of the procedure
* `IsRunid` -- the run ids that occur
* `AddsPartition` -- what a run should do
-/
namespace Structor.Hive
variable {γ : Type}

structure Warehouse (γ : Type) where
  /-- The partitions of `citydata`, by date and run id. -/
  partitions : List (Str × Str)
  files : Str → Option γ
  state : List (Str × Str × Bool)

/-- `MAX_PART_STRING`: the greatest value in string order. -/
def maxPartString (values : List Str) : Option Str := values.max?

/-- `NVL(value, 'UNDEFINED')`. -/
def orUndefined (value : Option Str) : Str := value.getD "UNDEFINED"

namespace Warehouse

def maxPartition (w : Warehouse γ) : Str := orUndefined (maxPartString (w.partitions.map Prod.fst))

/-- The run ids of the latest date. -/
def runids (w : Warehouse γ) : List Str :=
  (w.partitions.filter fun p => p.1 = w.maxPartition).map Prod.snd

def nextRunid (w : Warehouse γ) : Str := "X" ++ orUndefined (maxPartString w.runids)

end Warehouse

def warehouseDir : Str := "/apps/hive/warehouse/citydata.db/citydata/load_date="

def dataFile : Str := "/sampledata.csv"

def path (loadDate runid : Str) : Str :=
  warehouseDir ++ (loadDate ++ "/runid=" ++ runid) ++ dataFile

/-- One run. The file is overwritten, and the partition is added if it does not exist. -/
def addpartition (w : Warehouse γ) (sampledata : γ) : Warehouse γ where
  partitions :=
    if (w.maxPartition, w.nextRunid) ∈ w.partitions then w.partitions
    else w.partitions ++ [(w.maxPartition, w.nextRunid)]
  files := Function.update w.files (path w.maxPartition w.nextRunid) (some sampledata)
  state := w.state ++ [(w.maxPartition, w.nextRunid, true)]

/-- A decimal numeral, with or without a sign. -/
def IsNumeral (s : Str) : Prop :=
  ∃ digits : Str, digits ≠ [] ∧ (∀ c ∈ digits, c.isDigit) ∧ (s = digits ∨ s = '-' :: digits)

/-- The run ids that occur: numerals, and what the procedure itself computes. -/
inductive IsRunid : Str → Prop
  | numeral {s : Str} (h : IsNumeral s) : IsRunid s
  | undefined : IsRunid ("X" ++ "UNDEFINED" : Str)
  | next {r : Str} (h : IsRunid r) : IsRunid ("X" ++ r)

/-- What a run should do: a run id above all others of the date, one more partition, and no
other partition's data touched. -/
structure AddsPartition (before after : Warehouse γ) : Prop where
  fresh : before.nextRunid ∉ before.runids
  newest : ∀ r ∈ before.runids, r < before.nextRunid
  partitions : after.partitions = before.partitions ++ [(before.maxPartition, before.nextRunid)]
  date : after.maxPartition = before.maxPartition
  kept : ∀ p ∈ before.partitions, p.1 = before.maxPartition ∨ '/' ∉ p.2 →
    after.files (path p.1 p.2) = before.files (path p.1 p.2)

/-! ## The order of run ids -/

theorem cons_lt_cons {c : Char} {r s : Str} (h : r < s) : c :: r < c :: s := by
  simpa using h

theorem cons_lt_of_lt {c d : Char} (h : c < d) (r s : Str) : c :: r < d :: s :=
  List.Lex.rel h

/-- Digits and the sign come before the letters. -/
theorem lt_of_isDigit {c : Char} (h : c.isDigit = true) : c < 'X' := by
  simp only [Char.isDigit, Bool.and_eq_true, decide_eq_true_eq] at h
  exact lt_of_le_of_lt h.2 (by decide : '9'.val < 'X'.val)

/-- A run id comes before itself with an `X` in front. -/
theorem IsRunid.lt_next {r : Str} (h : IsRunid r) : r < 'X' :: r := by
  induction h with
  | @numeral s h =>
      obtain ⟨digits, hne, hdigits, hs⟩ := h
      rcases hs with rfl | rfl
      · cases s with
        | nil => exact absurd rfl hne
        | cons c digits => exact cons_lt_of_lt (lt_of_isDigit (hdigits c List.mem_cons_self)) _ _
      · exact cons_lt_of_lt (by decide) _ _
  | undefined => decide
  | next _ ih => exact cons_lt_cons ih

theorem maxPartString_eq_some {values : List Str} {m : Str} :
    maxPartString values = some m ↔ m ∈ values ∧ ∀ v ∈ values, v ≤ m :=
  List.max?_eq_some_iff

theorem exists_maxPartString {values : List Str} (h : values ≠ []) :
    ∃ m, maxPartString values = some m ∧ m ∈ values ∧ ∀ v ∈ values, v ≤ m := by
  obtain ⟨m, hm⟩ := Option.isSome_iff_exists.mp (List.isSome_max?_of_ne_nil h)
  exact ⟨m, hm, maxPartString_eq_some.mp hm⟩

/-- The greatest run id with an `X` in front comes after every run id. -/
theorem lt_cons_of_le {r m : Str} (h : IsRunid r) (hle : r ≤ m) : r < 'X' :: m := by
  have hcons : 'X' :: r ≤ 'X' :: m := by
    rcases lt_or_eq_of_le hle with hlt | rfl
    · exact le_of_lt (cons_lt_cons hlt)
    · exact le_refl _
  exact lt_of_lt_of_le h.lt_next hcons

/-! ## One run -/

variable {w : Warehouse γ}

theorem exists_maxPartition (h : w.partitions ≠ []) :
    (∃ p ∈ w.partitions, p.1 = w.maxPartition) ∧ ∀ p ∈ w.partitions, p.1 ≤ w.maxPartition := by
  have hdates : w.partitions.map Prod.fst ≠ [] := by simpa using h
  obtain ⟨m, hm, hmem, hle⟩ := exists_maxPartString hdates
  have hlatest : w.maxPartition = m := by
    rw [Warehouse.maxPartition, hm, orUndefined, Option.getD_some]
  rw [hlatest]
  refine ⟨by simpa using hmem, ?_⟩
  intro p hp
  exact hle p.1 (List.mem_map_of_mem hp)

theorem mem_runids {r : Str} : r ∈ w.runids ↔ (w.maxPartition, r) ∈ w.partitions := by
  simp only [Warehouse.runids, List.mem_map, List.mem_filter, decide_eq_true_eq, Prod.exists]
  constructor
  · intro h
    obtain ⟨date, runid, ⟨hmem, rfl⟩, rfl⟩ := h
    exact hmem
  · intro h
    exact ⟨w.maxPartition, r, ⟨h, rfl⟩, rfl⟩

/-- The next run id is an `X` before one that exists, and all others come before it. -/
theorem exists_nextRunid (h : w.partitions ≠ []) :
    ∃ m ∈ w.runids, w.nextRunid = 'X' :: m ∧ ∀ r ∈ w.runids, r ≤ m := by
  obtain ⟨⟨p, hp, hdate⟩, -⟩ := exists_maxPartition h
  have hmem : p.2 ∈ w.runids := by
    rw [mem_runids, ← hdate]
    exact hp
  obtain ⟨m, hm, hmax, hle⟩ := exists_maxPartString (List.ne_nil_of_mem hmem)
  refine ⟨m, hmax, ?_, hle⟩
  rw [Warehouse.nextRunid, hm, orUndefined, Option.getD_some]
  rfl

theorem IsRunid.slash_notMem {r : Str} (h : IsRunid r) : '/' ∉ r := by
  induction h with
  | @numeral s h =>
      obtain ⟨digits, -, hdigits, hs⟩ := h
      have hslash : '/' ∉ digits := fun hmem => absurd (hdigits '/' hmem) (by decide)
      rcases hs with rfl | rfl
      · exact hslash
      · simpa using hslash
  | undefined => decide
  | next _ ih => simpa using ih

/-- The file of a partition tells its date and its run id. -/
theorem path_injective {date date' r r' : Str} (hr : '/' ∉ r) (hr' : '/' ∉ r')
    (h : path date r = path date' r') : date = date' ∧ r = r' := by
  have hdir := List.append_cancel_left (List.append_cancel_right h)
  have hrest : date ++ '/' :: ("runid=" ++ r) = date' ++ '/' :: ("runid=" ++ r') := by
    rw [List.append_assoc, List.append_assoc] at hdir
    exact hdir
  have hslash : ∀ s : Str, '/' ∉ s → '/' ∉ ("runid=" : Str) ++ s := by
    intro s hs
    simpa using hs
  have hsplit := congrArg (List.splitOn '/') hrest
  rw [Python.splitOn_append_cons _ (hslash r hr), Python.splitOn_append_cons _ (hslash r' hr')]
    at hsplit
  have hlast := List.singleton_inj.mp (List.append_inj' hsplit rfl).2
  obtain rfl : r = r' := List.append_cancel_left hlast
  exact ⟨List.append_cancel_right hrest, rfl⟩

/-- What holds of the table before every run. -/
structure Numbered (w : Warehouse γ) : Prop where
  nonempty : w.partitions ≠ []
  runids : ∀ r ∈ w.runids, IsRunid r

theorem newest_nextRunid (h : Numbered w) : ∀ r ∈ w.runids, r < w.nextRunid := by
  obtain ⟨m, -, hnext, hle⟩ := exists_nextRunid h.nonempty
  intro r hr
  rw [hnext]
  exact lt_cons_of_le (h.runids r hr) (hle r hr)

theorem fresh_nextRunid (h : Numbered w) : w.nextRunid ∉ w.runids := by
  intro hmem
  exact lt_irrefl _ (newest_nextRunid h _ hmem)

theorem isRunid_nextRunid (h : Numbered w) : IsRunid w.nextRunid := by
  obtain ⟨m, hm, hnext, -⟩ := exists_nextRunid h.nonempty
  rw [hnext]
  exact .next (h.runids m hm)

theorem partitions_addpartition (h : Numbered w) (sampledata : γ) :
    (addpartition w sampledata).partitions = w.partitions ++ [(w.maxPartition, w.nextRunid)] := by
  have habsent : (w.maxPartition, w.nextRunid) ∉ w.partitions := by
    rw [← mem_runids]
    exact fresh_nextRunid h
  rw [addpartition, if_neg habsent]

/-- The date of the new partition stays the latest one. -/
theorem maxPartition_addpartition (h : Numbered w) (sampledata : γ) :
    (addpartition w sampledata).maxPartition = w.maxPartition := by
  obtain ⟨⟨p, hp, hdate⟩, hle⟩ := exists_maxPartition h.nonempty
  have hmax : maxPartString ((addpartition w sampledata).partitions.map Prod.fst) =
      some w.maxPartition := by
    rw [maxPartString_eq_some, partitions_addpartition h, List.map_append]
    constructor
    · exact List.mem_append_left _ (List.mem_map.mpr ⟨p, hp, hdate⟩)
    · intro v hv
      rcases List.mem_append.mp hv with hv | hv
      · obtain ⟨q, hq, rfl⟩ := List.mem_map.mp hv
        exact hle q hq
      · exact le_of_eq (List.mem_singleton.mp hv)
  rw [Warehouse.maxPartition, hmax, orUndefined, Option.getD_some]

/-- One run does what it should. -/
theorem addsPartition (h : Numbered w) (sampledata : γ) :
    AddsPartition w (addpartition w sampledata) where
  fresh := fresh_nextRunid h
  newest := newest_nextRunid h
  partitions := partitions_addpartition h sampledata
  date := maxPartition_addpartition h sampledata
  kept p hp hslash := by
    have hnext := isRunid_nextRunid h
    have hother : path p.1 p.2 ≠ path w.maxPartition w.nextRunid := by
      intro hpath
      have hp2 : '/' ∉ p.2 := by
        rcases hslash with hlatest | hslash
        · refine (h.runids p.2 ?_).slash_notMem
          rw [mem_runids, ← hlatest]
          exact hp
        · exact hslash
      obtain ⟨hdate, hrunid⟩ := path_injective hp2 hnext.slash_notMem hpath
      refine fresh_nextRunid h ?_
      rw [mem_runids, ← hdate, ← hrunid]
      exact hp
    exact Function.update_of_ne hother _ _

theorem numbered_addpartition (h : Numbered w) (sampledata : γ) :
    Numbered (addpartition w sampledata) where
  nonempty := by
    rw [partitions_addpartition h]
    simp
  runids r hr := by
    rw [mem_runids, maxPartition_addpartition h, partitions_addpartition h, List.mem_append,
      List.mem_singleton] at hr
    rcases hr with hr | hr
    · exact h.runids r (mem_runids.mpr hr)
    · rw [(Prod.mk.inj hr).2]
      exact isRunid_nextRunid h

/-! ## Successive runs -/

/-- Every one of a number of runs adds one new partition of the latest date, above all others,
and leaves the data of the others alone, so that together they add as many partitions as there
are runs. -/
theorem adds_partitions (w : Warehouse γ) (hne : w.partitions ≠ [])
    (hrunids : ∀ r ∈ w.runids, IsRunid r) (loads : List γ) :
    EachStep addpartition (fun w sampledata => AddsPartition w (addpartition w sampledata))
      w loads ∧
    ∃ new, (loads.foldl addpartition w).partitions = w.partitions ++ new ∧
      new.length = loads.length ∧ new.Nodup ∧
      ∀ p ∈ new, p.1 = w.maxPartition ∧ p ∉ w.partitions := by
  have h : Numbered w := ⟨hne, hrunids⟩
  clear hne hrunids
  induction loads generalizing w with
  | nil => exact ⟨eachStep_nil w, [], by simp⟩
  | cons sampledata loads ih =>
      have hadds := addsPartition h sampledata
      obtain ⟨hsteps, new, hpartitions, hlength, hnodup, hnew⟩ :=
        ih (addpartition w sampledata) (numbered_addpartition h sampledata)
      refine ⟨(eachStep_cons w sampledata loads).mpr ⟨hadds, hsteps⟩,
        (w.maxPartition, w.nextRunid) :: new, ?_, ?_, ?_, ?_⟩
      · rw [List.foldl_cons, hpartitions, hadds.partitions, List.append_assoc,
          List.singleton_append]
      · rw [List.length_cons, List.length_cons, hlength]
      · refine List.nodup_cons.mpr ⟨?_, hnodup⟩
        intro hmem
        refine (hnew _ hmem).2 ?_
        rw [hadds.partitions]
        simp
      · intro p hp
        rcases List.mem_cons.mp hp with rfl | hp
        · exact ⟨rfl, fun hmem => hadds.fresh (mem_runids.mpr hmem)⟩
        · obtain ⟨hdate, habsent⟩ := hnew p hp
          rw [hadds.partitions, List.mem_append, not_or] at habsent
          exact ⟨hdate.trans hadds.date, habsent.1⟩

/-- Two dates, and in the later one a numeral beside an earlier output. -/
def sampleWarehouse : Warehouse Unit where
  partitions := [("20160809", "1"), ("20160810", "12"), ("20160810", "X3")]
  files _ := none
  state := []

theorem sampleWarehouse_adds : ∃ new,
    ([(), ()].foldl addpartition sampleWarehouse).partitions =
      sampleWarehouse.partitions ++ new ∧ new.length = 2 ∧ new.Nodup := by
  have hrunids : sampleWarehouse.runids = ["12", "X3"] := by decide
  have htwelve : IsRunid "12" := .numeral ⟨['1', '2'], by simp, by simp, .inl rfl⟩
  have hthree : IsRunid "3" := .numeral ⟨['3'], by simp, by simp, .inl rfl⟩
  have hall : ∀ r ∈ sampleWarehouse.runids, IsRunid r := by
    rw [hrunids]
    intro r hr
    rcases List.mem_cons.mp hr with rfl | hr
    · exact htwelve
    · rw [List.mem_singleton.mp hr]
      exact .next hthree
  obtain ⟨-, new, hpartitions, hlength, hnodup, -⟩ :=
    adds_partitions sampleWarehouse (by decide) hall [(), ()]
  exact ⟨new, hpartitions, hlength, hnodup⟩

end Structor.Hive
