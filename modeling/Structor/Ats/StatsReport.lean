import Structor.Ats.CounterRecords
import Structor.Ats.ReportFormat

/-!
# The report on estimates and actual numbers

The report prints a line for each vertex of the plan that has an estimate and a record in the
counters.

## Main definitions

* `processFile` -- the lines that are printed for a file
* `Dump` -- a file that was dumped
* `Dump.Handled` -- the file has the lines of its vertices
* `Dump.Reportable` -- the condition on its sections
-/
namespace Structor.Ats
open Python

variable {queryCounters : List QueryCounter}

/-! ## The lines -/

/-- The fields of a line that is printed. -/
structure Line where
  file : Str
  vertex : Str
  estimate : ℕ
  actual : Str
  ratio : Str

/-- What the report takes from the JSON reader, from the logarithm as it is printed, and from
the order of a dictionary. A text with an unfinished string is not JSON, and the dictionaries
that are made of a text have an order of their own. -/
structure Library where
  loads : Str → Except Error Json
  loads_ne_ok : ∀ text value, scan .outside text ≠ .outside → loads text ≠ .ok value
  order : Json → Json
  order_sorted : ∀ value, (order value).sorted = value.sorted
  log10ratio : ℕ → ℕ → Str
  iteritems : List QueryCounter → List QueryCounter
  iteritems_perm : ∀ queryCounters, (iteritems queryCounters).Perm queryCounters

/-- The least number that rounds to a float beyond the largest one. -/
def floatLimit : ℕ := 2 ^ 1024 - 2 ^ 970

theorem lt_floatLimit {n : ℕ} (h : n < 2 ^ 54 - 1) : n < floatLimit := by
  have hfactor (a b : ℕ) : 2 ^ b - 1 ≤ 2 ^ (a + b) - 2 ^ a := by
    have hmul : 2 ^ (a + b) - 2 ^ a = 2 ^ a * (2 ^ b - 1) := by
      rw [pow_add, Nat.mul_sub, mul_one]
    rw [hmul]
    exact Nat.le_mul_of_pos_left _ (Nat.two_pow_pos a)
  rw [floatLimit, show 1024 = 970 + 54 from rfl]
  exact h.trans_le (hfactor 970 54)

/-- `long(s)` for the digits of a match. -/
def long (digits : Str) : ℕ := Nat.ofDigitChars 10 digits 0

/-- `math.log10(estimate * 1.0 / actual)` -/
def ratioOf (lib : Library) (estimate actual : ℕ) : Except Error Str :=
  if floatLimit ≤ estimate ∨ floatLimit ≤ actual then .error .overflowError
  else if actual = 0 then .error .zeroDivisionError
  else if estimate = 0 then .error .valueError
  else .ok (lib.log10ratio estimate actual)

/-- One turn of the last loop. A vertex is a unicode text, and is encoded as ASCII. -/
def printLine (lib : Library) (f : Str) (lines : List Line) (q : QueryCounter) :
    Except Error (List Line) :=
  match q.actual with
  | none => .ok lines
  | some actual => do
      let ratio ← ratioOf lib q.estimate (long actual)
      let vertex ← str (.str q.vertex)
      return lines ++ [⟨f, vertex, q.estimate, actual, ratio⟩]

/-- The lines that are printed for a file. -/
def processFile (lib : Library) (f text : Str) : Except Error (List Line) := do
  let planText ← Python.item (chunks text) 2
  if strip planText = "ERROR".toList then return []
  else
    let plan ← lib.loads planText
    let queryCounters ← readPlan plan
    let counters ← Python.item (chunks text) 3
    let queryCounters ← readRecords queryCounters counters
    (lib.iteritems queryCounters).foldlM (printLine lib f) []

/-- A vertex can be printed with its numbers: the text is ASCII, and the numbers are positive
and have floats. -/
structure Printable (vertex : Str) (estimate : ℕ) (actual : Str) : Prop where
  encodable : Encodable (.str vertex)
  estimate_pos : 0 < estimate
  estimate_lt : estimate < floatLimit
  actual_pos : 0 < long actual
  actual_lt : long actual < floatLimit

def lineOf (lib : Library) (f : Str) (q : QueryCounter) (actual : Str) : Line :=
  ⟨f, q.vertex, q.estimate, actual, lib.log10ratio q.estimate (long actual)⟩

theorem ratioOf_eq_ok_iff {lib : Library} {estimate actual : ℕ} {ratio : Str} :
    ratioOf lib estimate actual = .ok ratio ↔
      (0 < estimate ∧ estimate < floatLimit ∧ 0 < actual ∧ actual < floatLimit) ∧
        ratio = lib.log10ratio estimate actual := by
  unfold ratioOf
  by_cases hlarge : floatLimit ≤ estimate ∨ floatLimit ≤ actual
  · rw [if_pos hlarge]
    exact iff_of_false (fun h => by cases h) fun h => by omega
  · rw [if_neg hlarge]
    by_cases hactual : actual = 0
    · rw [if_pos hactual]
      exact iff_of_false (fun h => by cases h) fun h => by omega
    · rw [if_neg hactual]
      by_cases hestimate : estimate = 0
      · rw [if_pos hestimate]
        exact iff_of_false (fun h => by cases h) fun h => by omega
      · rw [if_neg hestimate, Except.ok.injEq, eq_comm, and_iff_right]
        omega

theorem printLine_iff {lib : Library} {f : Str} {lines lines' : List Line} {q : QueryCounter} :
    printLine lib f lines q = .ok lines' ↔
      (∀ actual, q.actual = some actual → Printable q.vertex q.estimate actual) ∧
        lines' = lines ++ (q.actual.map (lineOf lib f q)).toList := by
  unfold printLine
  cases q.actual with
  | none => simp [eq_comm]
  | some actual =>
      simp only [Option.some.injEq, forall_eq', Option.map_some, Option.toList_some]
      constructor
      · intro h
        obtain ⟨ratio, hratio, h⟩ := bind_eq_ok h
        obtain ⟨vertex, hvertex, h⟩ := bind_eq_ok h
        obtain ⟨⟨hestimate, hestimate', hactual, hactual'⟩, rfl⟩ := ratioOf_eq_ok_iff.mp hratio
        rw [str] at hvertex
        by_cases hascii : Encodable (.str q.vertex)
        · rw [if_pos hascii] at hvertex
          obtain rfl : q.vertex = vertex := Except.ok.inj hvertex
          exact ⟨⟨hascii, hestimate, hestimate', hactual, hactual'⟩, (Except.ok.inj h).symm⟩
        · rw [if_neg hascii] at hvertex
          cases hvertex
      · rintro ⟨⟨hascii, hestimate, hestimate', hactual, hactual'⟩, rfl⟩
        rw [ratioOf_eq_ok_iff.mpr ⟨⟨hestimate, hestimate', hactual, hactual'⟩, rfl⟩, ok_bind, str,
          if_pos hascii]
        rfl

theorem foldlM_printLine_iff {lib : Library} {f : Str} {lines : List Line} :
    queryCounters.foldlM (printLine lib f) [] = .ok lines ↔
      (∀ q ∈ queryCounters, ∀ actual, q.actual = some actual →
          Printable q.vertex q.estimate actual) ∧
        lines = queryCounters.filterMap fun q => q.actual.map (lineOf lib f q) := by
  have hfold (queryCounters : List QueryCounter) (lines : List Line) :
      queryCounters.foldl (fun lines q => lines ++ (q.actual.map (lineOf lib f q)).toList) lines =
        lines ++ queryCounters.filterMap fun q => q.actual.map (lineOf lib f q) := by
    induction queryCounters generalizing lines with
    | nil => simp
    | cons q queryCounters ih =>
        rw [List.foldl_cons, ih, List.append_assoc, List.filterMap_cons]
        cases q.actual <;> rfl
  have hfine (q : QueryCounter) (lines : List Line)
      (h : ∀ actual, q.actual = some actual → Printable q.vertex q.estimate actual) :
      printLine lib f lines q = .ok (lines ++ (q.actual.map (lineOf lib f q)).toList) :=
    printLine_iff.mpr ⟨h, rfl⟩
  have hnot (q : QueryCounter) (lines lines' : List Line)
      (h : printLine lib f lines q = .ok lines') := (printLine_iff.mp h).1
  rw [foldlM_eq_ok_iff hfine hnot, hfold, List.nil_append]

/-- What the report needs of a plan and of the records of the counters. -/
structure Fits (plan : Json) (records : List (Option (Str × Str))) : Prop where
  readable : ReadablePlan plan
  known : ∀ r ∈ records, Known (estimated plan) r
  printable : ∀ q ∈ estimated plan, ∀ actual, lastCount records q.vertex = some actual →
    Printable q.vertex q.estimate actual

/-- The lines for the vertices with an estimate and an actual number. -/
def linesOf (lib : Library) (f : Str) (estimates : List QueryCounter)
    (actualOf : Str → Option Str) : List Line :=
  estimates.filterMap fun q => (actualOf q.vertex).map (lineOf lib f q)

theorem actual_of_mem_estimated {plan : Json} {q : QueryCounter} (hq : q ∈ estimated plan) :
    q.actual = none := by
  have hstep (vertices : List (Str × Json)) : ∀ queryCounters : List QueryCounter,
      (∀ q ∈ queryCounters, q.actual = none) →
        ∀ q ∈ vertices.foldl addVertex queryCounters, q.actual = none := by
    induction vertices with
    | nil => exact fun _ h => h
    | cons kv vertices ih =>
        intro queryCounters h
        refine ih _ fun q hq => ?_
        rw [addVertex] at hq
        cases hestimate : estimateOf kv.2 with
        | none =>
            rw [hestimate] at hq
            exact h q hq
        | some minRows =>
            rw [hestimate] at hq
            rcases Keyed.mem_of_mem_put hq with rfl | hq
            · rfl
            · exact h q hq
  exact hstep _ [] (fun q hq => absurd hq List.not_mem_nil) q hq

/-- The entries of a plan get the counts of the records. -/
theorem actual_counted {plan : Json} {q : QueryCounter} (records : List (Option (Str × Str)))
    (hq : q ∈ estimated plan) :
    (lastCount records q.vertex).or q.actual = lastCount records q.vertex := by
  rw [actual_of_mem_estimated hq, Option.or_none]

theorem filterMap_counted (lib : Library) (f : Str) (plan : Json)
    (records : List (Option (Str × Str))) :
    (counted (estimated plan) records).filterMap (fun q => q.actual.map (lineOf lib f q)) =
      linesOf lib f (estimated plan) (lastCount records) := by
  rw [counted, List.filterMap_map, linesOf]
  refine List.filterMap_congr fun q hq => ?_
  rw [Function.comp_apply, actual_counted records hq]
  rfl

theorem printable_counted_iff (plan : Json) (records : List (Option (Str × Str))) :
    (∀ q ∈ counted (estimated plan) records, ∀ actual, q.actual = some actual →
        Printable q.vertex q.estimate actual) ↔
      ∀ q ∈ estimated plan, ∀ actual, lastCount records q.vertex = some actual →
        Printable q.vertex q.estimate actual := by
  rw [counted, List.forall_mem_map]
  refine forall₂_congr fun q hq => ?_
  rw [actual_counted records hq]

/-- The report on a plan and on the text of its counters, up to the order of the lines. -/
theorem report_iff {lib : Library} {f : Str} {plan : Json} {counters : Str} {lines : List Line} :
    (∃ lines', (readPlan plan >>= fun queryCounters => readRecords queryCounters counters >>=
        fun queryCounters => (lib.iteritems queryCounters).foldlM (printLine lib f) []) =
          .ok lines' ∧ lines'.Perm lines) ↔
      Fits plan (recordsIn counters) ∧
        (linesOf lib f (estimated plan) (lastCount (recordsIn counters))).Perm lines := by
  have hperm := lib.iteritems_perm (counted (estimated plan) (recordsIn counters))
  have hlines := hperm.filterMap fun q => q.actual.map (lineOf lib f q)
  rw [filterMap_counted] at hlines
  constructor
  · rintro ⟨lines', h, hlines'⟩
    obtain ⟨before, hbefore, h⟩ := bind_eq_ok h
    obtain ⟨hreadable, rfl⟩ := readPlan_iff.mp hbefore
    obtain ⟨after, hafter, h⟩ := bind_eq_ok h
    rw [readRecords_eq] at hafter
    obtain ⟨hknown, rfl⟩ := foldlM_tell_iff.mp hafter
    obtain ⟨hprintable, rfl⟩ := foldlM_printLine_iff.mp h
    simp only [hperm.mem_iff, printable_counted_iff] at hprintable
    exact ⟨⟨hreadable, hknown, hprintable⟩, hlines.symm.trans hlines'⟩
  · rintro ⟨⟨hreadable, hknown, hprintable⟩, hlines'⟩
    refine ⟨_, ?_, hlines.trans hlines'⟩
    rw [readPlan_iff.mpr ⟨hreadable, rfl⟩, ok_bind, readRecords_eq,
      foldlM_tell_iff.mpr ⟨hknown, rfl⟩, ok_bind]
    refine foldlM_printLine_iff.mpr ⟨?_, rfl⟩
    simp only [hperm.mem_iff, printable_counted_iff]
    exact hprintable

/-- A vertex has an estimate and an actual number. -/
def Reported (estimates : List QueryCounter) (actualOf : Str → Option Str) (vertex : Str)
    (estimate : ℕ) (actual : Str) : Prop :=
  (∃ q ∈ estimates, q.vertex = vertex ∧ q.estimate = estimate) ∧ actualOf vertex = some actual

section Lines
variable {lib : Library} {f : Str} {estimates estimates' : List QueryCounter}
  {actualOf actualOf' : Str → Option Str}

theorem mem_linesOf_iff {line : Line} : line ∈ linesOf lib f estimates actualOf ↔
    ∃ vertex estimate actual, Reported estimates actualOf vertex estimate actual ∧
      line = ⟨f, vertex, estimate, actual, lib.log10ratio estimate (long actual)⟩ := by
  simp only [linesOf, List.mem_filterMap, Option.map_eq_some_iff]
  constructor
  · rintro ⟨q, hq, actual, hactual, rfl⟩
    exact ⟨q.vertex, q.estimate, actual, ⟨⟨q, hq, rfl, rfl⟩, hactual⟩, rfl⟩
  · rintro ⟨vertex, estimate, actual, ⟨⟨q, hq, rfl, rfl⟩, hactual⟩, rfl⟩
    exact ⟨q, hq, actual, hactual, rfl⟩

theorem nodup_linesOf (h : (estimates.map QueryCounter.vertex).Nodup) :
    (linesOf lib f estimates actualOf).Nodup := by
  refine List.Nodup.of_map Line.vertex ?_
  have hsub : ((linesOf lib f estimates actualOf).map Line.vertex).Sublist
      (estimates.map QueryCounter.vertex) := by
    induction estimates with
    | nil => exact List.Sublist.slnil
    | cons q estimates ih =>
        rw [List.map_cons, List.nodup_cons] at h
        rw [linesOf, List.filterMap_cons]
        cases actualOf q.vertex with
        | none => exact (ih h.2).cons _
        | some actual => exact (ih h.2).cons_cons _
  exact h.sublist hsub

/-- The lines tell which vertices have which numbers. -/
theorem perm_linesOf_iff (h : (estimates.map QueryCounter.vertex).Nodup)
    (h' : (estimates'.map QueryCounter.vertex).Nodup) :
    (linesOf lib f estimates actualOf).Perm (linesOf lib f estimates' actualOf') ↔
      ∀ vertex estimate actual, Reported estimates actualOf vertex estimate actual ↔
        Reported estimates' actualOf' vertex estimate actual := by
  have hline (estimates : List QueryCounter) (actualOf : Str → Option Str) (vertex : Str)
      (estimate : ℕ) (actual : Str) : Reported estimates actualOf vertex estimate actual ↔
        ⟨f, vertex, estimate, actual, lib.log10ratio estimate (long actual)⟩ ∈
          linesOf lib f estimates actualOf := by
    rw [mem_linesOf_iff]
    constructor
    · intro hreported
      exact ⟨vertex, estimate, actual, hreported, rfl⟩
    · rintro ⟨vertex', estimate', actual', hreported, heq⟩
      obtain ⟨-, rfl, rfl, rfl, -⟩ := Line.mk.inj heq
      exact hreported
  rw [List.perm_ext_iff_of_nodup (nodup_linesOf h) (nodup_linesOf h')]
  constructor
  · intro hmem vertex estimate actual
    rw [hline, hline]
    exact hmem _
  · intro hreported line
    simp only [mem_linesOf_iff, hreported]

/-- With the same estimates, the numbers have to be the same. -/
theorem reported_iff :
    (∀ vertex estimate actual, Reported estimates actualOf vertex estimate actual ↔
        Reported estimates actualOf' vertex estimate actual) ↔
      ∀ q ∈ estimates, actualOf q.vertex = actualOf' q.vertex := by
  constructor
  · intro hreported q hq
    refine Option.ext fun actual => ?_
    have hq' : ∃ q' ∈ estimates, q'.vertex = q.vertex ∧ q'.estimate = q.estimate :=
      ⟨q, hq, rfl, rfl⟩
    have hiff := hreported q.vertex q.estimate actual
    rw [Reported, Reported, and_iff_right hq', and_iff_right hq'] at hiff
    exact hiff
  · intro hsame vertex estimate actual
    refine and_congr_right ?_
    rintro ⟨q, hq, rfl, -⟩
    rw [hsame q hq]

end Lines

/-! ## Dumped files -/

/-- The name of the counter of a vertex. -/
def counterName (vertex : Str) : Str :=
  recordsOut ++ '_' :: vertex.map fun c => if c = ' ' then '_' else c

/-- The number of records that a vertex has put out. -/
def actualOf (counters : List (Str × ℕ)) (vertex : Str) : Option ℕ :=
  (Keyed.get Prod.fst (counterName vertex) counters).map Prod.snd

/-- The same number as it is printed. -/
def actualText (counters : List (Str × ℕ)) (vertex : Str) : Option Str :=
  (actualOf counters vertex).map fun n : ℕ => decimal n

/-- A file that is dumped, by its name and its sections. The plan is missing if the query has no
record. -/
structure Dump where
  name : Str
  hiveQuery : Str
  ascii : ∀ c ∈ hiveQuery, c.toNat < 128
  queryPlan : Option Json
  counters : List (Str × ℕ)
  nodup : (counters.map Prod.fst).Nodup
  settings : Json

namespace Dump
variable (lib : Library) (d : Dump)

def file : SqlFile := ⟨d.hiveQuery, d.queryPlan, counterItems d.counters, d.settings⟩

/-- The section of a plan, between the lines of the markers. -/
def planSection (queryPlan : Json) : Str := '\n' :: (dumps queryPlan ++ ['\n'])

/-- The plan is read back from its section. -/
def PlanLoads : Prop := ∀ queryPlan, d.queryPlan = some queryPlan →
  lib.loads (planSection queryPlan) = .ok (lib.order queryPlan)

/-- The estimates of the plan, as it is when it is loaded. -/
def estimates : List QueryCounter :=
  match d.queryPlan with
  | none => []
  | some queryPlan => estimated (lib.order queryPlan)

/-- The vertices with an estimate in the plan and a counter have a line with their numbers, and
there are no other lines. -/
def Handled : Prop :=
  ∃ lines, processFile lib d.name d.file.text = .ok lines ∧
    lines.Perm (linesOf lib d.name (d.estimates lib) (actualText d.counters))

/-! ## The condition -/

/-- The records in the printed counters, as far as no marker line comes before them. -/
def shownRecords (counters : List (Str × ℕ)) : List (Option (Str × Str)) :=
  recordsIn (marker.before (pformat (.obj (counterItems counters))))

/-- Without marker lines they are the records of the counters one by one. -/
theorem shownRecords_of_not_marked {counters : List (Str × ℕ)}
    (h : ¬ marker.Marked (pformat (.obj (counterItems counters)))) :
    shownRecords counters = counterRecords counters := by
  rw [shownRecords, LineMark.before_of_not_marked h, recordsIn_pformat]

/-- The plan can be read, the records in the counters name its vertices, and each vertex has the
number of its own counter. The numbers are positive and have floats. -/
structure Matches (plan : Json) (counters : List (Str × ℕ)) : Prop where
  readable : ReadablePlan plan
  known : ∀ r ∈ shownRecords counters, Known (estimated plan) r
  own : ∀ q ∈ estimated plan,
    lastCount (shownRecords counters) q.vertex = actualText counters q.vertex
  positive : ∀ q ∈ estimated plan, ∀ n, actualOf counters q.vertex = some n →
    0 < q.estimate ∧ q.estimate < floatLimit ∧ 0 < n ∧ n < floatLimit

/-- The query text after its first marker line. -/
def afterNote : Str := marker.after ('\n' :: (d.hiveQuery ++ ['\n']))

/-- What follows its second marker line or, if there is none, the line of the plan. -/
def nextNote : Str :=
  if marker.Marked d.afterNote then marker.before (marker.after d.afterNote)
  else marker.before ('\n' :: (d.queryPlan.elim "ERROR".toList dumps ++ ['\n']))

/-- A plan that is in the query text and has, with some records, the numbers of the file. -/
structure StandsIn (plan : Json) (records : List (Option (Str × Str))) : Prop where
  readable : ReadablePlan plan
  known : ∀ r ∈ records, Known (estimated plan) r
  same : ∀ vertex estimate actual,
    Reported (estimated plan) (lastCount records) vertex estimate actual ↔
      Reported (d.estimates lib) (actualText d.counters) vertex estimate actual
  printable : ∀ q ∈ d.estimates lib, ∀ actual, actualText d.counters q.vertex = some actual →
    Printable q.vertex q.estimate actual

/-- The plan is missing, or its text has no marker line and it matches the counters. In a file
whose query text has a marker line of its own, what follows that has to stand in for them. -/
def Reportable : Prop :=
  if marker.Marked d.hiveQuery then
    if strip (marker.before d.afterNote) = "ERROR".toList then
      ∀ q ∈ d.estimates lib, actualOf d.counters q.vertex = none
    else ∃ plan, lib.loads (marker.before d.afterNote) = .ok plan ∧
      d.StandsIn lib plan (recordsIn d.nextNote)
  else ∀ queryPlan, d.queryPlan = some queryPlan →
    ¬ marker.Marked (dumps queryPlan) ∧ Matches (lib.order queryPlan) d.counters

/-! ## The pieces -/

/-- A section of the file, as the report splits it. -/
def piece (i : ℕ) : Str := ((chunks d.file.text)[i]?).getD []

/-- The pieces that the report takes for plan and counters tell what those of the file tell. -/
def SameReport : Prop :=
  if strip (d.piece 2) = "ERROR".toList then
    ∀ q ∈ d.estimates lib, actualOf d.counters q.vertex = none
  else ∃ plan, lib.loads (d.piece 2) = .ok plan ∧ Fits plan (recordsIn (d.piece 3)) ∧
    ∀ vertex estimate actual,
      Reported (estimated plan) (lastCount (recordsIn (d.piece 3))) vertex estimate actual ↔
        Reported (d.estimates lib) (actualText d.counters) vertex estimate actual

theorem nodup_estimates : ((d.estimates lib).map QueryCounter.vertex).Nodup := by
  unfold estimates
  split
  · exact List.nodup_nil
  · exact nodup_estimated _

/-- A file has all the sections that the report takes. -/
theorem item_chunks {i : ℕ} (hi : i < 5) :
    Python.item (chunks d.file.text) i = .ok (d.piece i) := by
  have hlen : i < (marker.split false d.file.text).length := by
    have hpos (body : Str) : 0 < (pieces body).length :=
      List.length_pos_iff.mpr (LineMark.split_ne_nil _ _)
    have hquery := hpos d.file.hiveQuery
    have hplan := hpos (d.file.queryPlan.elim "ERROR".toList dumps)
    have hcounters := hpos (pformat (.obj d.file.counters) ++ ['\n'])
    have hsettings := hpos (pformat d.file.settings)
    rw [split_text]
    simp only [List.length_cons, List.length_append]
    omega
  have hchunks : i < (chunks d.file.text).length := by
    by_contra hle
    have hnone := List.getElem?_eq_none (Nat.not_lt.mp hle)
    rw [getElem?_chunks (by omega), List.getElem?_eq_none_iff] at hnone
    omega
  rw [Python.item_natCast hchunks, piece, List.getElem?_eq_getElem hchunks, Option.getD_some]

/-- The report is right exactly if the pieces of the file tell the right numbers. -/
theorem handled_iff_sameReport : d.Handled lib ↔ d.SameReport lib := by
  have hrun : processFile lib d.name d.file.text =
      if strip (d.piece 2) = "ERROR".toList then .ok [] else
        lib.loads (d.piece 2) >>= fun plan => readPlan plan >>= fun queryCounters =>
          readRecords queryCounters (d.piece 3) >>= fun queryCounters =>
            (lib.iteritems queryCounters).foldlM (printLine lib d.name) [] := by
    have hplan : Python.item (chunks d.file.text) 2 = .ok (d.piece 2) := d.item_chunks (by decide)
    have hcounters : Python.item (chunks d.file.text) 3 = .ok (d.piece 3) :=
      d.item_chunks (by decide)
    rw [processFile, hplan, ok_bind]
    split
    · rfl
    · simp only [hcounters, ok_bind]
  rw [Handled, SameReport, hrun]
  by_cases herror : strip (d.piece 2) = "ERROR".toList
  · simp only [if_pos herror, Except.ok.injEq, exists_eq_left', List.nil_perm, linesOf,
      List.filterMap_eq_nil_iff, Option.map_eq_none_iff, actualText]
  · simp only [if_neg herror]
    constructor
    · rintro ⟨lines, h, hlines⟩
      obtain ⟨plan, hplan, h⟩ := bind_eq_ok h
      obtain ⟨hfits, hperm⟩ := report_iff.mp ⟨lines, h, hlines⟩
      exact ⟨plan, hplan, hfits,
        (perm_linesOf_iff (nodup_estimated plan) (d.nodup_estimates lib)).mp hperm⟩
    · rintro ⟨plan, hplan, hfits, hreported⟩
      rw [hplan, ok_bind]
      exact report_iff.mpr ⟨hfits,
        (perm_linesOf_iff (nodup_estimated plan) (d.nodup_estimates lib)).mpr hreported⟩

theorem pieces_eq (body : Str) : pieces body = marker.before ('\n' :: (body ++ ['\n'])) ::
    if marker.Marked body then marker.split false (marker.after ('\n' :: (body ++ ['\n'])))
    else [] := by
  rw [pieces, LineMark.split_eq]
  simp only [LineMark.marked_line]

theorem piece_eq {i : ℕ} (hi : i < 7) : d.piece (i + 1) = ((pieces d.hiveQuery ++
    (pieces (d.queryPlan.elim "ERROR".toList dumps) ++
      (pieces (pformat (.obj (counterItems d.counters)) ++ ['\n']) ++
        pieces (pformat d.settings))))[i]?).getD [] := by
  rw [piece, getElem?_chunks (by omega), split_text, List.getElem?_cons_succ]
  rfl

/-- After a query text without marker lines the plan is taken, up to its first marker line. -/
theorem piece_two (h : ¬ marker.Marked d.hiveQuery) : d.piece 2 =
    marker.before ('\n' :: (d.queryPlan.elim "ERROR".toList dumps ++ ['\n'])) := by
  rw [d.piece_eq (i := 1) (by decide), pieces_eq d.hiveQuery, if_neg h,
    pieces_eq (d.queryPlan.elim "ERROR".toList dumps)]
  rfl

/-- And then the counters. -/
theorem piece_three (h : ¬ marker.Marked d.hiveQuery)
    (hplan : ¬ marker.Marked (d.queryPlan.elim "ERROR".toList dumps)) : d.piece 3 =
      marker.before ('\n' :: (pformat (.obj (counterItems d.counters)) ++ ['\n'] ++ ['\n'])) := by
  rw [d.piece_eq (i := 2) (by decide), pieces_eq d.hiveQuery, if_neg h,
    pieces_eq (d.queryPlan.elim "ERROR".toList dumps), if_neg hplan,
    pieces_eq (pformat (.obj (counterItems d.counters)) ++ ['\n'])]
  rfl

/-- After a marker line in the query text the text that follows it is taken. -/
theorem piece_two_of_marked (h : marker.Marked d.hiveQuery) :
    d.piece 2 = marker.before d.afterNote := by
  rw [d.piece_eq (i := 1) (by decide), pieces_eq d.hiveQuery, if_pos h, LineMark.split_eq]
  rfl

theorem piece_three_of_marked (h : marker.Marked d.hiveQuery) : d.piece 3 = d.nextNote := by
  rw [d.piece_eq (i := 2) (by decide), pieces_eq d.hiveQuery, if_pos h, LineMark.split_eq,
    nextNote, afterNote]
  split
  · rw [LineMark.split_eq (marker.after (marker.after ('\n' :: (d.hiveQuery ++ ['\n']))))]
    rfl
  · rw [pieces_eq (d.queryPlan.elim "ERROR".toList dumps)]
    rfl

/-! ## The text of a plan -/

theorem dumps_ne_E {value : Json} {c : Char} {rest : Str} (h : dumps value = c :: rest) :
    c ≠ 'E' := by
  have hnumeral {digits : Str} (hdigits : digits = c :: rest)
      (hplain : ∀ c ∈ digits, c.isDigit = true ∨ c = '.' ∨ c = 'e' ∨ c = '+' ∨ c = '-') :
      c ≠ 'E' := by
    have hmem : c ∈ digits := hdigits ▸ List.mem_cons_self
    rintro rfl
    exact absurd (hplain 'E' hmem) (by decide)
  have hfirst {d : Char} {text : Str} (htext : d :: text = c :: rest) (hd : d ≠ 'E') : c ≠ 'E' := by
    rwa [← (List.cons.inj htext).1]
  cases value with
  | null => exact hfirst h (by decide)
  | bool b => cases b <;> exact hfirst h (by decide)
  | int n => exact hnumeral h fun c hc => (mem_decimal hc).imp_right fun h => by simp [h]
  | float x => exact hnumeral h x.plain
  | str s => exact hfirst h (by decide)
  | arr elements => exact hfirst h (by decide)
  | obj items => exact hfirst h (by decide)

/-- No start of the text of a plan looks like a missing plan. -/
theorem strip_ne_error {value : Json} {front : Str} (h : front <+: planSection value) :
    strip front ≠ "ERROR".toList := by
  intro hstrip
  obtain ⟨c, rest, hdumps, hspace, -⟩ := dumps_start value
  rw [planSection, hdumps] at h
  rcases front with _ | ⟨d, _ | ⟨c', front⟩⟩
  · cases hstrip
  · obtain rfl : d = '\n' := (List.cons_prefix_cons.mp h).1
    cases hstrip
  · obtain ⟨hd, h⟩ := List.cons_prefix_cons.mp h
    obtain ⟨rfl, -⟩ := List.cons_prefix_cons.mp h
    subst hd
    have hleft : lstrip (c' :: front) = c' :: front := by
      rw [lstrip, List.dropWhile_cons_of_neg (by simp [hspace])]
    have hright : rstrip (c' :: front) = c' :: rstrip front := rstrip_append_cons hspace [] front
    rw [strip_cons_space (by decide), strip, hleft, hright] at hstrip
    exact dumps_ne_E hdumps (List.cons.inj hstrip).1

theorem starts_eq {rest : Str} (h : marker.starts rest = true) :
    ∃ tail, rest = '-' :: '-' :: ' ' :: tail := by
  have hstarts : startsMarker rest = true := h
  unfold startsMarker at hstarts
  split at hstarts
  · simp only [Bool.and_eq_true, decide_eq_true_eq] at hstarts
    obtain ⟨⟨⟨⟨rfl, rfl⟩, rfl⟩, -⟩, -⟩ := hstarts
    exact ⟨_, rfl⟩
  · cases hstarts

theorem balanced_planSection (value : Json) : Balanced (planSection value) := by
  have hbreak : Balanced ['\n'] := balanced_plain (by simp)
  exact hbreak.append ((balanced_dumps value).append hbreak)

/-- A marker line in the text of a plan is in a string, which is not finished before it. -/
theorem scan_before_ne {value : Json} (h : marker.Marked (dumps value)) :
    scan .outside (marker.before (planSection value)) ≠ .outside := by
  obtain ⟨rest, htext, hstarts⟩ :=
    LineMark.exists_before_append ((LineMark.marked_line (dumps value)).mpr h)
  obtain ⟨tail, rfl⟩ := starts_eq hstarts
  have hundashed := (balanced_planSection value).undashed
  rw [planSection, htext] at hundashed
  exact hundashed.scan_ne

/-! ## The theorem -/

variable {d}

theorem long_decimal (n : ℕ) : long (decimal n) = n := by
  have hdigits : decimal (Int.ofNat n) = Nat.toDigits 10 n := by
    simp [decimal, Int.repr, Nat.repr]
  exact (congrArg long hdigits).trans Nat.ofDigitChars_ten_toDigits

/-- The plan and the records of the file itself have its numbers if they match. -/
theorem matches_iff {plan : Json} (hplan : d.estimates lib = estimated plan) :
    (Fits plan (shownRecords d.counters) ∧ ∀ vertex estimate actual,
        Reported (estimated plan) (lastCount (shownRecords d.counters)) vertex estimate actual ↔
          Reported (d.estimates lib) (actualText d.counters) vertex estimate actual) ↔
      Matches plan d.counters := by
  rw [hplan, reported_iff]
  constructor
  · rintro ⟨⟨hreadable, hknown, hprintable⟩, hown⟩
    refine ⟨hreadable, hknown, hown, fun q hq n hn => ?_⟩
    have htext : actualText d.counters q.vertex = some (decimal n) := by
      rw [actualText, hn]
      rfl
    have hfine := hprintable q hq (decimal n) ((hown q hq).trans htext)
    have hactual := hfine.actual_pos
    have hactual' := hfine.actual_lt
    rw [long_decimal] at hactual hactual'
    exact ⟨hfine.estimate_pos, hfine.estimate_lt, hactual, hactual'⟩
  · rintro ⟨hreadable, hknown, hown, hpositive⟩
    refine ⟨⟨hreadable, hknown, fun q hq actual hactual => ?_⟩, hown⟩
    obtain ⟨n, hn, rfl⟩ := Option.map_eq_some_iff.mp ((hown q hq).symm.trans hactual)
    obtain ⟨hestimate, hestimate', hn, hn'⟩ := hpositive q hq n hn
    rw [← long_decimal n] at hn hn'
    have hascii : ∀ c ∈ marker.before (pformat (.obj (counterItems d.counters))), c.toNat < 128 :=
      fun c hc => lt_of_mem_pformat c ((LineMark.before_prefix _).subset hc)
    exact ⟨encodable_of_lastCount hascii hactual, hestimate, hestimate', hn, hn'⟩

/-- The same for a plan and records from the query text. -/
theorem standsIn_iff {plan : Json} {records : List (Option (Str × Str))} :
    (Fits plan records ∧ ∀ vertex estimate actual,
        Reported (estimated plan) (lastCount records) vertex estimate actual ↔
          Reported (d.estimates lib) (actualText d.counters) vertex estimate actual) ↔
      d.StandsIn lib plan records := by
  constructor
  · rintro ⟨⟨hreadable, hknown, hprintable⟩, hsame⟩
    refine ⟨hreadable, hknown, hsame, fun q hq actual hactual => ?_⟩
    obtain ⟨⟨q', hq', hvertex, hestimate⟩, hlast⟩ :=
      (hsame q.vertex q.estimate actual).mpr ⟨⟨q, hq, rfl, rfl⟩, hactual⟩
    rw [← hvertex] at hlast
    rw [← hvertex, ← hestimate]
    exact hprintable q' hq' actual hlast
  · rintro ⟨hreadable, hknown, hsame, hprintable⟩
    refine ⟨⟨hreadable, hknown, fun q hq actual hactual => ?_⟩, hsame⟩
    obtain ⟨⟨q', hq', hvertex, hestimate⟩, hown⟩ :=
      (hsame q.vertex q.estimate actual).mp ⟨⟨q, hq, rfl, rfl⟩, hactual⟩
    rw [← hvertex] at hown
    rw [← hvertex, ← hestimate]
    exact hprintable q' hq' actual hown

/-- The records in the piece of the counters. -/
theorem recordsIn_before_section (counters : List (Str × ℕ)) :
    recordsIn (marker.before
      ('\n' :: (pformat (.obj (counterItems counters)) ++ ['\n'] ++ ['\n']))) =
      shownRecords counters := by
  have hbreak (s : Str) : recordsIn (s ++ ['\n']) = recordsIn s :=
    recordsIn_concat (by decide) (by decide) (by decide) s
  rw [LineMark.before_line, recordsIn_cons (by decide) (by decide), shownRecords,
    LineMark.before_concat_break]
  by_cases h : marker.Marked (pformat (.obj (counterItems counters)))
  · rw [if_pos h, if_pos ((LineMark.marked_concat_break _).mpr h), List.append_nil, List.append_nil]
  · rw [if_neg h, if_neg fun hmarked => h ((LineMark.marked_concat_break _).mp hmarked), hbreak,
      hbreak]

variable (d)

/-- The report has the right lines exactly if plan and counters match. -/
theorem handled_iff (hloads : d.PlanLoads lib) : d.Handled lib ↔ d.Reportable lib := by
  rw [handled_iff_sameReport, Reportable]
  by_cases hquery : marker.Marked d.hiveQuery
  · rw [if_pos hquery, SameReport, d.piece_two_of_marked hquery, d.piece_three_of_marked hquery]
    simp only [standsIn_iff]
  · rw [if_neg hquery, SameReport, d.piece_two hquery]
    cases hplan : d.queryPlan with
    | none =>
        have herror : strip (marker.before ('\n' :: ("ERROR".toList ++ ['\n']))) =
            "ERROR".toList := by decide
        have hnone : d.estimates lib = [] := by
          rw [estimates, hplan]
        rw [Option.elim_none, if_pos herror, hnone]
        simp
    | some queryPlan =>
        have hestimates : d.estimates lib = estimated (lib.order queryPlan) := by
          rw [estimates, hplan]
        have herror : strip (marker.before (planSection queryPlan)) ≠ "ERROR".toList :=
          strip_ne_error (LineMark.before_prefix _)
        simp only [Option.some.injEq, forall_eq']
        rw [Option.elim_some, ← planSection, if_neg herror]
        by_cases hmarked : marker.Marked (dumps queryPlan)
        · refine iff_of_false ?_ fun h => h.1 hmarked
          rintro ⟨plan, hload, -⟩
          exact lib.loads_ne_ok _ plan (scan_before_ne hmarked) hload
        · have hsection : marker.before (planSection queryPlan) = planSection queryPlan :=
            LineMark.before_of_not_marked fun h => hmarked ((LineMark.marked_line _).mp h)
          have hunmarked : ¬ marker.Marked (d.queryPlan.elim "ERROR".toList dumps) := by
            rwa [hplan, Option.elim_some]
          rw [hsection, hloads queryPlan hplan, d.piece_three hquery hunmarked,
            recordsIn_before_section, and_iff_right hmarked, ← matches_iff lib hestimates]
          simp

/-- A reader that knows the text of one plan. -/
def readerOf (plan : Json) : Library where
  loads text := if text = planSection plan then .ok plan else .error .valueError
  loads_ne_ok text value hscan h := by
    split at h
    · rename_i heq
      exact hscan (heq ▸ (balanced_planSection plan).scan)
    · cases h
  order := id
  order_sorted _ := rfl
  log10ratio _ _ := "0.000".toList
  iteritems := id
  iteritems_perm _ := List.Perm.refl _

/-- The plan of a query over one table. -/
def onePlan : Json :=
  .obj [("STAGE PLANS".toList, .obj [("Stage-1".toList, .obj [(tez, .obj [("Vertices:".toList,
    .obj [("Map 1".toList, .obj [(reduceOutput, .str "Num rows: 8".toList)])])])])]),
    ("STAGE DEPENDENCIES".toList, .obj [])]

/-- The file of that query. -/
def oneVertex : Dump where
  name := "hive_2.hive.sql".toList
  hiveQuery := "select x".toList
  ascii := by simp
  queryPlan := some onePlan
  counters := [("RECORDS_OUT_INTERMEDIATE_Map_1".toList, 5)]
  nodup := by decide
  settings := .obj []

/-- Its vertex has the estimate of the plan and the number of its counter. -/
theorem oneVertex_handled : oneVertex.Handled (readerOf onePlan) := by
  have hloads : oneVertex.PlanLoads (readerOf onePlan) := by
    intro queryPlan h
    obtain rfl : onePlan = queryPlan := Option.some.inj h
    simp [readerOf]
  have hmarked : ¬ marker.Marked (dumps onePlan) := by
    rintro ⟨rest, hrest, hstarts⟩
    obtain ⟨tail, rfl⟩ := starts_eq hstarts
    have hcount : (dumps onePlan).count '-' = 1 := by rfl
    have hle := hrest.sublist.count_le '-'
    rw [hcount, List.count_cons_self, List.count_cons_self] at hle
    omega
  have hplan : readPlan onePlan = .ok [⟨"Map 1".toList, 8, none⟩] := by rfl
  obtain ⟨hreadable, hestimated⟩ := readPlan_iff.mp hplan
  have hshown : shownRecords oneVertex.counters = [some ("Map 1".toList, "5".toList)] := by rfl
  have hactual : actualOf oneVertex.counters "Map 1".toList = some 5 := by rfl
  refine (handled_iff (readerOf onePlan) oneVertex hloads).mpr ?_
  rw [Reportable, if_neg (by decide)]
  intro queryPlan h
  obtain rfl : onePlan = queryPlan := Option.some.inj h
  refine ⟨hmarked, hreadable, ?_, ?_, ?_⟩
  · rw [hshown, show (readerOf onePlan).order onePlan = onePlan from rfl, ← hestimated]
    simp [Known]
  · rw [hshown, show (readerOf onePlan).order onePlan = onePlan from rfl, ← hestimated]
    simp only [List.forall_mem_singleton]
    rfl
  · rw [show (readerOf onePlan).order onePlan = onePlan from rfl, ← hestimated]
    simp only [List.forall_mem_singleton, hactual]
    intro n hn
    obtain rfl : 5 = n := Option.some.inj hn
    exact ⟨by decide, lt_floatLimit (by decide), by decide, lt_floatLimit (by decide)⟩

/-- A query whose record has no plan. -/
def emptyPlan : Dump where
  name := "hive_1.hive.sql".toList
  hiveQuery := "select 1".toList
  ascii := by simp
  queryPlan := some (.obj [])
  counters := []
  nodup := List.nodup_nil
  settings := .obj []

/-- The plan that is written when the record has none makes the report raise. -/
theorem emptyPlan_not_handled : ¬ emptyPlan.Handled (readerOf (.obj [])) := by
  rintro ⟨lines, h, -⟩
  have hraise : processFile (readerOf (.obj [])) emptyPlan.name emptyPlan.file.text =
      .error .keyError := by
    rfl
  rw [hraise] at h
  cases h

end Dump

end Structor.Ats
