import Mathlib.Data.List.AList
import Structor.Benchmetrics.Dashboard
import Structor.SharedTable

/-!
# The result files of the dashboard

A result file of a version has a row for each test that was run. Its times are read into a
dictionary of packages and tests, with a dictionary for each test that has the time under the
version.

## Main definitions

* `forRows` -- a loop over the rows after the header
* `getCsvData` -- the dictionary of a version
* `Recorded` -- what the dictionary tells of the rows that were read
-/
namespace Structor.Dashboard
open Python SharedTable
variable {α σ : Type}

/-! ## Exceptions and dictionaries -/

/-- The module csv has an exception of its own. -/
inductive Exception where
  | builtin (e : Error)
  | csvError

abbrev Dict (α : Type) : Type := AList fun _ : Str => α

/-- `d[k]` -/
def getItem (d : Dict α) (k : Str) : Except Exception α :=
  match d.lookup k with
  | some a => .ok a
  | none => .error (.builtin .keyError)

/-! ## Rows -/

/-- `reader.next()` and a loop over the other rows, in a file that may be missing. -/
def forRows (file : Option Str) (body : σ → List Str → Except Exception σ) (s : σ) :
    Except Exception σ :=
  match file with
  | none => .error (.builtin .ioError)
  | some text =>
      match (reading text).rows with
      | [] => .error (if (reading text).raises then .csvError else .builtin .stopIteration)
      | _header :: rows => do
          let s ← rows.foldlM body s
          if (reading text).raises then .error .csvError else pure s

/-! ## The dictionary of a version -/

/-- What is kept for a version: an empty dictionary at first, then a time. -/
inductive Value where
  | emptyDict
  | time (s : Str)

abbrev Times : Type := Dict Value

/-- Packages, their tests, and the dictionary of each test, which can be shared. -/
abbrev Records : Type := Dict (Dict Ref)

structure State where
  memory : Memory Times
  records : Records

/-- `if package not in records: records[package] = {}` -/
def addPackage (records : Records) (package : Str) : Records :=
  if package ∈ records then records else records.insert package ∅

/-- `records[package][test]` -/
def getTest (records : Records) (package test : Str) : Except Exception Ref := do
  let tests ← getItem records package
  getItem tests test

/-- `records[package][test] = r` -/
def setTest (records : Records) (package test : Str) (r : Ref) : Except Exception Records := do
  let tests ← getItem records package
  pure (records.insert package (tests.insert test r))

/-- `if test not in records[package]: records[package][test] = {version: {}}` -/
def addTest (version : Str) (s : State) (package test : Str) : Except Exception State := do
  let tests ← getItem s.records package
  if test ∈ tests then pure s
  else do
    let records ← setTest s.records package test s.memory.length
    pure { memory := s.memory ++ [AList.singleton version .emptyDict], records }

/-- The loop body. -/
def addRow (version : Str) (s : State) : List Str → Except Exception State
  | [package, test, _prepareTime, executionTime] => do
      let s ← addTest version { s with records := addPackage s.records package } package test
      let r ← getTest s.records package test
      pure { s with
        memory := s.memory.modify r fun times => times.insert version (.time executionTime) }
  | _ => .error (.builtin .valueError)

/-- `get_csv_data`, for the directory `benchmark_data`. -/
def getCsvData (benchmarkData : Str → Option Str) (version : Str) (memory : Memory Times) :
    Except Exception State :=
  forRows (benchmarkData (version ++ (".csv" : String))) (addRow version) ⟨memory, ∅⟩

/-! ## What is expected of the dictionary -/

/-- A row is for a test of a package. -/
def IsFor (k : Str × Str) (row : List Str) : Prop := row[0]? = some k.1 ∧ row[1]? = some k.2

instance (k : Str × Str) (row : List Str) : Decidable (IsFor k row) :=
  inferInstanceAs (Decidable (row[0]? = some k.1 ∧ row[1]? = some k.2))

/-- The time of the last row for a test of a package. -/
def executionTime (rows : List (List Str)) (k : Str × Str) : Option Str :=
  (rows.reverse.find? fun row => IsFor k row).bind fun row => row[3]?

/-- The file is there, has a header, and the reader raises nothing. -/
def Readable (file : Option Str) : Prop :=
  ∃ text, file = some text ∧ (reading text).rows ≠ [] ∧ (reading text).raises = false

/-- A readable file whose rows have a number of fields. -/
def HasFields (n : ℕ) (file : Option Str) : Prop :=
  Readable file ∧ ∀ row ∈ dataRows file, row.length = n

/-- The references of the tests. -/
def refAt (records : Records) : Table (Str × Str) := fun k =>
  (records.lookup k.1).bind fun tests => tests.lookup k.2

/-- The dictionary of a version has a value for each test, in objects of its own that are newer
than those of `memory`. -/
structure Recorded (memory : Memory Times) (version : Str) (values : Str × Str → Option Value)
    (s : State) : Prop where
  length_le : memory.length ≤ s.memory.length
  kept : ∀ r < memory.length, s.memory[r]? = memory[r]?
  stored : Stored s.memory (refAt s.records)
  newer : ∀ k r, refAt s.records k = some r → memory.length ≤ r
  own : Apart (refAt s.records) (refAt s.records)
  times : ∀ k, object s.memory (refAt s.records) k = (values k).map (AList.singleton version)

/-! ## Reading -/

theorem forRows_eq_ok_iff {file : Option Str} {body : σ → List Str → Except Exception σ}
    {s s' : σ} :
    forRows file body s = .ok s' ↔ Readable file ∧ (dataRows file).foldlM body s = .ok s' := by
  cases file with
  | none =>
      constructor
      · intro h
        cases h
      · rintro ⟨⟨text, htext, -⟩, -⟩
        cases htext
  | some text =>
      have hreadable : Readable (some text) ↔
          (reading text).rows ≠ [] ∧ (reading text).raises = false := by
        simp [Readable]
      rw [hreadable, forRows]
      cases hraises : (reading text).raises with
      | true =>
          cases (reading text).rows with
          | nil => simp
          | cons header rows =>
              simp only [if_true, Bool.true_eq_false, and_false, false_and, iff_false]
              intro h
              obtain ⟨s₁, -, h⟩ := bind_eq_ok h
              cases h
      | false =>
          rw [dataRows]
          cases (reading text).rows with
          | nil => simp
          | cons header rows =>
              simp only [Bool.false_eq_true, if_false, List.tail_cons, ne_eq, reduceCtorEq,
                not_false_iff, and_self, true_and]
              cases rows.foldlM body s with
              | error e => rfl
              | ok s₁ => rfl

/-! ## The operations on the dictionary -/

variable {records : Records} {package test : Str} {r : Ref}

theorem getItem_eq_ok_iff {d : Dict α} {k : Str} {a : α} :
    getItem d k = .ok a ↔ d.lookup k = some a := by
  rw [getItem]
  cases d.lookup k with
  | none => simp
  | some b => simp

theorem exists_lookup {d : Dict α} {k : Str} (h : k ∈ d) : ∃ a, d.lookup k = some a :=
  Option.isSome_iff_exists.mp (AList.lookup_isSome.mpr h)

theorem refAt_eq {tests : Dict Ref} (h : records.lookup package = some tests) (test : Str) :
    refAt records (package, test) = tests.lookup test := by
  rw [refAt, h, Option.bind_some]

theorem refAt_of_not_mem {k : Str × Str} (h : k.1 ∉ records) : refAt records k = none := by
  rw [refAt, AList.lookup_eq_none.mpr h, Option.bind_none]

theorem mem_addPackage {q : Str} : q ∈ addPackage records package ↔ q = package ∨ q ∈ records := by
  rw [addPackage]
  by_cases h : package ∈ records
  · rw [if_pos h, iff_or_self]
    rintro rfl
    exact h
  · rw [if_neg h, AList.mem_insert]

/-- A new package has no tests. -/
theorem refAt_addPackage : refAt (addPackage records package) = refAt records := by
  by_cases h : package ∈ records
  · rw [addPackage, if_pos h]
  · rw [addPackage, if_neg h]
    funext k
    by_cases hk : k.1 = package
    · have hnone : refAt records k = none := refAt_of_not_mem (hk ▸ h)
      rw [hnone, refAt, hk, AList.lookup_insert, Option.bind_some, AList.lookup_empty]
    · rw [refAt, AList.lookup_insert_ne hk, refAt]

theorem getTest_eq_ok (h : refAt records (package, test) = some r) :
    getTest records package test = .ok r := by
  obtain ⟨tests, htests, htest⟩ := Option.bind_eq_some_iff.mp h
  rw [getTest, getItem_eq_ok_iff.mpr htests, ok_bind, getItem_eq_ok_iff.mpr htest]

theorem setTest_eq_ok (h : package ∈ records) (test : Str) (r : Ref) :
    ∃ records', setTest records package test r = .ok records' ∧
      refAt records' = Function.update (refAt records) (package, test) (some r) ∧
      ∀ q, q ∈ records' ↔ q ∈ records := by
  obtain ⟨tests, htests⟩ := exists_lookup h
  refine ⟨records.insert package (tests.insert test r), ?_, ?_, ?_⟩
  · rw [setTest, getItem_eq_ok_iff.mpr htests]
    rfl
  · funext k
    obtain ⟨p, t⟩ := k
    by_cases hp : p = package
    · subst hp
      rw [refAt_eq (AList.lookup_insert records)]
      by_cases ht : t = test
      · subst ht
        rw [AList.lookup_insert, Function.update_self]
      · have hne : (p, t) ≠ (p, test) := fun heq => ht (Prod.mk.inj heq).2
        rw [AList.lookup_insert_ne ht, Function.update_of_ne hne, refAt_eq htests]
    · have hne : (p, t) ≠ (package, test) := fun heq => hp (Prod.mk.inj heq).1
      rw [Function.update_of_ne hne, refAt, AList.lookup_insert_ne hp, refAt]
  · intro q
    rw [AList.mem_insert, or_iff_right_iff_imp]
    rintro rfl
    exact h

/-- A test that is there is left alone. -/
theorem addTest_of_some {s : State} (h : refAt s.records (package, test) = some r)
    (version : Str) : addTest version s package test = .ok s := by
  obtain ⟨tests, htests, htest⟩ := Option.bind_eq_some_iff.mp h
  have hmem : test ∈ tests := AList.lookup_isSome.mp (Option.isSome_of_mem htest)
  rw [addTest, getItem_eq_ok_iff.mpr htests, ok_bind, if_pos hmem]
  rfl

/-- A new test gets a dictionary. -/
theorem addTest_of_none {s : State} (hpackage : package ∈ s.records)
    (h : refAt s.records (package, test) = none) (version : Str) :
    ∃ records, addTest version s package test =
        .ok ⟨s.memory ++ [AList.singleton version .emptyDict], records⟩ ∧
      refAt records = Function.update (refAt s.records) (package, test) (some s.memory.length) ∧
      ∀ q, q ∈ records ↔ q ∈ s.records := by
  obtain ⟨tests, htests⟩ := exists_lookup hpackage
  have hmem : test ∉ tests := by
    rw [← AList.lookup_eq_none, ← refAt_eq htests]
    exact h
  obtain ⟨records, hset, href, hpackages⟩ := setTest_eq_ok hpackage test s.memory.length
  refine ⟨records, ?_, href, hpackages⟩
  rw [addTest, getItem_eq_ok_iff.mpr htests, ok_bind, if_neg hmem, hset]
  rfl

/-! ## The loop over the rows -/

variable {memory : Memory Times} {version : Str} {values : Str × Str → Option Value} {s : State}

theorem recorded_empty (memory : Memory Times) (version : Str) :
    Recorded memory version (fun _ => none) ⟨memory, ∅⟩ where
  length_le := le_rfl
  kept _ _ := rfl
  stored _ _ h := by cases h
  newer _ _ h := by cases h
  own _ _ _ h := by cases h
  times _ := rfl

theorem Recorded.addPackage (h : Recorded memory version values s) (package : Str) :
    Recorded memory version values { s with records := addPackage s.records package } := by
  constructor
  · exact h.length_le
  · exact h.kept
  all_goals simp only [refAt_addPackage]
  · exact h.stored
  · exact h.newer
  · exact h.own
  · exact h.times

theorem Recorded.addTest (h : Recorded memory version values s) (hpackage : package ∈ s.records)
    (test : Str) : ∃ s' r value, addTest version s package test = .ok s' ∧
      refAt s'.records (package, test) = some r ∧
      Recorded memory version (Function.update values (package, test) (some value)) s' ∧
      ∀ q, q ∈ s'.records ↔ q ∈ s.records := by
  cases href : refAt s.records (package, test) with
  | some r =>
      have hobject := h.times (package, test)
      rw [object_read h.stored href] at hobject
      obtain ⟨value, hvalue, -⟩ := Option.map_eq_some_iff.mp hobject.symm
      refine ⟨s, r, value, addTest_of_some href version, href, ?_, fun _ => Iff.rfl⟩
      rwa [← hvalue, Function.update_eq_self]
  | none =>
      obtain ⟨records, hadd, hrecords, hpackages⟩ := addTest_of_none hpackage href version
      refine ⟨_, s.memory.length, .emptyDict, hadd, ?_, ?_, hpackages⟩
      · rw [hrecords, Function.update_self]
      · constructor
        · rw [List.length_append]
          exact Nat.le_add_right_of_le h.length_le
        · intro r hr
          rw [List.getElem?_append_left (lt_of_lt_of_le hr h.length_le)]
          exact h.kept r hr
        all_goals simp only [hrecords]
        · exact (h.stored.append _).update (by simp)
        · intro k r hr
          by_cases hk : k = (package, test)
          · rw [hk, Function.update_self, Option.some.injEq] at hr
            exact hr ▸ h.length_le
          · rw [Function.update_of_ne hk] at hr
            exact h.newer k r hr
        · refine h.own.update_both fun k hk => ?_
          exact absurd (h.stored hk) (lt_irrefl _)
        · intro k
          by_cases hk : k = (package, test)
          · rw [hk, object_update_self, Function.update_self, List.getElem?_concat_length]
            rfl
          · rw [object_update_of_ne hk, object_append h.stored, Function.update_of_ne hk]
            exact h.times k

theorem Recorded.setTime (h : Recorded memory version values s) {k : Str × Str}
    (href : refAt s.records k = some r) (x : Str) :
    Recorded memory version (Function.update values k (some (.time x)))
      { s with memory := s.memory.modify r fun times => times.insert version (.time x) } := by
  constructor
  · rw [List.length_modify]
    exact h.length_le
  · intro q hq
    have hne : r ≠ q := Nat.ne_of_gt (lt_of_lt_of_le hq (h.newer k r href))
    rw [List.getElem?_modify_ne _ _ hne]
    exact h.kept q hq
  · exact h.stored.modify r _
  · exact h.newer
  · exact h.own
  · intro l
    by_cases hl : l = k
    · have hobject := h.times l
      rw [hl, object_read h.stored href] at hobject
      obtain ⟨value, -, hvalue⟩ := Option.map_eq_some_iff.mp hobject.symm
      rw [hl, Function.update_self, object_modify _ href, object_read h.stored href, ← hvalue,
        Option.map_some, AList.insert_singleton_eq]
      rfl
    · rw [Function.update_of_ne hl, object_modify_of_ne _ fun hlr => hl (h.own hlr href)]
      exact h.times l

/-- A row sets the time of its test. -/
theorem Recorded.addRow (h : Recorded memory version values s) (package test prepareTime x : Str) :
    ∃ s', addRow version s [package, test, prepareTime, x] = .ok s' ∧
      Recorded memory version (Function.update values (package, test) (some (.time x))) s' ∧
      ∀ q, q ∈ s'.records ↔ q = package ∨ q ∈ s.records := by
  have hpackage : package ∈ Dashboard.addPackage s.records package := mem_addPackage.mpr (.inl rfl)
  obtain ⟨s₁, r, value, hadd, href, hrecorded, hpackages⟩ :=
    (h.addPackage package).addTest hpackage test
  have htime := hrecorded.setTime href x
  rw [Function.update_idem] at htime
  refine ⟨_, ?_, htime, fun q => (hpackages q).trans mem_addPackage⟩
  rw [Dashboard.addRow, hadd, ok_bind, getTest_eq_ok href, ok_bind]
  rfl

theorem length_of_addRow {row : List Str} {s s' : State} (h : addRow version s row = .ok s') :
    row.length = 4 := by
  unfold addRow at h
  split at h
  · rfl
  · cases h

theorem executionTime_concat (rows : List (List Str)) (package test prepareTime x : Str) :
    executionTime (rows ++ [[package, test, prepareTime, x]]) =
      Function.update (executionTime rows) (package, test) (some x) := by
  funext k
  rw [executionTime, List.reverse_append, List.reverse_singleton, List.singleton_append,
    List.find?_cons]
  by_cases hk : k = (package, test)
  · subst hk
    simp [IsFor]
  · have hnot : ¬ IsFor k [package, test, prepareTime, x] := by
      rintro ⟨hp, ht⟩
      exact hk (Prod.ext (Option.some.inj hp).symm (Option.some.inj ht).symm)
    rw [Function.update_of_ne hk, decide_eq_false hnot]
    rfl

/-- The values after the rows of a file. -/
def valuesOf (rows : List (List Str)) : Str × Str → Option Value := fun k =>
  (executionTime rows k).map .time

theorem valuesOf_concat (rows : List (List Str)) (package test prepareTime x : Str) :
    valuesOf (rows ++ [[package, test, prepareTime, x]]) =
      Function.update (valuesOf rows) (package, test) (some (.time x)) := by
  funext k
  rw [valuesOf, executionTime_concat]
  by_cases hk : k = (package, test)
  · rw [hk, Function.update_self, Function.update_self, Option.map_some]
  · rw [Function.update_of_ne hk, Function.update_of_ne hk, valuesOf]

/-- What the dictionary tells of the rows that were read, its packages included. -/
def Holds (memory : Memory Times) (version : Str) (rows : List (List Str)) (s : State) : Prop :=
  Recorded memory version (valuesOf rows) s ∧
    ∀ package, package ∈ s.records ↔ ∃ row ∈ rows, row[0]? = some package

theorem Holds.addRow {rows : List (List Str)} {row : List Str} (h : Holds memory version rows s)
    (hrow : row.length = 4) :
    ∃ s', addRow version s row = .ok s' ∧ Holds memory version (rows ++ [row]) s' := by
  match row, hrow with
  | [package, test, prepareTime, x], _ =>
      obtain ⟨s', hs', hrecorded, hpackages⟩ := h.1.addRow package test prepareTime x
      refine ⟨s', hs', valuesOf_concat rows package test prepareTime x ▸ hrecorded, ?_⟩
      intro q
      rw [hpackages, h.2]
      simp [or_comm, eq_comm, or_and_right, exists_or]

/-- Rows of four fields are read, and the last time of a test counts. -/
theorem getCsvData_of_hasFields {benchmarkData : Str → Option Str}
    (h : HasFields 4 (benchmarkData (version ++ (".csv" : String)))) (memory : Memory Times) :
    ∃ s, getCsvData benchmarkData version memory = .ok s ∧
      Holds memory version (dataRows (benchmarkData (version ++ (".csv" : String)))) s := by
  have hstart : Holds memory version [] ⟨memory, ∅⟩ := ⟨recorded_empty memory version, by simp⟩
  obtain ⟨s, hs, hgood⟩ := foldlM_invariant (Holds memory version) hstart
    fun rows row s hrow hgood => hgood.addRow (h.2 row hrow)
  exact ⟨s, forRows_eq_ok_iff.mpr ⟨h.1, hs⟩, hgood⟩

theorem hasFields_of_getCsvData {benchmarkData : Str → Option Str} {memory : Memory Times}
    (h : getCsvData benchmarkData version memory = .ok s) :
    HasFields 4 (benchmarkData (version ++ (".csv" : String))) := by
  obtain ⟨hreadable, hloop⟩ := forRows_eq_ok_iff.mp h
  exact ⟨hreadable, forall_of_foldlM_ok (fun _ _ _ => length_of_addRow) hloop⟩

end Structor.Dashboard
