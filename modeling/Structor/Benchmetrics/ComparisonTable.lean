import Structor.Benchmetrics.ResultFiles

/-!
# The comparison table of the dashboard

The dictionaries of two versions are merged into the first one, which shares the dictionaries of
the tests that are new to it. The table has the two times of each test of the list `tests.csv`.

## Main definitions

* `mergeCsvData` -- the merged dictionary
* `normalizeData` -- the table
* `Request` -- the files, the versions and the orders of the dictionaries
* `Request.Complete` -- the table has the last times of every listed test
-/
namespace Structor.Dashboard
open Python SharedTable

/-! ## Merging -/

/-- A dictionary lists its keys in an order of its own. -/
def KeyOrder : Type := { order : List Str → List Str // ∀ keys, (order keys).Perm keys }

/-- The body of the inner loop. The dictionary of a test is updated, or shared if it is new. -/
def mergeTest (newData : Records) (package : Str) (s : State) (test : Str) :
    Except Exception State := do
  let tests ← getItem s.records package
  let new ← getTest newData package test
  if test ∈ tests then do
    let r ← getItem tests test
    pure { s with memory := s.memory.modify r fun times => read s.memory new ∪ times }
  else do
    let records ← setTest s.records package test new
    pure { s with records }

def mergePackage (testOrder : Str → KeyOrder) (newData : Records) (s : State) (package : Str) :
    Except Exception State := do
  let tests ← getItem newData package
  ((testOrder package).1 tests.keys).foldlM (mergeTest newData package)
    { s with records := addPackage s.records package }

/-- `merge_csv_data`. The result is `old_data`, changed. -/
def mergeCsvData (packageOrder : KeyOrder) (testOrder : Str → KeyOrder) (memory : Memory Times)
    (oldData newData : Records) : Except Exception State :=
  (packageOrder.1 newData.keys).foldlM (mergePackage testOrder newData) ⟨memory, oldData⟩

/-! ## The table -/

def zero : Value := .time "0"

/-- `csv_data[package][test][version]` if it is there, `"0"` otherwise. -/
def valueOr0 (csvData : State) (package test version : Str) : Except Exception Value := do
  let tests ← getItem csvData.records package
  if test ∈ tests then do
    let r ← getItem tests test
    let times := read csvData.memory r
    if version ∈ times then getItem times version else pure zero
  else pure zero

/-- The loop body. The key of an entry is the name of the test. -/
def normalizeRow (csvData : State) (oldVersion newVersion : Str) (d : Dict (Value × Value)) :
    List Str → Except Exception (Dict (Value × Value))
  | [_component, package, test, _subtest, _description, _enabled, _cleaner, _version] => do
      let oldValue ← valueOr0 csvData package test oldVersion
      let newValue ← valueOr0 csvData package test newVersion
      pure (d.insert test (oldValue, newValue))
  | _ => .error (.builtin .valueError)

/-- `normalize_data`, for the file `tests.csv`. -/
def normalizeData (tests : Option Str) (csvData : State) (oldVersion newVersion : Str) :
    Except Exception (Dict (Value × Value)) :=
  forRows tests (normalizeRow csvData oldVersion newVersion) ∅

/-- The files of the dashboard, the orders of its dictionaries, and the versions asked for. -/
structure Request where
  benchmarkData : Str → Option Str
  tests : Option Str
  packageOrder : KeyOrder
  testOrder : Str → KeyOrder
  oldVersion : Str
  newVersion : Str

namespace Request

def oldFile (q : Request) : Option Str := q.benchmarkData (q.oldVersion ++ (".csv" : String))

def newFile (q : Request) : Option Str := q.benchmarkData (q.newVersion ++ (".csv" : String))

/-- The steps of `dashboard` up to the table. -/
def table (q : Request) : Except Exception (Dict (Value × Value)) := do
  let old ← getCsvData q.benchmarkData q.oldVersion []
  let new ← getCsvData q.benchmarkData q.newVersion old.memory
  let csvData ← mergeCsvData q.packageOrder q.testOrder new.memory old.records new.records
  normalizeData q.tests csvData q.oldVersion q.newVersion

/-! ## What is expected of the table -/

/-- The times of a test in the two files. -/
def timing (q : Request) (k : Str × Str) : Value × Value :=
  (((valuesOf (dataRows q.oldFile) k).getD zero), ((valuesOf (dataRows q.newFile) k).getD zero))

/-- The list has the test of the package. -/
def Listed (q : Request) (k : Str × Str) : Prop :=
  ∃ row ∈ dataRows q.tests, row[1]? = some k.1 ∧ row[2]? = some k.2

/-- There is a table, and it has the last times of every listed test. -/
def Complete (q : Request) : Prop :=
  ∃ d, q.table = .ok d ∧ ∀ k, q.Listed k → d.lookup k.2 = some (q.timing k)

/-- A result file has a test of the package. -/
def Known (q : Request) (package : Str) : Prop :=
  ∃ row ∈ dataRows q.oldFile ++ dataRows q.newFile, row[0]? = some package

/-- The packages of the list are known. -/
def AllKnown (q : Request) : Prop := ∀ k, q.Listed k → q.Known k.1

/-- Tests of one name have the same times. -/
def Agree (q : Request) : Prop :=
  ∀ k l, q.Listed k → q.Listed l → k.2 = l.2 → q.timing k = q.timing l

end Request

/-! ## The merged dictionary -/

variable {newData : Records} {s : State} {package test : Str} {n : Ref}

/-- The tests of a package, in the order of its dictionary. -/
def testsOf (testOrder : Str → KeyOrder) (newData : Records) (package : Str) : List Str :=
  (testOrder package).1 ((newData.lookup package).getD ∅).keys

/-- The tests in the order in which they are merged. -/
def pairs (packageOrder : KeyOrder) (testOrder : Str → KeyOrder) (newData : Records) :
    List (Str × Str) :=
  (packageOrder.1 newData.keys).flatMap fun p => (testsOf testOrder newData p).map (Prod.mk p)

/-- The merge of the references and objects under a key. -/
def mergeKey (newData : Records) : Memory Times × Table (Str × Str) → Str × Str →
    Memory Times × Table (Str × Str) :=
  mergeAt (· ∪ ·) (refAt newData)

/-- What the program has: the objects and the references. -/
def State.view (s : State) : Memory Times × Table (Str × Str) := (s.memory, refAt s.records)

theorem mem_testsOf {testOrder : Str → KeyOrder} :
    test ∈ testsOf testOrder newData package ↔ ∃ r, refAt newData (package, test) = some r := by
  rw [testsOf, ((testOrder package).2 _).mem_iff, ← AList.mem_keys, ← AList.lookup_isSome,
    Option.isSome_iff_exists, refAt]
  cases newData.lookup package with
  | none => simp
  | some tests => rfl

theorem mergeTest_eq (hpackage : package ∈ s.records)
    (hnew : refAt newData (package, test) = some n) :
    ∃ s', mergeTest newData package s test = .ok s' ∧
      s'.view = mergeKey newData s.view (package, test) ∧ ∀ q, q ∈ s'.records ↔ q ∈ s.records := by
  obtain ⟨tests, htests⟩ := exists_lookup hpackage
  have hlookup : refAt s.records (package, test) = tests.lookup test := refAt_eq htests test
  rw [mergeTest, getItem_eq_ok_iff.mpr htests, ok_bind, getTest_eq_ok hnew, ok_bind]
  by_cases htest : test ∈ tests
  · obtain ⟨r, hr⟩ := exists_lookup htest
    rw [if_pos htest, getItem_eq_ok_iff.mpr hr, ok_bind]
    refine ⟨_, rfl, ?_, fun _ => Iff.rfl⟩
    simp only [mergeKey, mergeAt, hnew, State.view, hlookup, hr]
  · obtain ⟨records, hset, href, hpackages⟩ := setTest_eq_ok hpackage test n
    rw [if_neg htest, hset, ok_bind]
    refine ⟨_, rfl, ?_, hpackages⟩
    simp only [mergeKey, mergeAt, hnew, State.view, hlookup, AList.lookup_eq_none.mpr htest, href]

theorem mergePackage_eq (hpackage : package ∈ newData) (testOrder : Str → KeyOrder) (s : State) :
    ∃ s', mergePackage testOrder newData s package = .ok s' ∧
      s'.view = ((testsOf testOrder newData package).map (Prod.mk package)).foldl
        (mergeKey newData) s.view ∧
      ∀ q, q ∈ s'.records ↔ q = package ∨ q ∈ s.records := by
  obtain ⟨tests, htests⟩ := exists_lookup hpackage
  have hkeys : testsOf testOrder newData package = (testOrder package).1 tests.keys := by
    rw [testsOf, htests, Option.getD_some]
  rw [mergePackage, getItem_eq_ok_iff.mpr htests, ok_bind, ← hkeys]
  refine foldlM_invariant (fun done (s' : State) =>
    s'.view = (done.map (Prod.mk package)).foldl (mergeKey newData) s.view ∧
      ∀ q, q ∈ s'.records ↔ q = package ∨ q ∈ s.records) ⟨?_, fun _ => mem_addPackage⟩ ?_
  · rw [State.view, refAt_addPackage]
    rfl
  · rintro done test s₁ htest ⟨hview, hpackages⟩
    obtain ⟨n, hn⟩ := mem_testsOf.mp htest
    obtain ⟨s₂, hs₂, hview', hpackages'⟩ := mergeTest_eq ((hpackages package).mpr (.inl rfl)) hn
    refine ⟨s₂, hs₂, ?_, fun q => (hpackages' q).trans (hpackages q)⟩
    rw [List.map_append, List.foldl_append, ← hview]
    exact hview'

/-- The loops merge the tests of the new dictionary one after the other. -/
theorem mergeCsvData_eq (packageOrder : KeyOrder) (testOrder : Str → KeyOrder)
    (memory : Memory Times) (oldData newData : Records) :
    ∃ s, mergeCsvData packageOrder testOrder memory oldData newData = .ok s ∧
      s.view = (pairs packageOrder testOrder newData).foldl (mergeKey newData)
        (memory, refAt oldData) ∧
      ∀ q, q ∈ s.records ↔ q ∈ oldData ∨ q ∈ newData := by
  have hmem : ∀ p, p ∈ packageOrder.1 newData.keys ↔ p ∈ newData := fun p => by
    rw [(packageOrder.2 _).mem_iff, AList.mem_keys]
  have hloop : ∃ s, mergeCsvData packageOrder testOrder memory oldData newData = .ok s ∧
      s.view = (pairs packageOrder testOrder newData).foldl (mergeKey newData)
        (memory, refAt oldData) ∧
      ∀ q, q ∈ s.records ↔ q ∈ oldData ∨ q ∈ packageOrder.1 newData.keys := by
    refine foldlM_invariant (fun done (s : State) =>
      s.view = (done.flatMap fun p => (testsOf testOrder newData p).map (Prod.mk p)).foldl
        (mergeKey newData) (memory, refAt oldData) ∧
      ∀ q, q ∈ s.records ↔ q ∈ oldData ∨ q ∈ done) ⟨rfl, by simp⟩ ?_
    rintro done p s hp ⟨hview, hpackages⟩
    obtain ⟨s', hs', hview', hpackages'⟩ := mergePackage_eq ((hmem p).mp hp) testOrder s
    refine ⟨s', hs', ?_, ?_⟩
    · rw [List.flatMap_append, List.foldl_append, ← hview, List.flatMap_singleton]
      exact hview'
    · intro q
      rw [hpackages', hpackages, List.mem_append, List.mem_singleton]
      exact or_left_comm.trans (or_congr_right or_comm)
  obtain ⟨s, hs, hview, hpackages⟩ := hloop
  refine ⟨s, hs, hview, fun q => ?_⟩
  rw [hpackages, hmem]

theorem nodup_pairs (packageOrder : KeyOrder) (testOrder : Str → KeyOrder) (newData : Records) :
    (pairs packageOrder testOrder newData).Nodup := by
  refine nodup_flatMap_pair ?_ fun p _ => ?_
  · rw [(packageOrder.2 _).nodup_iff]
    exact AList.keys_nodup newData
  · rw [testsOf, ((testOrder p).2 _).nodup_iff]
    exact AList.keys_nodup _

theorem mem_pairs {packageOrder : KeyOrder} {testOrder : Str → KeyOrder} {k : Str × Str} :
    k ∈ pairs packageOrder testOrder newData ↔ ∃ r, refAt newData k = some r := by
  obtain ⟨p, t⟩ := k
  rw [← @mem_testsOf _ _ _ testOrder, pairs, List.mem_flatMap]
  constructor
  · rintro ⟨p', -, hk⟩
    obtain ⟨t', ht', heq⟩ := List.mem_map.mp hk
    obtain ⟨rfl, rfl⟩ := Prod.mk.inj heq
    exact ht'
  · intro ht
    obtain ⟨r, hr⟩ := mem_testsOf.mp ht
    have hp : p ∈ newData := by
      by_contra hp
      have hnone : refAt newData (p, t) = none := refAt_of_not_mem hp
      rw [hnone] at hr
      cases hr
    refine ⟨p, ?_, List.mem_map.mpr ⟨t, ht, rfl⟩⟩
    rw [(packageOrder.2 _).mem_iff, ← AList.mem_keys]
    exact hp

section Merged
variable {old new : State} {oldVersion newVersion version : Str}
  {oldValues newValues : Str × Str → Option Value}

/-- The dictionary that was read later has objects of its own. -/
theorem Recorded.mergeable (hold : Recorded [] oldVersion oldValues old)
    (hnew : Recorded old.memory newVersion newValues new) (keys : List (Str × Str)) :
    Mergeable (refAt new.records) keys (new.memory, refAt old.records) := by
  have hdisjoint : ∀ k l r, refAt old.records k = some r → refAt new.records l ≠ some r := by
    intro k l r hk hl
    exact absurd (hold.stored hk) (Nat.not_lt.mpr (hnew.newer l r hl))
  constructor
  · exact fun k r hr => lt_of_lt_of_le (hold.stored hr) hnew.length_le
  · exact hnew.stored
  · exact hold.own
  · exact hnew.own
  · exact fun k l r hk hl => absurd hl (hdisjoint k l r hk)
  · exact fun k _ l r hk => hdisjoint k l r hk

/-- A test has the dictionary of either version, or both of them joined. -/
theorem mergeCsvData_spec (hold : Recorded [] oldVersion oldValues old)
    (hnew : Recorded old.memory newVersion newValues new) (packageOrder : KeyOrder)
    (testOrder : Str → KeyOrder) :
    ∃ s, mergeCsvData packageOrder testOrder new.memory old.records new.records = .ok s ∧
      (∀ k, object s.memory (refAt s.records) k =
        ((newValues k).map (AList.singleton newVersion)).merge (· ∪ ·)
          ((oldValues k).map (AList.singleton oldVersion))) ∧
      ∀ q, q ∈ s.records ↔ q ∈ old.records ∨ q ∈ new.records := by
  obtain ⟨s, hs, hview, hpackages⟩ :=
    mergeCsvData_eq packageOrder testOrder new.memory old.records new.records
  refine ⟨s, hs, fun k => ?_, hpackages⟩
  have hkept : object new.memory (refAt old.records) k = object old.memory (refAt old.records) k :=
    object_congr fun r hr => hnew.kept r (hold.stored hr)
  have hfold := (hold.mergeable hnew _).foldl (nodup_pairs packageOrder testOrder new.records)
    (· ∪ ·) k
  rw [← mergeKey, ← hview] at hfold
  rw [← hnew.times, ← hold.times, ← hkept]
  refine hfold.trans ?_
  by_cases hk : k ∈ pairs packageOrder testOrder new.records
  · rw [if_pos hk]
  · have hnone : refAt new.records k = none := by
      rw [mem_pairs, not_exists] at hk
      exact Option.eq_none_iff_forall_ne_some.mpr hk
    rw [if_neg hk, object_eq_none hnone]
    cases object new.memory (refAt old.records) k <;> rfl

/-- The time of a test and a version. -/
def timeAt (s : State) (k : Str × Str) (version : Str) : Option Value :=
  (object s.memory (refAt s.records) k).bind fun times => times.lookup version

theorem lookup_union (a b : Times) : (a ∪ b).lookup version =
    (a.lookup version).or (b.lookup version) := by
  by_cases h : version ∈ a
  · obtain ⟨value, hvalue⟩ := exists_lookup h
    rw [AList.lookup_union_left h, hvalue, Option.some_or]
  · rw [AList.lookup_union_right h, AList.lookup_eq_none.mpr h, Option.none_or]

theorem lookup_singleton (value : Value) :
    (AList.singleton version value : Times).lookup version = some value := by
  rw [← AList.insert_empty, AList.lookup_insert]

theorem lookup_singleton_of_ne {version' : Str} (h : version ≠ version') (value : Value) :
    (AList.singleton version' value : Times).lookup version = none := by
  rw [← AList.insert_empty, AList.lookup_insert_ne h, AList.lookup_empty]

theorem lookup_merge (a b : Option Times) :
    (a.merge (· ∪ ·) b).bind (fun times => times.lookup version) =
      (a.bind fun times => times.lookup version).or (b.bind fun times => times.lookup version) := by
  cases a with
  | none => cases b <;> simp [Option.merge]
  | some a =>
      cases b with
      | none => simp [Option.merge]
      | some b => exact lookup_union a b

theorem lookup_read (memory : Memory Times) (r : Ref) (version : Str) :
    (SharedTable.read memory r).lookup version =
      memory[r]?.bind fun times => times.lookup version := by
  rw [SharedTable.read, List.getD_eq_getElem?_getD]
  cases memory[r]? with
  | none => rfl
  | some times => rfl

theorem valueOr0_eq (h : package ∈ s.records) :
    valueOr0 s package test version = .ok ((timeAt s (package, test) version).getD zero) := by
  obtain ⟨tests, htests⟩ := exists_lookup h
  rw [valueOr0, getItem_eq_ok_iff.mpr htests, ok_bind, timeAt, object, refAt_eq htests]
  by_cases htest : test ∈ tests
  · obtain ⟨r, hr⟩ := exists_lookup htest
    rw [if_pos htest, getItem_eq_ok_iff.mpr hr, ok_bind, hr, Option.bind_some, ← lookup_read]
    by_cases hversion : version ∈ read s.memory r
    · obtain ⟨value, hvalue⟩ := exists_lookup hversion
      rw [hvalue, Option.getD_some, if_pos hversion, getItem_eq_ok_iff.mpr hvalue]
    · rw [AList.lookup_eq_none.mpr hversion, if_neg hversion]
      rfl
  · rw [if_neg htest, AList.lookup_eq_none.mpr htest]
    rfl

theorem valueOr0_error (h : package ∉ s.records) (test version : Str) :
    valueOr0 s package test version = .error (.builtin .keyError) := by
  rw [valueOr0, getItem, AList.lookup_eq_none.mpr h]
  rfl

theorem lookup_map_singleton (value : Option Value) (version version' : Str) :
    (value.map (AList.singleton version') : Option Times).bind
        (fun times => times.lookup version) = if version = version' then value else none := by
  cases value with
  | none => simp
  | some value =>
      by_cases h : version = version'
      · rw [if_pos h, h]
        exact lookup_singleton value
      · rw [if_neg h]
        exact lookup_singleton_of_ne h value

end Merged

/-! ## The table -/

namespace Request
variable {q : Request} {d : Dict (Value × Value)} {row : List Str}

/-- The merged dictionary has the last times of both files. -/
theorem exists_csvData (hold : HasFields 4 q.oldFile) (hnew : HasFields 4 q.newFile) :
    ∃ old new s, getCsvData q.benchmarkData q.oldVersion [] = .ok old ∧
      getCsvData q.benchmarkData q.newVersion old.memory = .ok new ∧
      mergeCsvData q.packageOrder q.testOrder new.memory old.records new.records = .ok s ∧
      (∀ k, ((timeAt s k q.oldVersion).getD zero, (timeAt s k q.newVersion).getD zero) =
        q.timing k) ∧
      ∀ package, package ∈ s.records ↔ q.Known package := by
  obtain ⟨old, hgetOld, hholdsOld⟩ := getCsvData_of_hasFields hold []
  obtain ⟨new, hgetNew, hholdsNew⟩ := getCsvData_of_hasFields hnew old.memory
  obtain ⟨s, hmerge, hobject, hpackages⟩ :=
    mergeCsvData_spec hholdsOld.1 hholdsNew.1 q.packageOrder q.testOrder
  have htime : ∀ k version, timeAt s k version =
      (if version = q.newVersion then valuesOf (dataRows q.newFile) k else none).or
        (if version = q.oldVersion then valuesOf (dataRows q.oldFile) k else none) := by
    intro k version
    rw [timeAt, hobject, lookup_merge, lookup_map_singleton, lookup_map_singleton]
    rfl
  refine ⟨old, new, s, hgetOld, hgetNew, hmerge, fun k => ?_, fun package => ?_⟩
  · rw [timing, htime, htime, if_pos rfl, if_pos rfl]
    by_cases hversion : q.oldVersion = q.newVersion
    · have hfile : q.oldFile = q.newFile := by rw [oldFile, newFile, hversion]
      rw [if_pos hversion, if_pos hversion.symm, hfile, Option.or_self]
    · rw [if_neg hversion, if_neg (Ne.symm hversion), Option.none_or, Option.or_none]
  · rw [hpackages, hholdsOld.2, hholdsNew.2, Known]
    simp only [List.mem_append, or_and_right, exists_or]
    rfl

/-- The package and the test of a row of the list. -/
def keyOf (row : List Str) : Str × Str := (row.getD 1 [], row.getD 2 [])

theorem normalizeRow_eq_ok {s : State} (hrow : row.length = 8) (h : (keyOf row).1 ∈ s.records)
    (oldVersion newVersion : Str) (d : Dict (Value × Value)) :
    normalizeRow s oldVersion newVersion d row = .ok (d.insert (keyOf row).2
      ((timeAt s (keyOf row) oldVersion).getD zero,
        (timeAt s (keyOf row) newVersion).getD zero)) := by
  match row, hrow with
  | [component, package, test, subtest, description, enabled, cleaner, version], _ =>
      have hpackage : package ∈ s.records := h
      rw [normalizeRow, valueOr0_eq hpackage, ok_bind, valueOr0_eq hpackage, ok_bind]
      rfl

theorem of_normalizeRow {s : State} {oldVersion newVersion : Str} {d' : Dict (Value × Value)}
    (h : normalizeRow s oldVersion newVersion d row = .ok d') :
    row.length = 8 ∧ (keyOf row).1 ∈ s.records := by
  unfold normalizeRow at h
  split at h
  · next package test _ _ _ _ _ =>
      refine ⟨rfl, ?_⟩
      by_contra hpackage
      have hnot : package ∉ s.records := hpackage
      rw [valueOr0_error hnot] at h
      cases h
  · cases h

theorem listed_iff (h : HasFields 8 q.tests) {k : Str × Str} :
    q.Listed k ↔ ∃ row ∈ dataRows q.tests, keyOf row = k := by
  refine exists_congr fun row => and_congr_right fun hrow => ?_
  match row, h.2 row hrow with
  | [component, package, test, subtest, description, enabled, cleaner, version], _ =>
      simp [keyOf, Prod.ext_iff]

theorem table_eq_ok_iff : q.table = .ok d ↔ HasFields 4 q.oldFile ∧ HasFields 4 q.newFile ∧
    HasFields 8 q.tests ∧ q.AllKnown ∧
      d = ((dataRows q.tests).map fun row => ((keyOf row).2, q.timing (keyOf row))).foldl
        (fun d w => d.insert w.1 w.2) ∅ := by
  by_cases hfields : HasFields 4 q.oldFile ∧ HasFields 4 q.newFile
  · obtain ⟨hold, hnew⟩ := hfields
    obtain ⟨old, new, s, hgetOld, hgetNew, hmerge, htime, hpackages⟩ := exists_csvData hold hnew
    have hfine : ∀ row d, row.length = 8 ∧ (keyOf row).1 ∈ s.records →
        normalizeRow s q.oldVersion q.newVersion d row =
          .ok (d.insert (keyOf row).2 (q.timing (keyOf row))) := by
      rintro row d ⟨hrow, hpackage⟩
      rw [normalizeRow_eq_ok hrow hpackage, htime]
    rw [table, hgetOld, ok_bind, hgetNew, ok_bind, hmerge, ok_bind, normalizeData,
      forRows_eq_ok_iff, foldlM_eq_ok_iff hfine (fun _ _ _ => of_normalizeRow), List.foldl_map]
    constructor
    · rintro ⟨hreadable, hrows, hd⟩
      have htests : HasFields 8 q.tests := ⟨hreadable, fun row hrow => (hrows row hrow).1⟩
      refine ⟨hold, hnew, htests, ?_, hd⟩
      intro k hk
      obtain ⟨row, hrow, rfl⟩ := (listed_iff htests).mp hk
      exact (hpackages _).mp (hrows row hrow).2
    · rintro ⟨-, -, htests, hknown, hd⟩
      refine ⟨htests.1, fun row hrow => ⟨htests.2 row hrow, ?_⟩, hd⟩
      exact (hpackages _).mpr (hknown _ ((listed_iff htests).mpr ⟨row, hrow, rfl⟩))
  · constructor
    · intro h
      obtain ⟨old, hgetOld, h⟩ := bind_eq_ok h
      obtain ⟨new, hgetNew, -⟩ := bind_eq_ok h
      exact absurd ⟨hasFields_of_getCsvData hgetOld, hasFields_of_getCsvData hgetNew⟩ hfields
    · rintro ⟨hold, hnew, -⟩
      exact absurd ⟨hold, hnew⟩ hfields

/-- Of the entries of one name the last one stays. -/
theorem lookup_foldl_insert {α : Type} (writes : List (Str × α)) (t : Str) :
    (writes.foldl (fun d w => d.insert w.1 w.2) (∅ : Dict α)).lookup t = writeAll writes t := by
  induction writes using List.reverseRecOn with
  | nil => rfl
  | append_singleton writes w ih =>
      rw [List.foldl_append, List.foldl_cons, List.foldl_nil, writeAll_concat]
      by_cases ht : t = w.1
      · rw [ht, AList.lookup_insert, Function.update_self]
      · rw [AList.lookup_insert_ne ht, ih, Function.update_of_ne ht]

/-- The table is complete exactly if the files can be read, every listed package has a result in
one of the versions, and listed tests of one name have the same times. -/
theorem complete_iff (q : Request) : q.Complete ↔ HasFields 4 q.oldFile ∧ HasFields 4 q.newFile ∧
    HasFields 8 q.tests ∧ q.AllKnown ∧ q.Agree := by
  constructor
  · rintro ⟨d, hd, hlookup⟩
    obtain ⟨hold, hnew, htests, hknown, -⟩ := table_eq_ok_iff.mp hd
    refine ⟨hold, hnew, htests, hknown, ?_⟩
    intro k l hk hl hname
    have hentry := hlookup k hk
    rw [hname, hlookup l hl] at hentry
    exact (Option.some.inj hentry).symm
  · rintro ⟨hold, hnew, htests, hknown, hagree⟩
    refine ⟨_, table_eq_ok_iff.mpr ⟨hold, hnew, htests, hknown, rfl⟩, ?_⟩
    intro k hk
    obtain ⟨row, hrow, rfl⟩ := (listed_iff htests).mp hk
    rw [lookup_foldl_insert]
    have hkept := (@kept_iff Str (Value × Value) _ _
      ((dataRows q.tests).map fun row => ((keyOf row).2, q.timing (keyOf row))) id).mpr ?_
    · have hentry := hkept _ (List.mem_map.mpr ⟨row, hrow, rfl⟩)
      rwa [Option.map_id, id_eq] at hentry
    · intro v hv w hw hname
      obtain ⟨row₁, hrow₁, rfl⟩ := List.mem_map.mp hv
      obtain ⟨row₂, hrow₂, rfl⟩ := List.mem_map.mp hw
      exact hagree _ _ ((listed_iff htests).mpr ⟨row₁, hrow₁, rfl⟩)
        ((listed_iff htests).mpr ⟨row₂, hrow₂, rfl⟩) hname

/-- The results of the BI benchmark, and the list with the next test after it. -/
def results234 : Str :=
  ("package,test,prepare_time,execution_time\nbi,tpcdsload,21.124,3093.696\n" : String)

def results250 : Str :=
  ("package,test,prepare_time,execution_time\nbi,tpcdsload,18.576,2806.900\n" : String)

def testList : Str :=
  ("Component,Package,Test,Subtest,Description,Enabled,Cleaner,Version\n" : String) ++
  ("hive,bi,tpcdsload,,BI Benchmark,true,false,1\n" : String) ++
  ("hive,compatibility,tpcds,,TPC-DS Compatibility,true,false,1\n" : String)

def sample : Request where
  benchmarkData name :=
    if name = ("hdp234.csv" : String) then some results234
    else if name = ("hdp250.csv" : String) then some results250
    else none
  tests := some testList
  packageOrder := ⟨id, fun _ => List.Perm.refl _⟩
  testOrder _ := ⟨id, fun _ => List.Perm.refl _⟩
  oldVersion := "hdp234"
  newVersion := "hdp250"

/-- No result file has a test of the package `compatibility`, so there is no table. -/
theorem not_complete_sample : ¬ sample.Complete := by
  rintro ⟨d, hd, -⟩
  obtain ⟨-, -, -, hknown, -⟩ := table_eq_ok_iff.mp hd
  have hlisted : ∃ row ∈ dataRows sample.tests,
      row[1]? = some "compatibility".toList ∧ row[2]? = some "tpcds".toList := by
    decide +kernel
  have hunknown : ¬ ∃ row ∈ dataRows sample.oldFile ++ dataRows sample.newFile,
      row[0]? = some "compatibility".toList := by
    decide +kernel
  exact hunknown (hknown ("compatibility".toList, "tpcds".toList) hlisted)

end Request

end Structor.Dashboard
