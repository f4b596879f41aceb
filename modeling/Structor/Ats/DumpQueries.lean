import Structor.Keyed
import Structor.Overwrite
import Structor.Python
import Structor.Python.Json

/-!
# Dumping the Hive queries of a cluster

`main` writes one file for each DAG, named after the Hive query and its user. The file
of a DAG is replaced when a later DAG derives the same name.

## Main definitions

* `Dag` -- the fields of a timeline entity that are read
* `SqlFile` -- the sections of a file, and its text
* `outputOf` -- the name and the file of a DAG
* `dumpDags` -- the loop of `main`
* `Records` -- a file has the counters and settings of a DAG

## Main results

* `dumpDags_keeps_iff` -- when no DAG is lost
-/
namespace Structor.Ats

open Python

structure Counter where
  counterName : Str
  counterValue : Json

structure CounterGroup where
  counters : List Counter

structure Counters where
  counterGroups : Option (List CounterGroup)

structure DagContext where
  callerId : Option Str

structure DagPlan where
  dagInfo : Option Str
  dagContext : Option DagContext
  dagName : Option Str

structure OtherInfo where
  dagPlan : Option DagPlan
  user : Option Str
  applicationId : Option Str
  counters : Option Counters

structure Dag where
  starttime : ℤ
  otherinfo : OtherInfo

/-- The other records that `main` asks for, and the JSON reader. -/
structure Timeline where
  loads : Str → Except Error Json
  /-- The `config` of a `TEZ_APPLICATION`, if it has one. -/
  config : Str → Except Error (Option Json)
  /-- The `QUERY` of a `HIVE_QUERY_ID`, if the record is there and has one. -/
  hiveQuery : Str → Option (Option Str)

/-- A lookup `d[key]`. -/
def field {α : Type} : Option α → Except Error α
  | some value => .ok value
  | none => .error .keyError

def item (key : Str) : Json → Except Error Json
  | .obj items => field ((Keyed.get Prod.fst key items).map Prod.snd)
  | _ => .error .typeError

/-- The counters of all groups. Of counters of one name the last one stays. -/
def extractCounters (dag : Dag) : List (Str × Json) :=
  match dag.otherinfo.counters with
  | none => []
  | some counters =>
      match counters.counterGroups with
      | none => []
      | some groups =>
          (groups.flatMap CounterGroup.counters).foldl
            (fun allcounters c => Keyed.put Prod.fst (c.counterName, c.counterValue) allcounters) []

def getDagSettings (t : Timeline) (applicationId : Str) : Except Error Json := do
  let config ← t.config applicationId
  return config.getD (.obj [])

/-- The plan of a Hive query; `none` if the query has no record. -/
def getQueryPlan (t : Timeline) (hiveId : Str) : Except Error (Option Json) :=
  match t.hiveQuery hiveId with
  | none => .ok none
  | some none => .ok (some (.obj []))
  | some (some query) => do
      let queryDict ← t.loads query
      let queryPlan ← item "queryPlan" queryDict
      return some queryPlan

/-- The caller of the DAG, or else the start of its name. -/
def getHiveId (dagPlan : DagPlan) : Except Error Str :=
  match dagPlan.dagContext with
  | some dagContext => field dagContext.callerId
  | none => do
      let dag ← field dagPlan.dagName
      return (dag.splitOn ':').headD []

/-- The sections of a file. -/
structure SqlFile where
  hiveQuery : Str
  queryPlan : Option Json
  counters : List (Str × Json)
  settings : Json

/-- The text of a file. -/
def SqlFile.text (file : SqlFile) : Str :=
  "-- Query Text\n" ++ file.hiveQuery ++
  "\n-- Query Plan\n".toList ++ (file.queryPlan.elim "ERROR".toList dumps) ++
  "\n-- Job Counters\n".toList ++ pformat (.obj file.counters) ++ ['\n'] ++
  "\n-- Job Settings\n".toList ++ pformat file.settings ++ ['\n']

/-- Writing the file. The query text is unicode and is encoded as ASCII. -/
def SqlFile.write (file : SqlFile) : Except Error Str :=
  if file.hiveQuery.all fun c => c.toNat < 128 then .ok file.text else .error .unicodeEncodeError

def description : Json → Except Error Str
  | .str s => .ok s
  | _ => .error .typeError

/-- The name and the file of a DAG, unless it has no plan information. -/
def outputOf (t : Timeline) (d : Dag) : Except Error (Option (Str × SqlFile)) :=
  match d.otherinfo.dagPlan with
  | none => .ok none
  | some dagPlan =>
      match dagPlan.dagInfo with
      | none => .ok none
      | some dagInfo => do
          let user ← field d.otherinfo.user
          let parsed ← t.loads dagInfo
          let value ← item "description" parsed
          let counters := extractCounters d
          let applicationId ← field d.otherinfo.applicationId
          let settings ← getDagSettings t applicationId
          let hiveId ← getHiveId dagPlan
          let queryPlan ← getQueryPlan t hiveId
          let hiveQuery ← description value
          let sqlName := hiveId ++ '.' :: user ++ ".sql".toList
          return some (sqlName, ⟨hiveQuery, queryPlan, counters, settings⟩)

/-- One turn of the loop. Opening a file for writing replaces the one of that name. -/
def dumpDag (t : Timeline) (files : Str → Option SqlFile) (d : Dag) :
    Except Error (Str → Option SqlFile) := do
  match ← outputOf t d with
  | none => return files
  | some (sqlName, file) =>
      let _ ← file.write
      return Function.update files sqlName (some file)

/-- The files that are there after the loop over the DAGs. -/
def dumpDags (t : Timeline) (dags : List Dag) : Except Error (Str → Option SqlFile) :=
  dags.foldlM (dumpDag t) fun _ => none

/-! ## What is left of the files -/

variable {t : Timeline} {dags : List Dag} {d : Dag} {files : Str → Option SqlFile}

/-- The files that are written, in order. -/
def outputs (t : Timeline) (dags : List Dag) : List (Str × SqlFile) :=
  dags.filterMap fun d =>
    match outputOf t d with
    | .ok output => output
    | .error _ => none

/-- The counters and settings of a file, each as the map that it is. -/
def SqlFile.stats (file : SqlFile) : Json × Json :=
  ((Json.obj file.counters).sorted, file.settings.sorted)

/-- The file that is written shows no more of the counters and settings than the maps. -/
theorem SqlFile.text_congr {file file' : SqlFile} (hquery : file.hiveQuery = file'.hiveQuery)
    (hplan : file.queryPlan = file'.queryPlan) (hstats : file.stats = file'.stats) :
    file.text = file'.text := by
  obtain ⟨hcounters, hsettings⟩ := Prod.mk.inj hstats
  have hcounters' := pformat_congr hcounters
  have hsettings' := pformat_congr hsettings
  unfold SqlFile.text
  rw [hquery, hplan, hcounters', hsettings']

theorem dumpDags_concat (dags : List Dag) (d : Dag) :
    dumpDags t (dags ++ [d]) = dumpDags t dags >>= fun files => dumpDag t files d := by
  simp [dumpDags]

/-- The loop leaves what its writes leave. -/
theorem dumpDags_eq (h : dumpDags t dags = .ok files) : files = writeAll (outputs t dags) := by
  induction dags using List.reverseRecOn generalizing files with
  | nil => exact (Except.ok.inj h).symm
  | append_singleton dags d ih =>
      rw [dumpDags_concat] at h
      obtain ⟨before, hbefore, hd⟩ := bind_eq_ok h
      obtain ⟨output, houtput, hwrite⟩ := bind_eq_ok hd
      obtain rfl := ih hbefore
      have houtputs : outputs t (dags ++ [d]) = outputs t dags ++ output.toList := by
        cases output <;> simp [outputs, houtput]
      rw [houtputs]
      cases output with
      | none =>
          obtain rfl := Except.ok.inj hwrite
          simp
      | some output =>
          obtain ⟨text, -, hfiles⟩ := bind_eq_ok hwrite
          obtain rfl := Except.ok.inj hfiles
          exact (writeAll_concat _ output).symm

theorem mem_outputs {output : Str × SqlFile} :
    output ∈ outputs t dags ↔ ∃ d ∈ dags, outputOf t d = .ok (some output) := by
  rw [outputs, List.mem_filterMap]
  refine exists_congr fun d => and_congr_right fun _ => ?_
  cases outputOf t d <;> simp

/-- A file has the counters of the DAG and the settings of its application. They are
dictionaries, so that the order of the items does not count. -/
def Records (t : Timeline) (d : Dag) (file : SqlFile) : Prop :=
  (Json.obj file.counters).sorted = (Json.obj (extractCounters d)).sorted ∧
    ∃ applicationId settings, d.otherinfo.applicationId = some applicationId ∧
      getDagSettings t applicationId = .ok settings ∧ file.settings.sorted = settings.sorted

theorem field_eq_ok {α : Type} {value : Option α} {a : α} (h : field value = .ok a) :
    value = some a := by
  cases value with
  | none => cases h
  | some b => rw [Except.ok.inj h]

/-- The sections of the file that is written for a DAG. -/
theorem outputOf_sections {name : Str} {file : SqlFile}
    (h : outputOf t d = .ok (some (name, file))) : file.counters = extractCounters d ∧
      ∃ applicationId, d.otherinfo.applicationId = some applicationId ∧
        getDagSettings t applicationId = .ok file.settings := by
  unfold outputOf at h
  split at h
  · cases h
  · split at h
    · cases h
    · obtain ⟨user, -, h⟩ := bind_eq_ok h
      obtain ⟨parsed, -, h⟩ := bind_eq_ok h
      obtain ⟨value, -, h⟩ := bind_eq_ok h
      obtain ⟨applicationId, hid, h⟩ := bind_eq_ok h
      obtain ⟨settings, hsettings, h⟩ := bind_eq_ok h
      obtain ⟨hiveId, -, h⟩ := bind_eq_ok h
      obtain ⟨queryPlan, -, h⟩ := bind_eq_ok h
      obtain ⟨hiveQuery, -, h⟩ := bind_eq_ok h
      obtain ⟨-, rfl⟩ := Prod.mk.inj (Option.some.inj (Except.ok.inj h))
      exact ⟨rfl, applicationId, field_eq_ok hid, hsettings⟩

theorem records_iff {name : Str} {file kept : SqlFile}
    (h : outputOf t d = .ok (some (name, file))) : Records t d kept ↔ kept.stats = file.stats := by
  obtain ⟨hcounters, applicationId, hid, hsettings⟩ := outputOf_sections h
  rw [SqlFile.stats, SqlFile.stats, Prod.mk.injEq, hcounters]
  constructor
  · rintro ⟨hkept, applicationId', settings, hid', hsettings', hsame⟩
    obtain rfl : applicationId = applicationId' := Option.some.inj (hid.symm.trans hid')
    obtain rfl : settings = file.settings := Except.ok.inj (hsettings'.symm.trans hsettings)
    exact ⟨hkept, hsame⟩
  · intro h
    exact ⟨h.1, applicationId, file.settings, hid, hsettings, h.2⟩

/-- Every DAG that is processed is recorded in the file of its name. -/
def Kept (t : Timeline) (dags : List Dag) (files : Str → Option SqlFile) : Prop :=
  ∀ d ∈ dags, ∀ name file, outputOf t d = .ok (some (name, file)) →
    ∃ kept, files name = some kept ∧ Records t d kept

/-- Every DAG that is processed is recorded in some file. -/
def Found (t : Timeline) (dags : List Dag) (files : Str → Option SqlFile) : Prop :=
  ∀ d ∈ dags, ∀ name file, outputOf t d = .ok (some (name, file)) →
    ∃ other kept, files other = some kept ∧ Records t d kept

theorem map_stats_eq_some {name : Str} {file : SqlFile} (h : outputOf t d = .ok (some (name, file)))
    (other : Str) : (files other).map SqlFile.stats = some file.stats ↔
      ∃ kept, files other = some kept ∧ Records t d kept := by
  rw [Option.map_eq_some_iff]
  exact exists_congr fun kept => and_congr_right fun _ => (records_iff h).symm

theorem kept_iff_outputs : Kept t dags files ↔
    ∀ w ∈ outputs t dags, (files w.1).map SqlFile.stats = some w.2.stats := by
  constructor
  · rintro h ⟨name, file⟩ hw
    obtain ⟨d, hd, houtput⟩ := mem_outputs.mp hw
    exact (map_stats_eq_some houtput name).mpr (h d hd name file houtput)
  · intro h d hd name file houtput
    exact (map_stats_eq_some houtput name).mp (h (name, file) (mem_outputs.mpr ⟨d, hd, houtput⟩))

theorem found_iff_outputs : Found t dags files ↔
    ∀ w ∈ outputs t dags, ∃ k, (files k).map SqlFile.stats = some w.2.stats := by
  constructor
  · rintro h ⟨name, file⟩ hw
    obtain ⟨d, hd, houtput⟩ := mem_outputs.mp hw
    obtain ⟨other, hother⟩ := h d hd name file houtput
    exact ⟨other, (map_stats_eq_some houtput other).mpr hother⟩
  · intro h d hd name file houtput
    obtain ⟨other, hother⟩ := h (name, file) (mem_outputs.mpr ⟨d, hd, houtput⟩)
    exact ⟨other, (map_stats_eq_some houtput other).mp hother⟩

/-- When the loop ends, each DAG is recorded in its own file exactly if DAGs of one file
name have the same counters and settings, as maps. It is recorded in any file exactly if
it has the counters and settings of a DAG that no later one of its file name replaces. -/
theorem dumpDags_keeps_iff (h : dumpDags t dags = .ok files) :
    (Kept t dags files ↔ ∀ d ∈ dags, ∀ e ∈ dags, ∀ name file file',
      outputOf t d = .ok (some (name, file)) → outputOf t e = .ok (some (name, file')) →
        file.stats = file'.stats) ∧
    (Found t dags files ↔ ∀ w ∈ outputs t dags, ∃ earlier v later,
      outputs t dags = earlier ++ v :: later ∧ (∀ u ∈ later, u.1 ≠ v.1) ∧
        v.2.stats = w.2.stats) := by
  obtain rfl := dumpDags_eq h
  refine ⟨?_, ?_⟩
  · rw [kept_iff_outputs, kept_iff]
    constructor
    · intro hsame d hd e he name file file' hfile hfile'
      exact hsame (name, file) (mem_outputs.mpr ⟨d, hd, hfile⟩) (name, file')
        (mem_outputs.mpr ⟨e, he, hfile'⟩) rfl
    · rintro hsame ⟨name, file⟩ hv ⟨name', file'⟩ hw rfl
      obtain ⟨d, hd, hfile⟩ := mem_outputs.mp hv
      obtain ⟨e, he, hfile'⟩ := mem_outputs.mp hw
      exact hsame d hd e he name file file' hfile hfile'
  · rw [found_iff_outputs, found_iff]

/-- The information of a DAG that ran `select 1`. -/
def selectInfo : Str := "\x7b\"description\": \"select 1\"\x7d"

/-- A timeline with one query, which ran for two DAGs. -/
def oneQuery : Timeline where
  loads text :=
    if text = selectInfo then .ok (.obj [("description", .str "select 1")])
    else .error .valueError
  config _ := .ok none
  hiveQuery _ := none

/-- A DAG of a query, with one counter. -/
def dagOf (callerId : Str) (count : ℤ) : Dag where
  starttime := 1451606400000
  otherinfo :=
    { dagPlan := some ⟨some selectInfo, some ⟨some callerId⟩, none⟩
      user := some "hive"
      applicationId := some "application_1451606400000_0001"
      counters := some ⟨some [⟨[⟨"RECORDS_OUT", .int count⟩]⟩]⟩ }

def nameOf (callerId : Str) : Str := callerId ++ '.' :: "hive".toList ++ ".sql".toList

def fileOf (count : ℤ) : SqlFile := ⟨"select 1", none, [("RECORDS_OUT", .int count)], .obj []⟩

theorem item_singleton (key : Str) (value : Json) : item key (.obj [(key, value)]) = .ok value := by
  simp [item, Keyed.get, field]

theorem outputOf_dagOf (callerId : Str) (count : ℤ) :
    outputOf oneQuery (dagOf callerId count) = .ok (some (nameOf callerId, fileOf count)) := by
  have hloads : oneQuery.loads selectInfo = .ok (.obj [("description", .str "select 1")]) := by
    simp only [oneQuery, if_true]
  have hconfig : ∀ applicationId, oneQuery.config applicationId = .ok none := fun _ => rfl
  have hquery : ∀ hiveId, oneQuery.hiveQuery hiveId = none := fun _ => rfl
  simp only [outputOf, dagOf, hloads, hconfig, hquery, field, item_singleton, getDagSettings,
    getHiveId, getQueryPlan, description, bind, Except.bind, pure, Except.pure]
  rfl

theorem dumpDag_dagOf (files : Str → Option SqlFile) (callerId : Str) (count : ℤ) :
    dumpDag oneQuery files (dagOf callerId count) =
      .ok (Function.update files (nameOf callerId) (some (fileOf count))) := by
  have hwrite : (fileOf count).write = .ok (fileOf count).text := if_pos rfl
  simp only [dumpDag, outputOf_dagOf, hwrite, bind, Except.bind, pure, Except.pure]

theorem dumpDags_dagOf (first second : Str) (m n : ℤ) :
    dumpDags oneQuery [dagOf first m, dagOf second n] =
      .ok (Function.update (Function.update (fun _ => none) (nameOf first) (some (fileOf m)))
        (nameOf second) (some (fileOf n))) := by
  simp only [dumpDags, List.foldlM_cons, List.foldlM_nil, dumpDag_dagOf, bind, Except.bind, pure,
    Except.pure]

/-- DAGs of two queries have different files. -/
theorem two_queries_kept : ∃ files,
    dumpDags oneQuery [dagOf "hive_1" 1, dagOf "hive_2" 2] = .ok files ∧
      Kept oneQuery [dagOf "hive_1" 1, dagOf "hive_2" 2] files := by
  have hrun := dumpDags_dagOf "hive_1" "hive_2" 1 2
  refine ⟨_, hrun, (dumpDags_keeps_iff hrun).1.mpr ?_⟩
  intro d hd e he name file file' hfile hfile'
  simp only [List.mem_cons, List.not_mem_nil, or_false] at hd he
  rcases hd with rfl | rfl <;> rcases he with rfl | rfl <;>
    simp only [outputOf_dagOf, Except.ok.injEq, Option.some.injEq, Prod.mk.injEq] at hfile hfile'
  · rw [← hfile.2, ← hfile'.2]
  · exact absurd (hfile.1.trans hfile'.1.symm) (by decide)
  · exact absurd (hfile.1.trans hfile'.1.symm) (by decide)
  · rw [← hfile.2, ← hfile'.2]

theorem Kept.found (h : Kept t dags files) : Found t dags files := by
  intro d hd name file houtput
  exact ⟨name, h d hd name file houtput⟩

/-- Two DAGs of one query: the second replaces the file of the first. -/
theorem two_dags_not_kept : ∃ files,
    dumpDags oneQuery [dagOf "hive_1" 1, dagOf "hive_1" 2] = .ok files ∧
      ¬ Kept oneQuery [dagOf "hive_1" 1, dagOf "hive_1" 2] files ∧
      ¬ Found oneQuery [dagOf "hive_1" 1, dagOf "hive_1" 2] files := by
  refine ⟨_, dumpDags_dagOf "hive_1" "hive_1" 1 2, ?_⟩
  rw [← not_or]
  intro h
  obtain ⟨other, kept, hkept, hcounters, -⟩ := (h.elim Kept.found id) (dagOf "hive_1" 1) (by simp)
    _ _ (outputOf_dagOf "hive_1" 1)
  rw [Function.update_idem] at hkept
  by_cases hname : other = nameOf "hive_1"
  · subst hname
    rw [Function.update_self] at hkept
    have hcount : (Json.obj (fileOf 2).counters).sorted =
        (Json.obj (extractCounters (dagOf "hive_1" 1))).sorted := Option.some.inj hkept ▸ hcounters
    have hvalue : Json.int 2 = Json.int 1 :=
      congrArg (fun counters => (counters.headD ([], .null)).2) (Json.obj.inj hcount)
    exact absurd (Json.int.inj hvalue) (by decide)
  · rw [Function.update_of_ne hname] at hkept
    cases hkept

end Structor.Ats
