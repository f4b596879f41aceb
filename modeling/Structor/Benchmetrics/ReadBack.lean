import Structor.Benchmetrics.ProcessResults

/-!
# Reading the driver's log back

Tests that do not clash leave texts that the reader passes over, apart from the two times
that make their row. A test that clashes ends the reader.

## Main definitions

* `Execution.Quiet` -- the scripts write no marker line
* `resultRow` -- the row of a test
-/
namespace Structor.Benchmetrics

open Python Stdout

variable {F : Type} {floats : Floats F} {b : Buffering} {host : Line} {t : Definition}
  {e : Execution} {before held s : Str} {prepareTime : Str} {startTime : F}

/-- The scripts of the test write no line that starts with a marker. -/
def Execution.Quiet (e : Execution) : Prop :=
  ∀ script ∈ [e.prepare.script, e.execute.script, e.clean], markers.Quiet script.output

instance (e : Execution) : Decidable e.Quiet :=
  inferInstanceAs (Decidable (∀ script ∈ [e.prepare.script, e.execute.script, e.clean],
    markers.Quiet script.output))

/-- The row of a test. -/
def resultRow (t : Definition) (e : Execution) : Str :=
  row t.package t.test e.prepare.elapsed e.execute.elapsed

/-! ## The text around a script -/

theorem not_mem_path (package test : Word) : '\n' ∉ thisTest package test := by
  have hbase : '\n' ∉ basePath := by decide
  simp [thisTest, hbase, package.not_mem (c := '\n') (by decide),
    test.not_mem (c := '\n') (by decide)]

theorem calm_command {path : Str} (hpath : '\n' ∉ path) :
    markers.Calm (printed (vagrantSsh ++ host ++ " -c " ++ path)) := by
  have hline : '\n' ∉ vagrantSsh ++ (host ++ " -c ".toList ++ path) := by
    have hssh : '\n' ∉ vagrantSsh := by decide
    simp [hssh, host.property, hpath]
  have hcalm := Markers.calm_line (m := markers) (s := vagrantSsh) (by decide +kernel) hline
  simpa [printed] using hcalm

/-- A script that is run at the start of a line leaves a quiet text. -/
theorem quiet_append_ran {path : Str} {script : Script} (hs : markers.Quiet s) (hend : ['\n'] <:+ s)
    (hpath : '\n' ∉ path) (hbefore : markers.Calm before)
    (hscript : markers.Quiet script.output) :
    markers.Quiet (s ++ ran b host path script before) := by
  have hcommand : markers.Calm (printed (vagrantSsh ++ host ++ " -c " ++ path)) :=
    calm_command hpath
  have hshown : markers.Calm (if script.failed then [] else printed "") := by
    split
    · exact Markers.calm_nil
    · exact Markers.calm_break Markers.quiet_nil
  cases b with
  | line =>
      have hprinted := (hs.append_calm hbefore).append_calm hcommand
      have hbreak := (List.suffix_append _ _).trans (List.suffix_append (s ++ before)
        (printed (vagrantSsh ++ host ++ " -c " ++ path)))
      have hscripted := hprinted.append_of_break hbreak hscript
      simpa [ran, around] using hscripted.append_calm hshown
  | full =>
      have hscripted := hs.append_of_break hend hscript
      have hprinted := (hscripted.append_calm hbefore).append_calm hcommand
      simpa [ran, around] using hprinted.append_calm hshown

/-- A phase of a test is quiet when its first and last lines are. -/
theorem quiet_phase {path start finish : Str} {script : Script} (hbefore : markers.Quiet before)
    (hstart : markers.Calm start) (hstartEnd : ['\n'] <:+ start) (hpath : '\n' ∉ path)
    (hscript : markers.Quiet script.output) (hfinish : markers.Calm finish) :
    markers.Quiet (before ++ start ++ ran b host path script [] ++ finish) := by
  have hend : ['\n'] <:+ before ++ start := hstartEnd.trans (List.suffix_append before start)
  have hran : markers.Quiet (before ++ start ++ ran b host path script []) :=
    quiet_append_ran (hbefore.append_calm hstart) hend hpath Markers.calm_nil hscript
  exact hran.append_calm hfinish

/-! ## One test -/

/-- Up to the preparation time there is nothing to read. -/
theorem readLines_preparation (hbefore : markers.Quiet before) (he : e.Quiet) (rest : Str) :
    readLines floats (fileLines (before ++ middle b host t e ++ rest)) prepareTime startTime =
      readLines floats (fileLines ('\n' :: (startExecute t e.execute.startTime ++
        ran b host (runPath t.package t.test) e.execute.script [] ++
        finishExecute t e.execute.endTime ++ executionTime t e.execute.elapsed ++ rest)))
        e.prepare.elapsed startTime := by
  have hpath : '\n' ∉ preparePath t.package t.test := by
    rw [preparePath, List.mem_append, not_or]
    exact ⟨not_mem_path _ _, by decide⟩
  have hphase : markers.Quiet (before ++ startPrepare t e.prepare.startTime ++
      ran b host (preparePath t.package t.test) e.prepare.script [] ++
      finishPrepare t e.prepare.endTime) :=
    quiet_phase hbefore (calm_startPrepare t _) (List.suffix_append _ _) hpath (he _ (by simp))
      (calm_finishPrepare t _)
  have htext : before ++ middle b host t e ++ rest = before ++ startPrepare t e.prepare.startTime ++
      ran b host (preparePath t.package t.test) e.prepare.script [] ++
      finishPrepare t e.prepare.endTime ++ (Benchmetrics.prepareTime t e.prepare.elapsed ++
        (startExecute t e.execute.startTime ++
          ran b host (runPath t.package t.test) e.execute.script [] ++
          finishExecute t e.execute.endTime ++ executionTime t e.execute.elapsed ++ rest)) := by
    simp [middle]
  have hend : ['\n'] <:+ finishPrepare t e.prepare.endTime := List.suffix_append _ _
  rw [htext, readLines_quiet_append hphase (hend.trans (List.suffix_append _ _)),
    readLines_prepareTime]

/-- A test that does not clash has its row. -/
theorem readLines_middle (hbefore : markers.Quiet before) (he : e.Quiet) (h : ¬ Clashes t)
    (rest : Str) :
    readLines floats (fileLines (before ++ middle b host t e ++ rest)) prepareTime startTime =
      .print (resultRow t e)
        (readLines floats (fileLines ('\n' :: rest)) e.prepare.elapsed startTime) := by
  have hpath : '\n' ∉ runPath t.package t.test := by
    rw [runPath, List.mem_append, not_or]
    exact ⟨not_mem_path _ _, by decide⟩
  have hphase : markers.Quiet (['\n'] ++ startExecute t e.execute.startTime ++
      ran b host (runPath t.package t.test) e.execute.script [] ++
      finishExecute t e.execute.endTime) :=
    quiet_phase Markers.quiet_blank (calm_startExecute h _) (List.suffix_append _ _) hpath
      (he _ (by simp)) (calm_finishExecute h _)
  have htext : '\n' :: (startExecute t e.execute.startTime ++
      ran b host (runPath t.package t.test) e.execute.script [] ++
      finishExecute t e.execute.endTime ++ executionTime t e.execute.elapsed ++ rest) =
      ['\n'] ++ startExecute t e.execute.startTime ++
      ran b host (runPath t.package t.test) e.execute.script [] ++
      finishExecute t e.execute.endTime ++ (executionTime t e.execute.elapsed ++ rest) := by
    simp
  have hend : ['\n'] <:+ finishExecute t e.execute.endTime := List.suffix_append _ _
  rw [readLines_preparation hbefore he, htext,
    readLines_quiet_append hphase (hend.trans (List.suffix_append _ _)), readLines_executionTime]
  rfl

/-- A test that clashes ends the reader. -/
theorem readLines_middle_of_clashes (hbefore : markers.Quiet before) (he : e.Quiet)
    (h : Clashes t) (rest : Str) :
    readLines floats (fileLines (before ++ middle b host t e ++ rest)) prepareTime startTime =
      ⟨[], some .valueError⟩ := by
  have hblank : markers.Quiet ['\n', '\n'] := (Markers.calm_break Markers.quiet_blank).quiet
  have hblankEnd : ['\n'] <:+ ['\n', '\n'] := List.suffix_cons _ _
  have htext : '\n' :: (startExecute t e.execute.startTime ++
      ran b host (runPath t.package t.test) e.execute.script [] ++
      finishExecute t e.execute.endTime ++ executionTime t e.execute.elapsed ++ rest) =
      ['\n', '\n'] ++ (startTitle ++ ' ' :: fields t ("GLOBAL " ++ e.execute.startTime) ++ '\n' ::
        ('\n' :: (ran b host (runPath t.package t.test) e.execute.script [] ++
          finishExecute t e.execute.endTime ++ executionTime t e.execute.elapsed ++ rest))) := by
    simp [startExecute_eq]
  rw [readLines_preparation hbefore he, htext, readLines_quiet_append hblank hblankEnd,
    fileLines_printed (by decide) (not_mem_global _), readLines_start_of_clashes h]

/-! ## A run -/

/-- What is left of a test for the next. -/
theorem quiet_rest {out held' : Str} (he : e.Quiet)
    (hran : out ++ held' = ran b host (cleanPath t.package t.test) e.clean
      (if t.clean then stoppingCleaner else [])) : markers.Quiet ('\n' :: out ++ held') := by
  have hpath : '\n' ∉ cleanPath t.package t.test := by
    rw [cleanPath, List.mem_append, not_or]
    exact ⟨not_mem_path _ _, by decide⟩
  have hbefore : markers.Calm (if t.clean then stoppingCleaner else []) := by
    split
    · exact calm_stoppingCleaner
    · exact Markers.calm_nil
  rw [List.cons_append, hran]
  exact quiet_append_ran Markers.quiet_blank List.suffix_rfl hpath hbefore (he _ (by simp))

/-- The log from one test on. -/
theorem exists_log_cons (b : Buffering) (host : Line) (x : Definition × Execution)
    (xs : List (Definition × Execution)) (hx : x.2.Quiet)
    (hbefore : markers.Quiet (before ++ held)) :
    ∃ before' out held', markers.Quiet before' ∧ markers.Quiet ('\n' :: out ++ held') ∧
      before ++ log b held ((x :: xs).flatMap fun x => runTest host x.1 x.2) =
        before' ++ middle b host x.1 x.2 ++
          (out ++ log b held' (xs.flatMap fun x => runTest host x.1 x.2)) := by
  obtain ⟨out, held', hlog, hran⟩ := exists_log_runTest b host x.1 x.2 held
    (xs.flatMap fun x => runTest host x.1 x.2)
  have hcleaner : markers.Calm (if x.1.clean then backgroundCleaner else []) := by
    split
    · exact calm_backgroundCleaner
    · exact Markers.calm_nil
  refine ⟨before ++ held ++ (if x.1.clean then backgroundCleaner else []), out, held',
    hbefore.append_calm hcleaner, quiet_rest hx hran, ?_⟩
  rw [List.flatMap_cons, hlog]
  simp

/-- The rows of tests that do not clash. -/
theorem readLines_runTests {xs : List (Definition × Execution)} (hquiet : ∀ x ∈ xs, x.2.Quiet)
    (h : ∀ x ∈ xs, ¬ Clashes x.1) (hbefore : markers.Quiet (before ++ held)) :
    readLines floats (fileLines (before ++ log b held (xs.flatMap fun x => runTest host x.1 x.2)))
      prepareTime startTime = ⟨xs.map fun x => resultRow x.1 x.2, none⟩ := by
  induction xs generalizing before held prepareTime with
  | nil => simpa using readLines_quiet hbefore
  | cons x xs ih =>
      rw [List.forall_mem_cons] at hquiet h
      obtain ⟨before', out, held', hbefore', hrest, hlog⟩ :=
        exists_log_cons b host x xs hquiet.1 hbefore
      rw [hlog, readLines_middle hbefore' hquiet.1 h.1, ← List.cons_append, ih hquiet.2 h.2 hrest]
      rfl

/-- The first test that clashes ends the reader. -/
theorem raised_runTests {xs : List (Definition × Execution)} (hquiet : ∀ x ∈ xs, x.2.Quiet)
    (h : ∃ x ∈ xs, Clashes x.1) (hbefore : markers.Quiet (before ++ held)) :
    (readLines floats (fileLines (before ++ log b held
      (xs.flatMap fun x => runTest host x.1 x.2))) prepareTime startTime).raised =
      some .valueError := by
  induction xs generalizing before held prepareTime with
  | nil => simp at h
  | cons x xs ih =>
      rw [List.forall_mem_cons] at hquiet
      obtain ⟨before', out, held', hbefore', hrest, hlog⟩ :=
        exists_log_cons b host x xs hquiet.1 hbefore
      rw [hlog]
      by_cases hx : Clashes x.1
      · rw [readLines_middle_of_clashes hbefore' hquiet.1 hx]
      · have hxs : ∃ x ∈ xs, Clashes x.1 := by
          simpa [hx] using h
        rw [readLines_middle hbefore' hquiet.1 hx, ← List.cons_append]
        exact ih hquiet.2 hxs hrest

/-- What is printed before the tests. -/
theorem quiet_session (session : Session) : markers.Quiet
    (setDirectory session.basedir :: prepareEnvironment session.environment).flatten := by
  have hline : ∀ (title : Str) (rest : Line), markers.Clear title → '\n' ∉ title →
      markers.Calm (title ++ rest ++ ['\n']) := by
    intro title rest hclear htitle
    apply Markers.calm_line hclear
    rw [List.mem_append, not_or]
    exact ⟨htitle, rest.property⟩
  have hcalm : ∀ text ∈ setDirectory session.basedir :: prepareEnvironment session.environment,
      markers.Calm text := by
    rw [List.forall_mem_cons]
    refine ⟨hline "Changing to " _ (by decide +kernel) (by decide), ?_⟩
    cases session.environment with
    | existing version =>
        simp only [prepareEnvironment, List.forall_mem_singleton]
        exact hline "Using existing environment " _ (by decide +kernel) (by decide)
    | provisioned environment =>
        simp only [prepareEnvironment, List.forall_mem_cons]
        refine ⟨hline "Preparing environment " _ (by decide +kernel) (by decide),
          hline "vagrant halt" ⟨[], by simp⟩ (by decide +kernel) (by decide), ?_, ?_, by simp⟩
        · exact hline "vagrant up" ⟨[], by simp⟩ (by decide +kernel) (by decide)
        · exact hline "Machine provisioned, waiting 180 seconds for machine to settle."
            ⟨[], by simp⟩ (by decide +kernel) (by decide)
  exact Markers.quiet_nil.append_flatten hcalm

/-- The reader prints one row for each executed test, in order, and does not raise, exactly
when no executed test clashes. -/
theorem extractStats_eq_iff (floats : Floats F) (b : Buffering) (session : Session)
    (options : Options) (tests : List (Definition × Execution))
    (hquiet : ∀ x ∈ executed options tests, x.2.Quiet) :
    extractStats floats (log b [] (benchmetrics session options tests)) =
        ⟨header :: (executed options tests).map fun x => resultRow x.1 x.2, none⟩ ↔
      ∀ x ∈ executed options tests, ¬ Clashes x.1 := by
  obtain ⟨out, held, hlog, hheld⟩ := exists_log_prints b [] (runTests session.host options tests)
    (setDirectory session.basedir :: prepareEnvironment session.environment)
  have hsession : markers.Quiet (out ++ held) := by
    rw [hheld, List.nil_append]
    exact quiet_session session
  rw [benchmetrics, hlog, runTests, extractStats]
  constructor
  · intro h x hx hclash
    have hnone := congrArg Printed.raised h
    exact Option.some_ne_none _ ((raised_runTests hquiet ⟨x, hx, hclash⟩ hsession).symm.trans hnone)
  · intro h
    rw [readLines_runTests hquiet h hsession]
    rfl

/-! ## A run of two tests -/

/-- Times in whole seconds. -/
def wholeSeconds : Floats ℤ where
  float s := match (String.ofList (strip s)).toInt? with
    | some z => .ok z
    | none => .error .valueError
  unset := -1
  elapsed z z' := decimal (z - z') ++ ".000"

def sampleSession : Session where
  basedir := ⟨"/root/structor", by decide⟩
  environment := .existing ⟨"2.6", by decide⟩
  host := ⟨"node1.example.com", by decide⟩

def sampleScript : Script := ⟨"OK\n", false⟩

def samplePhase (elapsed : Word) : Phase :=
  ⟨⟨"1500000000.12", by decide⟩, sampleScript, ⟨"1500000007.62", by decide⟩, elapsed⟩

def sampleExecution : Execution where
  prepare := samplePhase ⟨"7.500", by decide⟩
  execute := samplePhase ⟨"7.501", by decide⟩
  clean := sampleScript

/-- A test of the hive component. -/
def sampleTest (package test : Word) : Definition where
  component := "hive"
  package := package
  test := test
  enabled := "true"
  cleaner := "true"
  version := ⟨"1", by decide⟩

def allTests : Options := ⟨none, none, none⟩

/-- The tests all_types of the package etl and tpch of the package tpc. -/
def sampleTests : List (Definition × Execution) :=
  [(sampleTest ⟨"etl", by decide⟩ ⟨"all_types", by decide⟩, sampleExecution),
    (sampleTest ⟨"tpc", by decide⟩ ⟨"tpch", by decide⟩, sampleExecution)]

theorem sampleTests_extractStats :
    extractStats wholeSeconds (log .full [] (benchmetrics sampleSession allTests sampleTests)) =
      ⟨header :: (executed allTests sampleTests).map fun x => resultRow x.1 x.2, none⟩ :=
  (extractStats_eq_iff wholeSeconds .full sampleSession allTests sampleTests
    (by decide +kernel)).mpr (by decide +kernel)

/-- The test tpch of a package hive. -/
def hiveTpch : List (Definition × Execution) :=
  [(sampleTest ⟨"hive", by decide⟩ ⟨"tpch", by decide⟩, sampleExecution)]

/-- The scripts are quiet, and the reader raises without a row. -/
theorem hiveTpch_raises : executed allTests hiveTpch = hiveTpch ∧
    (∀ x ∈ hiveTpch, x.2.Quiet) ∧
    extractStats wholeSeconds (log .full [] (benchmetrics sampleSession allTests hiveTpch)) =
      ⟨[header], some .valueError⟩ := by
  refine ⟨rfl, by decide +kernel, ?_⟩
  decide +kernel

end Structor.Benchmetrics
