import Structor.Python
import Structor.Stdout

/-!
# The benchmark driver

The driver runs the scripts of the selected tests one after the other and prints marker
lines and times between them. A dry run prints the same with scripts that write nothing.

## Main definitions

* `Definition` -- a line of tests.csv
* `Execution` -- what happens while a test is run
* `runTest`, `runTests`, `benchmetrics` -- the driver
-/
namespace Structor.Benchmetrics

open Python Stdout

/-- A text on one line. -/
abbrev Line : Type := { s : Str // '\n' ∉ s }

structure Definition where
  component : Str
  package : Word
  test : Word
  enabled : Str
  cleaner : Str
  version : Word

/-- What a script writes, and whether it exits with an error. -/
structure Script where
  output : Str
  failed : Bool

/-- A script with the texts of the times before and after it and of their difference. -/
structure Phase where
  startTime : Word
  script : Script
  endTime : Word
  elapsed : Word

structure Execution where
  prepare : Phase
  execute : Phase
  clean : Script

/-- The text that `print` writes. -/
def printed (s : Str) : Str := s ++ ['\n']

def vagrantSsh : Str := "vagrant ssh "

/-- The output goes where the driver prints. The captured text is empty, and a failure is
not printed. -/
def runScript (host : Line) (path : Str) (script : Script) : List Write :=
  let command := vagrantSsh ++ host ++ " -c " ++ path
  .print (printed command) :: .system script.output ::
    if script.failed then [] else [.print (printed "")]

def basePath : Str := "/vagrant/modules/benchmetrics/files"

def thisTest (package test : Word) : Str :=
  basePath ++ "/" ++ package ++ "/" ++ test ++ "/"

def preparePath (package test : Word) : Str := thisTest package test ++ "/00prepare.sh"

def runPath (package test : Word) : Str := thisTest package test ++ "/00run.sh"

def cleanPath (package test : Word) : Str := thisTest package test ++ "/00clean.sh"

/-- The words of a marker line after its title. -/
def fields (t : Definition) (rest : Str) : Str :=
  t.package ++ ' ' :: t.test ++ ' ' :: t.version ++ ' ' :: rest

def startPrepare (t : Definition) (startTime : Word) : Str :=
  printed ("\nSTART PREPARE " ++ fields t startTime ++ "\n")

def finishPrepare (t : Definition) (endTime : Word) : Str :=
  printed ("\nFINISH PREPARE " ++ fields t endTime)

def prepareTime (t : Definition) (elapsed : Word) : Str :=
  printed ("PREPARE TIME " ++ fields t elapsed ++ "\n")

def startExecute (t : Definition) (startTime : Word) : Str :=
  printed ("\nSTART EXECUTE " ++ fields t ("GLOBAL " ++ startTime) ++ "\n")

def finishExecute (t : Definition) (endTime : Word) : Str :=
  printed ("\nFINISH EXECUTE " ++ fields t ("GLOBAL " ++ endTime))

def executionTime (t : Definition) (elapsed : Word) : Str :=
  printed ("EXECUTION TIME " ++ fields t elapsed ++ "\n")

/-- `cleaner.lower() == "true"` -/
def Definition.clean (t : Definition) : Bool := t.cleaner.map Char.toLower = "true"

def backgroundCleaner : Str := printed "Background cleaner running"

def stoppingCleaner : Str := printed "Stopping background cleaner"

def runTest (host : Line) (t : Definition) (e : Execution) : List Write :=
  (if t.clean then [.print backgroundCleaner] else []) ++
  -- Prepare the test's environment.
  [.print (startPrepare t e.prepare.startTime), .flush] ++
  runScript host (preparePath t.package t.test) e.prepare.script ++
  [.print (finishPrepare t e.prepare.endTime), .print (prepareTime t e.prepare.elapsed),
    .flush] ++
  -- Run the test.
  [.print (startExecute t e.execute.startTime), .flush] ++
  runScript host (runPath t.package t.test) e.execute.script ++
  [.print (finishExecute t e.execute.endTime), .print (executionTime t e.execute.elapsed),
    .flush] ++
  -- Clean up.
  (if t.clean then [.print stoppingCleaner] else []) ++
  runScript host (cleanPath t.package t.test) e.clean

/-- The option's names, none when there is no choice to make. -/
def names : Option Str → List Str
  | none => []
  | some option => if option = [] then [] else option.splitOn ','

structure Options where
  component : Option Str
  package : Option Str
  test : Option Str

/-- The test is run. -/
def Options.Selects (options : Options) (t : Definition) : Prop :=
  (names options.component ≠ [] → t.component ∈ names options.component) ∧
  (names options.package ≠ [] → (t.package : Str) ∈ names options.package) ∧
  t.enabled = "true" ∧
  (names options.test ≠ [] → (t.test : Str) ∈ names options.test)

instance (options : Options) (t : Definition) : Decidable (options.Selects t) :=
  inferInstanceAs (Decidable (_ ∧ _ ∧ _ ∧ _))

/-- The tests that are run, each with what happens then. -/
def executed (options : Options) (tests : List (Definition × Execution)) :
    List (Definition × Execution) :=
  tests.filter fun x => options.Selects x.1

def runTests (host : Line) (options : Options) (tests : List (Definition × Execution)) :
    List Write :=
  (executed options tests).flatMap fun x => runTest host x.1 x.2

/-- The environment of the run: an existing one, or one that vagrant sets up. -/
inductive Environment where
  | existing (version : Line)
  | provisioned (environment : Line)

/-- The texts that are printed while the environment is prepared. -/
def prepareEnvironment : Environment → List Str
  | .existing version => [printed ("Using existing environment " ++ version)]
  | .provisioned environment =>
      [printed ("Preparing environment " ++ environment), printed "vagrant halt",
        printed "vagrant up",
        printed "Machine provisioned, waiting 180 seconds for machine to settle."]

/-- Where the driver runs. -/
structure Session where
  basedir : Line
  environment : Environment
  host : Line

def setDirectory (basedir : Line) : Str := printed ("Changing to " ++ basedir)

/-- What the driver and the scripts write. -/
def benchmetrics (session : Session) (options : Options)
    (tests : List (Definition × Execution)) : List Write :=
  (setDirectory session.basedir :: prepareEnvironment session.environment).map .print ++
    runTests session.host options tests

/-! ## The text of the log -/

variable (b : Buffering) (host : Line) (path : Str) (script : Script) (t : Definition)
  (e : Execution) (held : Str) (writes : List Write)

/-- What the file gets while a script is run, where `before` is printed just before. -/
def ran (before : Str) : Str :=
  around b (before ++ printed (vagrantSsh ++ host ++ " -c " ++ path)) script.output ++
    if script.failed then [] else printed ""

/-- A part of a test between two flushes and the next. -/
theorem log_phase (start finish time : Str) :
    log b held (.print start :: .flush :: (runScript host path script ++
      .print finish :: .print time :: .flush :: writes)) =
      held ++ start ++ ran b host path script [] ++ finish ++ time ++ log b [] writes := by
  cases b <;> cases hfailed : script.failed <;> simp [runScript, ran, around, log, hfailed]

/-- The last script of a test. What is printed around it may be held back. -/
theorem exists_log_clean :
    ∃ out held', log b [] ((if t.clean then [.print stoppingCleaner] else []) ++
        (runScript host path script ++ writes)) = out ++ log b held' writes ∧
      out ++ held' = ran b host path script (if t.clean then stoppingCleaner else []) := by
  cases b with
  | line =>
      refine ⟨ran .line host path script (if t.clean then stoppingCleaner else []), [], ?_, by simp⟩
      cases t.clean <;> cases hfailed : script.failed <;>
        simp [runScript, ran, around, log, hfailed]
  | full =>
      refine ⟨script.output, (if t.clean then stoppingCleaner else []) ++
        printed (vagrantSsh ++ host ++ " -c " ++ path) ++
          if script.failed then [] else printed "", ?_, by simp [ran, around]⟩
      cases t.clean <;> cases hfailed : script.failed <;> simp [runScript, log, hfailed]

/-- The part of a test's log up to its last script. -/
def middle : Str :=
  startPrepare t e.prepare.startTime ++
    ran b host (preparePath t.package t.test) e.prepare.script [] ++
    finishPrepare t e.prepare.endTime ++ prepareTime t e.prepare.elapsed ++
    startExecute t e.execute.startTime ++
    ran b host (runPath t.package t.test) e.execute.script [] ++
    finishExecute t e.execute.endTime ++ executionTime t e.execute.elapsed

/-- The log of a test. -/
theorem exists_log_runTest :
    ∃ out held', log b held (runTest host t e ++ writes) =
        held ++ (if t.clean then backgroundCleaner else []) ++ middle b host t e ++ out ++
          log b held' writes ∧
      out ++ held' = ran b host (cleanPath t.package t.test) e.clean
        (if t.clean then stoppingCleaner else []) := by
  obtain ⟨out, held', hlog, hran⟩ :=
    exists_log_clean b host (cleanPath t.package t.test) e.clean t writes
  refine ⟨out, held', ?_, hran⟩
  cases hclean : t.clean with
  | false =>
      simp only [hclean, Bool.false_eq_true, if_false, List.nil_append] at hlog
      simp only [runTest, hclean, Bool.false_eq_true, if_false, List.nil_append, List.cons_append,
        List.append_assoc]
      rw [log_phase, log_phase, hlog]
      simp [middle]
  | true =>
      simp only [hclean, if_true, List.cons_append, List.nil_append] at hlog
      simp only [runTest, hclean, if_true, List.nil_append, List.cons_append,
        List.append_assoc, log_print_print]
      rw [log_phase, log_phase, hlog]
      simp [middle]

end Structor.Benchmetrics
