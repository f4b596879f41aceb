import Structor.Benchmetrics.Harness
import Structor.Markers

/-!
# The rows read from a benchmark log

The reader looks for the marker lines of the driver, and for marker lines that the scripts
of the tpc tests print in another shape. The driver's own lines have that other prefix
for some packages.

## Main definitions

* `extractStats` -- the reader
* `markers` -- the prefixes that it looks for
* `Clashes` -- the driver's lines have the prefix of a script's
-/
namespace Structor.Benchmetrics

open Python Stdout

/-- Floating point numbers, as far as the reader computes with them. -/
structure Floats (F : Type) where
  float : Str → Except Error F
  unset : F
  elapsed : F → F → Str

def prepareTimeMark : Str := "PREPARE TIME"

def executionTimeMark : Str := "EXECUTION TIME"

def startHive : Str := "START EXECUTE hive tpc"

def finishHive : Str := "FINISH EXECUTE hive tpc"

def startEtl : Str := "START EXECUTE etl tpcds"

def finishEtl : Str := "FINISH EXECUTE etl tpcds"

/-- What a line is for. A finished query has the name of its benchmark. -/
inductive Mark where
  | prepareTime
  | executionTime
  | start
  | finish (package : Str)
  | other

def mark (line : Str) : Mark :=
  if prepareTimeMark <+: line then .prepareTime
  else if executionTimeMark <+: line then .executionTime
  else if startHive <+: line then .start
  else if finishHive <+: line then .finish "tpch"
  else if startEtl <+: line then .start
  else if finishEtl <+: line then .finish "tpcds"
  else .other

def row (package test prepareTime executionTime : Str) : Str :=
  package ++ ',' :: test ++ ',' :: prepareTime ++ ',' :: executionTime

/-- The rows printed before the end, or before an exception. -/
structure Printed where
  rows : List Str
  raised : Option Error
deriving DecidableEq

def Printed.print (row : Str) (rest : Printed) : Printed := { rest with rows := row :: rest.rows }

variable {F : Type}

/-- The loop over the lines. `fd.next()` takes the line after the marker line of a query. -/
def readLines (floats : Floats F) : List Str → Str → F → Printed
  | [], _, _ => ⟨[], none⟩
  | line :: rest, prepareTime, startTime =>
      match mark line with
      | .prepareTime =>
          match split line with
          | [_, _, _, _, _, prepareTime] => readLines floats rest prepareTime startTime
          | _ => ⟨[], some .valueError⟩
      | .executionTime =>
          match split line with
          | [_, _, package, test, _, executionTime] =>
              .print (row package test prepareTime executionTime)
                (readLines floats rest prepareTime startTime)
          | _ => ⟨[], some .valueError⟩
      | .start =>
          match split line, rest with
          | [_, _, _, _, _], [] => ⟨[], some .stopIteration⟩
          | [_, _, _, _, _], next :: rest =>
              match floats.float next with
              | .error e => ⟨[], some e⟩
              | .ok startTime => readLines floats rest prepareTime startTime
          | _, _ => ⟨[], some .valueError⟩
      | .finish package =>
          match split line, rest with
          | [_, _, _, _, _], [] => ⟨[], some .stopIteration⟩
          | [_, _, _, _, query], next :: rest =>
              match floats.float next with
              | .error e => ⟨[], some e⟩
              | .ok endTime =>
                  .print (row package query "0" (floats.elapsed endTime startTime))
                    (readLines floats rest prepareTime startTime)
          | _, _ => ⟨[], some .valueError⟩
      | .other => readLines floats rest prepareTime startTime

def header : Str := "package,test,prepare_time,execution_time"

def extractStats (floats : Floats F) (text : Str) : Printed :=
  .print header (readLines floats (fileLines text) "-1" floats.unset)

/-! ## Lines of a log -/

/-- The prefixes that the reader looks for. -/
def markers : Markers where
  prefixes := [prepareTimeMark, executionTimeMark, startHive, finishHive, startEtl, finishEtl]
  nil_not_mem := by decide
  break_not_mem := by decide +kernel

variable {floats : Floats F} {line : Str} {lines : List Str} {prepareTime : Str} {startTime : F}

theorem mark_eq_other_iff : mark line = .other ↔ ∀ p ∈ markers.prefixes, ¬ p <+: line := by
  simp only [markers, List.forall_mem_cons, List.not_mem_nil, mark]
  split_ifs <;> simp_all

theorem readLines_other (h : mark line = .other) :
    readLines floats (line :: lines) prepareTime startTime =
      readLines floats lines prepareTime startTime := by
  rw [readLines.eq_def]
  simp only [h]

/-- Lines without a marker are passed over. -/
theorem readLines_append {before : List Str} (h : ∀ line ∈ before, mark line = .other) :
    readLines floats (before ++ lines) prepareTime startTime =
      readLines floats lines prepareTime startTime := by
  induction before with
  | nil => rfl
  | cons line before ih =>
      rw [List.forall_mem_cons] at h
      rw [List.cons_append, readLines_other h.1, ih h.2]

theorem Markers.Quiet.mark_eq_other {s : Str} (h : markers.Quiet s) :
    ∀ line ∈ fileLines s, mark line = .other := by
  intro line hline
  rw [mark_eq_other_iff]
  exact h line hline

/-- A quiet text has no rows. -/
theorem readLines_quiet {s : Str} (h : markers.Quiet s) :
    readLines floats (fileLines s) prepareTime startTime = ⟨[], none⟩ := by
  rw [← List.append_nil (fileLines s), readLines_append (Markers.Quiet.mark_eq_other h), readLines]

/-- Quiet lines in front of a text do not matter. -/
theorem readLines_quiet_append {s : Str} (h : markers.Quiet s) (hend : ['\n'] <:+ s) (rest : Str) :
    readLines floats (fileLines (s ++ rest)) prepareTime startTime =
      readLines floats (fileLines rest) prepareTime startTime := by
  obtain ⟨before, rfl⟩ := hend
  rw [List.append_assoc, List.singleton_append, fileLines_append_break,
    readLines_append (Markers.Quiet.mark_eq_other h)]

/-! ## The driver's lines -/

variable {t : Definition} {s : Str}

theorem not_mem_fields (h : '\n' ∉ s) : '\n' ∉ fields t s := by
  have hpackage := t.package.not_mem (c := '\n') (by decide)
  have htest := t.test.not_mem (c := '\n') (by decide)
  have hversion := t.version.not_mem (c := '\n') (by decide)
  simp [fields, hpackage, htest, hversion, h]

theorem split_fields (s : Str) :
    split (fields t s) = (t.package : Str) :: t.test :: t.version :: split s := by
  have hspace : isSpace ' ' = true := by decide
  simp only [fields, List.append_assoc, List.cons_append, split_append_cons hspace, split_word,
    List.nil_append]

/-- The words of a printed line. -/
theorem split_printed (title s : Str) :
    split (title ++ ' ' :: fields t s ++ ['\n']) =
      split title ++ (t.package : Str) :: t.test :: t.version :: split s := by
  have hspace : isSpace ' ' = true := by decide
  have hbreak : isSpace '\n' = true := by decide
  rw [split_append_cons hbreak, split_append_cons hspace, split_fields, split_nil,
    List.append_nil]

/-- The first line of a text. -/
theorem fileLines_printed {title : Str} (htitle : '\n' ∉ title) (hs : '\n' ∉ s) (rest : Str) :
    fileLines (title ++ ' ' :: fields t s ++ '\n' :: rest) =
      (title ++ ' ' :: fields t s ++ ['\n']) :: fileLines rest := by
  have hline : '\n' ∉ title ++ ' ' :: fields t s := by
    simp [htitle, not_mem_fields hs]
  rw [fileLines_append_break, fileLines_line hline]
  rfl

/-- The driver's preparation time is read. -/
theorem readLines_prepareTime (elapsed : Word) (rest : Str) :
    readLines floats (fileLines (Benchmetrics.prepareTime t elapsed ++ rest)) prepareTime
        startTime =
      readLines floats (fileLines ('\n' :: rest)) elapsed startTime := by
  have htext : Benchmetrics.prepareTime t elapsed ++ rest =
      prepareTimeMark ++ ' ' :: fields t elapsed ++ '\n' :: '\n' :: rest := by
    have htitle : "PREPARE TIME ".toList = prepareTimeMark ++ [' '] := by decide
    simp [Benchmetrics.prepareTime, printed, htitle]
  have hmark : mark (prepareTimeMark ++ ' ' :: fields t elapsed ++ ['\n']) = .prepareTime := by
    rw [mark, if_pos (by simp)]
  have hsplit : split (prepareTimeMark ++ ' ' :: fields t elapsed ++ ['\n']) =
      ["PREPARE".toList, "TIME".toList, t.package, t.test, t.version, elapsed] := by
    have htitle : split prepareTimeMark = ["PREPARE".toList, "TIME".toList] := by decide
    rw [split_printed, htitle, split_word]
    rfl
  rw [htext, fileLines_printed (by decide) (elapsed.not_mem (by decide)), readLines.eq_def]
  simp only [hmark, hsplit]

/-- The driver's execution time makes a row. -/
theorem readLines_executionTime (elapsed : Word) (rest : Str) :
    readLines floats (fileLines (Benchmetrics.executionTime t elapsed ++ rest)) prepareTime
        startTime =
      .print (row t.package t.test prepareTime elapsed)
        (readLines floats (fileLines ('\n' :: rest)) prepareTime startTime) := by
  have htext : Benchmetrics.executionTime t elapsed ++ rest =
      executionTimeMark ++ ' ' :: fields t elapsed ++ '\n' :: '\n' :: rest := by
    have htitle : "EXECUTION TIME ".toList = executionTimeMark ++ [' '] := by decide
    simp [Benchmetrics.executionTime, printed, htitle]
  have hmark : mark (executionTimeMark ++ ' ' :: fields t elapsed ++ ['\n']) = .executionTime := by
    have hprepare :
        ¬ prepareTimeMark <+: executionTimeMark ++ ' ' :: fields t elapsed ++ ['\n'] := by
      rw [List.append_assoc]
      exact not_prefix_append (by decide) (by decide) _
    rw [mark, if_neg hprepare, if_pos (by simp)]
  have hsplit : split (executionTimeMark ++ ' ' :: fields t elapsed ++ ['\n']) =
      ["EXECUTION".toList, "TIME".toList, t.package, t.test, t.version, elapsed] := by
    have htitle : split executionTimeMark = ["EXECUTION".toList, "TIME".toList] := by decide
    rw [split_printed, htitle, split_word]
    rfl
  rw [htext, fileLines_printed (by decide) (elapsed.not_mem (by decide)), readLines.eq_def]
  simp only [hmark, hsplit]

/-! ## Marker lines that clash -/

/-- The package and the test are what the reader looks for in the scripts' marker lines. -/
def Clashes (t : Definition) : Prop :=
  (t.package : Str) = "hive" ∧ "tpc".toList <+: t.test ∨
    (t.package : Str) = "etl" ∧ "tpcds".toList <+: t.test

instance (t : Definition) : Decidable (Clashes t) := inferInstanceAs (Decidable (_ ∨ _))

def startTitle : Str := "START EXECUTE"

def finishTitle : Str := "FINISH EXECUTE"

theorem prefix_fields_iff {package test : Str} (hpackage : ' ' ∉ package) (htest : ' ' ∉ test)
    (s : Str) : package ++ ' ' :: test <+: fields t s ↔
      (t.package : Str) = package ∧ test <+: t.test := by
  simp only [fields, List.append_assoc, List.cons_append]
  rw [append_cons_prefix_iff hpackage (t.package.not_mem (by decide)),
    prefix_append_cons_iff htest, eq_comm]

/-- A marker of the scripts on a line of the driver. -/
theorem prefix_title_iff {marker title package test : Str}
    (h : marker = title ++ ' ' :: (package ++ ' ' :: test)) (hpackage : ' ' ∉ package)
    (htest : ' ' ∉ test) (s : Str) :
    marker <+: title ++ ' ' :: fields t s ↔ (t.package : Str) = package ∧ test <+: t.test := by
  rw [h, List.prefix_append_right_inj, List.cons_prefix_cons, prefix_fields_iff hpackage htest]
  simp

/-- A line of the driver with the title of two of the markers. -/
theorem quiet_title_iff (title hive etl : Str) (htitle : '\n' ∉ title)
    (hhive : hive = title ++ ' ' :: ("hive".toList ++ ' ' :: "tpc".toList))
    (hetl : etl = title ++ ' ' :: ("etl".toList ++ ' ' :: "tpcds".toList))
    (hmem : hive ∈ markers.prefixes ∧ etl ∈ markers.prefixes)
    (hother : ∀ p ∈ markers.prefixes, p = hive ∨ p = etl ∨ ¬ p <+: title ∧ ¬ title <+: p)
    (hs : '\n' ∉ s) :
    markers.Quiet (title ++ ' ' :: fields t s ++ ['\n']) ↔ ¬ Clashes t := by
  have hline : '\n' ∉ title ++ ' ' :: fields t s := by
    simp [htitle, not_mem_fields hs]
  have hhive_iff := prefix_title_iff (t := t) hhive (by decide) (by decide) s
  have hetl_iff := prefix_title_iff (t := t) hetl (by decide) (by decide) s
  rw [Markers.quiet_line hline, Clashes, ← hhive_iff, ← hetl_iff, not_or]
  constructor
  · intro h
    exact ⟨h hive hmem.1, h etl hmem.2⟩
  · rintro ⟨hnhive, hnetl⟩ p hp
    rcases hother p hp with rfl | rfl | ⟨hpt, htp⟩
    · exact hnhive
    · exact hnetl
    · exact not_prefix_append hpt htp _

theorem quiet_start (hs : '\n' ∉ s) :
    markers.Quiet (startTitle ++ ' ' :: fields t s ++ ['\n']) ↔ ¬ Clashes t :=
  quiet_title_iff startTitle startHive startEtl (by decide) (by decide) (by decide) (by decide)
    (by decide) hs

theorem quiet_finish (hs : '\n' ∉ s) :
    markers.Quiet (finishTitle ++ ' ' :: fields t s ++ ['\n']) ↔ ¬ Clashes t :=
  quiet_title_iff finishTitle finishHive finishEtl (by decide) (by decide) (by decide)
    (by decide) (by decide) hs

/-- The driver's line is taken for the start of a query. -/
theorem mark_start_of_clashes (h : Clashes t) (s : Str) :
    mark (startTitle ++ ' ' :: fields t s ++ ['\n']) = .start := by
  have hnot : ∀ p : Str, ¬ p <+: startTitle → ¬ startTitle <+: p →
      ¬ p <+: startTitle ++ ' ' :: fields t s ++ ['\n'] := by
    intro p hp hp'
    rw [List.append_assoc]
    exact not_prefix_append hp hp' _
  rw [mark, if_neg (hnot _ (by decide) (by decide)), if_neg (hnot _ (by decide) (by decide))]
  rcases h with hhive | hetl
  · have hstart : startHive <+: startTitle ++ ' ' :: fields t s :=
      (prefix_title_iff (by decide) (by decide) (by decide) s).mpr hhive
    rw [if_pos (hstart.trans (List.prefix_append _ _))]
  · have hstart : startEtl <+: startTitle ++ ' ' :: fields t s :=
      (prefix_title_iff (by decide) (by decide) (by decide) s).mpr hetl
    split_ifs with h₁ h₂ h₃
    · rfl
    · exact absurd h₂ (hnot _ (by decide) (by decide))
    · rfl
    · exact absurd (hstart.trans (List.prefix_append _ _)) h₃
    · exact absurd (hstart.trans (List.prefix_append _ _)) h₃

/-- It has seven words, not five. -/
theorem readLines_start_of_clashes (h : Clashes t) (startTime' : Word) :
    readLines floats ((startTitle ++ ' ' :: fields t ("GLOBAL " ++ startTime') ++ ['\n']) ::
      lines) prepareTime startTime = ⟨[], some .valueError⟩ := by
  have hsplit : split (startTitle ++ ' ' :: fields t ("GLOBAL " ++ startTime') ++ ['\n']) =
      ["START".toList, "EXECUTE".toList, t.package, t.test, t.version, "GLOBAL".toList,
        startTime'] := by
    have htitle : split startTitle = ["START".toList, "EXECUTE".toList] := by decide
    have hglobal :
        split ("GLOBAL ".toList ++ startTime') = ["GLOBAL".toList, (startTime' : Str)] := by
      have hword : "GLOBAL ".toList ++ startTime' = "GLOBAL".toList ++ ' ' :: startTime' := by
        have : "GLOBAL ".toList = "GLOBAL".toList ++ [' '] := by decide
        simp [this]
      have hfirst : split "GLOBAL".toList = ["GLOBAL".toList] := by decide
      rw [hword, split_append_cons (by decide), split_word, hfirst]
      rfl
    rw [split_printed, htitle, hglobal]
    rfl
  rw [readLines.eq_def]
  simp only [mark_start_of_clashes h, hsplit]

/-! ## Lines that the reader passes over -/

/-- A line with a title that has nothing of a marker. -/
theorem calm_titled {title : Str} (htitle : markers.Clear title) (hbreak : '\n' ∉ title)
    (t : Definition) (w : Word) : markers.Calm (title ++ ' ' :: fields t w ++ ['\n']) := by
  apply Markers.calm_line htitle
  rw [List.mem_append, List.mem_cons, not_or, not_or]
  exact ⟨hbreak, by decide, not_mem_fields (w.not_mem (by decide))⟩

theorem calm_startPrepare (t : Definition) (w : Word) : markers.Calm (startPrepare t w) := by
  have htext : startPrepare t w =
      '\n' :: ("START PREPARE".toList ++ ' ' :: fields t w ++ ['\n'] ++ ['\n']) := by
    have htitle : "\nSTART PREPARE ".toList = '\n' :: "START PREPARE".toList ++ [' '] := by decide
    simp [startPrepare, printed, htitle]
  rw [htext]
  apply Markers.calm_break
  have hline : markers.Calm ("START PREPARE".toList ++ ' ' :: fields t w ++ ['\n']) :=
    calm_titled (by decide +kernel) (by decide) t w
  exact hline.quiet.append_of_break (List.suffix_append _ _) Markers.quiet_blank

theorem calm_finishPrepare (t : Definition) (w : Word) : markers.Calm (finishPrepare t w) := by
  have htext : finishPrepare t w =
      '\n' :: ("FINISH PREPARE".toList ++ ' ' :: fields t w ++ ['\n']) := by
    have htitle : "\nFINISH PREPARE ".toList = '\n' :: "FINISH PREPARE".toList ++ [' '] := by decide
    simp [finishPrepare, printed, htitle]
  rw [htext]
  exact Markers.calm_break (calm_titled (by decide +kernel) (by decide) t w).quiet

theorem startExecute_eq (t : Definition) (w : Word) : startExecute t w =
    '\n' :: (startTitle ++ ' ' :: fields t ("GLOBAL " ++ w) ++ ['\n'] ++ ['\n']) := by
  have htitle : "\nSTART EXECUTE ".toList = '\n' :: startTitle ++ [' '] := by decide
  simp [startExecute, printed, htitle]

theorem finishExecute_eq (t : Definition) (w : Word) : finishExecute t w =
    '\n' :: (finishTitle ++ ' ' :: fields t ("GLOBAL " ++ w) ++ ['\n']) := by
  have htitle : "\nFINISH EXECUTE ".toList = '\n' :: finishTitle ++ [' '] := by decide
  simp [finishExecute, printed, htitle]

theorem not_mem_global (w : Word) : '\n' ∉ "GLOBAL ".toList ++ (w : Str) := by
  rw [List.mem_append, not_or]
  exact ⟨by decide, w.not_mem (by decide)⟩

theorem calm_startExecute (h : ¬ Clashes t) (w : Word) : markers.Calm (startExecute t w) := by
  rw [startExecute_eq]
  have hquiet := (quiet_start (not_mem_global w)).mpr h
  exact Markers.calm_break (hquiet.append_of_break (List.suffix_append _ _) Markers.quiet_blank)

theorem calm_finishExecute (h : ¬ Clashes t) (w : Word) : markers.Calm (finishExecute t w) := by
  rw [finishExecute_eq]
  exact Markers.calm_break ((quiet_finish (not_mem_global w)).mpr h)

def backgroundTitle : Str := "Background cleaner running"

def stoppingTitle : Str := "Stopping background cleaner"

theorem calm_backgroundCleaner : markers.Calm backgroundCleaner :=
  Markers.calm_line (s := backgroundTitle) (by decide +kernel) (by decide)

theorem calm_stoppingCleaner : markers.Calm stoppingCleaner :=
  Markers.calm_line (s := stoppingTitle) (by decide +kernel) (by decide)

end Structor.Benchmetrics
