import Structor.Profile.Reader

/-!
# Printing a profile

The profiler prints a stack frame as an indented line of the thread name, the
qualified method name and the line number, without any escapes. The reader gets the
same names back as long as they hold none of the characters that it splits at.

## Main definitions

* `printFrame` -- the line of a frame
* `packageOf`, `simpleName` -- the parts of a class name
* `parseLine` -- what the reader makes of a line, before its filters
-/
namespace Structor.Profile

open Python
variable {thread className methodName : Str} {lineNumber : ℤ}

/-- The line that `printTopThreads` prints for an element of a stack trace. -/
def printFrame (threadName className methodName : Str) (lineNumber : ℤ) : Str :=
  ' ' :: threadName ++ ',' :: className ++ '.' :: methodName ++ '(' :: decimal lineNumber ++ ")\n"

/-- The part of a class name before its last dot, empty for the default package. -/
def packageOf (className : Str) : Str := (className.rdropWhile (· ≠ '.')).dropLast

/-- The part of a class name after its last dot. -/
def simpleName (className : Str) : Str := className.rtakeWhile (· ≠ '.')

/-- The thread and the frame of a line. -/
def parseLine (line : Str) : Except Error (Str × Frame) := do
  let (thread, traceInfo) ← splitThread line
  let frame ← parsePath traceInfo
  return (thread, frame)

/-! ## Class names -/

theorem reverse_ne {clazz : Str} (h : '.' ∉ clazz) :
    ∀ c ∈ clazz.reverse, decide (c ≠ '.') = true := by
  intro c hc
  simp only [decide_eq_true_eq]
  rintro rfl
  exact h (List.mem_reverse.mp hc)

theorem simpleName_dot (package : Str) {clazz : Str} (h : '.' ∉ clazz) :
    simpleName (package ++ '.' :: clazz) = clazz := by
  have hreverse : (package ++ '.' :: clazz).reverse = clazz.reverse ++ '.' :: package.reverse := by
    simp
  rw [simpleName, List.rtakeWhile, hreverse, List.takeWhile_append_of_pos (reverse_ne h)]
  simp

theorem packageOf_dot (package : Str) {clazz : Str} (h : '.' ∉ clazz) :
    packageOf (package ++ '.' :: clazz) = package := by
  have hreverse : (package ++ '.' :: clazz).reverse = clazz.reverse ++ '.' :: package.reverse := by
    simp
  rw [packageOf, List.rdropWhile, hreverse, List.dropWhile_append_of_pos (reverse_ne h)]
  simp

theorem simpleName_default (h : '.' ∉ className) : simpleName className = className := by
  rw [simpleName, List.rtakeWhile_eq_self_iff]
  intro c hc
  simp only [decide_eq_true_eq]
  rintro rfl
  exact h hc

theorem packageOf_default (h : '.' ∉ className) : packageOf className = [] := by
  have hdrop : className.rdropWhile (· ≠ '.') = [] := by
    rw [List.rdropWhile_eq_nil_iff]
    intro c hc
    simp only [decide_eq_true_eq]
    rintro rfl
    exact h hc
  rw [packageOf, hdrop]
  rfl

/-- The path of a method is read back up to the last dot. -/
theorem parsePath_eq {traceInfo method : Str} (className : Str) (h : '.' ∉ method)
    (hslice : sliceTo traceInfo (rfind traceInfo '(') = className ++ '.' :: method) :
    parsePath traceInfo = .ok ⟨packageOf className, simpleName className, method⟩ := by
  by_cases hdot : '.' ∈ className
  · obtain ⟨package, clazz, rfl, hclazz⟩ := exists_last_mem hdot
    rw [packageOf_dot package hclazz, simpleName_dot package hclazz]
    rw [@parsePath_of_split traceInfo clazz method (package.splitOn '.'), List.intercalate_splitOn]
    rw [hslice, splitOn_append_cons _ h, splitOn_append_cons package hclazz]
  · rw [packageOf_default hdot, simpleName_default hdot]
    refine @parsePath_of_split traceInfo className method [] ?_
    rw [hslice, splitOn_append_cons _ h, List.splitOn_eq_singleton hdot]
    rfl

/-! ## The printed line -/

/-- The path and the line number of a printed line. -/
def printedPath (className methodName : Str) (lineNumber : ℤ) : Str :=
  className ++ '.' :: methodName ++ '(' :: decimal lineNumber ++ [')']

theorem sliceTo_printedPath : sliceTo (printedPath className methodName lineNumber)
    (rfind (printedPath className methodName lineNumber) '(') = className ++ '.' :: methodName := by
  have hnumber : '(' ∉ decimal lineNumber ++ [')'] := by
    simp [not_mem_decimal]
  have hpath : printedPath className methodName lineNumber =
      (className ++ '.' :: methodName) ++ '(' :: (decimal lineNumber ++ [')']) := by
    simp [printedPath]
  rw [hpath]
  exact sliceTo_rfind _ hnumber

theorem rstrip_printFrame : rstrip (printFrame thread className methodName lineNumber) =
    ' ' :: thread ++ ',' :: printedPath className methodName lineNumber := by
  have hline : printFrame thread className methodName lineNumber =
      (' ' :: thread ++ ',' :: className ++ '.' :: methodName ++ '(' :: decimal lineNumber) ++
        ')' :: ['\n'] := by
    simp [printFrame]
  have hbreak : rstrip ['\n'] = [] := rfl
  rw [hline, rstrip_append_cons (by decide), hbreak]
  simp [printedPath]

/-- The names hold none of the characters that the reader splits or strips at. -/
structure Plain (thread className methodName : Str) : Prop where
  comma_thread : ',' ∉ thread
  comma_class : ',' ∉ className
  comma_method : ',' ∉ methodName
  space_thread : ∀ c ∈ thread.head?, isSpace c = false
  dot_method : '.' ∉ methodName
  break_class : '\n' ∉ className
  break_method : '\n' ∉ methodName

theorem count_comma_rstrip_printFrame :
    (rstrip (printFrame thread className methodName lineNumber)).count ',' =
      thread.count ',' + className.count ',' + methodName.count ',' + 1 := by
  have hnumber : (decimal lineNumber).count ',' = 0 :=
    List.count_eq_zero.mpr (not_mem_decimal (by decide) (by decide))
  simp only [rstrip_printFrame, printedPath, List.cons_append, List.count_append, List.count_cons,
    List.count_nil, hnumber]
  simp
  omega

/-- A printed line is parsed as one of the file if its names hold no line break. -/
theorem fileLines_printFrame_iff (ht : '\n' ∉ thread) {value : Except Error (Str × Frame)} :
    (fileLines (printFrame thread className methodName lineNumber)).map parseLine = [value] ↔
      '\n' ∉ className ∧ '\n' ∉ methodName ∧
        parseLine (printFrame thread className methodName lineNumber) = value := by
  have hline : printFrame thread className methodName lineNumber =
      (' ' :: thread ++ ',' :: printedPath className methodName lineNumber) ++ ['\n'] := by
    simp [printFrame, printedPath]
  have hnumber : '\n' ∉ decimal lineNumber := not_mem_decimal (by decide) (by decide)
  constructor
  · intro h
    have hlength := congrArg List.length h
    rw [List.length_map, hline, length_fileLines, List.length_singleton] at hlength
    have hbreak : '\n' ∉ ' ' :: thread ++ ',' :: printedPath className methodName lineNumber := by
      rw [← List.count_eq_zero]
      omega
    rw [hline, fileLines_line hbreak, ← hline, List.map_singleton, List.singleton_inj] at h
    simp only [printedPath, List.cons_append, List.mem_cons, List.mem_append, not_or] at hbreak
    simp_all
  · rintro ⟨hclass, hmethod, h⟩
    have hbreak : '\n' ∉ ' ' :: thread ++ ',' :: printedPath className methodName lineNumber := by
      simp [printedPath, ht, hclass, hmethod, hnumber]
    rw [hline, fileLines_line hbreak, ← hline, List.map_singleton, h]

theorem lstrip_space : lstrip (' ' :: thread) = thread ↔ ∀ c ∈ thread.head?, isSpace c = false := by
  have hspace : lstrip (' ' :: thread) = lstrip thread := rfl
  rw [hspace, lstrip]
  cases thread with
  | nil => simp
  | cons c rest =>
      by_cases hc : isSpace c = true
      · have hshort : (rest.dropWhile isSpace).length ≤ rest.length := List.length_dropWhile_le ..
        simp only [List.dropWhile_cons, hc, if_true, List.head?_cons, Option.mem_some_iff,
          forall_eq', Bool.true_eq_false, iff_false]
        intro h
        rw [h, List.length_cons] at hshort
        omega
      · simp [hc]

/-- What the reader makes of a printed line of one comma. -/
theorem splitThread_printFrame (ht : ',' ∉ thread) (hc : ',' ∉ className) (hm : ',' ∉ methodName) :
    splitThread (printFrame thread className methodName lineNumber) =
      .ok (lstrip (' ' :: thread), printedPath className methodName lineNumber) := by
  have hpath : ',' ∉ printedPath className methodName lineNumber := by
    simp [printedPath, hc, hm, not_mem_decimal]
  rw [splitThread, rstrip_printFrame, List.splitOn_append_cons_self_of_not_mem (by simp [ht]),
    List.splitOn_eq_singleton hpath]

theorem method_of_parsePath {frame : Frame}
    (h : parsePath (printedPath className methodName lineNumber) = .ok frame) :
    frame.method = methodName ↔ '.' ∉ methodName := by
  constructor
  · intro hmethod hdot
    obtain ⟨before, last, rfl, hlast⟩ := exists_last_mem hdot
    have hslice : className ++ '.' :: (before ++ '.' :: last) =
        (className ++ '.' :: before) ++ '.' :: last := by simp
    rw [parsePath_eq _ hlast (sliceTo_printedPath.trans hslice)] at h
    obtain rfl := Except.ok.inj h
    have hlength := congrArg List.length hmethod
    simp at hlength
    omega
  · intro hdot
    rw [parsePath_eq className hdot sliceTo_printedPath] at h
    obtain rfl := Except.ok.inj h
    rfl

/-- The reader gets the printed names back exactly if they are plain. -/
theorem parse_printFrame_iff (ht : '\n' ∉ thread) (className methodName : Str) (lineNumber : ℤ) :
    (fileLines (printFrame thread className methodName lineNumber)).map parseLine =
        [.ok (thread, ⟨packageOf className, simpleName className, methodName⟩)] ↔
      Plain thread className methodName := by
  rw [fileLines_printFrame_iff ht]
  constructor
  · rintro ⟨hclass, hmethod, h⟩
    obtain ⟨parts, hsplit, hrest⟩ := Python.bind_eq_ok h
    have hcount : (rstrip (printFrame thread className methodName lineNumber)).count ',' = 1 :=
      count_of_splitThread hsplit
    rw [count_comma_rstrip_printFrame] at hcount
    have hcomma : ',' ∉ thread ∧ ',' ∉ className ∧ ',' ∉ methodName := by
      simp only [← List.count_eq_zero]
      omega
    obtain ⟨hthread, hc, hm⟩ := hcomma
    rw [splitThread_printFrame hthread hc hm] at hsplit
    obtain rfl := Except.ok.inj hsplit
    obtain ⟨frame, hframe, hpair⟩ := Python.bind_eq_ok hrest
    obtain ⟨hstrip, rfl⟩ : lstrip (' ' :: thread) = thread ∧
        frame = ⟨packageOf className, simpleName className, methodName⟩ := by
      simpa [pure, Except.pure] using hpair
    exact ⟨hthread, hc, hm, lstrip_space.mp hstrip, (method_of_parsePath hframe).mp rfl, hclass,
      hmethod⟩
  · intro h
    refine ⟨h.break_class, h.break_method, ?_⟩
    rw [parseLine, splitThread_printFrame h.comma_thread h.comma_class h.comma_method]
    simp only [bind, Except.bind, parsePath_eq className h.dot_method sliceTo_printedPath,
      lstrip_space.mpr h.space_thread, pure, Except.pure]

/-- A native frame of the main thread. -/
theorem parse_printFrame_native :
    (fileLines (printFrame "main" "java.lang.Object" "wait" (-2))).map parseLine =
        [.ok ("main", ⟨packageOf "java.lang.Object", simpleName "java.lang.Object", "wait"⟩)] ↔
      Plain "main" "java.lang.Object" "wait" :=
  parse_printFrame_iff (by decide) "java.lang.Object" "wait" (-2)

/-- A thread name with a comma makes the reader raise. -/
theorem comma_thread_not_parsed :
    (fileLines (printFrame "pool-1, worker-2" "org.example.Main" "run" 10)).map parseLine =
        [.error .valueError] ∧
    (fileLines (printFrame "pool-1, worker-2" "org.example.Main" "run" 10)).map parseLine ≠
        [.ok ("pool-1, worker-2",
          ⟨packageOf "org.example.Main", simpleName "org.example.Main", "run"⟩)] := by
  have hparse : (fileLines (printFrame "pool-1, worker-2" "org.example.Main" "run" 10)).map
      parseLine = [.error .valueError] := rfl
  refine ⟨hparse, ?_⟩
  rw [hparse]
  simp

end Structor.Profile
