import Structor.Ats.DumpQueries
import Structor.LineMarks

/-!
# Reading a dumped query back

The report splits a dumped file at its marker lines and takes the pieces by their index.
The file is written without escapes, so a query text with marker lines of its own moves
the pieces.

## Main definitions

* `marker` -- the regular expression of the report
* `chunks` -- the pieces of a text
* `ReadsBack` -- the report finds the plan and the counters
-/
namespace Structor.Ats

open Python LineMark

/-- `-- [A-Z][^\n]` -/
def startsMarker : Str → Bool
  | a :: b :: c :: upper :: d :: _ =>
      a = '-' && b = '-' && c = ' ' && ('A' ≤ upper && upper ≤ 'Z') && d ≠ '\n'
  | _ => false

/-- A mark has five characters before the end of its line. -/
theorem startsMarker_line (s rest : Str) : startsMarker (s ++ '\n' :: rest) = startsMarker s := by
  match s with
  | [] => rcases rest with _ | ⟨b, _ | ⟨c, _ | ⟨d, _ | ⟨e, rest⟩⟩⟩⟩ <;> simp [startsMarker]
  | [a] => rcases rest with _ | ⟨c, _ | ⟨d, _ | ⟨e, rest⟩⟩⟩ <;> simp [startsMarker]
  | [a, b] => rcases rest with _ | ⟨d, _ | ⟨e, rest⟩⟩ <;> simp [startsMarker]
  | [a, b, c] => rcases rest with _ | ⟨e, rest⟩ <;> simp [startsMarker]
  | [a, b, c, d] => simp [startsMarker]
  | a :: b :: c :: d :: e :: s => rfl

/-- The regular expression `-- [A-Z][^\n]+`. -/
def marker : LineMark := ⟨startsMarker, rfl, startsMarker_line⟩

/-- The value of the flag `re.MULTILINE`. -/
def reMULTILINE : ℕ := 8

/-- The third argument of `re.split` is the number of splits, not the flags. -/
def chunks (text : Str) : List Str := marker.splitMax reMULTILINE false text

variable {hiveQuery : Str} {queryPlan : Json} {counters : List (Str × Json)} {settings : Json}

/-- Two pieces in a row are the JSON text of the plan and the printed counters, up to
white space around them. -/
def FoundAt (queryPlan : Json) (counters : List (Str × Json)) (i : ℕ) (pieces : List Str) : Prop :=
  (pieces[i]?).map strip = some (strip (dumps queryPlan)) ∧
    (pieces[i + 1]?).map strip = some (strip (pformat (.obj counters)))

/-- The file is written, and the report finds the plan and the counters as sections 2 and 3. -/
def ReadsBack (hiveQuery : Str) (queryPlan : Json) (counters : List (Str × Json))
    (settings : Json) : Prop :=
  ∃ text, SqlFile.write ⟨hiveQuery, some queryPlan, counters, settings⟩ = .ok text ∧
    FoundAt queryPlan counters 2 (chunks text)

/-- The pieces of a section, with the line breaks around it. -/
def pieces (body : Str) : List Str := marker.split false ('\n' :: (body ++ ['\n']))

theorem strip_section (body : Str) : strip ('\n' :: (body ++ ['\n'])) = strip body := by
  rw [strip_cons_space (by decide), strip_concat_space (by decide)]

theorem split_section (body : Str) {mark : Str} (hmark : marker.starts mark = true)
    (hline : '\n' ∉ mark) (rest : Str) :
    marker.split false ('\n' :: (body ++ '\n' :: (mark ++ '\n' :: rest))) =
      pieces body ++ marker.split false ('\n' :: rest) := by
  rw [← List.cons_append, split_append, split_mark hmark hline,
    glue_nil_cons (split_ne_nil _ _)]
  rfl

/-- A file is its sections, each after a marker line. -/
theorem text_eq (file : SqlFile) : file.text = "-- Query Text".toList ++ '\n' :: (file.hiveQuery ++
    '\n' :: ("-- Query Plan".toList ++ '\n' :: (file.queryPlan.elim "ERROR".toList dumps ++
    '\n' :: ("-- Job Counters".toList ++ '\n' :: ((pformat (.obj file.counters) ++ ['\n']) ++
    '\n' :: ("-- Job Settings".toList ++ '\n' :: (pformat file.settings ++ ['\n']))))))) := by
  have hquery : "-- Query Text\n".toList = "-- Query Text".toList ++ ['\n'] := by decide
  have hplan : "\n-- Query Plan\n".toList = '\n' :: "-- Query Plan".toList ++ ['\n'] := by decide
  have hcounters : "\n-- Job Counters\n".toList = '\n' :: "-- Job Counters".toList ++ ['\n'] := by
    decide
  have hsettings : "\n-- Job Settings\n".toList = '\n' :: "-- Job Settings".toList ++ ['\n'] := by
    decide
  unfold SqlFile.text
  rw [hquery, hplan, hcounters, hsettings]
  simp only [List.append_assoc, List.cons_append, List.nil_append]

/-- The pieces of a file are those of its sections. -/
theorem split_text (file : SqlFile) : marker.split false file.text =
    [] :: (pieces file.hiveQuery ++ (pieces (file.queryPlan.elim "ERROR".toList dumps) ++
      (pieces (pformat (.obj file.counters) ++ ['\n']) ++ pieces (pformat file.settings)))) := by
  rw [text_eq, split_mark (by decide) (by decide), split_section _ (by decide) (by decide),
    split_section _ (by decide) (by decide), split_section _ (by decide) (by decide)]
  rfl

/-! ## Single sections -/

theorem exists_dash {rest : Str} (h : marker.starts rest = true) :
    ∃ rest', rest = '-' :: rest' := by
  have hstarts : startsMarker rest = true := h
  unfold startsMarker at hstarts
  split at hstarts
  · simp only [Bool.and_eq_true, decide_eq_true_eq] at hstarts
    exact ⟨_, by rw [hstarts.1.1.1.1]⟩
  · cases hstarts

/-- The first piece of a section is the section, or shorter than it when stripped. -/
theorem pieces_head (body : Str) :
    ¬ marker.Marked body ∧ pieces body = ['\n' :: (body ++ ['\n'])] ∨
      marker.Marked body ∧ ∃ piece rest later, '\n' :: (body ++ ['\n']) = piece ++ rest ∧
        pieces body = piece :: later ∧ later ≠ [] ∧ strip piece ≠ strip body := by
  rcases split_head (m := marker) ('\n' :: (body ++ ['\n'])) with
    ⟨hnot, hsplit⟩ | ⟨hmarked, piece, rest, later, hwhole, hstarts, hsplit, hne⟩
  · exact .inl ⟨fun h => hnot ((marked_line body).mpr h), hsplit⟩
  · refine .inr ⟨(marked_line body).mp hmarked, piece, rest, later, hwhole, hsplit, hne, ?_⟩
    obtain ⟨rest', rfl⟩ := exists_dash hstarts
    rw [← strip_section body, hwhole]
    exact strip_ne_strip_append (by decide) piece rest'

/-- No start of the plan's section reads like printed counters. -/
theorem strip_ne_counters (queryPlan : Json) (counters : List (Str × Json)) {piece rest : Str}
    (h : '\n' :: (dumps queryPlan ++ ['\n']) = piece ++ rest) :
    strip piece ≠ strip (pformat (.obj counters)) := by
  intro hstrip
  obtain ⟨inner, hinner⟩ := strip_pformat_obj counters
  obtain ⟨c, tail, hdumps, hspace, hbrace⟩ := dumps_start queryPlan
  have hwhole : lstrip (piece ++ rest) = c :: (tail ++ ['\n']) := by
    rw [← h, hdumps]
    simp [lstrip, isSpace, List.dropWhile_cons] at hspace ⊢
    simp [hspace]
  have hpre := lstrip_append_of_strip rest (hstrip.trans hinner)
  rw [hwhole, List.cons_prefix_cons] at hpre
  obtain ⟨d, tail', rfl, hd⟩ := hbrace hpre.1.symm
  rw [List.cons_append, List.cons_prefix_cons] at hpre
  exact hd hpre.2.1.symm

/-! ## The whole file -/

theorem getElem?_chunks {i : ℕ} (hi : i < 8) (text : Str) :
    (chunks text)[i]? = (marker.split false text)[i]? :=
  getElem?_splitMax hi false text

theorem write_eq_ok {file : SqlFile} {text : Str} :
    file.write = .ok text ↔ (∀ c ∈ file.hiveQuery, c.toNat < 128) ∧ file.text = text := by
  have hall : (file.hiveQuery.all fun c => c.toNat < 128) = true ↔
      ∀ c ∈ file.hiveQuery, c.toNat < 128 := by
    simp [List.all_eq_true]
  rw [← hall, SqlFile.write]
  by_cases hascii : (file.hiveQuery.all fun c => c.toNat < 128) = true
  · rw [if_pos hascii, Except.ok.injEq]
    exact (and_iff_right hascii).symm
  · rw [if_neg hascii]
    simp only [hascii, false_and, reduceCtorEq]

/-- The sections of plan and counters are pieces as they are exactly if they have no marks. -/
theorem foundAt_sections (later : List Str) : FoundAt queryPlan counters 0
    (pieces (dumps queryPlan) ++ (pieces (pformat (.obj counters) ++ ['\n']) ++ later)) ↔
      ¬ marker.Marked (dumps queryPlan) ∧ ¬ marker.Marked (pformat (.obj counters)) := by
  have hend : strip (pformat (.obj counters) ++ ['\n']) = strip (pformat (.obj counters)) :=
    strip_concat_space (by decide) _
  rcases pieces_head (dumps queryPlan) with
    ⟨hplan, hpieces⟩ | ⟨hplan, piece, rest, more, -, hpieces, -, hne⟩
  · rcases pieces_head (pformat (.obj counters) ++ ['\n']) with
      ⟨hcounters, hlast⟩ | ⟨hcounters, piece, rest, more, -, hlast, -, hne⟩
    · rw [marked_concat_break] at hcounters
      rw [hpieces, hlast]
      simp only [FoundAt, List.cons_append, List.nil_append, List.getElem?_cons_zero,
        List.getElem?_cons_succ, Option.map_some, strip_section, hend, hplan, hcounters,
        not_false_eq_true, and_self]
    · rw [marked_concat_break] at hcounters
      rw [hend] at hne
      rw [hpieces, hlast]
      simp [FoundAt, hcounters, hne]
  · rw [hpieces]
    simp [FoundAt, hplan, hne]

/-- The first piece of the plan's section is not printed counters. -/
theorem not_foundAt_one (front : Str) (later : List Str) :
    ¬ FoundAt queryPlan counters 0 (front :: (pieces (dumps queryPlan) ++ later)) := by
  rintro ⟨-, hcounters⟩
  rcases pieces_head (dumps queryPlan) with
    ⟨-, hpieces⟩ | ⟨-, piece, rest, more, hwhole, hpieces, -, -⟩
  · have hne := @strip_ne_counters queryPlan counters _ [] (List.append_nil _).symm
    rw [hpieces] at hcounters
    exact hne (by simpa using hcounters)
  · have hne := strip_ne_counters queryPlan counters hwhole
    rw [hpieces] at hcounters
    exact hne (by simpa using hcounters)

theorem foundAt_cons (i : ℕ) (piece : Str) (later : List Str) :
    FoundAt queryPlan counters (i + 1) (piece :: later) ↔ FoundAt queryPlan counters i later := by
  simp [FoundAt]

/-- The report finds plan and counters exactly if the query text can be written and
either no section has marker lines of its own, or the query text has, and has the plan and
the counters between them. -/
theorem readsBack_iff (hiveQuery : Str) (queryPlan : Json) (counters : List (Str × Json))
    (settings : Json) : ReadsBack hiveQuery queryPlan counters settings ↔
      (∀ c ∈ hiveQuery, c.toNat < 128) ∧
        (¬ marker.Marked hiveQuery ∧ ¬ marker.Marked (dumps queryPlan) ∧
            ¬ marker.Marked (pformat (.obj counters)) ∨
          FoundAt queryPlan counters 1 (pieces hiveQuery)) := by
  have hchunks : ReadsBack hiveQuery queryPlan counters settings ↔
      (∀ c ∈ hiveQuery, c.toNat < 128) ∧ FoundAt queryPlan counters 1 (pieces hiveQuery ++
        (pieces (dumps queryPlan) ++ (pieces (pformat (.obj counters) ++ ['\n']) ++
          pieces (pformat settings)))) := by
    simp only [ReadsBack, write_eq_ok, and_assoc, exists_and_left, exists_eq_left']
    refine and_congr_right fun _ => ?_
    rw [← foundAt_cons 1 [], FoundAt, getElem?_chunks (by decide), getElem?_chunks (by decide),
      split_text]
    rfl
  rw [hchunks]
  refine and_congr_right fun _ => ?_
  rcases pieces_head hiveQuery with
    ⟨hquery, hpieces⟩ | ⟨hquery, front, rest, later, -, hpieces, hlater, -⟩
  · have hshort : ¬ FoundAt queryPlan counters 1 (pieces hiveQuery) := by
      rw [hpieces]
      simp [FoundAt]
    rw [hpieces, List.singleton_append, foundAt_cons, foundAt_sections]
    rw [hpieces] at hshort
    simp only [hquery, hshort, not_false_eq_true, true_and, or_false]
  · rw [hpieces, List.cons_append, foundAt_cons, foundAt_cons]
    simp only [hquery, not_true_eq_false, false_and, false_or]
    match later, hlater with
    | [middle], _ =>
        have hshort : ¬ FoundAt queryPlan counters 0 [middle] := by
          simp [FoundAt]
        exact iff_of_false (not_foundAt_one middle _) hshort
    | middle :: last :: more, _ => exact Iff.rfl

/-- A query with a comment that reads like a marker line. -/
theorem comment_not_readsBack : ¬ ReadsBack "select 1\n-- Only one row\n" (.obj [])
    [("RECORDS_OUT", .int 1)] (.obj []) := by
  rintro ⟨text, htext, hplan, -⟩
  obtain ⟨-, rfl⟩ := write_eq_ok.mp htext
  revert hplan
  decide

end Structor.Ats
