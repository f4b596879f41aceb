import Mathlib.Data.List.Basic
import Structor.Lists
import Structor.Text

/-!
# Comma-separated rows

A row is written by joining its fields with commas. The writer of the module csv puts a
field in quotes where it has to, and its reader takes such rows apart again.

## Main definitions

* `join` -- the fields with commas between them, as they are
* `writerow` -- a row of the writer
* `readRow` -- the fields of a row, none when the reader raises
-/
namespace Structor.Csv

/-- `",".join(fields)` -/
def join (fields : List Str) : Str := [','].intercalate fields

def isBreak (c : Char) : Bool := c = '\r' || c = '\n'

/-- A field with such a character is put in quotes. -/
def isSpecial (c : Char) : Bool := c = ',' || c = '"' || isBreak c

/-- Quotes are doubled. -/
def escape (s : Str) : Str := s.flatMap fun c => if c = '"' then ['"', '"'] else [c]

def field (s : Str) : Str :=
  if s.any isSpecial then '"' :: (escape s ++ ['"']) else s

/-- A row, without the end of its line. A single empty field is quoted. -/
def writerow (fields : List Str) : Str :=
  if fields = [[]] then ['"', '"'] else join (fields.map field)

/-- Where the reader is: before a field, in a field, in a quoted field, or after a quote
in a quoted field. -/
inductive State where
  | start
  | field
  | quoted
  | quote

/-- Puts a text in front of the first field. -/
def prepend (s : Str) : List Str → List Str
  | [] => [s]
  | f :: fields => (s ++ f) :: fields

/-- A line break ends the row. Nothing else may follow it. -/
def close (rest : Str) : Option (List Str) := if rest.all isBreak then some [[]] else none

def read : State → Str → Option (List Str)
  | _, [] => some [[]]
  | .quoted, c :: cs =>
      if c = '"' then read .quote cs else (read .quoted cs).map (prepend [c])
  | .quote, c :: cs =>
      if c = '"' then (read .quoted cs).map (prepend ['"'])
      else if c = ',' then (read .start cs).map ([] :: ·)
      else if isBreak c then close cs
      else (read .field cs).map (prepend [c])
  | .start, c :: cs =>
      if c = '"' then read .quoted cs
      else if c = ',' then (read .start cs).map ([] :: ·)
      else if isBreak c then close cs
      else (read .field cs).map (prepend [c])
  | .field, c :: cs =>
      if c = ',' then (read .start cs).map ([] :: ·)
      else if isBreak c then close cs
      else (read .field cs).map (prepend [c])

def readRow (s : Str) : Option (List Str) := if s.all isBreak then some [] else read .start s

/-! ## Joined fields -/

variable {fields fields' : List Str} {s rest : Str}

/-- Splitting at the commas undoes the joining when no field has a comma. -/
theorem splitOn_join_eq_iff (h : fields' ≠ []) :
    (join fields).splitOn ',' = fields' ↔
      join fields = join fields' ∧ ∀ f ∈ fields', ',' ∉ f := by
  constructor
  · rintro rfl
    refine ⟨(List.intercalate_splitOn ',').symm, ?_⟩
    intro f hf
    exact not_mem_of_mem_splitOn hf
  · rintro ⟨hjoin, hcomma⟩
    rw [hjoin, join, List.splitOn_intercalate ',' hcomma h]

/-! ## Reading written rows -/

/-- In a field up to what follows it. -/
theorem read_field_append (h : s.any isSpecial = false)
    (hrest : read .field rest = some ([] :: fields)) :
    read .field (s ++ rest) = some (s :: fields) := by
  induction s with
  | nil => exact hrest
  | cons c s ih =>
      rw [List.any_cons, Bool.or_eq_false_iff] at h
      have hc : ¬ c = ',' ∧ ¬ isBreak c = true := by
        have hspecial := h.1
        simp only [isSpecial, Bool.or_eq_false_iff, decide_eq_false_iff_not] at hspecial
        simp [hspecial]
      rw [List.cons_append, read, if_neg hc.1, if_neg hc.2, ih h.2]
      rfl

theorem read_quoted_append (hrest : read .quote rest = some ([] :: fields)) :
    read .quoted (escape s ++ '"' :: rest) = some (s :: fields) := by
  induction s with
  | nil => simpa [escape, read] using hrest
  | cons c s ih =>
      rw [escape] at ih
      by_cases hc : c = '"'
      · simp [escape, hc, read, ih, prepend]
      · simp [escape, hc, read, ih, prepend]

/-- A written field is read up to what follows it. -/
theorem read_start_append (hstart : read .start rest = some ([] :: fields))
    (hfield : read .field rest = some ([] :: fields))
    (hquote : read .quote rest = some ([] :: fields)) :
    read .start (field s ++ rest) = some (s :: fields) := by
  by_cases h : s.any isSpecial = true
  · rw [field, if_pos h, List.cons_append, read, if_pos rfl, List.append_assoc]
    exact read_quoted_append hquote
  · rw [field, if_neg h]
    rw [Bool.not_eq_true] at h
    cases s with
    | nil => exact hstart
    | cons c s =>
        rw [List.any_cons, Bool.or_eq_false_iff] at h
        have hc : ¬ c = '"' ∧ ¬ c = ',' ∧ ¬ isBreak c = true := by
          have hspecial := h.1
          simp only [isSpecial, Bool.or_eq_false_iff, decide_eq_false_iff_not] at hspecial
          simp [hspecial]
        rw [List.cons_append, read, if_neg hc.1, if_neg hc.2.1, if_neg hc.2.2,
          read_field_append h.2 hfield]
        rfl

theorem read_join_field (hne : fields ≠ []) :
    read .start (join (fields.map field)) = some fields := by
  induction fields with
  | nil => exact absurd rfl hne
  | cons f fields ih =>
      cases fields with
      | nil =>
          have htext : join ([f].map field) = field f ++ [] := by
            simp [join]
          rw [htext]
          exact read_start_append rfl rfl rfl
      | cons g fields =>
          have hrest := ih (List.cons_ne_nil g fields)
          have htext : join ((f :: g :: fields).map field) =
              field f ++ ',' :: join ((g :: fields).map field) := by
            simp [join]
          rw [htext]
          apply read_start_append
          · simp [read, hrest, -List.map_cons]
          · simp [read, hrest, -List.map_cons]
          · simp [read, hrest, -List.map_cons]

theorem all_isBreak_field (hne : s ≠ []) : (field s).all isBreak = false := by
  by_cases h : s.any isSpecial = true
  · rw [field, if_pos h, List.all_cons]
    simp [isBreak]
  · rw [field, if_neg h]
    cases s with
    | nil => exact absurd rfl hne
    | cons c s =>
        simp only [List.any_cons, isSpecial, Bool.or_eq_true, not_or] at h
        simp [h.1.2]

/-- A written row does not look like an empty line. -/
theorem all_isBreak_join_field (hne : fields ≠ []) (hempty : fields ≠ [[]]) :
    (join (fields.map field)).all isBreak = false := by
  match fields, hne with
  | [f], _ =>
      have hf : f ≠ [] := by
        rintro rfl
        exact hempty rfl
      simpa [join] using all_isBreak_field hf
  | f :: g :: fields, _ =>
      have hcomma : isBreak ',' = false := by decide
      simp [join, hcomma]

/-- The fields of a written row. -/
theorem readRow_writerow (fields : List Str) : readRow (writerow fields) = some fields := by
  by_cases hempty : fields = [[]]
  · subst hempty
    rfl
  · rw [writerow, if_neg hempty, readRow]
    by_cases hne : fields = []
    · subst hne
      rfl
    · rw [all_isBreak_join_field hne hempty, read_join_field hne]
      rfl

end Structor.Csv
