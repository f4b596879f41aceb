import Mathlib.Data.List.Infix
import Structor.Overwrite
import Structor.Sql.Lexer

/-!
# The query set of JMeter (`jmeter_generate_template.py`)

The query files of a directory become the lines of one file, each with the id of a query and its
text on one line.

## Main definitions

* `scrub`, `oneliner` -- a query without its comments, on one line
* `queriesCsv` -- the file that is written
* `Preserved` -- the lines have the tokens of the statements
* `Harmless` -- what may be cut off a line
* `Fine` -- the files whose lines have the tokens of the statements

## Main results

* `Cut.harmless_iff` -- a cut is harmless if the line is read as before
* `queries_preserved` -- files that are fine are preserved
-/
namespace Structor.JmeterTemplate
open Python Sql

/-! ## The lines -/

def sqlComment : Str := "-- "

/-- `SQL_COMMENT.search(l).group(0)`, the rest of the line from the first `-- `. -/
def searchComment (l : Str) : Option Str :=
  (l.tails.find? fun t => decide (sqlComment <+: t)).map fun t => t.takeWhile (· ≠ '\n')

def scrub (l : Str) : Str :=
  match searchComment l with
  | some m => replace m [] l
  | none => l

def variableDB : Str := "$\x7bDB\x7d"

/-- Without a database the lines are never set. -/
def oneliner (q : Str) : Option Str → Except Error Str
  | some (c :: db) =>
      let lines := (q.splitOn '\n').map (replace variableDB (c :: db))
      .ok ([' '].intercalate (lines.map fun l => scrub (strip l)))
  | _ => .error .nameError

structure QueryFile where
  path : Str
  text : Str

def basename (path : Str) : Str := (path.splitOn '/').getLastD []

def queryName (q : QueryFile) : Str := replace ".sql" [] (basename q.path)

/-- One turn of the loop over the files. A file with two semicolons is left out. -/
def addQuery (targetdb : Option Str) (jdbcQueries : List (Str × Str)) (q : QueryFile) :
    Except Error (List (Str × Str)) :=
  if 2 < (q.text.splitOn ';').length then .ok jdbcQueries
  else do
    let query ← oneliner (replace ";" [] q.text) targetdb
    return jdbcQueries ++ [(queryName q, query)]

def csvLine (j : Str × Str) : Str := "hive-".toList ++ j.1 ++ '^' :: j.2

/-- The text of the file with the queries. -/
def queriesCsv (files : List QueryFile) (targetdb : Option Str) : Except Error Str := do
  let jdbcQueries ← files.foldlM (addQuery targetdb) []
  return ['\n'].intercalate (jdbcQueries.map csvLine)

/-! ## What the lines should be -/

/-- A text with the database in it, if one is given. -/
def substituted : Option Str → Str → Str
  | some (c :: db), text => replace variableDB (c :: db) text
  | _, text => text

/-- The tokens of the statement of a text that holds a single one. -/
def statementOf (text : Str) : Option (List Token) :=
  let body :=
    if (tokens text).getLast? = some (.symbol ';') then (tokens text).dropLast else tokens text
  if (run (.code []) text).2.closed = true ∧ body ≠ [] ∧ Token.symbol ';' ∉ body then some body
  else none

/-- The queries of the files that hold a single statement, by their ids. -/
def statements (files : List QueryFile) (targetdb : Option Str) : List (Str × List Token) :=
  files.filterMap fun q =>
    (statementOf (substituted targetdb q.text)).map fun body =>
      ("hive-".toList ++ queryName q, body)

def csvLines (csv : Str) : List Str := if csv = [] then [] else csv.splitOn '\n'

/-- A line has two fields, the id and a text with the tokens of the statement, in which every
literal and every block comment ends. -/
def IsLine (line : Str) (statement : Str × List Token) : Prop :=
  ∃ query, line.splitOn '^' = [statement.1, query] ∧
    (run (.code []) query).2.closed = true ∧ tokens query = statement.2

/-- The file has a line for each single statement. -/
def Preserved (files : List QueryFile) (targetdb : Option Str) : Prop :=
  ∃ csv, queriesCsv files targetdb = .ok csv ∧
    List.Forall₂ IsLine (csvLines csv) (statements files targetdb)

/-! ## The condition -/

/-- The lines of a query as they are scrubbed. -/
def queryLines (db : Str) (q : QueryFile) : List Str :=
  ((replace ";" [] q.text).splitOn '\n').map fun l => strip (replace variableDB db l)

/-- A line, cut at its first `-- `. -/
structure Cut (l code note : Str) : Prop where
  eq : l = code ++ note
  no_comment : ¬ sqlComment <:+: code
  note : note = [] ∨ sqlComment <+: note
  no_break : '\n' ∉ l

/-- The note that is cut off where the reader is in `m` is a comment, or inside of one. -/
def Harmless (note : Str) : Mode → Prop
  | .code _ | .slash _ => True
  | .dash _ => note = []
  | .quoted _ _ | .escaped _ _ | .comment => False
  | m => (run m note).1 = [] ∧ (run m note).2.inBlock = true

instance (note : Str) : (m : Mode) → Decidable (Harmless note m)
  | .code _ | .slash _ => inferInstanceAs (Decidable True)
  | .dash _ => inferInstanceAs (Decidable (note = []))
  | .quoted _ _ | .escaped _ _ | .comment => inferInstanceAs (Decidable False)
  | .block => inferInstanceAs (Decidable (_ ∧ (run .block note).2.inBlock = true))
  | .star => inferInstanceAs (Decidable (_ ∧ (run .star note).2.inBlock = true))

/-- The lines, each with a character at its end. -/
def ended (c : Char) (lines : List Str) : Str := lines.flatMap (· ++ [c])

/-- No literal is open at the end of a line. The reader starts in `m`. -/
def Unbroken : Mode → List Str → Prop
  | _, [] => True
  | m, l :: lines =>
      (run m (l ++ ['\n'])).2.lineStart = true ∧ Unbroken (run m (l ++ ['\n'])).2 lines

/-- What is cut off the lines is harmless. A comment that starts before the cut stays on its
line, where no token may come after it. -/
def KeptLines : Mode → List Str → Prop
  | _, [] => True
  | m, l :: lines => ∃ code note, Cut l code note ∧
      (Harmless note (run m code).2 ∧ KeptLines (run m (l ++ ['\n'])).2 lines ∨
        (run m code).2 = .comment ∧ (run (.code []) (ended '\n' lines)).1 = [])

/-- A semicolon can be taken out where the reader is in `m`, before the text. -/
def Free (after : Str) : Mode → Prop
  | .dash _ => after.head? ≠ some '-'
  | .star => after.head? ≠ some '/'
  | .quoted _ _ | .escaped _ _ => False
  | _ => True

instance (after : Str) : (m : Mode) → Decidable (Free after m)
  | .dash _ => inferInstanceAs (Decidable (after.head? ≠ some '-'))
  | .star => inferInstanceAs (Decidable (after.head? ≠ some '/'))
  | .quoted _ _ | .escaped _ _ => inferInstanceAs (Decidable False)
  | .code _ | .slash _ | .comment | .block => inferInstanceAs (Decidable True)

/-- The semicolon is in the code or in a comment, and nothing that counts comes about when it
goes. -/
structure Removable (db before after : Str) : Prop where
  append : run (.code []) (replace variableDB db (before ++ after)) =
    run (.code []) (replace variableDB db before ++ replace variableDB db after)
  free : Free (replace variableDB db after) (run (.code []) (replace variableDB db before)).2

/-- The name and the lines without their comments have no separators. -/
structure Separated (db : Str) (q : QueryFile) : Prop where
  name_caret : '^' ∉ queryName q
  name_break : '\n' ∉ queryName q
  cut : ∀ l ∈ queryLines db q, ∃ code note, Cut l code note ∧ '^' ∉ code

/-- The line of the file has its tokens. The database adds no semicolon to the code. -/
structure Convertible (db : Str) (q : QueryFile) : Prop extends Separated db q where
  unbroken : Unbroken (.code []) (queryLines db q)
  kept : KeptLines (.code []) (queryLines db q)
  no_semicolon : Token.symbol ';' ∉ tokens (replace variableDB db (replace ";" [] q.text))
  removable : ∀ before after, q.text = before ++ ';' :: after → Removable db before after

/-- A file with at most one semicolon is a single statement that can be converted, and there is a
database. Another one is not a single statement. -/
def Fine (targetdb : Option Str) (q : QueryFile) : Prop :=
  if 2 < (q.text.splitOn ';').length then statementOf (substituted targetdb q.text) = none
  else (statementOf (substituted targetdb q.text)).isSome ∧
    ∃ db, targetdb = some db ∧ db ≠ [] ∧ Convertible db q

/-! ## Scrubbing -/

variable {l code note : Str} {word : Str}

/-- Nothing before the comment is taken for one. -/
theorem not_prefix_of_suffix {p u z : Str} (hp : ¬ sqlComment <:+: p) (hu : u <:+ p)
    (hne : u ≠ []) :
    ¬ sqlComment <+: u ++ (sqlComment ++ z) := by
  intro hpre
  match u, hne with
  | [a], _ =>
      obtain ⟨-, hpre⟩ := List.cons_prefix_cons.mp hpre
      obtain ⟨-, hpre⟩ := List.cons_prefix_cons.mp hpre
      exact absurd (List.cons_prefix_cons.mp hpre).1 (by decide)
  | [a, b], _ =>
      obtain ⟨-, hpre⟩ := List.cons_prefix_cons.mp hpre
      obtain ⟨-, hpre⟩ := List.cons_prefix_cons.mp hpre
      exact absurd (List.cons_prefix_cons.mp hpre).1 (by decide)
  | a :: b :: c :: u, _ =>
      have hlen : sqlComment.length ≤ (a :: b :: c :: u).length := Nat.le_add_left 3 u.length
      have hshort := List.prefix_of_prefix_length_le hpre (List.prefix_append _ _) hlen
      exact hp (hshort.isInfix.trans hu.isInfix)

theorem find?_tails {p : Str} {z : Str} (hp : ∀ u, u ≠ [] → u <:+ p → ¬ sqlComment <+: u ++ z) :
    (p ++ z).tails.find? (fun t => decide (sqlComment <+: t)) =
      z.tails.find? fun t => decide (sqlComment <+: t) := by
  induction p with
  | nil => rfl
  | cons c p ih =>
      have hnot := hp (c :: p) (List.cons_ne_nil c p) (List.suffix_refl _)
      rw [List.cons_append, List.tails, List.find?_cons_of_neg (by simpa using hnot)]
      exact ih fun u hu hsuffix => hp u hu (hsuffix.trans (List.suffix_cons c p))

theorem scrub_of_not_infix (h : ¬ sqlComment <:+: l) : scrub l = l := by
  have hnone : l.tails.find? (fun t => decide (sqlComment <+: t)) = none := by
    rw [List.find?_eq_none]
    intro t ht hpre
    exact h ((of_decide_eq_true hpre).isInfix.trans ((List.mem_tails t l).mp ht).isInfix)
  rw [scrub, searchComment, hnone]
  rfl

theorem Cut.scrub_eq (h : Cut l code note) : scrub l = code := by
  rcases h.note with rfl | ⟨text, rfl⟩
  · rw [h.eq, List.append_nil]
    exact scrub_of_not_infix h.no_comment
  · have hnot (u : Str) (hu : u ≠ []) (hsuffix : u <:+ code) :
        ¬ sqlComment <+: u ++ (sqlComment ++ text) := not_prefix_of_suffix h.no_comment hsuffix hu
    have hfind : (sqlComment ++ text).tails.find? (fun t => decide (sqlComment <+: t)) =
        some (sqlComment ++ text) :=
      List.find?_cons_of_pos (decide_eq_true (List.prefix_append sqlComment text))
    have hline : (sqlComment ++ text).takeWhile (· ≠ '\n') = sqlComment ++ text := by
      rw [List.takeWhile_eq_self_iff]
      intro c hc
      rw [decide_eq_true_iff]
      rintro rfl
      refine h.no_break ?_
      rw [h.eq]
      exact List.mem_append_right _ hc
    rw [h.eq, scrub, searchComment, find?_tails hnot, hfind, Option.map_some, hline]
    refine replace_end (List.cons_ne_nil _ _) fun u hu hsuffix hpre => ?_
    exact hnot u hu hsuffix ((List.prefix_append sqlComment text).trans hpre)

/-- A line break stays. -/
theorem break_mem_scrub (h : '\n' ∈ l) : '\n' ∈ scrub l := by
  rw [scrub, searchComment]
  cases hfind : l.tails.find? fun t => decide (sqlComment <+: t) with
  | none => exact h
  | some t =>
      have hpre : sqlComment <+: t := by simpa using List.find?_some hfind
      obtain ⟨text, rfl⟩ := hpre
      obtain ⟨before, after, hl, -⟩ := List.eq_append_cons_of_mem h
      have hold : (sqlComment ++ text).takeWhile (· ≠ '\n') ≠ [] := List.cons_ne_nil _ _
      have hbreak : '\n' ∉ (sqlComment ++ text).takeWhile (· ≠ '\n') := by
        intro hmem
        simpa using List.mem_takeWhile_imp hmem
      rw [Option.map_some, hl]
      simp only [replace_append_cons hold hbreak]
      exact List.mem_append_right _ List.mem_cons_self

theorem exists_cut (hbreak : '\n' ∉ l) : ∃ code note, Cut l code note := by
  induction l with
  | nil => exact ⟨[], [], rfl, by decide, .inl rfl, hbreak⟩
  | cons c l ih =>
      by_cases hpre : sqlComment <+: c :: l
      · exact ⟨[], c :: l, rfl, by decide, .inr hpre, hbreak⟩
      · obtain ⟨code, note, hcut⟩ := ih fun hmem => hbreak (List.mem_cons_of_mem _ hmem)
        refine ⟨c :: code, note, by rw [hcut.eq, List.cons_append], ?_, hcut.note, hbreak⟩
        rw [List.infix_cons_iff, not_or]
        refine ⟨fun hcode => hpre (hcode.trans ?_), hcut.no_comment⟩
        rw [hcut.eq]
        exact List.prefix_append (c :: code) note

theorem Cut.note_break (h : Cut l code note) : '\n' ∉ note := by
  intro hmem
  refine h.no_break ?_
  rw [h.eq]
  exact List.mem_append_right _ hmem

theorem run_comment_break {s : Str} (hs : '\n' ∉ s) :
    run .comment (s ++ ['\n']) = ([], .code []) := by
  rw [run_append, run_comment hs]
  rfl

/-- The reader that goes on in a block comment after a line break was in it before. -/
theorem inBlock_of_step_break {m : Mode} (h : (step m '\n').2 = .block) : m.inBlock = true := by
  cases m with
  | code | dash | slash =>
      rw [step_space rfl (by decide)] at h
      cases h
  | quoted quote text =>
      rw [step] at h
      split at h
      · cases h
      · split at h <;> cases h
  | escaped | comment => cases h
  | block | star => rfl

/-- In the code a note is read as a space. -/
theorem run_note_plain {m : Mode} (hm : m.plain = true) (hdash : ∀ word, m ≠ .dash word)
    (hnote : note = [] ∨ sqlComment <+: note) (hbreak : '\n' ∉ note) :
    run m (note ++ ['\n']) = step m ' ' := by
  rw [step_space hm (by decide)]
  rcases hnote with rfl | ⟨text, rfl⟩
  · rw [List.nil_append, run_singleton, step_space hm (by decide)]
  · have htext : '\n' ∉ ' ' :: text :=
      fun h => hbreak (List.mem_cons_of_mem _ (List.mem_cons_of_mem _ h))
    have hdashes := run_dashes hm hdash (' ' :: text ++ ['\n'])
    rw [run_comment_break htext, List.append_nil] at hdashes
    exact hdashes

/-- After a dash it is not: the first dash of the note is the second one of the comment. -/
theorem run_note_dash_ne {text : Str} (hbreak : '\n' ∉ sqlComment ++ text) (word : Str) :
    run (.dash word) (sqlComment ++ text ++ ['\n']) ≠ step (.dash word) ' ' := by
  have htext : '\n' ∉ '-' :: ' ' :: text := fun h => hbreak (List.mem_cons_of_mem _ h)
  have hrun : run (.dash word) (sqlComment ++ text ++ ['\n']) =
      (wordTokens word ++ (run .comment ('-' :: ' ' :: text ++ ['\n'])).1,
        (run .comment ('-' :: ' ' :: text ++ ['\n'])).2) := rfl
  rw [run_comment_break htext, List.append_nil] at hrun
  rw [hrun, step_space rfl (by decide)]
  intro h
  have hlength := congrArg List.length (Prod.mk.inj h).1
  simp [flush] at hlength

/-- In a literal the line break is read. -/
theorem run_note_literal_ne {m : Mode} {quote : Quote} {text : Str}
    (hstep : step m ' ' = ([], .quoted quote (text ++ [' '])))
    (hrun : (run m (note ++ ['\n'])).1 ≠ [] ∨
      run m (note ++ ['\n']) = ([], .quoted quote (text ++ (note ++ ['\n']))) ∨
      run m (note ++ ['\n']) = ([], .escaped quote (text ++ (note ++ ['\n'])))) :
    run m (note ++ ['\n']) ≠ step m ' ' := by
  intro h
  rw [hstep] at h
  rw [h] at hrun
  rcases hrun with hrun | hrun | hrun
  · exact hrun rfl
  · have htext := (Mode.quoted.inj (Prod.mk.inj hrun).2).2
    have hend : note ++ ['\n'] = [] ++ [' '] := List.append_cancel_left htext.symm
    exact absurd (List.append_inj' hend rfl).2 (by decide)
  · cases (Prod.mk.inj hrun).2

/-- In a block comment the note must not end it. -/
theorem run_note_block_iff {m : Mode} (hm : m.inBlock = true) :
    ((run m note).1 = [] ∧ (run m note).2.inBlock = true) ↔
      run m (note ++ ['\n']) = step m ' ' := by
  rw [step_inBlock_space hm (by decide), run_append, run_singleton, Prod.mk.injEq,
    List.append_eq_nil_iff]
  constructor
  · rintro ⟨htokens, hend⟩
    rw [step_inBlock_space hend (by decide)]
    exact ⟨⟨htokens, rfl⟩, rfl⟩
  · rintro ⟨⟨htokens, -⟩, hend⟩
    exact ⟨htokens, inBlock_of_step_break hend⟩

/-- A note is harmless exactly if the rest of the line is read as the space in its place. -/
theorem harmless_note_iff (hnote : note = [] ∨ sqlComment <+: note) (hbreak : '\n' ∉ note)
    (m : Mode) : Harmless note m ↔ run m (note ++ ['\n']) = step m ' ' := by
  cases m with
  | code word =>
      exact iff_of_true trivial (run_note_plain rfl (fun word => Mode.noConfusion) hnote hbreak)
  | slash word =>
      exact iff_of_true trivial (run_note_plain rfl (fun word => Mode.noConfusion) hnote hbreak)
  | dash word =>
      rw [Harmless]
      rcases hnote with rfl | ⟨text, rfl⟩
      · rw [List.nil_append, run_singleton, step_space rfl (by decide),
          step_space rfl (by decide)]
        exact iff_of_true rfl rfl
      · exact iff_of_false (List.cons_ne_nil _ _) (run_note_dash_ne hbreak word)
  | quoted quote text =>
      have hspace : ' ' ≠ (quote : Char) := by
        intro h
        have hquote := quote.2
        rw [← h] at hquote
        cases hquote
      exact iff_of_false id (run_note_literal_ne (step_quoted text hspace (by decide))
        (run_quoted quote text _))
  | escaped quote text =>
      exact iff_of_false id (run_note_literal_ne rfl (run_escaped quote text _))
  | comment =>
      rw [run_comment_break hbreak]
      refine iff_of_false id fun h => ?_
      cases (Prod.mk.inj h).2
  | block => exact run_note_block_iff rfl
  | star => exact run_note_block_iff rfl

/-- A cut is harmless exactly if the line is read as what is left of it, with the space that
comes after it. -/
theorem Cut.harmless_iff (h : Cut l code note) (m : Mode) : Harmless note (run m code).2 ↔
    run m (l ++ ['\n']) = run m (scrub l ++ [' ']) := by
  rw [harmless_note_iff h.note h.note_break, h.scrub_eq, h.eq, List.append_assoc, run_append m code,
    run_append m code, run_singleton, Prod.ext_iff, Prod.mk.injEq]
  exact and_congr_left' (List.append_cancel_left_eq _ _ _).to_iff.symm

/-! ## The lines on one line -/

theorem ended_eq (c : Char) {lines : List Str} (hne : lines ≠ []) :
    ended c lines = [c].intercalate lines ++ [c] := by
  induction lines with
  | nil => exact absurd rfl hne
  | cons l lines ih =>
      cases lines with
      | nil => simp [ended]
      | cons l' lines =>
          rw [List.intercalate_cons_cons, List.append_assoc, List.append_assoc,
            ← ih (List.cons_ne_nil l' lines)]
          simp [ended]

theorem run_ended_cons (m : Mode) (c : Char) (l : Str) (lines : List Str) :
    run m (ended c (l :: lines)) =
      ((run m (l ++ [c])).1 ++ (run (run m (l ++ [c])).2 (ended c lines)).1,
        (run (run m (l ++ [c])).2 (ended c lines)).2) :=
  run_append m (l ++ [c]) (ended c lines)

/-- A reader in a comment stays there without a line break. -/
theorem run_comment_ended {lines : List Str} (h : ∀ l ∈ lines, ∃ code note, Cut l code note) :
    run .comment (ended ' ' (lines.map scrub)) = ([], .comment) := by
  refine run_comment fun hmem => ?_
  rw [ended, List.flatMap_map, List.mem_flatMap] at hmem
  obtain ⟨l, hl, hmem⟩ := hmem
  obtain ⟨code, note, hcut⟩ := h l hl
  rw [hcut.scrub_eq, List.mem_append, List.mem_singleton] at hmem
  refine hcut.no_break ?_
  rw [hcut.eq]
  exact List.mem_append_left _ (hmem.resolve_right (by decide))

/-- The tokens of the lines stay when they are joined, and then at most a comment is open. -/
theorem KeptLines.run_ended {m : Mode} {lines : List Str} (h : KeptLines m lines)
    (hcut : ∀ l ∈ lines, ∃ code note, Cut l code note)
    (hend : (run m (ended '\n' lines)).2 = .code []) :
    (run m (ended ' ' (lines.map scrub))).1 = (run m (ended '\n' lines)).1 ∧
      ((run m (ended ' ' (lines.map scrub))).2 = .code [] ∨
        (run m (ended ' ' (lines.map scrub))).2 = .comment) := by
  induction lines generalizing m with
  | nil => exact ⟨rfl, .inl hend⟩
  | cons l lines ih =>
      rw [List.forall_mem_cons] at hcut
      obtain ⟨code, note, hl, ⟨hharmless, hlines⟩ | ⟨hmode, htokens⟩⟩ := h
      · have hline := (hl.harmless_iff m).mp hharmless
        rw [run_ended_cons] at hend
        obtain ⟨hsame, hlast⟩ := ih hlines hcut.2 hend
        rw [List.map_cons, run_ended_cons, run_ended_cons, ← hline, hsame]
        exact ⟨rfl, hlast⟩
      · -- the comment goes on over the lines after it
        have hrest : run (run m (scrub l ++ [' '])).2 (ended ' ' (lines.map scrub)) =
            ([], .comment) := by
          rw [hl.scrub_eq, run_append, hmode]
          exact run_comment_ended hcut.2
        have hline : run m (l ++ ['\n']) = ((run m code).1, .code []) := by
          rw [hl.eq, List.append_assoc, run_append, hmode, run_comment_break hl.note_break,
            List.append_nil]
        have hscrub : (run m (scrub l ++ [' '])).1 = (run m code).1 := by
          rw [hl.scrub_eq, run_append, hmode]
          exact List.append_nil _
        rw [List.map_cons, run_ended_cons, run_ended_cons, hrest, hline, hscrub, htokens]
        exact ⟨rfl, .inr rfl⟩

/-- The white space at the ends of the lines counts for nothing. -/
theorem run_ended_strip {m : Mode} {lines : List Str} (hm : m.lineStart = true)
    (h : Unbroken m (lines.map strip)) :
    run m (ended '\n' lines) = run m (ended '\n' (lines.map strip)) := by
  induction lines generalizing m with
  | nil => rfl
  | cons l lines ih =>
      obtain ⟨hl, hlines⟩ := h
      rw [List.map_cons, run_ended_cons, run_ended_cons, run_strip hm hl, ih hl hlines]

/-! ## The semicolon -/

section Semicolon
variable {before after : Str} {body : List Token}

theorem tokens_semicolon (h : (run (.code []) before).2.plain = true) :
    tokens (before ++ ';' :: after) = tokens before ++ .symbol ';' :: tokens after ∧
      (run (.code []) (before ++ ';' :: after)).2 = (run (.code []) after).2 := by
  have hstep := step_symbol h (c := ';') (by decide) (by decide) (by decide) (by decide)
    (by decide) (by decide) (by decide)
  rw [tokens, run_append, run, hstep]
  simp only [tokens, List.append_assoc, List.cons_append, List.nil_append, and_true]

theorem statementOf_eq_some {text : Str} (h : statementOf text = some body) :
    (run (.code []) text).2.closed = true ∧ Token.symbol ';' ∉ body ∧
      (tokens text = body ∨ tokens text = body ++ [.symbol ';']) := by
  unfold statementOf at h
  by_cases hlast : (tokens text).getLast? = some (.symbol ';')
  · simp only [if_pos hlast] at h
    split at h
    · rename_i hbody
      obtain rfl := Option.some.inj h
      exact ⟨hbody.1, hbody.2.2, .inr (List.dropLast_append_getLast? _ hlast).symm⟩
    · cases h
  · simp only [if_neg hlast] at h
    split at h
    · rename_i hbody
      obtain rfl := Option.some.inj h
      exact ⟨hbody.1, hbody.2.2, .inl rfl⟩
    · cases h

/-- A text without semicolons is a statement as it is. -/
theorem tokens_of_not_mem {text : Str} (hnot : Token.symbol ';' ∉ tokens text)
    (h : statementOf text = some body) : tokens text = body := by
  obtain ⟨-, -, htokens | htokens⟩ := statementOf_eq_some h
  · exact htokens
  · refine absurd ?_ hnot
    rw [htokens]
    exact List.mem_append_right _ (List.mem_singleton_self _)

/-- A semicolon in the code ends the statement. -/
theorem statement_before (hplain : (run (.code []) before).2.plain = true)
    (h : statementOf (before ++ ';' :: after) = some body) :
    tokens before = body ∧ tokens after = [] := by
  obtain ⟨-, hnot, htokens⟩ := statementOf_eq_some h
  rw [(tokens_semicolon hplain).1] at htokens
  rcases htokens with htokens | htokens
  · refine absurd ?_ hnot
    rw [← htokens]
    exact List.mem_append_right _ List.mem_cons_self
  · rcases concat_eq_append_cons.mp htokens.symm with ⟨hbody, -, hafter⟩ | ⟨front, -, hbody⟩
    · exact ⟨hbody.symm, hafter⟩
    · refine absurd ?_ hnot
      rw [hbody]
      exact List.mem_append_right _ List.mem_cons_self

/-- In a comment the text is read as if the semicolon were not there. -/
theorem run_comment_semicolon {m : Mode} (hplain : m.plain = false) (hfree : Free after m)
    (hend : (run m (';' :: after)).2.closed = true) : run m (';' :: after) = run m after := by
  cases m with
  | code | dash | slash => cases hplain
  | quoted | escaped => exact hfree.elim
  | comment | block => rfl
  | star =>
      have hstep : run .star (';' :: after) = run .block after := rfl
      cases after with
      | nil => cases hend
      | cons c after =>
          have hc : c ≠ '/' := fun h => hfree (congrArg some h)
          rw [hstep, run, run, step_star hc]

/-- Without the semicolon the statement is left. -/
theorem tokens_without_semicolon (hfree : Free after (run (.code []) before).2)
    (hnot : Token.symbol ';' ∉ tokens (before ++ after))
    (h : statementOf (before ++ ';' :: after) = some body) :
    tokens (before ++ after) = body ∧ (run (.code []) (before ++ after)).2.closed = true := by
  have hclosed := (statementOf_eq_some h).1
  cases hplain : (run (.code []) before).2.plain with
  | false =>
      have hend : (run (run (.code []) before).2 (';' :: after)).2.closed = true := by
        rw [run_append] at hclosed
        exact hclosed
      have hrun := run_comment_semicolon hplain hfree hend
      have hsame : run (.code []) (before ++ ';' :: after) = run (.code []) (before ++ after) := by
        rw [run_append, run_append, hrun]
      have htokens : tokens (before ++ ';' :: after) = tokens (before ++ after) := by
        rw [tokens, tokens, hsame]
      rw [← htokens] at hnot ⊢
      rw [← hsame]
      exact ⟨tokens_of_not_mem hnot h, hclosed⟩
  | true =>
      obtain ⟨hbefore, hafter⟩ := statement_before hplain h
      by_cases hnil : after = []
      · rw [hnil, List.append_nil]
        exact ⟨hbefore, closed_of_plain hplain⟩
      · have hdash : (∃ word, (run (.code []) before).2 = .dash word) → after.head? ≠ some '-' := by
          rintro ⟨word, hmode⟩
          rw [hmode] at hfree
          exact hfree
        obtain ⟨htokens, hmode⟩ := run_append_of_nil hplain hafter hnil hdash
        rw [(tokens_semicolon hplain).2, ← hmode] at hclosed
        exact ⟨htokens.trans hbefore, hclosed⟩

end Semicolon

/-! ## The file -/

variable {db : Str} {q : QueryFile} {targetdb : Option Str} {body : List Token}

/-- The text of a query on one line. -/
def oneLine (db : Str) (q : QueryFile) : Str := [' '].intercalate ((queryLines db q).map scrub)

/-- What a file adds to the queries. -/
def rowsOf (db : Str) (q : QueryFile) : List (Str × Str) :=
  if 2 < (q.text.splitOn ';').length then [] else [(queryName q, oneLine db q)]

theorem Separated.oneLine_not_mem (h : Separated db q) :
    '^' ∉ oneLine db q ∧ '\n' ∉ oneLine db q := by
  constructor
  · refine not_mem_intercalate (by decide) ?_
    rw [List.forall_mem_map]
    intro l hl
    obtain ⟨code, note, hcut, hcaret⟩ := h.cut l hl
    rwa [hcut.scrub_eq]
  · refine not_mem_intercalate (by decide) ?_
    rw [List.forall_mem_map]
    intro l hl hmem
    obtain ⟨code, note, hcut, -⟩ := h.cut l hl
    refine hcut.no_break ?_
    rw [hcut.scrub_eq] at hmem
    rw [hcut.eq]
    exact List.mem_append_left _ hmem

theorem variableDB_ne_nil : variableDB ≠ [] := by decide

/-- The lines are replaced one by one. -/
theorem replace_lines (db text : Str) :
    ['\n'].intercalate ((text.splitOn '\n').map (replace variableDB db)) =
      replace variableDB db text := by
  have hbreak : '\n' ∉ variableDB := by decide
  rw [← replace_intercalate variableDB_ne_nil hbreak, List.intercalate_splitOn]

theorem replace_semicolon (text : Str) : replace ";" [] text = text.filter (· ≠ ';') :=
  replace_singleton ';' text

theorem filter_of_not_mem {c : Char} {s : Str} (h : c ∉ s) : s.filter (· ≠ c) = s := by
  rw [List.filter_eq_self]
  intro d hd
  rw [decide_eq_true_iff]
  rintro rfl
  exact h hd

/-- The text of a file, with the database and without the semicolon, has the statement. -/
theorem Convertible.tokens_text (h : Convertible db q)
    (hlight : ¬ 2 < (q.text.splitOn ';').length)
    (hbody : statementOf (replace variableDB db q.text) = some body) :
    tokens (replace variableDB db (replace ";" [] q.text)) = body ∧
      (run (.code []) (replace variableDB db (replace ";" [] q.text))).2.closed = true := by
  have hnot := h.no_semicolon
  by_cases hmem : ';' ∈ q.text
  · obtain ⟨before, after, htext, hbefore⟩ := List.eq_append_cons_of_mem hmem
    have hafter : ';' ∉ after := by
      intro hmem
      have hpos := List.count_pos_iff.mpr hmem
      rw [length_splitOn, htext, List.count_append, List.count_cons_self] at hlight
      omega
    have hremoved : replace ";" [] q.text = before ++ after := by
      rw [replace_semicolon, htext, List.filter_append, List.filter_cons_of_neg (by decide),
        filter_of_not_mem hbefore, filter_of_not_mem hafter]
    obtain ⟨happend, hfree⟩ := h.removable before after htext
    have hsemicolon : ';' ∉ variableDB := by decide
    rw [htext, replace_append_cons variableDB_ne_nil hsemicolon] at hbody
    rw [hremoved, tokens, happend] at hnot ⊢
    exact tokens_without_semicolon hfree hnot hbody
  · have hremoved : replace ";" [] q.text = q.text := by
      rw [replace_semicolon, filter_of_not_mem hmem]
    rw [hremoved] at hnot ⊢
    exact ⟨tokens_of_not_mem hnot hbody, (statementOf_eq_some hbody).1⟩

/-- A text with white space after it that ends at most a comment. -/
theorem tokens_of_run_space {s : Str} (h : (run (.code []) (s ++ [' '])).2 = .code [] ∨
      (run (.code []) (s ++ [' '])).2 = .comment) :
    (run (.code []) s).2.closed = true ∧ tokens s = (run (.code []) (s ++ [' '])).1 := by
  rw [tokens, run_append, run_singleton] at *
  generalize (run (.code []) s).2 = m at *
  cases m with
  | code | dash | slash =>
      rw [step_space rfl (by decide)]
      exact ⟨rfl, rfl⟩
  | comment => exact ⟨rfl, rfl⟩
  | quoted quote text =>
      rw [step] at h
      split at h
      · rename_i hquote
        obtain ⟨quote, hisQuote⟩ := quote
        obtain rfl : ' ' = quote := hquote
        cases hisQuote
      · split at h
        · rcases h with h | h <;> cases h
        · rcases h with h | h <;> cases h
  | escaped quote text => rcases h with h | h <;> cases h
  | block | star =>
      rw [step_inBlock_space rfl (by decide)] at h
      rcases h with h | h <;> cases h

/-- A converted file has the tokens of its statement. -/
theorem Convertible.tokens_eq (h : Convertible db q) (hlight : ¬ 2 < (q.text.splitOn ';').length)
    (hbody : statementOf (replace variableDB db q.text) = some body) :
    (run (.code []) (oneLine db q)).2.closed = true ∧ tokens (oneLine db q) = body := by
  obtain ⟨htokens, hclosed⟩ := h.tokens_text hlight hbody
  have hlines : queryLines db q =
      (((replace ";" [] q.text).splitOn '\n').map (replace variableDB db)).map strip := by
    rw [List.map_map]
    rfl
  have hunbroken := h.unbroken
  rw [hlines] at hunbroken
  have hrun : run (.code []) (ended '\n' (queryLines db q)) = (body, .code []) := by
    rw [hlines, ← run_ended_strip rfl hunbroken, ended_eq '\n' (by simp),
      replace_lines, run_break hclosed, htokens]
  have hcut (l : Str) (hl : l ∈ queryLines db q) : ∃ code note, Cut l code note := by
    obtain ⟨code, note, hcut, -⟩ := h.cut l hl
    exact ⟨code, note, hcut⟩
  obtain ⟨hsame, hend⟩ := h.kept.run_ended hcut (by rw [hrun])
  have hone : ended ' ' ((queryLines db q).map scrub) = oneLine db q ++ [' '] := by
    refine ended_eq ' ' ?_
    simp [hlines]
  rw [hone] at hsame hend
  obtain ⟨hcomplete, hone⟩ := tokens_of_run_space hend
  exact ⟨hcomplete, by rw [hone, hsame, hrun]⟩

/-- The line of a converted file is the one of its statement. -/
theorem Convertible.isLine (h : Convertible db q) (hlight : ¬ 2 < (q.text.splitOn ';').length)
    (hbody : statementOf (replace variableDB db q.text) = some body) :
    IsLine (csvLine (queryName q, oneLine db q)) ("hive-".toList ++ queryName q, body) := by
  have hname : '^' ∉ "hive-".toList ++ queryName q := by
    rw [List.mem_append, not_or]
    exact ⟨by decide, h.name_caret⟩
  refine ⟨oneLine db q, ?_, h.tokens_eq hlight hbody⟩
  rw [csvLine, splitOn_append_cons _ h.oneLine_not_mem.1, List.splitOn_eq_singleton hname]
  rfl

theorem Separated.csvLine_break (h : Separated db q) :
    '\n' ∉ csvLine (queryName q, oneLine db q) := by
  rw [csvLine, List.mem_append, List.mem_append, List.mem_cons]
  rintro ((hmem | hmem) | heq | hmem)
  · exact absurd hmem (by decide)
  · exact h.name_break hmem
  · exact absurd heq (by decide)
  · exact h.oneLine_not_mem.2 hmem

theorem csvLines_intercalate {lines : List Str} (h : ∀ l ∈ lines, l ≠ [] ∧ '\n' ∉ l) :
    csvLines (['\n'].intercalate lines) = lines := by
  cases lines with
  | nil => rfl
  | cons l lines =>
      have hne : ['\n'].intercalate (l :: lines) ≠ [] := by
        have hl := (h l List.mem_cons_self).1
        cases lines with
        | nil => rwa [List.intercalate_singleton]
        | cons l' lines =>
            rw [List.intercalate_cons_cons, List.append_assoc]
            exact List.append_ne_nil_of_left_ne_nil hl _
      rw [csvLines, if_neg hne, List.splitOn_intercalate '\n' (fun l hl => (h l hl).2)
        (List.cons_ne_nil _ _)]

/-- A file that is fine is left out, or it is converted. -/
theorem fine_cases (h : Fine targetdb q) :
    2 < (q.text.splitOn ';').length ∧ statementOf (substituted targetdb q.text) = none ∨
      ¬ 2 < (q.text.splitOn ';').length ∧ ∃ c db body, targetdb = some (c :: db) ∧
        statementOf (replace variableDB (c :: db) q.text) = some body ∧
        Convertible (c :: db) q := by
  unfold Fine at h
  by_cases hheavy : 2 < (q.text.splitOn ';').length
  · rw [if_pos hheavy] at h
    exact .inl ⟨hheavy, h⟩
  · rw [if_neg hheavy] at h
    obtain ⟨hsome, db, rfl, hdb, hconvertible⟩ := h
    obtain ⟨c, db, rfl⟩ := List.exists_cons_of_ne_nil hdb
    obtain ⟨body, hbody⟩ := Option.isSome_iff_exists.mp hsome
    exact .inr ⟨hheavy, c, db, body, rfl, hbody, hconvertible⟩

theorem addQuery_light {c : Char} (hlight : ¬ 2 < (q.text.splitOn ';').length)
    (jdbcQueries : List (Str × Str)) : addQuery (some (c :: db)) jdbcQueries q =
      .ok (jdbcQueries ++ [(queryName q, oneLine (c :: db) q)]) := by
  have hline : oneliner (replace ";" [] q.text) (some (c :: db)) = .ok (oneLine (c :: db) q) := by
    rw [oneliner, oneLine, queryLines, List.map_map, List.map_map]
    rfl
  rw [addQuery, if_neg hlight, hline]
  rfl

theorem addQuery_eq (h : Fine targetdb q) (jdbcQueries : List (Str × Str)) :
    addQuery targetdb jdbcQueries q = .ok (jdbcQueries ++ rowsOf (targetdb.getD []) q) := by
  unfold rowsOf
  rcases fine_cases h with ⟨hheavy, -⟩ | ⟨hlight, c, db, body, rfl, -⟩
  · rw [addQuery, if_pos hheavy, if_pos hheavy, List.append_nil]
  · rw [addQuery_light hlight, if_neg hlight]
    rfl

/-- The lines that a file adds are those of its statement. -/
theorem forall₂_rowsOf (h : Fine targetdb q) :
    List.Forall₂ IsLine ((rowsOf (targetdb.getD []) q).map csvLine)
      ((statementOf (substituted targetdb q.text)).map fun body =>
        ("hive-".toList ++ queryName q, body)).toList := by
  unfold rowsOf
  rcases fine_cases h with ⟨hheavy, hnone⟩ | ⟨hlight, c, db, body, rfl, hbody, hconvertible⟩
  · rw [if_pos hheavy, hnone]
    exact .nil
  · rw [if_neg hlight, substituted, hbody]
    exact .cons (hconvertible.isLine hlight hbody) .nil

theorem rowsOf_break (h : Fine targetdb q) :
    ∀ l ∈ (rowsOf (targetdb.getD []) q).map csvLine, l ≠ [] ∧ '\n' ∉ l := by
  unfold rowsOf
  rcases fine_cases h with ⟨hheavy, -⟩ | ⟨hlight, c, db, body, rfl, -, hconvertible⟩
  · rw [if_pos hheavy]
    exact List.forall_mem_nil _
  · rw [if_neg hlight, List.map_singleton, List.forall_mem_singleton]
    exact ⟨List.cons_ne_nil _ _, hconvertible.csvLine_break⟩

/-- The lines of the files, one after another. -/
theorem forall₂_rows {files : List QueryFile} (h : ∀ q ∈ files, Fine targetdb q) :
    List.Forall₂ IsLine ((files.flatMap (rowsOf (targetdb.getD []))).map csvLine)
      (statements files targetdb) := by
  rw [statements, List.map_flatMap, List.filterMap_eq_flatMap_toList]
  have hsame : List.Forall₂ (fun q q' => q = q' ∧ Fine targetdb q) files files :=
    List.forall₂_same.mpr fun q hq => ⟨rfl, h q hq⟩
  refine List.rel_flatMap hsame ?_
  rintro q _ ⟨rfl, hq⟩
  exact forall₂_rowsOf hq

/-- Files that are fine are preserved. -/
theorem preserved_of_fine {files : List QueryFile} (h : ∀ q ∈ files, Fine targetdb q) :
    Preserved files targetdb := by
  have hrun : queriesCsv files targetdb = .ok (['\n'].intercalate
      ((files.flatMap (rowsOf (targetdb.getD []))).map csvLine)) := by
    rw [queriesCsv, foldlM_eq_ok files (fun q hq s => addQuery_eq (h q hq) s),
      ← List.flatMap_eq_foldl]
    rfl
  refine ⟨_, hrun, ?_⟩
  rw [csvLines_intercalate]
  · exact forall₂_rows h
  · rw [List.map_flatMap]
    intro l hl
    obtain ⟨q, hq, hl⟩ := List.mem_flatMap.mp hl
    exact rowsOf_break (h q hq) l hl

/-- The run raises on a file that would have a line, if there is no database. -/
theorem exists_queriesCsv_ok (files : List QueryFile) (targetdb : Option Str) :
    (∃ csv, queriesCsv files targetdb = .ok csv) ↔
      ∀ q ∈ files, 2 < (q.text.splitOn ';').length ∨ ∃ db, targetdb = some db ∧ db ≠ [] := by
  have hstep (q : QueryFile) (jdbcQueries : List (Str × Str)) :
      (∃ jdbcQueries', addQuery targetdb jdbcQueries q = .ok jdbcQueries') ↔
        2 < (q.text.splitOn ';').length ∨ ∃ db, targetdb = some db ∧ db ≠ [] := by
    unfold addQuery
    by_cases hheavy : 2 < (q.text.splitOn ';').length
    · rw [if_pos hheavy]
      exact ⟨fun _ => .inl hheavy, fun _ => ⟨jdbcQueries, rfl⟩⟩
    · rw [if_neg hheavy]
      rcases targetdb with _ | _ | ⟨c, db⟩
      · simp [oneliner, bind, Except.bind, hheavy]
      · simp [oneliner, bind, Except.bind, hheavy]
      · exact ⟨fun _ => .inr ⟨_, rfl, List.cons_ne_nil c db⟩, fun _ => ⟨_, rfl⟩⟩
  rw [← exists_foldlM_ok files (fun q _ => hstep q) []]
  constructor
  · rintro ⟨csv, hcsv⟩
    obtain ⟨jdbcQueries, hrun, -⟩ := bind_eq_ok hcsv
    exact ⟨jdbcQueries, hrun⟩
  · rintro ⟨jdbcQueries, hrun⟩
    rw [queriesCsv, hrun]
    exact ⟨_, rfl⟩

/-! ## Without a database -/

/-- A file that would have a line ends the run. -/
theorem queriesCsv_eq_ok_iff (htarget : targetdb = none ∨ targetdb = some [])
    {files : List QueryFile} {csv : Str} :
    queriesCsv files targetdb = .ok csv ↔
      (∀ q ∈ files, 2 < (q.text.splitOn ';').length) ∧ csv = [] := by
  have herror (text : Str) : oneliner text targetdb = .error .nameError := by
    rcases htarget with rfl | rfl <;> rfl
  have hheavy (q : QueryFile) (jdbcQueries : List (Str × Str))
      (h : 2 < (q.text.splitOn ';').length) :
      addQuery targetdb jdbcQueries q = .ok jdbcQueries := if_pos h
  have hlight (q : QueryFile) (jdbcQueries jdbcQueries' : List (Str × Str))
      (h : addQuery targetdb jdbcQueries q = .ok jdbcQueries') :
      2 < (q.text.splitOn ';').length := by
    by_contra hlight
    rw [addQuery, if_neg hlight, herror] at h
    cases h
  have hloop {jdbcQueries : List (Str × Str)} :
      files.foldlM (addQuery targetdb) [] = .ok jdbcQueries ↔
        (∀ q ∈ files, 2 < (q.text.splitOn ';').length) ∧
          jdbcQueries = files.foldl (fun jdbcQueries _ => jdbcQueries) [] :=
    foldlM_eq_ok_iff hheavy hlight
  constructor
  · intro h
    obtain ⟨jdbcQueries, hrun, hcsv⟩ := bind_eq_ok h
    obtain ⟨hfiles, hnil⟩ := hloop.mp hrun
    refine ⟨hfiles, ?_⟩
    rw [List.foldl_fixed] at hnil
    rw [hnil] at hcsv
    exact (Except.ok.inj hcsv).symm
  · rintro ⟨hfiles, rfl⟩
    rw [queriesCsv, hloop.mpr ⟨hfiles, rfl⟩, List.foldl_fixed]
    rfl

/-- Then only files that are left out are preserved, as long as they are no statements. -/
theorem fine_of_preserved (htarget : targetdb = none ∨ targetdb = some [])
    {files : List QueryFile} (h : Preserved files targetdb) : ∀ q ∈ files, Fine targetdb q := by
  obtain ⟨csv, hcsv, hlines⟩ := h
  obtain ⟨hheavy, rfl⟩ := (queriesCsv_eq_ok_iff htarget).mp hcsv
  have hnil : csvLines [] = [] := rfl
  rw [hnil, List.forall₂_nil_left_iff, statements, List.filterMap_eq_nil_iff] at hlines
  intro q hq
  rw [Fine, if_pos (hheavy q hq)]
  exact Option.map_eq_none_iff.mp (hlines q hq)

/-! ## A single file -/

/-- A single file with a database is preserved exactly if it holds one statement and its line is
that of the statement. -/
theorem preserved_singleton_iff {c : Char} (hlight : ¬ 2 < (q.text.splitOn ';').length) :
    Preserved [q] (some (c :: db)) ↔
      ∃ body, statementOf (replace variableDB (c :: db) q.text) = some body ∧
        '\n' ∉ csvLine (queryName q, oneLine (c :: db) q) ∧
          IsLine (csvLine (queryName q, oneLine (c :: db) q))
            ("hive-".toList ++ queryName q, body) := by
  have hrun : queriesCsv [q] (some (c :: db)) =
      .ok (csvLine (queryName q, oneLine (c :: db) q)) := by
    rw [queriesCsv, List.foldlM_cons, addQuery_light hlight, ok_bind, List.foldlM_nil]
    exact congrArg Except.ok List.intercalate_singleton
  have hsplit : csvLines (csvLine (queryName q, oneLine (c :: db) q)) =
      (csvLine (queryName q, oneLine (c :: db) q)).splitOn '\n' :=
    if_neg (List.cons_ne_nil _ _)
  have hstatements : statements [q] (some (c :: db)) =
      ((statementOf (replace variableDB (c :: db) q.text)).map fun body =>
        ("hive-".toList ++ queryName q, body)).toList := by
    rw [statements, List.filterMap_eq_flatMap_toList, List.flatMap_singleton]
    rfl
  constructor
  · rintro ⟨csv, hcsv, hlines⟩
    obtain rfl := Except.ok.inj (hrun.symm.trans hcsv)
    rw [hsplit, hstatements] at hlines
    cases hbody : statementOf (replace variableDB (c :: db) q.text) with
    | none =>
        rw [hbody] at hlines
        exact absurd (List.forall₂_nil_right_iff.mp hlines) (List.splitOn_ne_nil _ _)
    | some body =>
        rw [hbody] at hlines
        have hlength := hlines.length_eq
        have hbreak : '\n' ∉ csvLine (queryName q, oneLine (c :: db) q) := by
          rw [length_splitOn] at hlength
          exact List.count_eq_zero.mp (Nat.succ.inj hlength)
        rw [List.splitOn_eq_singleton hbreak] at hlines
        exact ⟨body, rfl, hbreak, (List.forall₂_cons.mp hlines).1⟩
  · rintro ⟨body, hbody, hbreak, hline⟩
    refine ⟨_, hrun, ?_⟩
    rw [hsplit, hstatements, hbody, List.splitOn_eq_singleton hbreak]
    exact .cons hline .nil

/-- What is left of a line is in the text on one line. -/
theorem mem_oneLine {l : Str} {d : Char} (hl : l ∈ queryLines db q) (hd : d ∈ scrub l)
    (hspace : d ≠ ' ') : d ∈ oneLine db q := by
  have hne : (queryLines db q).map scrub ≠ [] := by
    intro hnil
    rw [List.map_eq_nil_iff.mp hnil] at hl
    cases hl
  have hended : d ∈ ended ' ' ((queryLines db q).map scrub) := by
    rw [ended, List.flatMap_map, List.mem_flatMap]
    exact ⟨l, hl, List.mem_append_left _ hd⟩
  rw [ended_eq ' ' hne, List.mem_append, List.mem_singleton] at hended
  exact hended.resolve_right hspace

/-- A line with two fields has no other separators. -/
theorem separated_of_isLine {statement : Str × List Token}
    (hbreak : '\n' ∉ csvLine (queryName q, oneLine db q))
    (h : IsLine (csvLine (queryName q, oneLine db q)) statement) : Separated db q := by
  obtain ⟨query, hfields, -⟩ := h
  have hcount := congrArg List.length hfields
  rw [length_splitOn, csvLine, List.count_append, List.count_append,
    List.count_cons_self] at hcount
  have hcaret : (queryName q).count '^' = 0 ∧ (oneLine db q).count '^' = 0 := by
    simp only [List.length_cons, List.length_nil] at hcount
    omega
  rw [csvLine, List.mem_append, List.mem_append, List.mem_cons, not_or, not_or, not_or] at hbreak
  obtain ⟨⟨-, hname⟩, -, hquery⟩ := hbreak
  refine ⟨List.count_eq_zero.mp hcaret.1, hname, fun l hl => ?_⟩
  obtain ⟨code, note, hcut⟩ := exists_cut fun hmem =>
    hquery (mem_oneLine hl (break_mem_scrub hmem) (by decide))
  refine ⟨code, note, hcut, fun hmem => ?_⟩
  rw [← hcut.scrub_eq] at hmem
  exact List.count_eq_zero.mp hcaret.2 (mem_oneLine hl hmem (by decide))

/-- The line of a single file is its statement's only if there is one, and if the name and the
line have no separators. -/
theorem separated_of_preserved {c : Char} (hlight : ¬ 2 < (q.text.splitOn ';').length)
    (h : Preserved [q] (some (c :: db))) :
    (statementOf (replace variableDB (c :: db) q.text)).isSome ∧ Separated (c :: db) q := by
  obtain ⟨body, hbody, hbreak, hline⟩ := (preserved_singleton_iff hlight).mp h
  exact ⟨Option.isSome_iff_exists.mpr ⟨body, hbody⟩, separated_of_isLine hbreak hline⟩

/-- Files that are fine have their lines. Without a database no other ones have, and then the run
raises unless each file is left out. With a database the line of a single file is its
statement's only if there is one and the separators are its own; and a cut that is not harmless
changes how its line is read. -/
theorem queries_preserved (files : List QueryFile) (targetdb : Option Str) :
    ((∀ q ∈ files, Fine targetdb q) → Preserved files targetdb) ∧
      (targetdb = none ∨ targetdb = some [] →
        Preserved files targetdb → ∀ q ∈ files, Fine targetdb q) ∧
      ((∃ csv, queriesCsv files targetdb = .ok csv) ↔
        ∀ q ∈ files, 2 < (q.text.splitOn ';').length ∨ ∃ db, targetdb = some db ∧ db ≠ []) ∧
      (∀ q c db, ¬ 2 < (q.text.splitOn ';').length → Preserved [q] (some (c :: db)) →
        (statementOf (replace variableDB (c :: db) q.text)).isSome ∧ Separated (c :: db) q) ∧
      ∀ m l code note, Cut l code note → (Harmless note (run m code).2 ↔
        run m (l ++ ['\n']) = run m (scrub l ++ [' '])) :=
  ⟨preserved_of_fine, fun htarget h => fine_of_preserved htarget h,
    exists_queriesCsv_ok files targetdb,
    fun _ _ _ hlight h => separated_of_preserved hlight h,
    fun m _ _ _ hcut => hcut.harmless_iff m⟩

/-- A query with comments, and with the database in it. -/
def noted : QueryFile where
  path := "queries/q1.sql"
  text := "select a /* 1 -- 2\n3 */ from $\x7bDB\x7d.t -- $;\x7bDB\x7d\nwhere b = 'x'"

theorem queries_preserved_noted : Preserved [noted] (some "tpch") := by
  refine (queries_preserved [noted] (some "tpch")).1 ?_
  have hlines : queryLines "tpch" noted = ["select a /* 1 -- 2".toList,
      "3 */ from tpch.t -- tpch".toList, "where b = 'x'".toList] := by decide
  have hfirst : Cut "select a /* 1 -- 2".toList "select a /* 1 ".toList "-- 2".toList :=
    ⟨by decide, by decide, by decide, by decide⟩
  have hsecond : Cut "3 */ from tpch.t -- tpch".toList "3 */ from tpch.t ".toList
      "-- tpch".toList := ⟨by decide, by decide, by decide, by decide⟩
  have hthird : Cut "where b = 'x'".toList "where b = 'x'".toList [] :=
    ⟨by decide, by decide, by decide, by decide⟩
  have hconvertible : Convertible "tpch" noted := by
    refine ⟨⟨by decide, by decide, ?_⟩, ?_, ?_, by decide, ?_⟩
    · rw [hlines, List.forall_mem_cons, List.forall_mem_cons, List.forall_mem_singleton]
      exact ⟨⟨_, _, hfirst, by decide⟩, ⟨_, _, hsecond, by decide⟩, ⟨_, _, hthird, by decide⟩⟩
    · rw [hlines]
      exact ⟨by decide, by decide, by decide, trivial⟩
    · rw [hlines]
      exact ⟨_, _, hfirst, .inl ⟨by decide, _, _, hsecond, .inl ⟨by decide, _, _, hthird,
        .inl ⟨by decide, trivial⟩⟩⟩⟩
    · intro before after h
      have htext : "select a /* 1 -- 2\n3 */ from $\x7bDB\x7d.t -- $".toList ++
          ';' :: "\x7bDB\x7d\nwhere b = 'x'".toList = before ++ ';' :: after := h
      obtain ⟨rfl, -, rfl⟩ := (List.append_cons_inj_of_notMem (by decide) (by decide)).mp htext
      exact ⟨by decide, by decide⟩
  rw [List.forall_mem_singleton, Fine, if_neg (by decide)]
  exact ⟨by decide, _, rfl, by decide, hconvertible⟩

/-- Nothing is set without a database, and a comment without a space after its dashes ends up
before the next line. -/
theorem queries_not_preserved : ¬ Preserved [⟨"queries/q1.sql", "select 1;"⟩] none ∧
    ¬ Preserved [⟨"queries/q1.sql", "select a --b\nfrom t;"⟩] (some "tpch") := by
  constructor
  · rintro ⟨csv, hcsv, -⟩
    cases hcsv
  · rintro ⟨csv, hcsv, hlines⟩
    have hrun : queriesCsv [⟨"queries/q1.sql", "select a --b\nfrom t;"⟩] (some "tpch") =
        .ok "hive-q1^select a --b from t" := by decide
    rw [hrun] at hcsv
    obtain rfl := Except.ok.inj hcsv
    have hstatements : statements [⟨"queries/q1.sql", "select a --b\nfrom t;"⟩] (some "tpch") =
        [("hive-q1".toList, tokens "select a from t")] := by decide
    have hcsvLines : csvLines "hive-q1^select a --b from t" =
        ["hive-q1^select a --b from t".toList] := by decide
    rw [hstatements, hcsvLines] at hlines
    obtain ⟨⟨query, hsplit, htokens⟩, -⟩ := List.forall₂_cons.mp hlines
    have hfields : ("hive-q1^select a --b from t" : Str).splitOn '^' =
        ["hive-q1".toList, "select a --b from t".toList] := by decide
    rw [hfields] at hsplit
    obtain rfl : "select a --b from t".toList = query := by simpa using hsplit
    exact absurd htokens (by decide)

end Structor.JmeterTemplate
