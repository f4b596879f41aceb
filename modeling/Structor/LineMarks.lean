import Mathlib.Data.List.Infix
import Structor.Text

/-!
# Splitting a text at marks that run to the end of their line

A regular expression that matches a mark and then the rest of the line cuts a text in
pieces. The mark is looked for from left to right; it does not reach over a line break,
so whole lines can be split one by one.

## Main definitions

* `LineMark` -- how a mark starts
* `LineMark.split` -- the pieces of a text
* `LineMark.splitMax` -- the same with a bound on the number of splits
* `LineMark.before`, `LineMark.after` -- what is around the first mark
-/
namespace Structor

/-- A test for the start of a mark that looks at no more than its line. -/
structure LineMark where
  starts : Str → Bool
  starts_nil : starts [] = false
  starts_line : ∀ s rest, starts (s ++ '\n' :: rest) = starts s

namespace LineMark
variable (m : LineMark)

/-- Puts a character in front of the first piece. -/
def onto (c : Char) : List Str → List Str
  | [] => [[c]]
  | piece :: pieces => (c :: piece) :: pieces

/-- The pieces of a text. Within a mark characters are dropped up to the line break. -/
def split : Bool → Str → List Str
  | _, [] => [[]]
  | true, c :: cs => if c = '\n' then onto c (split false cs) else split true cs
  | false, c :: cs => if m.starts (c :: cs) then [] :: split true cs else onto c (split false cs)

/-- The pieces after at most `n` splits. -/
def splitMax : ℕ → Bool → Str → List Str
  | _, _, [] => [[]]
  | n, true, c :: cs => if c = '\n' then onto c (splitMax n false cs) else splitMax n true cs
  | 0, false, c :: cs => onto c (splitMax 0 false cs)
  | n + 1, false, c :: cs =>
      if m.starts (c :: cs) then [] :: splitMax n true cs else onto c (splitMax (n + 1) false cs)

/-- A mark starts somewhere in the text. -/
def Marked (s : Str) : Prop := ∃ rest, rest <:+ s ∧ m.starts rest = true

instance (s : Str) : Decidable (m.Marked s) :=
  decidable_of_iff (∃ rest ∈ s.tails, m.starts rest = true) (by simp [Marked])

/-- The text before the first mark. -/
def before : Str → Str
  | [] => []
  | c :: cs => if m.starts (c :: cs) then [] else c :: before cs

/-- The text from the end of the first mark's line on. -/
def after : Str → Str
  | [] => []
  | c :: cs => if m.starts (c :: cs) then cs.dropWhile (· ≠ '\n') else after cs

/-- Joins the last of some pieces to the first of others. -/
def glue : List Str → List Str → List Str
  | [], later => later
  | [piece], later => (piece ++ later.headD []) :: later.tail
  | piece :: next :: pieces, later => piece :: glue (next :: pieces) later

variable {m} {c : Char} {pieces later : List Str}

theorem starts_break (rest : Str) : m.starts ('\n' :: rest) = false :=
  (m.starts_line [] rest).trans m.starts_nil

theorem onto_ne_nil (c : Char) (pieces : List Str) : onto c pieces ≠ [] := by
  cases pieces <;> simp [onto]

theorem split_ne_nil (inside : Bool) (s : Str) : m.split inside s ≠ [] := by
  induction s generalizing inside with
  | nil => simp [split]
  | cons c cs ih =>
      cases inside with
      | true =>
          by_cases hc : c = '\n'
          · simpa [split, hc] using onto_ne_nil '\n' _
          · simpa [split, hc] using ih true
      | false =>
          by_cases hm : m.starts (c :: cs) = true
          · simp [split, hm]
          · simpa [split, hm] using onto_ne_nil c _

/-! ## Joining pieces -/

theorem glue_onto (h : pieces ≠ []) : glue (onto c pieces) later = onto c (glue pieces later) := by
  match pieces, h with
  | [piece], _ => rfl
  | piece :: next :: pieces, _ => rfl

theorem glue_cons (h : pieces ≠ []) (piece : Str) :
    glue (piece :: pieces) later = piece :: glue pieces later := by
  match pieces, h with
  | next :: pieces, _ => rfl

theorem glue_nil_cons (h : pieces ≠ []) : glue pieces ([] :: later) = pieces ++ later := by
  induction pieces with
  | nil => exact absurd rfl h
  | cons piece pieces ih =>
      cases pieces with
      | nil => simp [glue]
      | cons next pieces =>
          rw [glue, ih (List.cons_ne_nil _ _)]
          rfl

theorem glue_break (h : later ≠ []) : glue [['\n']] later = onto '\n' later := by
  match later, h with
  | piece :: later, _ => rfl

/-- Splitting goes line by line. -/
theorem split_append (inside : Bool) (s rest : Str) :
    m.split inside (s ++ '\n' :: rest) =
      glue (m.split inside (s ++ ['\n'])) (m.split false rest) := by
  induction s generalizing inside with
  | nil =>
      have hglue := glue_break (split_ne_nil (m := m) false rest)
      cases inside with
      | true => simpa [split, onto] using hglue.symm
      | false => simpa [split, onto, starts_break] using hglue.symm
  | cons c cs ih =>
      cases inside with
      | true =>
          by_cases hc : c = '\n'
          · simp only [List.cons_append, split, hc, if_true, ih false]
            rw [glue_onto (split_ne_nil _ _)]
          · simp only [List.cons_append, split, hc, if_false, ih true]
      | false =>
          have hrest := m.starts_line (c :: cs) rest
          have hend := m.starts_line (c :: cs) []
          rw [List.cons_append] at hrest hend
          by_cases hm : m.starts (c :: cs) = true
          · simp only [List.cons_append, split, hrest, hend, hm, if_true, ih true]
            rw [glue_cons (split_ne_nil _ _)]
          · simp only [List.cons_append, split, hrest, hend, hm, Bool.false_eq_true, if_false,
              ih false]
            rw [glue_onto (split_ne_nil _ _)]

theorem split_inside {s : Str} (h : '\n' ∉ s) (rest : Str) :
    m.split true (s ++ '\n' :: rest) = m.split true ('\n' :: rest) := by
  induction s with
  | nil => rfl
  | cons c cs ih =>
      rw [List.mem_cons, not_or] at h
      rw [List.cons_append, split, if_neg (Ne.symm h.1), ih h.2]

/-- A line that is a mark ends one piece and starts the next. -/
theorem split_mark {mark : Str} (hmark : m.starts mark = true) (hline : '\n' ∉ mark) (rest : Str) :
    m.split false (mark ++ '\n' :: rest) = [] :: m.split false ('\n' :: rest) := by
  cases mark with
  | nil => simp [m.starts_nil] at hmark
  | cons c cs =>
      rw [List.mem_cons, not_or] at hline
      have hstarts := (m.starts_line (c :: cs) rest).trans hmark
      rw [List.cons_append] at hstarts
      rw [List.cons_append, split, if_pos hstarts, split_inside hline.2]
      simp [split, starts_break]

/-! ## Single pieces -/

@[simp] theorem getElem?_onto_zero (c : Char) (pieces : List Str) :
    (onto c pieces)[0]? = some (c :: (pieces[0]?).getD []) := by
  cases pieces <;> rfl

@[simp] theorem getElem?_onto_succ (c : Char) (pieces : List Str) (i : ℕ) :
    (onto c pieces)[i + 1]? = pieces[i + 1]? := by
  cases pieces <;> rfl

theorem getElem?_onto_congr (c : Char) {n i : ℕ} (hi : i < n)
    (h : ∀ j < n, pieces[j]? = later[j]?) : (onto c pieces)[i]? = (onto c later)[i]? := by
  cases i with
  | zero => rw [getElem?_onto_zero, getElem?_onto_zero, h 0 hi]
  | succ i => rw [getElem?_onto_succ, getElem?_onto_succ, h (i + 1) hi]

/-- The first pieces do not depend on the bound. -/
theorem getElem?_splitMax {n i : ℕ} (hi : i < n) (inside : Bool) (s : Str) :
    (m.splitMax n inside s)[i]? = (m.split inside s)[i]? := by
  induction s generalizing n i inside with
  | nil => rw [splitMax, split]
  | cons c cs ih =>
      cases inside with
      | true =>
          by_cases hc : c = '\n'
          · simp only [splitMax, split, hc, if_true]
            exact getElem?_onto_congr '\n' hi fun j hj => ih hj false
          · simp only [splitMax, split, hc, if_false]
            exact ih hi true
      | false =>
          cases n with
          | zero => omega
          | succ n =>
              by_cases hm : m.starts (c :: cs) = true
              · simp only [splitMax, split, hm, if_true]
                cases i with
                | zero => rfl
                | succ i => simpa using ih (Nat.lt_of_succ_lt_succ hi) true
              · simp only [splitMax, split, hm, Bool.false_eq_true, if_false]
                exact getElem?_onto_congr c hi fun j hj => ih hj false

theorem marked_cons (c : Char) (cs : Str) :
    m.Marked (c :: cs) ↔ m.starts (c :: cs) = true ∨ m.Marked cs := by
  simp only [Marked, List.suffix_cons_iff, or_and_right, exists_or, exists_eq_left]

/-- The first piece is the text up to the first mark. -/
theorem split_head (s : Str) :
    ¬ m.Marked s ∧ m.split false s = [s] ∨
      m.Marked s ∧ ∃ piece rest pieces, s = piece ++ rest ∧ m.starts rest = true ∧
        m.split false s = piece :: pieces ∧ pieces ≠ [] := by
  induction s with
  | nil =>
      left
      simp [Marked, m.starts_nil, split]
  | cons c cs ih =>
      rw [marked_cons]
      by_cases hm : m.starts (c :: cs) = true
      · refine .inr ⟨.inl hm, [], c :: cs, m.split true cs, rfl, hm, ?_, split_ne_nil _ _⟩
        rw [split, if_pos hm]
      · rcases ih with ⟨hnot, hsplit⟩ | ⟨hmarked, piece, rest, pieces, rfl, hrest, hsplit, hne⟩
        · refine .inl ⟨fun h => h.elim hm hnot, ?_⟩
          rw [split, if_neg hm, hsplit]
          rfl
        · refine .inr ⟨.inr hmarked, c :: piece, rest, pieces, rfl, hrest, ?_, hne⟩
          rw [split, if_neg hm, hsplit]
          rfl

theorem marked_concat_break (s : Str) : m.Marked (s ++ ['\n']) ↔ m.Marked s := by
  induction s with
  | nil =>
      rw [List.nil_append, marked_cons]
      simp [starts_break]
  | cons c cs ih =>
      have hstarts := m.starts_line (c :: cs) []
      rw [List.cons_append] at hstarts
      rw [List.cons_append, marked_cons, marked_cons, ih, hstarts]

theorem marked_line (s : Str) : m.Marked ('\n' :: (s ++ ['\n'])) ↔ m.Marked s := by
  rw [marked_cons, marked_concat_break]
  simp [starts_break]

/-! ## Around the first mark -/

theorem split_inside_eq (s : Str) : m.split true s = m.split false (s.dropWhile (· ≠ '\n')) := by
  induction s with
  | nil => rfl
  | cons c cs ih =>
      by_cases hc : c = '\n'
      · rw [List.dropWhile_cons_of_neg (by simpa using hc), hc]
        simp [split, starts_break]
      · rw [List.dropWhile_cons_of_pos (by simpa using hc), split, if_neg hc, ih]

/-- The pieces are the text before the first mark, and the pieces of what comes after it. -/
theorem split_eq (s : Str) : m.split false s =
    m.before s :: if m.Marked s then m.split false (m.after s) else [] := by
  induction s with
  | nil => simp [split, before, Marked, m.starts_nil]
  | cons c cs ih =>
      by_cases hm : m.starts (c :: cs) = true
      · rw [split, if_pos hm, before, if_pos hm, after, if_pos hm,
          if_pos ((marked_cons c cs).mpr (.inl hm)), split_inside_eq]
      · have hmarked : m.Marked (c :: cs) ↔ m.Marked cs := by
          rw [marked_cons, or_iff_right hm]
        simp only [split, before, after, if_neg hm, hmarked, ih]
        rfl

theorem before_of_not_marked {s : Str} (h : ¬ m.Marked s) : m.before s = s := by
  induction s with
  | nil => rfl
  | cons c cs ih =>
      rw [marked_cons, not_or] at h
      rw [before, if_neg h.1, ih h.2]

/-- A mark starts where the text before it ends. -/
theorem exists_before_append {s : Str} (h : m.Marked s) :
    ∃ rest, s = m.before s ++ rest ∧ m.starts rest = true := by
  induction s with
  | nil => exact absurd h (by simp [Marked, m.starts_nil])
  | cons c cs ih =>
      by_cases hm : m.starts (c :: cs) = true
      · exact ⟨c :: cs, by rw [before, if_pos hm, List.nil_append], hm⟩
      · rw [marked_cons, or_iff_right hm] at h
        obtain ⟨rest, hcs, hrest⟩ := ih h
        exact ⟨rest, by rw [before, if_neg hm, List.cons_append, ← hcs], hrest⟩

theorem before_prefix (s : Str) : m.before s <+: s := by
  by_cases h : m.Marked s
  · obtain ⟨rest, hs, -⟩ := exists_before_append h
    exact ⟨rest, hs.symm⟩
  · rw [before_of_not_marked h]

theorem before_concat_break (s : Str) :
    m.before (s ++ ['\n']) = m.before s ++ if m.Marked s then [] else ['\n'] := by
  induction s with
  | nil => simp [before, starts_break, Marked, m.starts_nil]
  | cons c cs ih =>
      have hstarts := m.starts_line (c :: cs) []
      rw [List.cons_append] at hstarts
      rw [List.cons_append, before, before, hstarts]
      by_cases hm : m.starts (c :: cs) = true
      · simp [hm, marked_cons]
      · simp [hm, marked_cons, ih]

/-- The text before the first mark of a line that is enclosed in line breaks. -/
theorem before_line (s : Str) : m.before ('\n' :: (s ++ ['\n'])) =
    '\n' :: (m.before s ++ if m.Marked s then [] else ['\n']) := by
  rw [before, starts_break, before_concat_break]
  rfl

end LineMark
end Structor
