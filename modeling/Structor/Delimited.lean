import Structor.Text

/-!
# Texts cut into parts

A text whose parts each end with the same character is cut into the parts again, if no part has
the character. A reader of lines takes several characters for the end of a line.

## Main definitions

* `terminated` -- the parts, each with its end
* `readLines` -- lines that end with a line feed, a carriage return, or both

## Main results

* `splitOn_terminated` -- the parts are read back
* `readLines_terminated` -- the lines are read back
-/
namespace Structor.Delimited

section Parts

variable {α : Type} {a : α} {parts : List (List α)}

/-- The parts, each with `a` behind it. -/
def terminated (a : α) (parts : List (List α)) : List α := parts.flatMap (· ++ [a])

theorem terminated_cons (a : α) (part : List α) (parts : List (List α)) :
    terminated a (part :: parts) = part ++ a :: terminated a parts := by
  rw [terminated, List.flatMap_cons, List.append_assoc, List.singleton_append, terminated]

/-- **The parts are read back**, and an empty one behind the last end. -/
theorem splitOn_terminated [BEq α] [LawfulBEq α] (h : ∀ part ∈ parts, a ∉ part) :
    (terminated a parts).splitOn a = parts ++ [[]] := by
  induction parts with
  | nil => rfl
  | cons part parts ih =>
      rw [terminated_cons,
        List.splitOn_append_cons_self_of_not_mem (h part List.mem_cons_self),
        ih fun part' hpart => h part' (List.mem_cons_of_mem part hpart), List.cons_append]

theorem mem_terminated {b : α} (hb : b ∈ terminated a parts) :
    b = a ∨ ∃ part ∈ parts, b ∈ part := by
  obtain ⟨part, hpart, hb⟩ := List.mem_flatMap.mp hb
  rcases List.mem_append.mp hb with hb | hb
  · exact .inr ⟨part, hpart, hb⟩
  · exact .inl (List.mem_singleton.mp hb)

end Parts

section Lines

/-- A line feed, a carriage return and the two together end a line. -/
def readLines : Str → List Str
  | [] => []
  | '\n' :: s => [] :: readLines s
  | '\r' :: '\n' :: s => [] :: readLines s
  | '\r' :: s => [] :: readLines s
  | c :: s =>
      match readLines s with
      | [] => [[c]]
      | line :: rest => (c :: line) :: rest

/-- No character of the line ends it. -/
def OneLine (line : Str) : Prop := '\n' ∉ line ∧ '\r' ∉ line

theorem readLines_append_cons {line : Str} (h : OneLine line) (rest : Str) :
    readLines (line ++ '\n' :: rest) = line :: readLines rest := by
  obtain ⟨hfeed, hreturn⟩ := h
  induction line with
  | nil => rfl
  | cons c line ih =>
      rw [List.mem_cons, not_or] at hfeed hreturn
      rw [List.cons_append, readLines, ih hfeed.2 hreturn.2]
      · exact fun h => hfeed.1 h.symm
      · exact fun s h => absurd h.symm hreturn.1
      · exact fun h => hreturn.1 h.symm

/-- **The lines are read back.** -/
theorem readLines_terminated {lines : List Str} (h : ∀ line ∈ lines, OneLine line) :
    readLines (terminated '\n' lines) = lines := by
  induction lines with
  | nil => rfl
  | cons line lines ih =>
      rw [terminated_cons, readLines_append_cons (h line List.mem_cons_self),
        ih fun line' hline => h line' (List.mem_cons_of_mem line hline)]

end Lines

end Structor.Delimited
