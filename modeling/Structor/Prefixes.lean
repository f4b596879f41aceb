import Mathlib.Algebra.BigOperators.Group.List.Basic
import Mathlib.Algebra.GroupWithZero.Nat
import Mathlib.Data.List.Infix
import Mathlib.Data.List.Nodup
import Mathlib.Data.Nat.Notation

/-!
# Counting words by their prefixes

What a prefix tree with counters stands for: a list of words, and for each path the
number of them that start with it.
-/
namespace Structor
variable {α : Type} [DecidableEq α]

/-- The number of words that start with `path`. -/
def withPrefix (words : List (List α)) (path : List α) : ℕ := words.countP fun w => path <+: w

/-- The number of words that are `path`. -/
def endingAt (words : List (List α)) (path : List α) : ℕ := words.countP fun w => w = path

@[simp] theorem withPrefix_nil_words (path : List α) : withPrefix [] path = 0 := rfl

@[simp] theorem withPrefix_nil (words : List (List α)) : withPrefix words [] = words.length := by
  simp [withPrefix]

theorem withPrefix_cons (w : List α) (words : List (List α)) (path : List α) :
    withPrefix (w :: words) path = withPrefix words path + if path <+: w then 1 else 0 := by
  simp [withPrefix, List.countP_cons]

theorem withPrefix_concat (words : List (List α)) (w path : List α) :
    withPrefix (words ++ [w]) path = withPrefix words path + if path <+: w then 1 else 0 := by
  simp [withPrefix, List.countP_append, List.countP_singleton]

/-- A word that starts with `path` ends there or takes exactly one next step. -/
theorem prefix_indicator {steps : List α} (hnodup : steps.Nodup) {w path : List α}
    (hcover : ∀ s, path ++ [s] <+: w → s ∈ steps) :
    (if path <+: w then 1 else 0) =
      steps.countP (fun s => path ++ [s] <+: w) + if w = path then 1 else 0 := by
  by_cases hp : path <+: w
  · obtain ⟨rest, rfl⟩ := hp
    cases rest with
    | nil =>
        have hlong : ∀ s, ¬ path ++ [s] <+: path := by
          intro s h
          have hlen := h.length_le
          rw [List.length_append, List.length_singleton] at hlen
          omega
        simp [hlong]
    | cons s rest =>
        have hs : s ∈ steps := hcover s (by simp [List.prefix_append_right_inj])
        have hone : steps.countP (fun t => decide (t = s)) = 1 :=
          List.count_eq_one_of_mem hnodup hs
        simp [List.prefix_append_right_inj, hone]
  · have hnone : steps.countP (fun s => path ++ [s] <+: w) = 0 := by
      rw [List.countP_eq_zero]
      intro s _ hs
      exact hp ((List.prefix_append path [s]).trans (by simpa using hs))
    have hne : w ≠ path := fun h => hp (h ▸ List.prefix_rfl)
    simp [hp, hnone, hne]

omit [DecidableEq α] in
theorem sum_map_add_indicator (steps : List α) (f : α → ℕ) (p : α → Bool) :
    (steps.map fun s => f s + if p s then 1 else 0).sum = (steps.map f).sum + steps.countP p := by
  induction steps with
  | nil => rfl
  | cons s steps ih =>
      simp only [List.map_cons, List.sum_cons, List.countP_cons, ih]
      omega

/-- The words that start with `path` are those of its extensions and `path` itself. -/
theorem withPrefix_eq_sum {steps : List α} (hnodup : steps.Nodup) (words : List (List α))
    (path : List α) (hcover : ∀ s, 0 < withPrefix words (path ++ [s]) → s ∈ steps) :
    withPrefix words path =
      (steps.map fun s => withPrefix words (path ++ [s])).sum + endingAt words path := by
  induction words with
  | nil => simp [endingAt]
  | cons w words ih =>
      have hrest : ∀ s, 0 < withPrefix words (path ++ [s]) → s ∈ steps := by
        intro s hs
        refine hcover s ?_
        rw [withPrefix_cons]
        omega
      have hw : ∀ s, path ++ [s] <+: w → s ∈ steps := by
        intro s hs
        refine hcover s ?_
        rw [withPrefix_cons, if_pos hs]
        omega
      have hsum := sum_map_add_indicator steps (fun s => withPrefix words (path ++ [s]))
        (fun s => path ++ [s] <+: w)
      have hstep := prefix_indicator hnodup hw
      simp only [decide_eq_true_eq] at hsum
      have hend : endingAt (w :: words) path = endingAt words path + if w = path then 1 else 0 := by
        simp [endingAt, List.countP_cons]
      simp only [withPrefix_cons, hsum, hend, ih hrest]
      omega

end Structor
