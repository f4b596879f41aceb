import Mathlib.Data.Int.Notation
import Mathlib.Data.List.Basic
import Mathlib.Data.Nat.Notation
import Mathlib.Order.Lattice.Nat

/-!
# Pages of a descending order

A server that answers with a page gives the elements of greatest key, greatest first,
up to a limit. Elements of one key come in any order.
-/
namespace Structor
variable {α : Type} {key : α → ℤ} {limit : ℕ} {l page : List α} {x : α}

/-- The page is the start of some descending arrangement of the elements. -/
def IsPage (key : α → ℤ) (limit : ℕ) (l page : List α) : Prop :=
  ∃ sorted : List α, sorted.Perm l ∧ sorted.Pairwise (fun a b => key b ≤ key a) ∧
    page = sorted.take limit

theorem exists_isPage (key : α → ℤ) (limit : ℕ) (l : List α) : ∃ page, IsPage key limit l page := by
  have htrans : ∀ a b c : α, decide (key b ≤ key a) = true → decide (key c ≤ key b) = true →
      decide (key c ≤ key a) = true := by
    intro a b c
    simp only [decide_eq_true_eq]
    omega
  have htotal : ∀ a b : α, (decide (key b ≤ key a) || decide (key a ≤ key b)) = true := by
    intro a b
    simp only [Bool.or_eq_true, decide_eq_true_eq]
    omega
  have hsorted := List.pairwise_mergeSort htrans htotal l
  exact ⟨_, _, List.mergeSort_perm l _, hsorted.imp (by simp), rfl⟩

namespace IsPage

theorem length_eq (h : IsPage key limit l page) : page.length = min limit l.length := by
  obtain ⟨sorted, hperm, -, rfl⟩ := h
  rw [List.length_take, hperm.length_eq]

theorem perm (h : IsPage key limit l page) (hl : l.length ≤ limit) : page.Perm l := by
  obtain ⟨sorted, hperm, -, rfl⟩ := h
  rwa [List.take_of_length_le (hperm.length_eq.trans_le hl)]

theorem subset (h : IsPage key limit l page) : page ⊆ l := by
  obtain ⟨sorted, hperm, -, rfl⟩ := h
  intro a ha
  exact hperm.subset (List.mem_of_mem_take ha)

theorem countP_le (h : IsPage key limit l page) (p : α → Bool) : page.countP p ≤ l.countP p := by
  obtain ⟨sorted, hperm, -, rfl⟩ := h
  rw [← hperm.countP_eq p]
  exact (List.take_sublist limit sorted).countP_le

/-- No element of the page is below the last one. -/
theorem last_le (h : IsPage key limit l page) (hx : page.getLast? = some x) :
    ∀ a ∈ page, key x ≤ key a := by
  obtain ⟨sorted, -, hsorted, hpage⟩ := h
  obtain ⟨front, hfront⟩ := List.getLast?_eq_some_iff.mp hx
  have hpairwise : page.Pairwise fun a b => key b ≤ key a := by
    rw [hpage]
    exact hsorted.sublist (List.take_sublist limit sorted)
  intro a ha
  rw [hfront, List.pairwise_append] at hpairwise
  rw [hfront, List.mem_append, List.mem_singleton] at ha
  rcases ha with ha | rfl
  · exact hpairwise.2.2 a ha x (List.mem_singleton_self x)
  · exact Int.le_refl _

/-- All elements above the last one of the page are on the page. -/
theorem countP_above_lt (h : IsPage key limit l page) (hx : page.getLast? = some x) :
    l.countP (fun a => key x < key a) < page.length := by
  obtain ⟨sorted, hperm, hsorted, hpage⟩ := h
  obtain ⟨front, hfront⟩ := List.getLast?_eq_some_iff.mp hx
  have hsplit : sorted = front ++ x :: sorted.drop limit := by
    calc
      sorted = sorted.take limit ++ sorted.drop limit := (List.take_append_drop ..).symm
      _ = (front ++ [x]) ++ sorted.drop limit := by rw [← hpage, hfront]
      _ = front ++ x :: sorted.drop limit := by rw [List.append_assoc, List.singleton_append]
  have hrest : (sorted.drop limit).countP (fun a => key x < key a) = 0 := by
    rw [hsplit, List.pairwise_append, List.pairwise_cons] at hsorted
    rw [List.countP_eq_zero]
    intro a ha
    simpa using hsorted.2.1.1 a ha
  rw [← hperm.countP_eq, hsplit, List.countP_append, List.countP_cons, hrest, hfront,
    List.length_append, List.length_singleton]
  have hle : front.countP (fun a => key x < key a) ≤ front.length := List.countP_le_length
  simp
  omega

/-- A page with nothing above its last element consists of ties. -/
theorem length_le_countP_ties (h : IsPage key limit l page) (hx : page.getLast? = some x)
    (habove : l.countP (fun a => key x < key a) = 0) :
    page.length ≤ l.countP fun a => key a = key x := by
  refine Nat.le_trans (Nat.le_of_eq ?_) (h.countP_le _)
  symm
  rw [List.countP_eq_length]
  intro a ha
  have hle := h.last_le hx a ha
  have hge := List.countP_eq_zero.mp habove a (h.subset ha)
  simp only [decide_eq_true_eq] at hge ⊢
  omega

end IsPage
end Structor
