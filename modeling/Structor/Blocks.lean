import Mathlib.Algebra.BigOperators.Intervals
import Mathlib.Algebra.Order.BigOperators.Group.Finset
import Mathlib.Tactic.Linarith

/-!
# Positions in blocks of different lengths

Positions are counted through blocks that follow each other, such as the days of months or
of years. `locate` finds the block of a position and the place in it.

## Main results

* `sum_locate` -- the position is found again from its block and place
* `locate_sum` -- each place of each block has a position
* `locate_succ` -- the next position is the next place, or the first one of the next block
-/
namespace Structor.Blocks

variable {len len' : ℕ → ℕ}

/-- The block of position `n`, counted from the start of block `b`, and the place in it. -/
def locate (len : ℕ → ℕ) (b n : ℕ) : ℕ × ℕ :=
  if n < len b ∨ len b = 0 then (b, n) else locate len (b + 1) (n - len b)
termination_by n
decreasing_by omega

theorem locate_of_lt {b n : ℕ} (h : n < len b) : locate len b n = (b, n) := by
  rw [locate, if_pos (.inl h)]

section Positive

variable (hlen : ∀ b, 0 < len b)

include hlen

theorem locate_of_le {b n : ℕ} (h : len b ≤ n) :
    locate len b n = locate len (b + 1) (n - len b) := by
  have := hlen b
  rw [locate, if_neg (by omega)]

theorem locate_add (b n : ℕ) : locate len b (len b + n) = locate len (b + 1) n := by
  rw [locate_of_le hlen (Nat.le_add_right _ _), Nat.add_sub_cancel_left]

/-- Whole blocks are passed over. -/
theorem locate_sum_add {b c : ℕ} (h : b ≤ c) (n : ℕ) :
    locate len b (∑ i ∈ Finset.Ico b c, len i + n) = locate len c n := by
  induction c, h using Nat.le_induction generalizing n with
  | base => simp
  | succ c hbc ih =>
      rw [Finset.sum_Ico_succ_top hbc, add_assoc, ih, locate_add hlen]

/-- **Each place of each block has a position.** -/
theorem locate_sum {b c d : ℕ} (h : b ≤ c) (hd : d < len c) :
    locate len b (∑ i ∈ Finset.Ico b c, len i + d) = (c, d) := by
  rw [locate_sum_add hlen h, locate_of_lt hd]

/-- The place is in the block, and the position is found again from them. -/
theorem locate_spec (b n : ℕ) :
    b ≤ (locate len b n).1 ∧ (locate len b n).2 < len (locate len b n).1 ∧
      n = ∑ i ∈ Finset.Ico b (locate len b n).1, len i + (locate len b n).2 := by
  induction n using Nat.strong_induction_on generalizing b with
  | _ n ih =>
      rcases lt_or_ge n (len b) with h | h
      · rw [locate_of_lt h]
        exact ⟨le_rfl, h, by simp⟩
      · have hpos := hlen b
        obtain ⟨hle, hlt, hn⟩ := ih (n - len b) (by omega) (b + 1)
        rw [locate_of_le hlen h]
        refine ⟨by omega, hlt, ?_⟩
        rw [Finset.sum_eq_sum_Ico_succ_bot (by omega)]
        omega

theorem le_locate (b n : ℕ) : b ≤ (locate len b n).1 := (locate_spec hlen b n).1

theorem locate_lt (b n : ℕ) : (locate len b n).2 < len (locate len b n).1 :=
  (locate_spec hlen b n).2.1

/-- **The position is found again.** -/
theorem sum_locate (b n : ℕ) :
    ∑ i ∈ Finset.Ico b (locate len b n).1, len i + (locate len b n).2 = n :=
  (locate_spec hlen b n).2.2.symm

/-- **The next position** is the next place of the block or the start of the next block. -/
theorem locate_succ (b n : ℕ) :
    locate len b (n + 1) =
      if (locate len b n).2 + 1 < len (locate len b n).1
      then ((locate len b n).1, (locate len b n).2 + 1) else ((locate len b n).1 + 1, 0) := by
  obtain ⟨hle, hlt, hn⟩ := locate_spec hlen b n
  generalize hp : locate len b n = p at hle hlt hn ⊢
  split_ifs with h
  · rw [hn, add_assoc, locate_sum hlen hle h]
  · have hlast : p.2 + 1 = len p.1 := by omega
    rw [hn, add_assoc, hlast, ← Finset.sum_Ico_succ_top hle]
    simpa using locate_sum hlen (by omega : b ≤ p.1 + 1) (hlen (p.1 + 1))

/-- A position before the start of block `c` is in a block before `c`. -/
theorem locate_fst_lt {b c n : ℕ} (h : n < ∑ i ∈ Finset.Ico b c, len i) :
    (locate len b n).1 < c := by
  by_contra hcon
  have hsub : ∑ i ∈ Finset.Ico b c, len i ≤ ∑ i ∈ Finset.Ico b (locate len b n).1, len i :=
    Finset.sum_le_sum_of_subset (Finset.Ico_subset_Ico_right (by omega))
  have := sum_locate hlen b n
  omega

/-- Only the lengths of the blocks that are passed count. -/
theorem locate_congr (hlen' : ∀ b, 0 < len' b) {b n : ℕ}
    (h : ∀ i, b ≤ i → i ≤ (locate len b n).1 → len i = len' i) :
    locate len' b n = locate len b n := by
  obtain ⟨hle, hlt, hn⟩ := locate_spec hlen b n
  have hsum : ∑ i ∈ Finset.Ico b (locate len b n).1, len i =
      ∑ i ∈ Finset.Ico b (locate len b n).1, len' i := by
    refine Finset.sum_congr rfl fun i hi => ?_
    rw [Finset.mem_Ico] at hi
    exact h i hi.1 hi.2.le
  rw [hsum] at hn
  conv_lhs => rw [hn]
  rw [h _ hle le_rfl] at hlt
  exact locate_sum hlen' hle hlt

/-- Blocks under other numbers. -/
theorem locate_shift (c b n : ℕ) :
    locate len (b + c) n =
      ((locate (fun i => len (i + c)) b n).1 + c, (locate (fun i => len (i + c)) b n).2) := by
  obtain ⟨hle, hlt, hn⟩ := locate_spec (fun i => hlen (i + c)) b n
  generalize locate (fun i => len (i + c)) b n = p at hle hlt hn ⊢
  have hsum : ∑ i ∈ Finset.Ico b p.1, len (i + c) = ∑ i ∈ Finset.Ico (b + c) (p.1 + c), len i := by
    rw [Finset.sum_Ico_add']
  rw [hn, hsum]
  exact locate_sum hlen (by omega) hlt

end Positive

end Structor.Blocks
