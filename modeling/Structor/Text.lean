import Mathlib.Data.Int.Notation
import Mathlib.Data.Nat.Notation
import Mathlib.Tactic.Common
import Std.Data.String.ToInt

/-!
# Strings as lists of characters

A string is the list of its characters, so that the list library gives its
operations and a literal coerces to it.
-/
namespace Structor

abbrev Str := List Char

instance : Coe String Str := ⟨String.toList⟩

/-! ## Decimal numerals -/

/-- The decimal numeral of an integer. -/
def decimal (z : ℤ) : Str := z.repr.toList

theorem decimal_injective {x y : ℤ} (h : decimal x = decimal y) : x = y :=
  Int.repr_inj.mp (String.toList_inj.mp h)

theorem decimal_ne_nil (z : ℤ) : decimal z ≠ [] := by
  cases z with
  | ofNat n => simp [decimal, Int.repr, Nat.repr, Nat.toDigits_ne_nil]
  | negSucc n => simp [decimal, Int.repr]

/-- A numeral consists of digits and the minus sign. -/
theorem mem_decimal {c : Char} {z : ℤ} (hc : c ∈ decimal z) : c.isDigit = true ∨ c = '-' := by
  cases z with
  | ofNat n =>
      left
      have hc : c ∈ Nat.toDigits 10 n := by simpa [decimal, Int.repr, Nat.repr] using hc
      exact Nat.isDigit_of_mem_toDigits (by decide) (by decide) hc
  | negSucc n =>
      have hc : c = '-' ∨ c ∈ Nat.toDigits 10 (n + 1) := by
        simpa [decimal, Int.repr, Nat.repr] using hc
      rcases hc with rfl | hc
      · exact .inr rfl
      · exact .inl (Nat.isDigit_of_mem_toDigits (by decide) (by decide) hc)

theorem not_mem_decimal {c : Char} {z : ℤ} (hdigit : c.isDigit = false) (hminus : c ≠ '-') :
    c ∉ decimal z := by
  intro hc
  rcases mem_decimal hc with h | h
  · simp [h] at hdigit
  · exact hminus h

theorem lt_of_mem_decimal {z : ℤ} {c : Char} (hc : c ∈ decimal z) : c.toNat < 128 := by
  rcases mem_decimal hc with hdigit | rfl
  · rw [Char.isDigit, Bool.and_eq_true, decide_eq_true_iff, decide_eq_true_iff] at hdigit
    have hle : c.toNat ≤ 57 := hdigit.2
    omega
  · decide

end Structor
