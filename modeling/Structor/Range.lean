import Mathlib.Algebra.Ring.Int.Defs
import Mathlib.Data.Int.Notation
import Mathlib.Data.List.Nodup
import Mathlib.Data.List.Range
import Mathlib.Data.Nat.Notation

/-!
# Integer ranges

`xrange a b` counts from `a` up to and excluding `b`. Adjacent blocks of one size
make one range.
-/
namespace Structor

def xrange (a b : ℤ) : List ℤ := (List.range (b - a).toNat).map fun k : ℕ => a + (k : ℤ)

@[simp] theorem mem_xrange {a b i : ℤ} : i ∈ xrange a b ↔ a ≤ i ∧ i < b := by
  simp only [xrange, List.mem_map, List.mem_range]
  constructor
  · rintro ⟨k, hk, rfl⟩
    omega
  · intro h
    exact ⟨(i - a).toNat, by omega, by omega⟩

theorem xrange_of_le {a b : ℤ} (h : b ≤ a) : xrange a b = [] := by
  have hlen : (b - a).toNat = 0 := by omega
  rw [xrange, hlen]
  rfl

theorem nodup_xrange (a b : ℤ) : (xrange a b).Nodup := by
  refine List.nodup_range.map ?_
  intro j k h
  simpa using h

theorem xrange_append {a b c : ℤ} (hab : a ≤ b) (hbc : b ≤ c) :
    xrange a b ++ xrange b c = xrange a c := by
  have hlen : (c - a).toNat = (b - a).toNat + (c - b).toNat := by omega
  have hb : ∀ k : ℕ, b + (k : ℤ) = a + (((b - a).toNat + k : ℕ) : ℤ) := by
    intro k
    omega
  simp [xrange, hlen, List.range_add, hb, Function.comp_def]

theorem xrange_of_lt {a b : ℤ} (h : a < b) : xrange a b = a :: xrange (a + 1) b := by
  rw [← xrange_append (show a ≤ a + 1 by omega) (show a + 1 ≤ b by omega)]
  simp [xrange]

/-- The blocks `0, ..., n - 1` of size `k`, one after another. -/
theorem flatMap_xrange_blocks {k : ℤ} (hk : 0 ≤ k) (n : ℕ) :
    ((List.range n).flatMap fun c : ℕ => xrange (c * k) (((c : ℤ) + 1) * k)) =
      xrange 0 (n * k) := by
  induction n with
  | zero => simp [xrange]
  | succ n ih =>
      rw [List.range_succ, List.flatMap_append, ih, List.flatMap_singleton]
      have hn : 0 ≤ (n : ℤ) * k := Int.mul_nonneg (Int.natCast_nonneg n) hk
      rw [Nat.cast_succ, xrange_append hn]
      rw [Int.add_mul]
      omega

end Structor
