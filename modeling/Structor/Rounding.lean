import Mathlib.Algebra.Order.Field.Power
import Mathlib.Data.Int.Log
import Mathlib.Data.Rat.Floor
import Mathlib.Tactic.Linarith
import Mathlib.Tactic.NormNum
import Mathlib.Tactic.Positivity

/-!
# Rounding to a number of binary digits

The numbers with `p` binary digits are `m * 2 ^ e` with `|m| ≤ 2 ^ p`. A result of floating
point arithmetic is the nearest of them, the even one of two, as long as its exponent is in
the range of the format; the exponents have no bounds here.

## Main results

* `rounded_mono` -- rounding keeps the order of numbers that are not negative
* `rounded_eq` -- a number that has `p` digits is not changed
-/
namespace Structor.Rounding

variable {p : ℕ} {q r : ℚ}

/-- The integer nearest to `q`, the even one of two. -/
def nearestEven (q : ℚ) : ℤ :=
  if q - ⌊q⌋ < 1 / 2 then ⌊q⌋
  else if 1 / 2 < q - ⌊q⌋ then ⌊q⌋ + 1
  else if ⌊q⌋ % 2 = 0 then ⌊q⌋ else ⌊q⌋ + 1

@[simp] theorem nearestEven_intCast (n : ℤ) : nearestEven n = n := by
  simp [nearestEven]

theorem floor_le_nearestEven (q : ℚ) : ⌊q⌋ ≤ nearestEven q := by
  unfold nearestEven
  split_ifs <;> omega

theorem nearestEven_le_floor_add_one (q : ℚ) : nearestEven q ≤ ⌊q⌋ + 1 := by
  unfold nearestEven
  split_ifs <;> omega

theorem nearestEven_mono (h : q ≤ r) : nearestEven q ≤ nearestEven r := by
  have hfloor : ⌊q⌋ ≤ ⌊r⌋ := Int.floor_le_floor h
  rcases hfloor.lt_or_eq with hlt | heq
  · calc nearestEven q ≤ ⌊q⌋ + 1 := nearestEven_le_floor_add_one q
      _ ≤ ⌊r⌋ := hlt
      _ ≤ nearestEven r := floor_le_nearestEven r
  · -- in one unit interval only the distance to its lower end counts
    have hrest : q - ⌊r⌋ ≤ r - ⌊r⌋ := by linarith
    unfold nearestEven
    rw [heq]
    split_ifs with h₁ h₂ h₃ h₄ h₅ h₆ <;> first | omega | (exfalso; linarith)

theorem nearestEven_nonneg (h : 0 ≤ q) : 0 ≤ nearestEven q := by
  have hzero : nearestEven ((0 : ℤ) : ℚ) = 0 := nearestEven_intCast 0
  rw [← hzero]
  exact nearestEven_mono (by exact_mod_cast h)

/-- The exponent of the last of the `p` digits of `q`. -/
def lastPlace (p : ℕ) (q : ℚ) : ℤ := Int.log 2 |q| + 1 - p

/-- `q`, rounded to `p` binary digits. -/
def rounded (p : ℕ) (q : ℚ) : ℚ := nearestEven (q / 2 ^ lastPlace p q) * 2 ^ lastPlace p q

@[simp] theorem rounded_zero (p : ℕ) : rounded p 0 = 0 := by
  have : nearestEven 0 = 0 := nearestEven_intCast 0
  simp [rounded, this]

theorem lt_two_zpow_lastPlace (p : ℕ) (hq : 0 < q) : q < 2 ^ (lastPlace p q + p) := by
  have h := Int.lt_zpow_succ_log_self (b := 2) one_lt_two q
  rw [lastPlace, abs_of_pos hq, sub_add_cancel]
  exact_mod_cast h

theorem two_zpow_lastPlace_le (p : ℕ) (hq : 0 < q) : 2 ^ (lastPlace p q + p - 1) ≤ q := by
  have h := Int.zpow_log_le_self (b := 2) one_lt_two hq
  rw [lastPlace, abs_of_pos hq, sub_add_cancel, add_sub_cancel_right]
  exact_mod_cast h

theorem lastPlace_mono (p : ℕ) (hq : 0 < q) (h : q ≤ r) : lastPlace p q ≤ lastPlace p r := by
  have hlog := Int.log_mono_right (b := 2) hq h
  rw [lastPlace, lastPlace, abs_of_pos hq, abs_of_pos (hq.trans_le h)]
  omega

/-- A power of two at least as large as `q` is not passed by rounding. -/
theorem rounded_le_two_zpow (p : ℕ) (hq : 0 < q) : rounded p q ≤ 2 ^ (lastPlace p q + p) := by
  have hunit : (0 : ℚ) < 2 ^ lastPlace p q := by positivity
  have hdiv : q / 2 ^ lastPlace p q ≤ ((2 ^ p : ℤ) : ℚ) := by
    rw [div_le_iff₀ hunit]
    have h := (lt_two_zpow_lastPlace p hq).le
    rw [zpow_add₀ two_ne_zero, mul_comm, zpow_natCast] at h
    exact_mod_cast h
  have hround := nearestEven_mono hdiv
  rw [nearestEven_intCast] at hround
  calc rounded p q ≤ ((2 ^ p : ℤ) : ℚ) * 2 ^ lastPlace p q := by
        unfold rounded
        gcongr
    _ = 2 ^ (lastPlace p q + p) := by
        rw [zpow_add₀ two_ne_zero, mul_comm, zpow_natCast]
        norm_cast

/-- A power of two at most as large as `q` is not passed by rounding. -/
theorem two_zpow_le_rounded (hp : 0 < p) (hq : 0 < q) :
    2 ^ (lastPlace p q + p - 1) ≤ rounded p q := by
  obtain ⟨k, rfl⟩ : ∃ k, p = k + 1 := ⟨p - 1, by omega⟩
  have hunit : (0 : ℚ) < 2 ^ lastPlace (k + 1) q := by positivity
  have hexp : lastPlace (k + 1) q + (k + 1 : ℕ) - 1 = lastPlace (k + 1) q + (k : ℤ) := by
    push_cast
    ring
  have hdiv : ((2 ^ k : ℤ) : ℚ) ≤ q / 2 ^ lastPlace (k + 1) q := by
    rw [le_div_iff₀ hunit]
    have h := two_zpow_lastPlace_le (k + 1) hq
    rw [hexp, zpow_add₀ two_ne_zero, mul_comm, zpow_natCast] at h
    exact_mod_cast h
  have hround := nearestEven_mono hdiv
  rw [nearestEven_intCast] at hround
  calc (2 : ℚ) ^ (lastPlace (k + 1) q + (k + 1 : ℕ) - 1)
      = ((2 ^ k : ℤ) : ℚ) * 2 ^ lastPlace (k + 1) q := by
        rw [hexp, zpow_add₀ two_ne_zero, mul_comm, zpow_natCast]
        norm_cast
    _ ≤ rounded (k + 1) q := by
        unfold rounded
        gcongr

theorem rounded_pos (hp : 0 < p) (hq : 0 < q) : 0 < rounded p q :=
  lt_of_lt_of_le (by positivity) (two_zpow_le_rounded hp hq)

/-- **Rounding keeps the order.** Numbers with the same last place are rounded alike;
otherwise a power of two is between them. -/
theorem rounded_mono (hp : 0 < p) (hq : 0 ≤ q) (h : q ≤ r) : rounded p q ≤ rounded p r := by
  rcases hq.eq_or_lt with rfl | hq
  · rcases h.eq_or_lt with rfl | hr
    · rfl
    · rw [rounded_zero]
      exact (rounded_pos hp hr).le
  have hr : 0 < r := hq.trans_le h
  rcases (lastPlace_mono p hq h).eq_or_lt with heq | hlt
  · have hdiv : q / 2 ^ lastPlace p r ≤ r / 2 ^ lastPlace p r := by gcongr
    rw [rounded, heq, rounded]
    gcongr
    exact nearestEven_mono hdiv
  · calc rounded p q ≤ 2 ^ (lastPlace p q + p) := rounded_le_two_zpow p hq
      _ ≤ 2 ^ (lastPlace p r + p - 1) := zpow_le_zpow_right₀ one_le_two (by omega)
      _ ≤ rounded p r := two_zpow_le_rounded hp hr

theorem rounded_nonneg (hp : 0 < p) (hq : 0 ≤ q) : 0 ≤ rounded p q := by
  simpa using rounded_mono hp le_rfl hq

/-- **A number with `p` digits is not changed.** -/
theorem rounded_eq {m : ℕ} (e : ℤ) (hm : m < 2 ^ p) (hq : q = m * 2 ^ e) : rounded p q = q := by
  rcases Nat.eq_zero_or_pos m with rfl | hpos
  · simp [hq]
  have hmq : (0 : ℚ) < m := by exact_mod_cast hpos
  have hqpos : 0 < q := by
    rw [hq]
    positivity
  -- the last place of `q` is at most `e`, so `q` is a whole number of its units
  have hle : lastPlace p q ≤ e := by
    have hlow := two_zpow_lastPlace_le p hqpos
    have hhigh : q < 2 ^ (e + p) := by
      rw [hq, zpow_add₀ two_ne_zero, mul_comm, zpow_natCast]
      gcongr
      exact_mod_cast hm
    have hexp := (zpow_lt_zpow_iff_right₀ (one_lt_two (α := ℚ))).mp (hlow.trans_lt hhigh)
    omega
  obtain ⟨k, hk⟩ := Int.eq_ofNat_of_zero_le (sub_nonneg.mpr hle)
  have he : e = lastPlace p q + k := by omega
  have hdiv : q / 2 ^ lastPlace p q = ((m * 2 ^ k : ℤ) : ℚ) := by
    rw [div_eq_iff (by positivity)]
    calc q = m * 2 ^ (lastPlace p q + (k : ℤ)) := by rw [← he, ← hq]
      _ = ((m * 2 ^ k : ℤ) : ℚ) * 2 ^ lastPlace p q := by
          rw [zpow_add₀ two_ne_zero, zpow_natCast]
          push_cast
          ring
  rw [rounded, hdiv, nearestEven_intCast, ← hdiv, div_mul_cancel₀ q (by positivity)]

theorem rounded_natCast {n : ℕ} (hn : n < 2 ^ p) : rounded p n = n :=
  rounded_eq (m := n) 0 hn (by simp)

/-- Rounding does not pass a number with `p` digits. -/
theorem rounded_le {m : ℕ} (e : ℤ) (hp : 0 < p) (hm : m < 2 ^ p) (hq : 0 ≤ q)
    (h : q ≤ m * 2 ^ e) : rounded p q ≤ m * 2 ^ e := by
  calc rounded p q ≤ rounded p (m * 2 ^ e) := rounded_mono hp hq h
    _ = m * 2 ^ e := rounded_eq e hm rfl

/-! ## Rounding of given numbers -/

theorem nearestEven_eq {n : ℤ} (h : |q - n| < 1 / 2) : nearestEven q = n := by
  obtain ⟨hlow, hhigh⟩ := abs_lt.mp h
  rcases lt_or_ge q n with hlt | hge
  · have hfloor : ⌊q⌋ = n - 1 := by
      rw [Int.floor_eq_iff]
      push_cast
      constructor <;> linarith
    rw [nearestEven, hfloor, if_neg, if_pos] <;> push_cast
    · omega
    · linarith
    · linarith
  · have hfloor : ⌊q⌋ = n := by
      rw [Int.floor_eq_iff]
      constructor <;> linarith
    rw [nearestEven, hfloor, if_pos (by linarith)]

theorem lastPlace_eq {e : ℤ} (hlow : 2 ^ (e + p - 1) ≤ q) (hhigh : q < 2 ^ (e + p)) :
    lastPlace p q = e := by
  have hpos : 0 < q := lt_of_lt_of_le (by positivity) hlow
  have h₁ := two_zpow_lastPlace_le p hpos
  have h₂ := lt_two_zpow_lastPlace p hpos
  have hle := (zpow_lt_zpow_iff_right₀ (one_lt_two (α := ℚ))).mp (hlow.trans_lt h₂)
  have hge := (zpow_lt_zpow_iff_right₀ (one_lt_two (α := ℚ))).mp (h₁.trans_lt hhigh)
  omega

/-- The value of a rounding, from the place of its last digit and the integer there. -/
theorem rounded_eq_of_near {e n : ℤ} (hlow : 2 ^ (e + p - 1) ≤ q) (hhigh : q < 2 ^ (e + p))
    (hn : |q / 2 ^ e - n| < 1 / 2) : rounded p q = n * 2 ^ e := by
  rw [rounded, lastPlace_eq hlow hhigh, nearestEven_eq hn]

end Structor.Rounding
