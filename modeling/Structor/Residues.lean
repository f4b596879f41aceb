import Mathlib.Algebra.Field.ZMod
import Mathlib.Data.Int.Interval
import Mathlib.GroupTheory.OrderOfElement
import Mathlib.Tactic.LinearCombination
import Mathlib.Tactic.Ring

/-!
# Multiplication by a fixed number modulo a prime

A multiplicative generator of pseudo random numbers is the map `x ↦ a * x % p`. Three ways
to compute it are compared here: the plain one, one that splits `x` so that no product
passes `p`, and one for `p = 2 ^ k - 1` that adds the high part of a product to the low one.

## Main results

* `iterate_mulMod` -- a number of steps is one multiplication by a power
* `existsUnique_iterate` -- a primitive root reaches everything but zero, once in a period
-/
namespace Structor.Residues

variable {a p q r x y : ℕ}

/-- One step of the generator. -/
def mulMod (a p x : ℕ) : ℕ := a * x % p

theorem mulMod_lt (hp : 0 < p) : mulMod a p x < p := Nat.mod_lt _ hp

theorem iterate_mulMod (a p n : ℕ) (hx : x < p) : (mulMod a p)^[n] x = a ^ n * x % p := by
  induction n with
  | zero => simp [Nat.mod_eq_of_lt hx]
  | succ n ih =>
      rw [Function.iterate_succ_apply', ih, mulMod, Nat.mul_mod_mod, pow_succ', mul_assoc]

/-- With `p = a * q + r` the product `a * x` is `a * (x % q) - r * (x / q)` modulo `p`, and
both of these are below `p`. -/
theorem mulMod_split {t : ℤ} (hq : 0 < q) (hp : p = a * q + r) (hr : r * (x / q) < p)
    (ht : t = a * (x % q : ℕ) - r * (x / q : ℕ)) :
    (mulMod a p x : ℤ) = if t < 0 then t + p else t := by
  have hhigh : (r * (x / q : ℕ) : ℤ) < p := by exact_mod_cast hr
  have hlow : (a * (x % q : ℕ) : ℤ) < p := by
    rcases Nat.eq_zero_or_pos a with rfl | ha
    · have : 0 < p := (Nat.zero_le _).trans_lt hr
      simpa using this
    · have : a * (x % q) < a * q := Nat.mul_lt_mul_of_pos_left (Nat.mod_lt x hq) ha
      exact_mod_cast (show a * (x % q) < p by omega)
  have hmod : (mulMod a p x : ℤ) = t % p := by
    have hx : (x : ℤ) = q * (x / q : ℕ) + (x % q : ℕ) := by
      exact_mod_cast (Nat.div_add_mod x q).symm
    have hmul : (a * x : ℤ) = t + p * (x / q : ℕ) := by
      rw [ht, hp]
      push_cast at hx ⊢
      linear_combination (a : ℤ) * hx
    rw [mulMod, Int.natCast_mod, Nat.cast_mul, hmul, Int.add_mul_emod_self_left]
  have hlow₀ : (0 : ℤ) ≤ a * (x % q : ℕ) := by exact_mod_cast Nat.zero_le _
  have hhigh₀ : (0 : ℤ) ≤ r * (x / q : ℕ) := by exact_mod_cast Nat.zero_le _
  rw [hmod]
  split_ifs with hneg
  · rw [← Int.add_emod_right, Int.emod_eq_of_lt (by omega) (by omega)]
  · exact Int.emod_eq_of_lt (by omega) (by omega)

/-- **Modulo `2 ^ k - 1` the high part of a product counts like its low part.** -/
theorem mod_mersenne (k x : ℕ) :
    x % (2 ^ k - 1) = (x / 2 ^ k + x % 2 ^ k) % (2 ^ k - 1) := by
  have hone : 1 ≤ 2 ^ k := Nat.one_le_two_pow
  have hx : x = (2 ^ k - 1) * (x / 2 ^ k) + (x / 2 ^ k + x % 2 ^ k) := by
    have hdiv := Nat.div_add_mod x (2 ^ k)
    have hsub : (2 ^ k - 1) * (x / 2 ^ k) + x / 2 ^ k = 2 ^ k * (x / 2 ^ k) := by
      rw [← Nat.succ_mul, Nat.succ_eq_add_one, Nat.sub_add_cancel hone]
    omega
  conv_lhs => rw [hx]
  rw [Nat.mul_add_mod]

section Prime

variable [hprime : Fact p.Prime]

theorem mulMod_pos (ha : ¬ p ∣ a) (hx : 0 < x) (hxp : x < p) : 0 < mulMod a p x := by
  refine Nat.pos_of_ne_zero fun h => ?_
  rcases hprime.out.dvd_mul.mp (Nat.dvd_of_mod_eq_zero h) with h | h
  · exact ha h
  · exact absurd (Nat.le_of_dvd hx h) (by omega)

theorem iterate_mulMod_pos (ha : ¬ p ∣ a) (hx : 0 < x) (hxp : x < p) (n : ℕ) :
    0 < (mulMod a p)^[n] x ∧ (mulMod a p)^[n] x < p := by
  induction n with
  | zero => exact ⟨hx, hxp⟩
  | succ n ih =>
      rw [Function.iterate_succ_apply']
      exact ⟨mulMod_pos ha ih.1 ih.2, mulMod_lt hprime.out.pos⟩

/-- After as many steps as `a` has order the generator is back where it was. -/
theorem iterate_mulMod_orderOf (hx : x < p) :
    (mulMod a p)^[orderOf (a : ZMod p)] x = x := by
  rw [iterate_mulMod a p _ hx]
  have h : ((a ^ orderOf (a : ZMod p) * x : ℕ) : ZMod p) = (x : ℕ) := by
    push_cast
    rw [pow_orderOf_eq_one, one_mul]
  have hmod := (ZMod.natCast_eq_natCast_iff' _ _ _).mp h
  rwa [Nat.mod_eq_of_lt hx] at hmod

theorem ne_zero_of_lt (hx : 0 < x) (hxp : x < p) : (x : ZMod p) ≠ 0 := by
  rw [Ne, ZMod.natCast_eq_zero_iff]
  exact fun h => absurd (Nat.le_of_dvd hx h) (by omega)

/-- **A primitive root reaches each number but zero exactly once in a period.** -/
theorem existsUnique_iterate (ha : orderOf (a : ZMod p) = p - 1) (hx : 0 < x) (hxp : x < p)
    (hy : 0 < y) (hyp : y < p) : ∃! n, n < p - 1 ∧ (mulMod a p)^[n] x = y := by
  have hpa : ¬ p ∣ a := by
    intro h
    have h0 : (a : ZMod p) = 0 := (ZMod.natCast_eq_zero_iff a p).mpr h
    have h2 := hprime.out.two_le
    rw [h0, orderOf_zero] at ha
    omega
  have hinj : ∀ m < p - 1, ∀ n < p - 1,
      (mulMod a p)^[m] x = (mulMod a p)^[n] x → m = n := by
    intro m hm n hn h
    rw [iterate_mulMod a p m hxp, iterate_mulMod a p n hxp] at h
    have hcast := (ZMod.natCast_eq_natCast_iff' _ _ _).mpr h
    push_cast at hcast
    have hpow := mul_right_cancel₀ (ne_zero_of_lt hx hxp) hcast
    rw [← ha] at hm hn
    exact pow_injOn_Iio_orderOf hm hn hpow
  -- as many steps as there are numbers, no two with the same result
  have hsurj := Finset.surjOn_of_injOn_of_card_le (fun n => (mulMod a p)^[n] x)
    (s := Finset.range (p - 1)) (t := Finset.Ioo 0 p)
    (fun n _ => by simpa using iterate_mulMod_pos hpa hx hxp n)
    (fun m hm n hn h => hinj m (by simpa using hm) n (by simpa using hn) h)
    (by simp)
  obtain ⟨n, hn, hxy⟩ := hsurj (by simpa using ⟨hy, hyp⟩ : y ∈ _)
  have hn : n < p - 1 := by simpa using hn
  refine ⟨n, ⟨hn, hxy⟩, fun m hm => hinj m hm.1 n hn (hm.2.trans ?_)⟩
  exact hxy.symm

end Prime

end Structor.Residues
