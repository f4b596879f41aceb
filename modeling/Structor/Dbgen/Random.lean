import Mathlib.Data.Nat.Bitwise
import Mathlib.NumberTheory.LucasPrimality
import Mathlib.Tactic.NormNum.Prime
import Mathlib.Tactic.ReduceModChar
import Structor.Residues
import Structor.Rounding

/-!
# The random numbers of the star schema data generator

`rnd.c` takes a stream one number further, `speed_seed.c` takes it over many numbers at
once: it multiplies by a power of the multiplier, with products in floating point. The
values of a stream are the numbers below the modulus except zero.

## Main results

* `iterate_nextRand` -- a number of steps is one multiplication modulo the modulus
* `nthElement_iterate` -- the jump of `speed_seed.c` is that many steps of `rnd.c`, also
  backwards
* `existsUnique_iterate_nextRand` -- the values of a stream have the full period
-/
namespace Structor.Dbgen

open Structor.Residues Structor.Rounding

/-- The multiplier, the modulus `2 ^ 31 - 1`, and the modulus divided by the multiplier. -/
def nA : ℕ := 16807
def nM : ℕ := 2147483647
def nQ : ℕ := 127773
def nR : ℕ := 2836

/-- The next random number: `nA * nSeed` modulo `nM` without an overflow. -/
def nextRand (nSeed : ℕ) : ℕ :=
  let nU := nSeed / nQ
  let nV := nSeed - nQ * nU
  let next : ℤ := nA * nV - nU * nR
  (if next < 0 then next + nM else next).toNat

/-! ## Jumps -/

/-- The result of an operation on doubles. No value here is out of their range. -/
def dbl (q : ℚ) : ℚ := rounded 53 q

def dTwoPowPlus31 : ℚ := 2147483648
def dTwoPowMinus31 : ℚ := 1 / 2147483648
def dTwoPowPlus15 : ℚ := 32768
def dTwoPowMinus15 : ℚ := 1 / 32768
def nLowMask : ℕ := 0xFFFF
def ulBit31 : ℕ := 1 <<< 31

/-- Multiplies two numbers modulo `2 ^ 31 - 1`. -/
def rndModMult (nA nB : ℕ) : ℕ :=
  let nL := nB &&& nLowMask
  let nH := (nB - nL) >>> 16
  let dAH := dbl (nA * nH)
  let dAL := dbl (nA * nL)
  let dX : ℤ := ⌊dbl (dAH * dTwoPowMinus15)⌋
  let dY := dbl (dAH - dbl (dX * dTwoPowPlus15))
  let dZ : ℤ := ⌊dbl (dAL * dTwoPowMinus31)⌋
  let dW := dbl (dAL - dbl (dZ * dTwoPowPlus31))
  let ulQ := ⌊dW⌋₊ + ⌊dY⌋₊ <<< 16
  let ulP := dX.toNat + dZ.toNat
  let ulResult := if ulQ &&& ulBit31 ≠ 0 then ulP + 1 + (ulQ - ulBit31) else ulP + ulQ
  if ulResult &&& ulBit31 ≠ 0 then ulResult - ulBit31 + 1 else ulResult

/-- `while (Mask > Order) Mask >>= 1`. -/
def topMask (order mask : ℕ) : ℕ :=
  if order < mask then topMask order (mask >>> 1) else mask
termination_by mask
decreasing_by
  rw [Nat.shiftRight_one]
  omega

/-- The bits of the order from the mask on: square, and multiply where the bit is set. -/
def powerLoop (order mask result : ℕ) : ℕ :=
  if 0 < mask then
    powerLoop order (mask >>> 1)
      (if mask &&& order ≠ 0 then rndModMult (rndModMult result result) nA
        else rndModMult result result)
  else result
termination_by mask
decreasing_by
  rw [Nat.shiftRight_one]
  omega

/-- The seed at a place of the sequence, counted from the end if the place is negative. Up
to the negative modulus: from there on the loop for the mask does not end. -/
def rndSeed (order : ℤ) : ℕ :=
  let order := (if order < 0 then nM - 1 + order else order).toNat
  powerLoop order (topMask order 0x40000000) 1

/-- `NthElement` shifts a random number by a number of seeds. Its two range checks print a
message and go on. -/
def nthElement (shift : ℤ) (seed : ℕ) : ℕ := rndModMult seed (rndSeed shift)

/-! ## One step -/

instance : NeZero nM := ⟨by decide⟩

theorem prime_dvd_cases {q : ℕ} (hq : q.Prime) (h : q ∣ nM - 1) :
    q = 2 ∨ q = 3 ∨ q = 7 ∨ q = 11 ∨ q = 31 ∨ q = 151 ∨ q = 331 := by
  have hprod : nM - 1 = 2 * 3 * 3 * 7 * 11 * 31 * 151 * 331 := by decide
  rw [hprod] at h
  simp only [hq.dvd_mul, Nat.prime_dvd_prime_iff_eq hq, Nat.prime_two, Nat.prime_three,
    show Nat.Prime 7 by norm_num, show Nat.Prime 11 by norm_num, show Nat.Prime 31 by norm_num,
    show Nat.Prime 151 by norm_num, show Nat.Prime 331 by norm_num] at h
  tauto

theorem multiplier_pow_eq_one : (nA : ZMod nM) ^ (nM - 1) = 1 := by
  have h : (16807 : ZMod 2147483647) ^ 2147483646 = 1 := by reduce_mod_char
  exact h

theorem multiplier_pow_ne_one {q : ℕ} (hq : q.Prime) (h : q ∣ nM - 1) :
    (nA : ZMod nM) ^ ((nM - 1) / q) ≠ 1 := by
  rcases prime_dvd_cases hq h with rfl | rfl | rfl | rfl | rfl | rfl | rfl
  · have h : (16807 : ZMod 2147483647) ^ 1073741823 ≠ 1 := by
      reduce_mod_char
      decide
    exact h
  · have h : (16807 : ZMod 2147483647) ^ 715827882 ≠ 1 := by
      reduce_mod_char
      decide
    exact h
  · have h : (16807 : ZMod 2147483647) ^ 306783378 ≠ 1 := by
      reduce_mod_char
      decide
    exact h
  · have h : (16807 : ZMod 2147483647) ^ 195225786 ≠ 1 := by
      reduce_mod_char
      decide
    exact h
  · have h : (16807 : ZMod 2147483647) ^ 69273666 ≠ 1 := by
      reduce_mod_char
      decide
    exact h
  · have h : (16807 : ZMod 2147483647) ^ 14221746 ≠ 1 := by
      reduce_mod_char
      decide
    exact h
  · have h : (16807 : ZMod 2147483647) ^ 6487866 ≠ 1 := by
      reduce_mod_char
      decide
    exact h

/-- The modulus is prime: the multiplier has the order that only a prime admits. -/
instance prime_nM : Fact nM.Prime :=
  ⟨lucas_primality nM nA multiplier_pow_eq_one fun _ hq h => multiplier_pow_ne_one hq h⟩

/-- The multiplier is a primitive root. -/
theorem orderOf_multiplier : orderOf (nA : ZMod nM) = nM - 1 :=
  orderOf_eq_of_pow_and_pow_div_prime (by decide) multiplier_pow_eq_one
    fun _ hq h => multiplier_pow_ne_one hq h

theorem not_dvd_nA : ¬ nM ∣ nA := by decide

/-- The values of a stream. -/
def InRange (v : ℕ) : Prop := 0 < v ∧ v < nM

instance (v : ℕ) : Decidable (InRange v) := inferInstanceAs (Decidable (_ ∧ _))

theorem nextRand_eq_mulMod {v : ℕ} (hv : v < nM) : nextRand v = mulMod nA nM v := by
  have hU : v / nQ ≤ 16807 := by
    unfold nQ
    unfold nM at hv
    omega
  have hsplit := mulMod_split (a := nA) (p := nM) (q := nQ) (r := nR) (x := v) (by decide)
    (by decide) (by unfold nR nM; omega) rfl
  have hV : v - nQ * (v / nQ) = v % nQ := by
    have := Nat.div_add_mod v nQ
    omega
  have hnext : nextRand v = (mulMod nA nM v : ℤ).toNat := by
    rw [hsplit, nextRand, hV, mul_comm ((v / nQ : ℕ) : ℤ)]
  rw [hnext, Int.toNat_natCast]

theorem InRange.nextRand {v : ℕ} (hv : InRange v) : InRange (nextRand v) := by
  rw [nextRand_eq_mulMod hv.2]
  exact ⟨mulMod_pos not_dvd_nA hv.1 hv.2, mulMod_lt (by decide)⟩

theorem InRange.iterate {v : ℕ} (hv : InRange v) (n : ℕ) : InRange (Dbgen.nextRand^[n] v) := by
  induction n with
  | zero => exact hv
  | succ n ih =>
      rw [Function.iterate_succ_apply']
      exact ih.nextRand

theorem iterate_nextRand_eq_mulMod {v : ℕ} (hv : InRange v) (n : ℕ) :
    nextRand^[n] v = (mulMod nA nM)^[n] v := by
  induction n with
  | zero => rfl
  | succ n ih =>
      rw [Function.iterate_succ_apply', Function.iterate_succ_apply',
        nextRand_eq_mulMod (hv.iterate n).2, ih]

theorem iterate_nextRand {v : ℕ} (hv : InRange v) (n : ℕ) :
    nextRand^[n] v = nA ^ n * v % nM := by
  rw [iterate_nextRand_eq_mulMod hv, iterate_mulMod nA nM n hv.2]

/-- The stream is periodic. -/
theorem iterate_nextRand_period {v : ℕ} (hv : InRange v) : nextRand^[nM - 1] v = v := by
  rw [iterate_nextRand_eq_mulMod hv, ← orderOf_multiplier]
  exact iterate_mulMod_orderOf hv.2

/-! ## The product of two numbers in floating point -/

theorem dbl_natCast {n : ℕ} (hn : n < 2 ^ 53) : dbl n = n := rounded_natCast hn

theorem dbl_natCast_mul {m n : ℕ} (h : m * n < 2 ^ 53) : dbl (m * n) = (m * n : ℕ) := by
  rw [← dbl_natCast h, Nat.cast_mul]

/-- Cutting a whole number at a bit with doubles loses nothing. -/
theorem floor_dbl_div {n : ℕ} (k : ℕ) (hn : n < 2 ^ 53) :
    ⌊dbl (n * (1 / 2 ^ k))⌋ = ((n / 2 ^ k : ℕ) : ℤ) := by
  have hexact : dbl (n * (1 / 2 ^ k)) = n * (1 / 2 ^ k) := by
    refine rounded_eq (m := n) (-k) hn ?_
    rw [zpow_neg, zpow_natCast, one_div]
  rw [hexact, mul_one_div]
  exact_mod_cast Rat.floor_natCast_div_natCast n (2 ^ k)

theorem floor_dbl_sub {n : ℕ} (k : ℕ) (hn : n < 2 ^ 53) :
    ⌊dbl (n - dbl (((n / 2 ^ k : ℕ) : ℤ) * 2 ^ k))⌋₊ = n % 2 ^ k := by
  have hle : n / 2 ^ k * 2 ^ k ≤ n := Nat.div_mul_le_self n (2 ^ k)
  have hmul : dbl (((n / 2 ^ k : ℕ) : ℤ) * 2 ^ k) = ((n / 2 ^ k * 2 ^ k : ℕ) : ℚ) := by
    rw [← dbl_natCast (n := n / 2 ^ k * 2 ^ k) (by omega)]
    push_cast
    rfl
  have hmod : n - n / 2 ^ k * 2 ^ k = n % 2 ^ k := by
    have := Nat.div_add_mod' n (2 ^ k)
    omega
  rw [hmul, ← Nat.cast_sub hle, hmod, dbl_natCast, Nat.floor_natCast]
  exact (Nat.mod_le _ _).trans_lt hn

theorem and_ulBit31_ne_zero {n : ℕ} (hn : n < 2 ^ 32) : n &&& ulBit31 ≠ 0 ↔ 2 ^ 31 ≤ n := by
  have hbit : ulBit31 = 2 ^ 31 := by decide
  rw [hbit, Nat.and_two_pow, Nat.testBit_eq_decide_div_mod_eq]
  simp
  omega

/-- The two partial products, each cut in two, are the product of the factors. -/
theorem partial_products (a b : ℕ) :
    (a * (b / 2 ^ 16) / 2 ^ 15 + a * (b % 2 ^ 16) / 2 ^ 31) * 2 ^ 31
      + (a * (b % 2 ^ 16) % 2 ^ 31 + a * (b / 2 ^ 16) % 2 ^ 15 * 2 ^ 16) = a * b := by
  have hH := Nat.div_add_mod (a * (b / 2 ^ 16)) (2 ^ 15)
  have hL := Nat.div_add_mod (a * (b % 2 ^ 16)) (2 ^ 31)
  have hb : a * b = 2 ^ 16 * (a * (b / 2 ^ 16)) + a * (b % 2 ^ 16) := by
    conv_lhs => rw [← Nat.div_add_mod b (2 ^ 16)]
    ring
  omega

/-- The quotient and the remainder of a product below the square of the modulus, with the
carry of the remainder and of the sum as in `rndModMult`. -/
theorem fold_carry {n ulP ulQ ulResult : ℕ} (hn : ulP * 2 ^ 31 + ulQ = n)
    (hlt : n ≤ (nM - 1) * (nM - 1)) (hQ : ulQ < 2 ^ 32) (hdvd : ¬ nM ∣ n)
    (hresult : ulResult =
      if ulQ &&& ulBit31 ≠ 0 then ulP + 1 + (ulQ - ulBit31) else ulP + ulQ) :
    (if ulResult &&& ulBit31 ≠ 0 then ulResult - ulBit31 + 1 else ulResult) = n % nM := by
  have hbit : ulBit31 = 2 ^ 31 := by decide
  have hsq : (nM - 1) * (nM - 1) = 4611686009837453316 := by decide
  have hsum : ulResult = n / 2 ^ 31 + n % 2 ^ 31 := by
    rw [hresult]
    simp only [and_ulBit31_ne_zero hQ]
    split_ifs <;> omega
  have hfold : n % nM = ulResult % nM := by
    rw [hsum]
    exact mod_mersenne 31 n
  have hle : ulResult < 2 ^ 32 - 2 := by omega
  simp only [and_ulBit31_ne_zero (show ulResult < 2 ^ 32 by omega)]
  rw [Nat.dvd_iff_mod_eq_zero] at hdvd
  rw [hfold] at hdvd ⊢
  unfold nM at hdvd ⊢
  split_ifs <;> omega

/-- `rndModMult` multiplies: no product of doubles is rounded. -/
theorem rndModMult_eq {a b : ℕ} (ha : InRange a) (hb : InRange b) :
    rndModMult a b = a * b % nM := by
  have hM : nM = 2147483647 := rfl
  obtain ⟨ha₀, ha⟩ := ha
  obtain ⟨hb₀, hb⟩ := hb
  have hL : b &&& nLowMask = b % 2 ^ 16 := Nat.and_two_pow_sub_one_eq_mod b 16
  have hH : (b - b % 2 ^ 16) >>> 16 = b / 2 ^ 16 := by
    rw [Nat.shiftRight_eq_div_pow]
    omega
  have haH : a * (b / 2 ^ 16) < 2 ^ 53 := by
    have : b / 2 ^ 16 < 2 ^ 15 := by omega
    calc a * (b / 2 ^ 16) ≤ nM * 2 ^ 15 := by gcongr
      _ < 2 ^ 53 := by decide
  have haL : a * (b % 2 ^ 16) < 2 ^ 53 := by
    have : b % 2 ^ 16 < 2 ^ 16 := Nat.mod_lt _ (by norm_num)
    calc a * (b % 2 ^ 16) ≤ nM * 2 ^ 16 := by gcongr
      _ < 2 ^ 53 := by decide
  have h15 : dTwoPowPlus15 = 2 ^ 15 ∧ dTwoPowMinus15 = 1 / 2 ^ 15 := by
    unfold dTwoPowPlus15 dTwoPowMinus15
    norm_num
  have h31 : dTwoPowPlus31 = 2 ^ 31 ∧ dTwoPowMinus31 = 1 / 2 ^ 31 := by
    unfold dTwoPowPlus31 dTwoPowMinus31
    norm_num
  have hdvd : ¬ nM ∣ a * b := by
    rw [prime_nM.out.dvd_mul]
    rintro (h | h)
    · exact absurd (Nat.le_of_dvd ha₀ h) (by omega)
    · exact absurd (Nat.le_of_dvd hb₀ h) (by omega)
  simp only [rndModMult, hL, hH, h15, h31, dbl_natCast_mul haH, dbl_natCast_mul haL,
    floor_dbl_div _ haH, floor_dbl_div _ haL, floor_dbl_sub _ haH, floor_dbl_sub _ haL,
    Int.toNat_natCast, Nat.shiftLeft_eq]
  refine fold_carry (partial_products a b) ?_ ?_ hdvd rfl
  · exact Nat.mul_le_mul (by omega) (by omega)
  · have hW := Nat.mod_lt (a * (b % 2 ^ 16)) (show 0 < 2 ^ 31 by norm_num)
    have hY := Nat.mod_lt (a * (b / 2 ^ 16)) (show 0 < 2 ^ 15 by norm_num)
    omega

/-! ## Powers by their bits -/

theorem inRange_one : InRange 1 := ⟨by decide, by decide⟩

/-- The product of two places of the sequence is at the sum of the places. -/
theorem rndModMult_iterate {v : ℕ} (hv : InRange v) (m n : ℕ) :
    rndModMult (nextRand^[m] v) (nextRand^[n] 1) = nextRand^[m + n] v := by
  rw [rndModMult_eq (hv.iterate m) (inRange_one.iterate n), iterate_nextRand hv,
    iterate_nextRand inRange_one, iterate_nextRand hv, ← Nat.mul_mod, pow_add]
  ring_nf

theorem mask_and_ne_zero (order i : ℕ) : 2 ^ i &&& order ≠ 0 ↔ order.testBit i = true := by
  rw [Nat.and_comm, Nat.and_two_pow]
  cases order.testBit i <;> simp

theorem mod_two_pow_succ (order i : ℕ) :
    order % 2 ^ (i + 1) = order % 2 ^ i + 2 ^ i * (order.testBit i).toNat := by
  rw [Nat.mod_pow_succ, Nat.toNat_testBit]

/-- One bit: the place is doubled, and one is added if the bit is set. -/
theorem powerLoop_two_pow (order i e : ℕ) :
    powerLoop order (2 ^ i) (nextRand^[e] 1) =
      powerLoop order (2 ^ i >>> 1) (nextRand^[e + e + (order.testBit i).toNat] 1) := by
  have hnA : nA = nextRand^[1] 1 := by decide
  rw [powerLoop, if_pos (by positivity), rndModMult_iterate inRange_one]
  simp only [mask_and_ne_zero]
  cases order.testBit i with
  | false => simp
  | true => rw [if_pos rfl, hnA, rndModMult_iterate inRange_one, Bool.toNat_true]

@[simp] theorem powerLoop_zero (order result : ℕ) : powerLoop order 0 result = result := by
  rw [powerLoop, if_neg (lt_irrefl 0)]

/-- The loop appends the bits of the order below the mask to the place. -/
theorem powerLoop_eq (order i e : ℕ) :
    powerLoop order (2 ^ i) (nextRand^[e] 1) =
      nextRand^[e * 2 ^ (i + 1) + order % 2 ^ (i + 1)] 1 := by
  induction i generalizing e with
  | zero =>
      have hbit := mod_two_pow_succ order 0
      rw [powerLoop_two_pow]
      simp only [pow_zero, Nat.mod_one, zero_add, one_mul] at hbit
      rw [zero_add, hbit]
      change powerLoop order 0 _ = _
      rw [powerLoop_zero, pow_one, mul_two]
  | succ i ih =>
      have hhalf : 2 ^ (i + 1) >>> 1 = 2 ^ i := by
        rw [Nat.shiftRight_one, pow_succ, Nat.mul_div_cancel _ two_pos]
      rw [powerLoop_two_pow, hhalf, ih, mod_two_pow_succ order (i + 1), pow_succ 2 (i + 1)]
      ring_nf

/-- Leading zeros of the order can be skipped. -/
theorem powerLoop_topMask (order i : ℕ) :
    powerLoop order (topMask order (2 ^ i)) 1 = nextRand^[order % 2 ^ (i + 1)] 1 := by
  induction i with
  | zero =>
      rw [topMask]
      split_ifs with h
      · obtain rfl : order = 0 := by omega
        rw [topMask]
        simp
      · simpa using powerLoop_eq order 0 0
  | succ i ih =>
      rw [topMask]
      split_ifs with h
      · have hhalf : 2 ^ (i + 1) >>> 1 = 2 ^ i := by
          rw [Nat.shiftRight_one, pow_succ, Nat.mul_div_cancel _ two_pos]
        have hdouble : order < 2 ^ (i + 1 + 1) := h.trans (by gcongr <;> omega)
        rw [hhalf, ih, Nat.mod_eq_of_lt h, Nat.mod_eq_of_lt hdouble]
      · simpa using powerLoop_eq order (i + 1) 0

theorem rndSeed_eq (order : ℤ) :
    rndSeed order =
      nextRand^[(if order < 0 then nM - 1 + order else order).toNat % 2 ^ 31] 1 := by
  have htop : 0x40000000 = 2 ^ 30 := by norm_num
  unfold rndSeed
  rw [htop]
  exact powerLoop_topMask _ 30

theorem rndSeed_of_nonneg {order : ℤ} (h : 0 ≤ order) :
    rndSeed order = nextRand^[order.toNat % 2 ^ 31] 1 := by
  rw [rndSeed_eq, if_neg (not_lt.mpr h)]

theorem InRange.nthElement {v : ℕ} (hv : InRange v) (shift : ℤ) :
    InRange (nthElement shift v) := by
  rw [Dbgen.nthElement, ← Function.iterate_zero_apply Dbgen.nextRand v, rndSeed_eq,
    rndModMult_iterate hv]
  exact hv.iterate _

/-- A jump ahead. Of the number of steps only the last 31 bits count. -/
theorem nthElement_of_nonneg {v : ℕ} (hv : InRange v) {shift : ℤ} (h : 0 ≤ shift) :
    nthElement shift v = nextRand^[shift.toNat % 2 ^ 31] v := by
  rw [nthElement, rndSeed_of_nonneg h]
  have hplace := rndModMult_iterate hv 0 (shift.toNat % 2 ^ 31)
  rwa [Function.iterate_zero_apply, zero_add] at hplace

/-- A jump back by a number of steps is a jump ahead by what is left of the period. -/
theorem nthElement_of_neg {shift : ℤ} (h : shift < 0) (v : ℕ) :
    nthElement shift v = nthElement (nM - 1 + shift) v ∨ nM - 1 + shift < 0 := by
  by_cases hneg : (nM - 1 + shift : ℤ) < 0
  · exact .inr hneg
  · rw [nthElement, nthElement, rndSeed, rndSeed, if_pos h, if_neg hneg]
    exact .inl rfl

/-- **A jump of less than the modulus is as many steps**, and steps already taken are taken
back by a jump with a negative number of steps. -/
theorem nthElement_iterate {v n : ℕ} {shift : ℤ} (hv : InRange v) (hlow : -nM < shift)
    (hhigh : shift < nM) (hback : 0 ≤ n + shift) :
    nthElement shift (nextRand^[n] v) = nextRand^[(n + shift).toNat] v := by
  have hM : nM = 2147483647 := rfl
  by_cases hneg : shift < 0
  · rcases nthElement_of_neg hneg (nextRand^[n] v) with h | h
    · rw [h, nthElement_of_nonneg (hv.iterate n) (by omega), Nat.mod_eq_of_lt (by omega),
        ← Function.iterate_add_apply]
      have hsplit : (nM - 1 + shift : ℤ).toNat + n = (n + shift).toNat + (nM - 1) := by omega
      rw [hsplit, Function.iterate_add_apply, iterate_nextRand_period hv]
    · omega
  · rw [nthElement_of_nonneg (hv.iterate n) (by omega), Nat.mod_eq_of_lt (by omega),
      ← Function.iterate_add_apply]
    congr 1
    omega

/-- **A jump is its number of steps along the period**, also for a number below zero. -/
theorem nthElement_eq {v : ℕ} {shift : ℤ} (hv : InRange v) (hlow : -nM < shift)
    (hhigh : shift < nM) :
    nthElement shift v = nextRand^[(shift % (nM - 1 : ℕ)).toNat] v := by
  have hM : nM = 2147483647 := rfl
  have hperiod : Function.IsPeriodicPt nextRand (nM - 1) v := iterate_nextRand_period hv
  have hjump := nthElement_iterate (n := nM - 1) hv hlow hhigh (by omega)
  have hsteps : ((nM - 1 : ℕ) + shift).toNat % (nM - 1) = (shift % (nM - 1 : ℕ)).toNat := by
    have hcount : nM - 1 = 2147483646 := rfl
    rw [hcount]
    omega
  rwa [iterate_nextRand_period hv, ← hperiod.iterate_mod_apply, hsteps] at hjump

theorem nthElement_eq_back : nthElement (-1) 1 = nextRand^[(-1 % (nM - 1 : ℕ) : ℤ).toNat] 1 :=
  nthElement_eq inRange_one (by decide) (by decide)

/-- **Full period.** From any value each value is reached after exactly one number of steps
below the period. -/
theorem existsUnique_iterate_nextRand {v w : ℕ} (hv : InRange v) (hw : InRange w) :
    ∃! n, n < nM - 1 ∧ nextRand^[n] v = w := by
  simp only [iterate_nextRand_eq_mulMod hv]
  exact existsUnique_iterate orderOf_multiplier hv.1 hv.2 hw.1 hw.2

theorem existsUnique_iterate_nextRand_one : ∃! n, n < nM - 1 ∧ nextRand^[n] 1 = nA :=
  existsUnique_iterate_nextRand inRange_one ⟨by decide, by decide⟩

end Structor.Dbgen
