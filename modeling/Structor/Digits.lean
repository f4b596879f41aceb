import Mathlib.Algebra.BigOperators.Intervals
import Mathlib.Data.List.GetD
import Mathlib.Data.Nat.ModEq
import Mathlib.Tactic.Linarith
import Mathlib.Tactic.LinearCombination
import Mathlib.Tactic.Positivity
import Mathlib.Tactic.Ring

/-!
# Arithmetic on the digits of a number

A number is given by its digits to a base, the lowest one first. The loops below add,
multiply and divide as by hand and write the digits of the result one by one, over the
digits of an operand or over zeros.

## Main results

* `value_addLoop`, `modEq_mulLoop`, `value_divLoop` -- the number that the loops leave
* `digit_value` -- the digits of a number are the ones that it is made of
-/
namespace Structor.Digits

variable {b n : ℕ} {f g : ℕ → ℕ}

/-- The number of the first `n` digits. -/
def value (b n : ℕ) (f : ℕ → ℕ) : ℕ := ∑ i ∈ Finset.range n, f i * b ^ i

@[simp] theorem value_zero (b : ℕ) (f : ℕ → ℕ) : value b 0 f = 0 := rfl

theorem value_succ (b n : ℕ) (f : ℕ → ℕ) : value b (n + 1) f = value b n f + f n * b ^ n :=
  Finset.sum_range_succ _ n

theorem value_congr (h : ∀ i < n, f i = g i) : value b n f = value b n g :=
  Finset.sum_congr rfl fun i hi => by rw [h i (Finset.mem_range.mp hi)]

@[simp] theorem value_const_zero (b n : ℕ) : value b n (fun _ => 0) = 0 := by
  simp [value]

theorem value_lt (h : ∀ i < n, f i < b) : value b n f < b ^ n := by
  induction n with
  | zero => simp
  | succ n ih =>
      have hlow := ih fun i hi => h i (by omega)
      have hhigh : (f n + 1) * b ^ n ≤ b * b ^ n := Nat.mul_le_mul_right _ (h n (by omega))
      rw [value_succ, pow_succ']
      linarith

theorem value_add (b m n : ℕ) (f : ℕ → ℕ) :
    value b (m + n) f = value b m f + b ^ m * value b n fun i => f (m + i) := by
  induction n with
  | zero => simp
  | succ n ih =>
      rw [← add_assoc, value_succ, value_succ, ih, pow_add]
      ring

/-- **The digits of the number of some digits** are these digits. -/
theorem digit_value (h : ∀ i < n, f i < b) {i : ℕ} (hi : i < n) :
    value b n f / b ^ i % b = f i := by
  obtain ⟨k, rfl⟩ : ∃ k, n = i + (1 + k) := ⟨n - (i + 1), by omega⟩
  have hpos : 0 < b ^ i := Nat.pow_pos ((Nat.zero_le _).trans_lt (h i hi))
  rw [value_add, Nat.add_mul_div_left _ _ hpos,
    Nat.div_eq_of_lt (value_lt fun j hj => h j (by omega)), zero_add, value_add,
    value_succ, value_zero, pow_one, Nat.add_mul_mod_self_left]
  simpa using Nat.mod_eq_of_lt (h i hi)

/-- The digits may be given from the highest one on. -/
theorem foldl_eq_value (b : ℕ) (ds : List ℕ) (init : ℕ) :
    ds.foldl (fun acc d => b * acc + d) init =
      b ^ ds.length * init + value b ds.length fun i => ds.reverse.getD i 0 := by
  induction ds generalizing init with
  | nil => simp
  | cons d ds ih =>
      have hlow : (value b ds.length fun i => (d :: ds).reverse.getD i 0) =
          value b ds.length fun i => ds.reverse.getD i 0 := by
        refine value_congr fun i hi => ?_
        rw [List.reverse_cons, List.getD_append _ _ _ _ (by simpa using hi)]
      have hhigh : (d :: ds).reverse.getD ds.length 0 = d := by
        rw [List.reverse_cons, List.getD_append_right _ _ _ _ (by simp)]
        simp
      rw [List.foldl_cons, ih, List.length_cons, value_succ, hlow, hhigh, pow_succ]
      ring

/-! ## Addition -/

/-- One digit of the sum, with the carry. -/
def addStep (b : ℕ) (g : ℕ → ℕ) (s : (ℕ → ℕ) × ℕ) (i : ℕ) : (ℕ → ℕ) × ℕ :=
  let res := s.1 i + g i + s.2
  (Function.update s.1 i (res % b), res / b)

theorem addStep_self (b : ℕ) (g : ℕ → ℕ) (s : (ℕ → ℕ) × ℕ) (i : ℕ) :
    (addStep b g s i).1 i = (s.1 i + g i + s.2) % b := Function.update_self i _ s.1

theorem addStep_of_ne (b : ℕ) (g : ℕ → ℕ) (s : (ℕ → ℕ) × ℕ) {i j : ℕ} (h : j ≠ i) :
    (addStep b g s i).1 j = s.1 j := Function.update_of_ne h _ s.1

theorem addStep_snd (b : ℕ) (g : ℕ → ℕ) (s : (ℕ → ℕ) × ℕ) (i : ℕ) :
    (addStep b g s i).2 = (s.1 i + g i + s.2) / b := rfl

def addLoop (b n : ℕ) (g f : ℕ → ℕ) : (ℕ → ℕ) × ℕ := (List.range n).foldl (addStep b g) (f, 0)

theorem addLoop_succ (b n : ℕ) (g f : ℕ → ℕ) :
    addLoop b (n + 1) g f = addStep b g (addLoop b n g f) n := by
  simp [addLoop, List.range_succ]

theorem addLoop_of_le (b : ℕ) (g f : ℕ → ℕ) {j : ℕ} (h : n ≤ j) : (addLoop b n g f).1 j = f j := by
  induction n with
  | zero => rfl
  | succ n ih => rw [addLoop_succ, addStep_of_ne b g _ (by omega), ih (by omega)]

/-- **The sum**, with the last carry. -/
theorem value_addLoop (b n : ℕ) (g f : ℕ → ℕ) :
    value b n (addLoop b n g f).1 + (addLoop b n g f).2 * b ^ n = value b n f + value b n g := by
  induction n with
  | zero => simp [addLoop]
  | succ n ih =>
      have hdigit := addLoop_of_le b g f (le_refl n)
      have hlow : value b n (addStep b g (addLoop b n g f) n).1 = value b n (addLoop b n g f).1 :=
        value_congr fun j hj => addStep_of_ne b g _ (by omega)
      rw [addLoop_succ, value_succ, hlow, addStep_self, addStep_snd, hdigit, value_succ,
        value_succ, pow_succ']
      generalize hres : f n + g n + (addLoop b n g f).2 = res
      have hdiv : res % b + b * (res / b) = res := Nat.mod_add_div res b
      linear_combination ih + hdiv * b ^ n - hres * b ^ n

theorem addLoop_lt (hb : 0 < b) (hf : ∀ i, f i < b) (g : ℕ → ℕ) (i : ℕ) :
    (addLoop b n g f).1 i < b := by
  induction n generalizing i with
  | zero => exact hf i
  | succ n ih =>
      rw [addLoop_succ]
      rcases eq_or_ne i n with rfl | h
      · rw [addStep_self]
        exact Nat.mod_lt _ hb
      · rw [addStep_of_ne b g _ h]
        exact ih i

/-! ## Multiplication -/

/-- One digit `m` times one digit of `t`, added at the place `l` further up. -/
def mulStep (b n : ℕ) (t : ℕ → ℕ) (m l : ℕ) (s : (ℕ → ℕ) × ℕ) (u : ℕ) : (ℕ → ℕ) × ℕ :=
  if u + l < n then
    let res := m * t u + s.2 + s.1 (u + l)
    (Function.update s.1 (u + l) (res % b), res / b)
  else (s.1, (m * t u + s.2) / b)

section Step

variable (b : ℕ) (t : ℕ → ℕ) (m l : ℕ) (s : (ℕ → ℕ) × ℕ) {u : ℕ}

theorem mulStep_self (h : u + l < n) :
    (mulStep b n t m l s u).1 (u + l) = (m * t u + s.2 + s.1 (u + l)) % b := by
  rw [mulStep, if_pos h]
  exact Function.update_self _ _ s.1

theorem mulStep_of_ne {j : ℕ} (h : j ≠ u + l) : (mulStep b n t m l s u).1 j = s.1 j := by
  unfold mulStep
  split_ifs
  · exact Function.update_of_ne h _ s.1
  · rfl

theorem mulStep_snd (h : u + l < n) :
    (mulStep b n t m l s u).2 = (m * t u + s.2 + s.1 (u + l)) / b := by
  rw [mulStep, if_pos h]

/-- Past the last digit nothing is written. -/
theorem mulStep_past (h : n ≤ u + l) : (mulStep b n t m l s u).1 = s.1 := by
  rw [mulStep, if_neg (by omega)]

end Step

/-- The first `k` digits of a row. -/
def mulRow (b n : ℕ) (t : ℕ → ℕ) (m l k : ℕ) (f : ℕ → ℕ) : (ℕ → ℕ) × ℕ :=
  (List.range k).foldl (mulStep b n t m l) (f, 0)

theorem mulRow_succ (b n : ℕ) (t : ℕ → ℕ) (m l k : ℕ) (f : ℕ → ℕ) :
    mulRow b n t m l (k + 1) f = mulStep b n t m l (mulRow b n t m l k f) k := by
  simp [mulRow, List.range_succ]

theorem mulRow_of_le (b : ℕ) (t : ℕ → ℕ) (m l : ℕ) (f : ℕ → ℕ) {k j : ℕ} (h : k + l ≤ j) :
    (mulRow b n t m l k f).1 j = f j := by
  induction k with
  | zero => rfl
  | succ k ih => rw [mulRow_succ, mulStep_of_ne b t m l _ (by omega), ih (by omega)]

/-- While a row is inside the digits it is exact. -/
theorem value_mulRow (b : ℕ) (t : ℕ → ℕ) (m l : ℕ) (f : ℕ → ℕ) {k : ℕ} (h : k + l ≤ n) :
    value b (k + l) (mulRow b n t m l k f).1 + (mulRow b n t m l k f).2 * b ^ (k + l) =
      value b (k + l) f + m * value b k t * b ^ l := by
  induction k with
  | zero => simp [mulRow]
  | succ k ih =>
      have hdigit := mulRow_of_le (n := n) b t m l f (le_refl (k + l))
      have hrow := ih (by omega)
      have hin : k + l < n := by omega
      have hlow : value b (k + l) (mulStep b n t m l (mulRow b n t m l k f) k).1 =
          value b (k + l) (mulRow b n t m l k f).1 :=
        value_congr fun j hj => mulStep_of_ne b t m l _ (by omega)
      have hsucc : k + 1 + l = k + l + 1 := by omega
      rw [hsucc, mulRow_succ, value_succ, hlow, mulStep_self b t m l _ hin,
        mulStep_snd b t m l _ hin, hdigit, value_succ, value_succ]
      generalize hres : m * t k + (mulRow b n t m l k f).2 + f (k + l) = res
      have hdiv : res % b + b * (res / b) = res := Nat.mod_add_div res b
      have hpow : b ^ (k + l) = b ^ k * b ^ l := pow_add b k l
      rw [pow_succ]
      linear_combination hrow + hdiv * b ^ (k + l) - hres * b ^ (k + l) + m * t k * hpow

theorem mulRow_past (b : ℕ) (t : ℕ → ℕ) (m l : ℕ) (f : ℕ → ℕ) {k : ℕ} (h : n ≤ k + l) (j : ℕ) :
    (mulRow b n t m l (k + j) f).1 = (mulRow b n t m l k f).1 := by
  induction j with
  | zero => rfl
  | succ j ih => rw [← add_assoc, mulRow_succ, mulStep_past b t m l _ (by omega), ih]

/-- A row adds the product with the digit `m` at place `l`. -/
theorem modEq_mulRow (b : ℕ) (t : ℕ → ℕ) (m : ℕ) {l : ℕ} (hl : l ≤ n) (f : ℕ → ℕ) :
    value b n (mulRow b n t m l n f).1 ≡ value b n f + m * value b n t * b ^ l [MOD b ^ n] := by
  obtain ⟨k, rfl⟩ : ∃ k, n = k + l := ⟨n - l, by omega⟩
  have hpast := mulRow_past b t m l f (le_refl (k + l)) l
  have hexact := value_mulRow b t m l f (le_refl (k + l))
  have hhigh : value b (k + l) t = value b k t + b ^ k * value b l fun i => t (k + i) :=
    value_add b k l t
  rw [hpast]
  refine (Nat.modEq_iff_dvd.mpr ?_)
  refine ⟨m * (value b l fun i => t (k + i)) + (mulRow b (k + l) t m l k f).2, ?_⟩
  rw [hhigh]
  have hexact' : ((value b (k + l) (mulRow b (k + l) t m l k f).1 : ℕ) : ℤ) =
      value b (k + l) f + m * value b k t * b ^ l
        - (mulRow b (k + l) t m l k f).2 * b ^ (k + l) := by
    have := congrArg (Nat.cast (R := ℤ)) hexact
    push_cast at this
    linarith
  rw [hexact']
  push_cast
  ring

theorem mulRow_lt (hb : 0 < b) (t : ℕ → ℕ) (m l : ℕ) (hf : ∀ i, f i < b) (k i : ℕ) :
    (mulRow b n t m l k f).1 i < b := by
  induction k generalizing i with
  | zero => exact hf i
  | succ k ih =>
      rw [mulRow_succ]
      rcases eq_or_ne i (k + l) with rfl | h
      · rcases lt_or_ge (k + l) n with hin | hpast
        · rw [mulStep_self b t m l _ hin]
          exact Nat.mod_lt _ hb
        · rw [mulStep_past b t m l _ hpast]
          exact ih (k + l)
      · rw [mulStep_of_ne b t m l _ h]
        exact ih i

/-- A row for each of the first `k` digits of `m`, from zeros on. -/
def mulLoop (b n : ℕ) (t m : ℕ → ℕ) (k : ℕ) : ℕ → ℕ :=
  (List.range k).foldl (fun f l => (mulRow b n t (m l) l n f).1) fun _ => 0

theorem mulLoop_succ (b n : ℕ) (t m : ℕ → ℕ) (k : ℕ) :
    mulLoop b n t m (k + 1) = (mulRow b n t (m k) k n (mulLoop b n t m k)).1 := by
  simp [mulLoop, List.range_succ]

/-- **The product**, as far as there are digits for it. -/
theorem modEq_mulLoop (b : ℕ) (t m : ℕ → ℕ) {k : ℕ} (hk : k ≤ n) :
    value b n (mulLoop b n t m k) ≡ value b n t * value b k m [MOD b ^ n] := by
  induction k with
  | zero => simp [mulLoop, Nat.ModEq.refl]
  | succ k ih =>
      rw [mulLoop_succ]
      refine (modEq_mulRow b t (m k) (by omega) _).trans ?_
      have hprod : value b n t * value b (k + 1) m =
          value b n t * value b k m + m k * value b n t * b ^ k := by
        rw [value_succ]
        ring
      rw [hprod]
      exact (ih (by omega)).add_right _

theorem mulLoop_lt (hb : 0 < b) (t m : ℕ → ℕ) (k i : ℕ) : mulLoop b n t m k i < b := by
  induction k generalizing i with
  | zero => exact hb
  | succ k ih =>
      rw [mulLoop_succ]
      exact mulRow_lt hb t (m k) k ih n i

/-! ## Division -/

/-- One digit of the quotient, with the remainder so far. -/
def divStep (b d : ℕ) (t : ℕ → ℕ) (s : (ℕ → ℕ) × ℕ) (i : ℕ) : (ℕ → ℕ) × ℕ :=
  let d1 := t i + b * s.2
  (Function.update s.1 i (d1 / d), d1 % d)

theorem divStep_self (b d : ℕ) (t : ℕ → ℕ) (s : (ℕ → ℕ) × ℕ) (i : ℕ) :
    (divStep b d t s i).1 i = (t i + b * s.2) / d := Function.update_self i _ s.1

theorem divStep_of_ne (b d : ℕ) (t : ℕ → ℕ) (s : (ℕ → ℕ) × ℕ) {i j : ℕ} (h : j ≠ i) :
    (divStep b d t s i).1 j = s.1 j := Function.update_of_ne h _ s.1

theorem divStep_snd (b d : ℕ) (t : ℕ → ℕ) (s : (ℕ → ℕ) × ℕ) (i : ℕ) :
    (divStep b d t s i).2 = (t i + b * s.2) % d := rfl

/-- The digits below `n`, from the highest one on. -/
def divLoop (b d n : ℕ) (t : ℕ → ℕ) (s : (ℕ → ℕ) × ℕ) : (ℕ → ℕ) × ℕ :=
  (List.range n).reverse.foldl (divStep b d t) s

theorem divLoop_succ (b d n : ℕ) (t : ℕ → ℕ) (s : (ℕ → ℕ) × ℕ) :
    divLoop b d (n + 1) t s = divLoop b d n t (divStep b d t s n) := by
  simp [divLoop, List.range_succ]

theorem divLoop_of_le (b d : ℕ) (t : ℕ → ℕ) (s : (ℕ → ℕ) × ℕ) {j : ℕ} (h : n ≤ j) :
    (divLoop b d n t s).1 j = s.1 j := by
  induction n generalizing s with
  | zero => rfl
  | succ n ih => rw [divLoop_succ, ih _ (by omega), divStep_of_ne b d t s (by omega)]

/-- **Quotient and remainder**, of the digits below `n` after the remainder before them. -/
theorem value_divLoop (b d n : ℕ) (t : ℕ → ℕ) (s : (ℕ → ℕ) × ℕ) :
    value b n (divLoop b d n t s).1 * d + (divLoop b d n t s).2 =
      value b n t + s.2 * b ^ n := by
  induction n generalizing s with
  | zero => simp [divLoop]
  | succ n ih =>
      have hrest := ih (divStep b d t s n)
      have hdigit : (divLoop b d n t (divStep b d t s n)).1 n = (t n + b * s.2) / d := by
        rw [divLoop_of_le b d t _ (le_refl n), divStep_self]
      rw [divLoop_succ, value_succ, hdigit, value_succ, pow_succ']
      rw [divStep_snd] at hrest
      have hdiv := Nat.mod_add_div (t n + b * s.2) d
      linear_combination hrest + hdiv * b ^ n

theorem divLoop_snd_lt {d : ℕ} (hd : 0 < d) (b n : ℕ) (t : ℕ → ℕ) {s : (ℕ → ℕ) × ℕ}
    (hs : s.2 < d) : (divLoop b d n t s).2 < d := by
  induction n generalizing s with
  | zero => exact hs
  | succ n ih =>
      rw [divLoop_succ]
      exact ih (Nat.mod_lt _ hd)

end Structor.Digits
