import Mathlib.Data.Nat.Bitwise
import Mathlib.Tactic.IntervalCases
import Structor.Digits
import Structor.Python.Date

/-!
# Decimal numbers of fourteen digits in two words

`bcd2.c` holds seven decimal digits in the half bytes of a word. It is used for the order
keys of the largest scales. Its subtraction, and what is built on that, has no caller here.

## Main results

* `number_binBcd2`, `bcd2_bin_number` -- the conversions
* `number_bcd2Add`, `number_bcd2Mul`, `number_bcd2Div` -- the arithmetic on the numbers
-/
namespace Structor.Dbgen

open Structor.Digits Structor.Python

def digitsPerLong : ℕ := 7

/-- The low word and the high word. -/
abbrev Bcd2 := ℕ × ℕ

def getDigit (num : ℕ) (p : Bcd2) : ℕ :=
  if digitsPerLong ≤ num then
    (p.2 &&& (0xF <<< (4 * (num - digitsPerLong)))) >>> ((num - digitsPerLong) * 4)
  else (p.1 &&& (0xF <<< (4 * num))) >>> (num * 4)

def setDigit (value num : ℕ) (p : Bcd2) : Bcd2 :=
  if digitsPerLong ≤ num then
    (p.1, (p.2 &&& (0xFFFFFFF ^^^ (0xF <<< (4 * (num - digitsPerLong))))) |||
      (value <<< (4 * (num - digitsPerLong))))
  else
    ((p.1 &&& (0xFFFFFFF ^^^ (0xF <<< (4 * num)))) ||| (value <<< (4 * num)), p.2)

/-- The loop over the text: the last seven characters go to the low word. -/
def packLoop : Str → Bcd2 → Bcd2
  | [], p => p
  | c :: rest, p =>
      let digit := c.toNat - '0'.toNat
      if rest.length < digitsPerLong then packLoop rest (p.1 <<< 4 ||| digit, p.2)
      else packLoop rest (p.1, p.2 <<< 4 ||| digit)

/-- The digits of the text `%014ld`. -/
def binBcd2 (binary : ℕ) : Bcd2 := packLoop (zeroPadded 14 binary) (0, 0)

/-- The loop over the mask, with the number of the half bytes that are left. -/
def binLoop (bcd : ℕ) : ℕ → ℕ → ℕ
  | 0, dest => dest
  | count + 1, dest =>
      binLoop bcd count (dest * 10 + (bcd &&& (0xF000000 >>> (4 * (6 - count)))) >>> (4 * count))

def bcd2Bin (bcd : ℕ) : ℕ := binLoop bcd digitsPerLong 0

def bcd2Add (p : Bcd2) (addend : ℕ) : Bcd2 × ℕ :=
  let tmp := binBcd2 addend
  (List.range 14).foldl (fun s digit =>
    let res := getDigit digit s.1 + getDigit digit tmp + s.2
    (setDigit (res % 10) digit s.1, res / 10)) (p, 0)

/-- A row of the multiplication: digit `ldigit` of the multiplier times `tmp`. -/
def bcd2MulRow (tmp m : Bcd2) (p : Bcd2) (ldigit : ℕ) : Bcd2 × ℕ :=
  let m1 := getDigit ldigit m
  (List.range 14).foldl (fun s udigit =>
    let m2 := getDigit udigit tmp
    if udigit + ldigit < 14 then
      let res := m1 * m2 + s.2 + getDigit (udigit + ldigit) s.1
      (setDigit (res % 10) (udigit + ldigit) s.1, res / 10)
    else (s.1, (m1 * m2 + s.2) / 10)) (p, 0)

def bcd2Mul (p : Bcd2) (multiplier : ℕ) : Bcd2 :=
  (List.range 14).foldl (fun acc ldigit => (bcd2MulRow p (binBcd2 multiplier) acc ldigit).1) (0, 0)

def bcd2Div (p : Bcd2) (divisor : ℕ) : Bcd2 × ℕ :=
  (List.range 14).reverse.foldl (fun s digit =>
    let d1 := getDigit digit p + 10 * s.2
    (setDigit (d1 / divisor) digit s.1, d1 % divisor)) ((0, 0), 0)

/-! ## Half bytes -/

theorem testBit_nibble (w k j : ℕ) :
    (w / 16 ^ k % 16).testBit j = (decide (j < 4) && w.testBit (4 * k + j)) := by
  have h : w / 16 ^ k % 16 = w / 2 ^ (4 * k) % 2 ^ 4 := by
    rw [pow_mul]
    norm_num
  rw [h, Nat.testBit_mod_two_pow, Nat.testBit_div_two_pow, add_comm j]

theorem testBit_mask (k j : ℕ) :
    (0xF <<< (4 * k)).testBit j = (decide (4 * k ≤ j) && decide (j - 4 * k < 4)) := by
  have h : 0xF = 2 ^ 4 - 1 := by norm_num
  rw [h, Nat.testBit_shiftLeft, Nat.testBit_two_pow_sub_one]

theorem and_shiftLeft_shiftRight (w k : ℕ) :
    (w &&& (0xF <<< (4 * k))) >>> (k * 4) = w / 16 ^ k % 16 := by
  refine Nat.eq_of_testBit_eq fun j => ?_
  rw [testBit_nibble, Nat.testBit_shiftRight, Nat.testBit_and, testBit_mask, mul_comm k 4,
    Nat.add_sub_cancel_left]
  simp [Bool.and_comm]

theorem testBit_digit_of_ge {v j : ℕ} (hv : v < 16) (hj : 4 ≤ j) : v.testBit j = false := by
  refine Nat.testBit_lt_two_pow (hv.trans_le ?_)
  calc 16 = 2 ^ 4 := by norm_num
    _ ≤ 2 ^ j := Nat.pow_le_pow_right (by norm_num) hj

/-- What a write of a half byte leaves in the half bytes. -/
theorem nibble_write (w : ℕ) {v i k : ℕ} (hv : v < 16) (hi : i < 7) :
    ((w &&& (0xFFFFFFF ^^^ (0xF <<< (4 * k)))) ||| (v <<< (4 * k))) / 16 ^ i % 16 =
      if i = k then v else w / 16 ^ i % 16 := by
  have h28 : 0xFFFFFFF = 2 ^ 28 - 1 := by norm_num
  refine Nat.eq_of_testBit_eq fun j => ?_
  rw [testBit_nibble, Nat.testBit_or, Nat.testBit_and, Nat.testBit_xor, testBit_mask,
    Nat.testBit_shiftLeft, h28, Nat.testBit_two_pow_sub_one, apply_ite (Nat.testBit · j),
    testBit_nibble]
  by_cases hj : j < 4
  · have hin : 4 * i + j < 28 := by omega
    rcases lt_trichotomy i k with h | h | h
    · have hbelow : ¬ 4 * k ≤ 4 * i + j := by omega
      simp [hj, hin, hbelow, h.ne]
    · subst h
      simp [hj, hin]
    · have habove : ¬ 4 * i + j - 4 * k < 4 := by omega
      simp [hj, hin, habove, h.ne', testBit_digit_of_ge hv (not_lt.mp habove)]
  · split_ifs <;> simp [hj, testBit_digit_of_ge hv (not_lt.mp hj)]

/-- The digits of both words. -/
def digitsOf (p : Bcd2) (i : ℕ) : ℕ := if i < 14 then getDigit i p else 0

theorem getDigit_eq (p : Bcd2) (i : ℕ) :
    getDigit i p = if 7 ≤ i then p.2 / 16 ^ (i - 7) % 16 else p.1 / 16 ^ i % 16 := by
  unfold getDigit digitsPerLong
  split_ifs <;> exact and_shiftLeft_shiftRight _ _

theorem digitsOf_of_lt (p : Bcd2) {i : ℕ} (h : i < 14) : digitsOf p i = getDigit i p := if_pos h

/-- **A write of a digit** is a write of the digit and of nothing else. -/
theorem digitsOf_setDigit (p : Bcd2) {v i : ℕ} (hv : v < 16) (hi : i < 14) :
    digitsOf (setDigit v i p) = Function.update (digitsOf p) i v := by
  funext j
  by_cases hj : j < 14
  · rw [Function.update_apply, digitsOf_of_lt _ hj, digitsOf_of_lt _ hj, getDigit_eq, getDigit_eq]
    unfold setDigit digitsPerLong
    by_cases h₁ : 7 ≤ i <;> by_cases h₂ : 7 ≤ j
    · rw [if_pos h₁, if_pos h₂, if_pos h₂, nibble_write _ hv (by omega)]
      refine if_congr ?_ rfl rfl
      omega
    · rw [if_pos h₁, if_neg h₂, if_neg h₂, if_neg (by omega)]
    · rw [if_neg h₁, if_pos h₂, if_pos h₂, if_neg (by omega)]
    · rw [if_neg h₁, if_neg h₂, if_neg h₂, nibble_write _ hv (by omega)]
  · rw [Function.update_of_ne (by omega)]
    simp only [digitsOf, if_neg hj]

/-! ## The number of the digits -/

/-- All digits are decimal ones. -/
def Decimal (p : Bcd2) : Prop := ∀ i, digitsOf p i < 10

def number (p : Bcd2) : ℕ := value 10 14 (digitsOf p)

theorem Decimal.number_lt {p : Bcd2} (hp : Decimal p) : number p < 10 ^ 14 :=
  value_lt fun i _ => hp i

/-- The loop over the mask reads the digits of a word from the highest one on. -/
theorem binLoop_eq (bcd : ℕ) {count : ℕ} (hcount : count ≤ 7) (dest : ℕ) :
    binLoop bcd count dest = dest * 10 ^ count + value 10 count fun i => bcd / 16 ^ i % 16 := by
  induction count generalizing dest with
  | zero => simp [binLoop]
  | succ count ih =>
      have hmask : 0xF000000 >>> (4 * (6 - count)) = 0xF <<< (4 * count) := by
        have : count ≤ 6 := by omega
        interval_cases count <;> rfl
      rw [binLoop, ih (by omega), hmask, mul_comm 4 count, value_succ]
      have hdigit := and_shiftLeft_shiftRight bcd count
      rw [mul_comm 4 count] at hdigit
      rw [hdigit, pow_succ]
      ring

/-- **The number is in the two words.** -/
theorem bcd2_bin_number (p : Bcd2) : number p = bcd2Bin p.2 * 10 ^ 7 + bcd2Bin p.1 := by
  have hlow : value 10 7 (digitsOf p) = value 10 7 fun i => p.1 / 16 ^ i % 16 :=
    value_congr fun i hi => by rw [digitsOf_of_lt p (by omega), getDigit_eq, if_neg (by omega)]
  have hhigh : (value 10 7 fun i => digitsOf p (7 + i)) = value 10 7 fun i => p.2 / 16 ^ i % 16 :=
    value_congr fun i hi => by
      rw [digitsOf_of_lt p (by omega), getDigit_eq, if_pos (by omega), Nat.add_sub_cancel_left]
  have hsplit : number p = _ := value_add 10 7 7 (digitsOf p)
  rw [hsplit, hlow, hhigh, bcd2Bin, bcd2Bin, digitsPerLong, binLoop_eq _ le_rfl,
    binLoop_eq _ le_rfl]
  ring

/-- Packing into one word. -/
def packWord (text : Str) (w : ℕ) : ℕ :=
  text.foldl (fun w c => w <<< 4 ||| (c.toNat - '0'.toNat)) w

theorem packLoop_low {text : Str} (h : text.length ≤ 7) (p : Bcd2) :
    packLoop text p = (packWord text p.1, p.2) := by
  induction text generalizing p with
  | nil => rfl
  | cons c rest ih =>
      simp only [List.length_cons] at h
      rw [packLoop]
      simp only [digitsPerLong, if_pos (show rest.length < 7 by omega), ih (by omega)]
      rfl

theorem packLoop_append (high : Str) {low : Str} (h : low.length = 7) (p : Bcd2) :
    packLoop (high ++ low) p = (packWord low p.1, packWord high p.2) := by
  induction high generalizing p with
  | nil => exact packLoop_low h.le p
  | cons c rest ih =>
      have hlen : ¬ (rest ++ low).length < digitsPerLong := by
        simp [h, digitsPerLong]
      rw [List.cons_append, packLoop]
      simp only [if_neg hlen, ih]
      rfl

/-- The digits of a text, the last one first. -/
def textDigit (text : Str) (i : ℕ) : ℕ :=
  (text.map fun c => c.toNat - '0'.toNat).reverse.getD i 0

theorem toNat_sub_lt {c : Char} (h : c.isDigit = true) : c.toNat - '0'.toNat < 10 := by
  have hnine : c.toNat ≤ '9'.toNat := (Char.isDigit_iff_toNat.mp h).2
  have hzero : '0'.toNat = 48 ∧ '9'.toNat = 57 := by decide
  omega

theorem textDigit_lt {text : Str} (h : ∀ c ∈ text, c.isDigit = true) (i : ℕ) :
    textDigit text i < 10 := by
  rw [textDigit, List.getD_eq_getElem?_getD]
  cases hget : (text.map fun c => c.toNat - '0'.toNat).reverse[i]? with
  | none => exact Nat.succ_pos 9
  | some d =>
      have hmem := List.mem_of_getElem? hget
      rw [List.mem_reverse, List.mem_map] at hmem
      obtain ⟨c, hc, rfl⟩ := hmem
      exact toNat_sub_lt (h c hc)

theorem packWord_eq {text : Str} (h : ∀ c ∈ text, c.isDigit = true) :
    packWord text 0 = value 16 text.length (textDigit text) := by
  have hfold : ∀ w, packWord text w =
      (text.map fun c => c.toNat - '0'.toNat).foldl (fun acc d => 16 * acc + d) w := by
    induction text with
    | nil => exact fun w => rfl
    | cons c rest ih =>
        intro w
        have hdigit : c.toNat - '0'.toNat < 2 ^ 4 :=
          (toNat_sub_lt (h c List.mem_cons_self)).trans (by norm_num)
        have hstep : packWord (c :: rest) w = packWord rest (w <<< 4 ||| (c.toNat - '0'.toNat)) :=
          rfl
        rw [hstep, ih fun d hd => h d (List.mem_cons_of_mem c hd),
          ← Nat.shiftLeft_add_eq_or_of_lt hdigit, Nat.shiftLeft_eq, List.map_cons,
          List.foldl_cons, mul_comm w]
  rw [hfold, foldl_eq_value, List.length_map, mul_zero, zero_add]
  rfl

/-- The half bytes of a packed word are the digits of the text. -/
theorem nibble_packWord {text : Str} (h : ∀ c ∈ text, c.isDigit = true) {i : ℕ}
    (hi : i < text.length) : packWord text 0 / 16 ^ i % 16 = textDigit text i := by
  rw [packWord_eq h]
  exact digit_value (fun j _ => (textDigit_lt h j).trans (by norm_num)) hi

theorem digitsOf_binBcd2 {n i : ℕ} (hn : n < 10 ^ 14) (hi : i < 14) :
    digitsOf (binBcd2 n) i = textDigit (zeroPadded 14 n) i := by
  have hlen := length_zeroPadded (by norm_num) hn
  have hdigit : ∀ c ∈ zeroPadded 14 n, c.isDigit = true := fun c hc => isDigit_zeroPadded hc
  rw [digitsOf_of_lt _ hi, getDigit_eq, binBcd2]
  generalize zeroPadded 14 n = text at hlen hdigit ⊢
  obtain ⟨high, low, rfl, hhigh⟩ : ∃ high low, text = high ++ low ∧ high.length = 7 :=
    ⟨text.take 7, text.drop 7, (List.take_append_drop 7 text).symm, by simp [hlen]⟩
  have hlow : low.length = 7 := by
    rw [List.length_append] at hlen
    omega
  have hreverse : textDigit (high ++ low) i =
      ((low.map fun c => c.toNat - '0'.toNat).reverse ++
        (high.map fun c => c.toNat - '0'.toNat).reverse).getD i 0 := by
    rw [textDigit, List.map_append, List.reverse_append]
  rw [packLoop_append high hlow, hreverse]
  split_ifs with h
  · rw [List.getD_append_right _ _ _ _ (by simpa [hlow] using h), List.length_reverse,
      List.length_map, hlow]
    exact nibble_packWord (fun c hc => hdigit c (List.mem_append_left low hc)) (by omega)
  · rw [List.getD_append _ _ _ _ (by simp [hlow]; omega)]
    exact nibble_packWord (fun c hc => hdigit c (List.mem_append_right high hc)) (by omega)

theorem decimal_binBcd2 {n : ℕ} (hn : n < 10 ^ 14) : Decimal (binBcd2 n) := by
  intro i
  by_cases hi : i < 14
  · rw [digitsOf_binBcd2 hn hi]
    exact textDigit_lt (fun c hc => isDigit_zeroPadded hc) i
  · simp [digitsOf, hi]

/-- **The two words hold the number.** -/
theorem number_binBcd2 {n : ℕ} (hn : n < 10 ^ 14) : number (binBcd2 n) = n := by
  have hlen := length_zeroPadded (by norm_num) hn
  have hfold := foldl_eq_value 10 ((zeroPadded 14 n).map fun c => c.toNat - '0'.toNat) 0
  rw [List.length_map, hlen, mul_zero, zero_add, List.foldl_map] at hfold
  calc number (binBcd2 n)
      = value 10 14 (textDigit (zeroPadded 14 n)) :=
        value_congr fun i hi => digitsOf_binBcd2 hn hi
    _ = Nat.ofDigitChars 10 (zeroPadded 14 n) 0 := hfold.symm
    _ = n := ofDigitChars_zeroPadded 14 n

/-! ## Arithmetic -/

/-- What the loops see of their state: the digits and the carry. -/
def view (s : Bcd2 × ℕ) : (ℕ → ℕ) × ℕ := (digitsOf s.1, s.2)

@[simp] theorem view_fst (s : Bcd2 × ℕ) : (view s).1 = digitsOf s.1 := rfl

@[simp] theorem view_snd (s : Bcd2 × ℕ) : (view s).2 = s.2 := rfl

/-- A loop over the digits of the words is the loop over the digits. -/
theorem view_foldl {step : Bcd2 × ℕ → ℕ → Bcd2 × ℕ} {step' : (ℕ → ℕ) × ℕ → ℕ → (ℕ → ℕ) × ℕ}
    (Inv : Bcd2 × ℕ → Prop) {l : List ℕ} (hstep : ∀ s, Inv s → ∀ i ∈ l,
      Inv (step s i) ∧ view (step s i) = step' (view s) i) {s : Bcd2 × ℕ} (hs : Inv s) :
    view (l.foldl step s) = l.foldl step' (view s) := by
  induction l generalizing s with
  | nil => rfl
  | cons i l ih =>
      obtain ⟨hinv, hview⟩ := hstep s hs i List.mem_cons_self
      rw [List.foldl_cons, List.foldl_cons, ← hview]
      exact ih (fun s hs j hj => hstep s hs j (List.mem_cons_of_mem i hj)) hinv

theorem view_setDigit (p : Bcd2) {v i : ℕ} (c : ℕ) (hv : v < 10) (hi : i < 14) :
    view (setDigit v i p, c) = (Function.update (digitsOf p) i v, c) := by
  rw [view, digitsOf_setDigit p (by omega) hi]

theorem view_bcd2Add (p : Bcd2) (addend : ℕ) :
    view (bcd2Add p addend) = addLoop 10 14 (digitsOf (binBcd2 addend)) (digitsOf p) := by
  refine view_foldl (fun _ => True) (fun s _ i hi => ⟨trivial, ?_⟩) trivial
  rw [List.mem_range] at hi
  rw [view_setDigit _ _ (Nat.mod_lt _ (by norm_num)) hi]
  simp only [addStep, view, digitsOf_of_lt _ hi]

/-- **Addition**, with the carry out of the highest digit. -/
theorem number_bcd2Add (p : Bcd2) {addend : ℕ} (h : addend < 10 ^ 14) :
    number (bcd2Add p addend).1 + (bcd2Add p addend).2 * 10 ^ 14 = number p + addend := by
  have hview := view_bcd2Add p addend
  have hsum := value_addLoop 10 14 (digitsOf (binBcd2 addend)) (digitsOf p)
  rw [← hview, view_fst, view_snd] at hsum
  calc number (bcd2Add p addend).1 + (bcd2Add p addend).2 * 10 ^ 14
      = number p + number (binBcd2 addend) := hsum
    _ = number p + addend := by rw [number_binBcd2 h]

theorem decimal_bcd2Add {p : Bcd2} (hp : Decimal p) (addend : ℕ) :
    Decimal (bcd2Add p addend).1 := by
  have hdigits : digitsOf (bcd2Add p addend).1 = _ := congrArg Prod.fst (view_bcd2Add p addend)
  intro i
  rw [hdigits]
  exact addLoop_lt (by norm_num) hp _ i

theorem view_bcd2MulRow (tmp m p : Bcd2) {ldigit : ℕ} (hl : ldigit < 14) :
    view (bcd2MulRow tmp m p ldigit) =
      mulRow 10 14 (digitsOf tmp) (digitsOf m ldigit) ldigit 14 (digitsOf p) := by
  refine view_foldl (fun _ => True) (fun s _ i hi => ⟨trivial, ?_⟩) trivial
  rw [List.mem_range] at hi
  dsimp only
  by_cases h : i + ldigit < 14
  · rw [if_pos h, view_setDigit _ _ (Nat.mod_lt _ (by norm_num)) h]
    simp only [mulStep, if_pos h, view, digitsOf_of_lt _ hi, digitsOf_of_lt _ hl,
      digitsOf_of_lt _ h]
  · rw [if_neg h]
    simp only [mulStep, if_neg h, view, digitsOf_of_lt _ hi, digitsOf_of_lt _ hl]

theorem digitsOf_zero : digitsOf (0, 0) = fun _ => 0 := by
  funext i
  unfold digitsOf
  split_ifs
  · rw [getDigit_eq]
    split_ifs <;> simp
  · rfl

theorem digitsOf_bcd2Mul (p : Bcd2) (multiplier : ℕ) :
    digitsOf (bcd2Mul p multiplier) =
      mulLoop 10 14 (digitsOf p) (digitsOf (binBcd2 multiplier)) 14 := by
  have hrows : ∀ k ≤ 14, digitsOf ((List.range k).foldl (fun acc ldigit =>
      (bcd2MulRow p (binBcd2 multiplier) acc ldigit).1) (0, 0)) =
        mulLoop 10 14 (digitsOf p) (digitsOf (binBcd2 multiplier)) k := by
    intro k hk
    induction k with
    | zero => exact digitsOf_zero
    | succ k ih =>
        rw [List.range_succ, List.foldl_append, List.foldl_cons, List.foldl_nil, mulLoop_succ,
          ← ih (by omega)]
        exact congrArg Prod.fst (view_bcd2MulRow p _ _ (by omega))
  exact hrows 14 le_rfl

theorem decimal_bcd2Mul (p : Bcd2) (multiplier : ℕ) : Decimal (bcd2Mul p multiplier) := by
  intro i
  rw [digitsOf_bcd2Mul]
  exact mulLoop_lt (by norm_num) _ _ 14 i

/-- **Multiplication**, without what is above the highest digit. -/
theorem number_bcd2Mul (p : Bcd2) {multiplier : ℕ} (h : multiplier < 10 ^ 14) :
    number (bcd2Mul p multiplier) = number p * multiplier % 10 ^ 14 := by
  have hmod : number (bcd2Mul p multiplier) ≡ number p * number (binBcd2 multiplier)
      [MOD 10 ^ 14] := by
    rw [number, digitsOf_bcd2Mul]
    exact modEq_mulLoop 10 _ _ le_rfl
  rw [number_binBcd2 h] at hmod
  rw [← hmod, Nat.mod_eq_of_lt (decimal_bcd2Mul p multiplier).number_lt]

/-- The state of the division: a digit of the quotient is below ten. -/
theorem view_bcd2Div {p : Bcd2} (hp : Decimal p) {divisor : ℕ} (hd : 0 < divisor) :
    view (bcd2Div p divisor) = divLoop 10 divisor 14 (digitsOf p) (fun _ => 0, 0) := by
  have hstart : view ((0, 0), 0) = (fun _ => 0, 0) := by rw [view, digitsOf_zero]
  rw [← hstart]
  refine view_foldl (fun s => s.2 < divisor) (fun s hs i hi => ?_) hd
  rw [List.mem_reverse, List.mem_range] at hi
  have hdigit := hp i
  rw [digitsOf_of_lt p hi] at hdigit
  have hquot : (getDigit i p + 10 * s.2) / divisor < 10 := by
    rw [Nat.div_lt_iff_lt_mul hd]
    have : 10 * (s.2 + 1) ≤ 10 * divisor := Nat.mul_le_mul_left 10 hs
    omega
  refine ⟨Nat.mod_lt _ hd, ?_⟩
  rw [view_setDigit _ _ hquot hi]
  simp only [divStep, view, digitsOf_of_lt p hi]

/-- **Division**, with the remainder. -/
theorem number_bcd2Div {p : Bcd2} (hp : Decimal p) {divisor : ℕ} (hd : 0 < divisor) :
    number (bcd2Div p divisor).1 = number p / divisor ∧
      (bcd2Div p divisor).2 = number p % divisor := by
  have hview := view_bcd2Div hp hd
  have hlt := divLoop_snd_lt hd 10 14 (digitsOf p) (s := (fun _ => 0, 0)) hd
  have hdiv := value_divLoop 10 divisor 14 (digitsOf p) (fun _ => 0, 0)
  rw [← hview, view_snd] at hlt
  rw [← hview, view_fst, view_snd, zero_mul, add_zero] at hdiv
  have heq : number (bcd2Div p divisor).1 * divisor + (bcd2Div p divisor).2 = number p := hdiv
  generalize number (bcd2Div p divisor).1 = quotient at heq ⊢
  generalize (bcd2Div p divisor).2 = remainder at heq hlt ⊢
  rw [← heq, mul_comm, Nat.mul_add_div hd, Nat.mul_add_mod, Nat.mod_eq_of_lt hlt,
    Nat.div_eq_of_lt hlt, add_zero]
  exact ⟨rfl, rfl⟩

end Structor.Dbgen
