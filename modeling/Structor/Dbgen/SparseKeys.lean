import Structor.Dbgen.Bcd
import Structor.Dbgen.Dates

/-!
# The sparse order keys of the star schema data generator

An order key keeps the last three bits of the number of the order, and leaves room for two
bits of the update that the order came with. From scale 1000 on the key is computed with
decimal digits, and keeps three bits of the last digit only.

## Main results

* `hdSparse_eq` -- the key that the decimal arithmetic leaves in its two words
* `prHuge_mkSparse` -- both kinds of keys are printed as one number
* `prHuge_eq_iff` -- which orders share a key
-/
namespace Structor.Dbgen

open Structor.Digits Structor.Python

def sparseBits : ℕ := 2
def sparseKeep : ℕ := 3
def max32bScale : ℕ := 1000

/-- A `DSS_HUGE` of two words, the low one first. -/
abbrev Huge := ℕ × ℕ

def ezSparse (i seq : ℕ) : Huge :=
  let lowBits := i &&& (1 <<< sparseKeep - 1)
  (((i >>> sparseKeep) <<< sparseBits + seq) <<< sparseKeep + lowBits, 0)

def hdSparse (i seq : ℕ) : Huge :=
  let lowMask := 1 <<< sparseKeep - 1
  let base := binBcd2 i
  let res := (bcd2Div base (1 <<< sparseKeep)).1
  let res := bcd2Mul res (1 <<< sparseBits)
  let res := (bcd2Add res seq).1
  let res := bcd2Mul res (1 <<< sparseKeep)
  let res := (bcd2Add res (base.1 &&& lowMask)).1
  (bcd2Bin res.1, bcd2Bin res.2)

def mkSparse (scale i seq : ℕ) : Huge :=
  if scale < max32bScale then ezSparse i seq else hdSparse i seq

/-- The two bits of the orders that `mk_order` makes for an update. -/
def orderSeq (refresh updNum : ℕ) : ℕ :=
  if updNum = 0 then 0 else 1 + updNum / (10000 / refresh)

/-- `DT_HUGE` of `dbg_print`. -/
def prHuge (data : Huge) : Str :=
  if data.2 = 0 then decimal data.1 else decimal data.2 ++ zeroPadded 7 data.1

/-- The macro `MK_SPARSE`. -/
def mkSparseMacro (key seq : ℕ) : ℕ :=
  ((((key >>> 3) <<< 2) ||| (seq &&& 0x0003)) <<< 3) ||| (key &&& 0x0007)

/-! ## The numbers -/

/-- What a key keeps of the number of its order. -/
def lowPart (scale i : ℕ) : ℕ := if scale < max32bScale then i % 8 else i % 10 % 8

def keyNumber (scale i seq : ℕ) : ℕ := (i / 8 * 4 + seq) * 8 + lowPart scale i

theorem lowPart_lt (scale i : ℕ) : lowPart scale i < 8 := by
  unfold lowPart
  split_ifs <;> omega

theorem ezSparse_eq (i seq : ℕ) : ezSparse i seq = ((i / 8 * 4 + seq) * 8 + i % 8, 0) := by
  have hlow : i &&& 7 = i % 8 := Nat.and_two_pow_sub_one_eq_mod i 3
  simp [ezSparse, sparseKeep, sparseBits, Nat.shiftLeft_eq, Nat.shiftRight_eq_div_pow, hlow]

/-- The lowest word starts with the last digit of the number. -/
theorem low_binBcd2_mod {i : ℕ} (hi : i < 10 ^ 14) : (binBcd2 i).1 % 8 = i % 10 % 8 := by
  have hdigit := digit_value (n := 14) (fun j _ => decimal_binBcd2 hi j) (i := 0) (by norm_num)
  have hnumber : value 10 14 (digitsOf (binBcd2 i)) = i := number_binBcd2 hi
  rw [hnumber, pow_zero, Nat.div_one, digitsOf_of_lt _ (by norm_num), getDigit_eq,
    if_neg (by norm_num), pow_zero, Nat.div_one] at hdigit
  omega

theorem bcd2Bin_lt {p : Bcd2} (hp : Decimal p) : bcd2Bin p.1 < 10 ^ 7 := by
  rw [bcd2Bin, digitsPerLong, binLoop_eq _ le_rfl, zero_mul, zero_add]
  refine value_lt fun i hi => ?_
  have hdigit := hp i
  rw [digitsOf_of_lt p (by omega), getDigit_eq, if_neg (by omega)] at hdigit
  exact hdigit

/-- **The decimal arithmetic of large scales.** -/
theorem hdSparse_eq {i seq : ℕ} (h : (i / 8 * 4 + seq) * 8 + i % 10 % 8 < 10 ^ 14) :
    hdSparse i seq = (((i / 8 * 4 + seq) * 8 + i % 10 % 8) % 10 ^ 7,
      ((i / 8 * 4 + seq) * 8 + i % 10 % 8) / 10 ^ 7) := by
  have hi : i < 10 ^ 14 := by omega
  have hmask : (binBcd2 i).1 &&& 7 = i % 10 % 8 := by
    rw [← low_binBcd2_mod hi]
    exact Nat.and_two_pow_sub_one_eq_mod _ 3
  have hbase := decimal_binBcd2 hi
  have hdiv : number (bcd2Div (binBcd2 i) 8).1 = i / 8 := by
    rw [(number_bcd2Div hbase (by norm_num)).1, number_binBcd2 hi]
  have hmul : number (bcd2Mul (bcd2Div (binBcd2 i) 8).1 4) = i / 8 * 4 := by
    rw [number_bcd2Mul _ (by norm_num), hdiv, Nat.mod_eq_of_lt (by omega)]
  have hadd := number_bcd2Add (bcd2Mul (bcd2Div (binBcd2 i) 8).1 4)
    (show seq < 10 ^ 14 by omega)
  have haddDecimal := decimal_bcd2Add (decimal_bcd2Mul (bcd2Div (binBcd2 i) 8).1 4) seq
  rw [hmul] at hadd
  generalize hsum : bcd2Add (bcd2Mul (bcd2Div (binBcd2 i) 8).1 4) seq = sum at hadd haddDecimal
  have hsumNumber : number sum.1 = i / 8 * 4 + seq := by
    have := haddDecimal.number_lt
    omega
  have hkeep : number (bcd2Mul sum.1 8) = (i / 8 * 4 + seq) * 8 := by
    rw [number_bcd2Mul _ (by norm_num), hsumNumber, Nat.mod_eq_of_lt (by omega)]
  have hlast := number_bcd2Add (bcd2Mul sum.1 8) (show i % 10 % 8 < 10 ^ 14 by omega)
  have hlastDecimal := decimal_bcd2Add (decimal_bcd2Mul sum.1 8) (i % 10 % 8)
  rw [hkeep] at hlast
  have hres : hdSparse i seq = (bcd2Bin (bcd2Add (bcd2Mul sum.1 8) (i % 10 % 8)).1.1,
      bcd2Bin (bcd2Add (bcd2Mul sum.1 8) (i % 10 % 8)).1.2) := by
    rw [← hmask, ← hsum]
    rfl
  rw [hres]
  generalize bcd2Add (bcd2Mul sum.1 8) (i % 10 % 8) = res at hlast hlastDecimal ⊢
  have hnumber := bcd2_bin_number res.1
  have hlow := bcd2Bin_lt hlastDecimal
  have hlt := hlastDecimal.number_lt
  rw [Prod.mk.injEq]
  omega

theorem mkSparse_eq {scale i seq : ℕ}
    (h : max32bScale ≤ scale → keyNumber scale i seq < 10 ^ 14) :
    mkSparse scale i seq =
      if scale < max32bScale then (keyNumber scale i seq, 0)
      else (keyNumber scale i seq % 10 ^ 7, keyNumber scale i seq / 10 ^ 7) := by
  unfold mkSparse
  split_ifs with hscale
  · rw [ezSparse_eq, keyNumber, lowPart, if_pos hscale]
  · have hdigits := h (not_lt.mp hscale)
    rw [keyNumber, lowPart, if_neg hscale] at hdigits ⊢
    exact hdSparse_eq hdigits

/-- **A key is printed as a number**, from one word or from two. -/
theorem prHuge_mkSparse {scale i seq : ℕ}
    (h : max32bScale ≤ scale → keyNumber scale i seq < 10 ^ 14) :
    prHuge (mkSparse scale i seq) = decimal (keyNumber scale i seq) := by
  rw [mkSparse_eq h]
  generalize keyNumber scale i seq = n
  unfold prHuge
  split_ifs with hscale hzero hzero
  · rfl
  · exact absurd rfl hzero
  · have : n % 10 ^ 7 = n := Nat.mod_eq_of_lt (by
      simp only at hzero
      omega)
    rw [this]
  · have hlow : n % 10 ^ 7 < 10 ^ 7 := Nat.mod_lt _ (by norm_num)
    have hsplit : n = n / 10 ^ 7 * 10 ^ 7 + n % 10 ^ 7 := by omega
    simp only at hzero
    conv_rhs => rw [hsplit]
    rw [decimal_natCast, decimal_natCast,
      toDigits_append_zeroPadded (Nat.pos_of_ne_zero hzero) (by norm_num) hlow]

/-! ## Which orders share a key -/

theorem keyNumber_inj {scale i j s t : ℕ} (hs : s < 4) (ht : t < 4) :
    keyNumber scale i s = keyNumber scale j t ↔
      i / 8 = j / 8 ∧ s = t ∧ lowPart scale i = lowPart scale j := by
  have hi := lowPart_lt scale i
  have hj := lowPart_lt scale j
  unfold keyNumber
  omega

theorem keyNumber_inj_of_small {scale i j s t : ℕ} (hscale : scale < max32bScale) (hs : s < 4)
    (ht : t < 4) : keyNumber scale i s = keyNumber scale j t ↔ i = j ∧ s = t := by
  rw [keyNumber_inj hs ht, lowPart, lowPart, if_pos hscale, if_pos hscale]
  omega

/-- Below scale 1000 the macro gives the key, and above three updates it repeats the keys. -/
theorem mkSparseMacro_eq (key seq : ℕ) :
    mkSparseMacro key seq = (key / 8 * 4 + seq % 4) * 8 + key % 8 := by
  have hseq : seq &&& 3 = seq % 4 := Nat.and_two_pow_sub_one_eq_mod seq 2
  have hkey : key &&& 7 = key % 8 := Nat.and_two_pow_sub_one_eq_mod key 3
  rw [mkSparseMacro, hseq, hkey,
    ← Nat.shiftLeft_add_eq_or_of_lt (i := 2) (Nat.mod_lt seq (by norm_num)),
    ← Nat.shiftLeft_add_eq_or_of_lt (i := 3) (Nat.mod_lt key (by norm_num)),
    Nat.shiftLeft_eq, Nat.shiftLeft_eq, Nat.shiftRight_eq_div_pow]

/-- **The orders with the same key.** Below scale 1000 an order has its key for itself; from
there on two orders with the numbers 8 and 10 do not. -/
theorem prHuge_eq_iff {scale i j s t : ℕ} (hs : s < 4) (ht : t < 4)
    (hdigits : max32bScale ≤ scale → i < 2 * 10 ^ 13 ∧ j < 2 * 10 ^ 13) :
    prHuge (mkSparse scale i s) = prHuge (mkSparse scale j t) ↔
      if scale < max32bScale then i = j ∧ s = t
      else i / 8 = j / 8 ∧ s = t ∧ i % 10 % 8 = j % 10 % 8 := by
  have hi : max32bScale ≤ scale → keyNumber scale i s < 10 ^ 14 := by
    intro hscale
    have := lowPart_lt scale i
    have := hdigits hscale
    unfold keyNumber
    omega
  have hj : max32bScale ≤ scale → keyNumber scale j t < 10 ^ 14 := by
    intro hscale
    have := lowPart_lt scale j
    have := hdigits hscale
    unfold keyNumber
    omega
  have hinj : decimal (keyNumber scale i s) = decimal (keyNumber scale j t) ↔
      keyNumber scale i s = keyNumber scale j t :=
    ⟨fun h => by exact_mod_cast decimal_injective h, fun h => by rw [h]⟩
  rw [prHuge_mkSparse hi, prHuge_mkSparse hj, hinj]
  split_ifs with hscale
  · exact keyNumber_inj_of_small hscale hs ht
  · rw [keyNumber_inj hs ht, lowPart, lowPart, if_neg hscale, if_neg hscale]

/-- From the limit on, two orders of one block of eight have the same key. -/
theorem prHuge_eight_ten : prHuge (mkSparse 1000 8 0) = prHuge (mkSparse 1000 10 0) :=
  (prHuge_eq_iff (by decide) (by decide) (by decide)).mpr (by decide)

end Structor.Dbgen
