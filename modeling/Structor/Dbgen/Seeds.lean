import Mathlib
import Structor.Dbgen.Random
import Structor.StatePrograms

/-!
# The streams of the star schema data generator

Each column has a stream of its own in `Seed`, with the number of draws that a row is
allowed. `row_stop` takes the streams of a table to this boundary, so that the position of
a stream depends only on the number of rows before it.

Only generation is modelled: with `-O s` the boundaries are calibrated instead.

## Main results

* `unif_mem` -- a draw is between its bounds, although it is scaled in floating point
* `dssRandom_eq` -- a draw moves one stream by one number
* `rowStop_value` -- after a row the streams of the table are at their boundaries
-/
namespace Structor.Dbgen

open Structor.Rounding

/-! ## Tables -/

/-- The numbers of the tables. `DATE` has the number of `ORDER`, which is still the table of
some of the streams. -/
def noTable : ℤ := -1
def part : ℤ := 0
def psupp : ℤ := 1
def supp : ℤ := 2
def cust : ℤ := 3
def order : ℤ := 4
def date : ℤ := 4
def line : ℤ := 5
def orderLine : ℤ := 6
def partPsupp : ℤ := 7
def nation : ℤ := 8
def region : ℤ := 9

/-- `base` is the number of rows at scale 1, as `main` leaves it. -/
structure TDef where
  base : ℕ
  child : ℤ

def ordersPerCust : ℕ := 10

def tdefs (t : ℤ) : TDef :=
  if t = part then ⟨200000, noTable⟩
  else if t = supp then ⟨2000, noTable⟩
  else if t = cust then ⟨30000, noTable⟩
  else if t = date then ⟨2556, noTable⟩
  else if t = line then ⟨150000 * ordersPerCust, noTable⟩
  else ⟨0, 0⟩

/-! ## Streams -/

/-- A value that a stream can have. -/
abbrev StreamValue := {v : ℕ // InRange v}

namespace StreamValue

/-- The next value. -/
def next (v : StreamValue) : StreamValue := ⟨nextRand v, v.2.nextRand⟩

theorem coe_iterate_next (v : StreamValue) (n : ℕ) : (next^[n] v : ℕ) = nextRand^[n] v := by
  induction n with
  | zero => rfl
  | succ n ih =>
      rw [Function.iterate_succ_apply', Function.iterate_succ_apply', ← ih]
      rfl

/-- `NthElement` on a stream. -/
def advance (shift : ℤ) (v : StreamValue) : StreamValue :=
  ⟨nthElement shift v, v.2.nthElement shift⟩

/-- A jump that does not go back before the value that the steps began with. -/
theorem advance_iterate (v : StreamValue) {n : ℕ} {shift : ℤ} (hlow : -nM < shift)
    (hhigh : shift < nM) (hback : 0 ≤ n + shift) :
    advance shift (next^[n] v) = next^[(n + shift).toNat] v := by
  apply Subtype.ext
  rw [coe_iterate_next, ← nthElement_iterate v.2 hlow hhigh hback, ← coe_iterate_next]
  rfl

end StreamValue

def maxStream : ℕ := 47

abbrev StreamId := Fin (maxStream + 1)

instance (priority := 2000) : NeZero (maxStream + 1) := ⟨Nat.succ_ne_zero maxStream⟩

def rngPerSent : ℤ := 27
def suppPerPart : ℤ := 4
def oLcntMax : ℤ := 7

/-- An entry of `Seed`: the table, the value it starts with and the boundary. -/
structure SeedT where
  table : ℤ
  value : ℕ
  boundary : ℤ

def seedList : List SeedT :=
  [⟨part, 1, 1⟩, ⟨part, 46831694, 1⟩, ⟨part, 1841581359, 1⟩, ⟨part, 1193163244, 1⟩,
    ⟨part, 727633698, 1⟩, ⟨noTable, 933588178, 1⟩, ⟨part, 804159733, rngPerSent * 3⟩,
    ⟨psupp, 1671059989, suppPerPart⟩, ⟨psupp, 1051288424, suppPerPart⟩,
    ⟨psupp, 1961692154, suppPerPart * rngPerSent * 20⟩, ⟨order, 1227283347, 1⟩,
    ⟨order, 1171034773, 1⟩, ⟨order, 276090261, rngPerSent * 8⟩, ⟨order, 1066728069, 1⟩,
    ⟨line, 209208115, oLcntMax⟩, ⟨line, 554590007, oLcntMax⟩, ⟨line, 721958466, oLcntMax⟩,
    ⟨line, 1371272478, oLcntMax⟩, ⟨line, 675466456, oLcntMax⟩, ⟨line, 1808217256, oLcntMax⟩,
    ⟨line, 2095021727, oLcntMax⟩, ⟨line, 1769349045, oLcntMax⟩, ⟨line, 904914315, oLcntMax⟩,
    ⟨line, 373135028, oLcntMax⟩, ⟨line, 717419739, oLcntMax⟩,
    ⟨line, 1095462486, oLcntMax * rngPerSent * 5⟩, ⟨cust, 881155353, 9⟩,
    ⟨cust, 1489529863, 1⟩, ⟨cust, 1521138112, 3⟩, ⟨cust, 298370230, 1⟩,
    ⟨cust, 1140279430, 1⟩, ⟨cust, 1335826707, rngPerSent * 12⟩, ⟨supp, 706178559, 9⟩,
    ⟨supp, 110356601, 1⟩, ⟨supp, 884434366, 3⟩, ⟨supp, 962338209, 1⟩,
    ⟨supp, 1341315363, rngPerSent * 11⟩, ⟨part, 709314158, 92⟩, ⟨order, 591449447, 1⟩,
    ⟨line, 431918286, 1⟩, ⟨order, 851767375, 1⟩, ⟨nation, 606179079, rngPerSent * 16⟩,
    ⟨region, 1500869201, rngPerSent * 16⟩, ⟨order, 1434868289, 1⟩, ⟨supp, 263032577, 1⟩,
    ⟨supp, 753643799, 1⟩, ⟨supp, 202794285, 1⟩, ⟨supp, 715851524, 1⟩]

def seed (s : StreamId) : SeedT := seedList.get (s.cast (by decide))

theorem inRange_seed (s : StreamId) : InRange (seed s).value := by
  revert s
  decide

theorem boundary_pos (s : StreamId) : 0 < (seed s).boundary := by
  revert s
  decide

theorem boundary_lt (s : StreamId) : (seed s).boundary < nM := by
  revert s
  decide

/-- What changes of an entry. -/
structure Stream where
  value : StreamValue
  usage : ℤ

/-- The state of the generator. -/
abbrev Streams := StreamId → Stream

/-- The state that a process starts in. -/
def initial : Streams := fun s => ⟨⟨(seed s).value, inRange_seed s⟩, 0⟩

/-! ## Draws -/

/-- `UnifInt` takes stream 0 if there is no such stream. -/
def streamOf (nStream : ℕ) : StreamId :=
  if h : nStream ≤ maxStream then ⟨nStream, Nat.lt_succ_of_le h⟩ else 0

/-- A value, scaled to a number between the bounds. -/
def unif (nLow nHigh : ℤ) (v : StreamValue) : ℤ :=
  let low := if nHigh < nLow then nHigh else nLow
  let high := if nHigh < nLow then nLow else nHigh
  let dRange := dbl (high - low + 1)
  low + ⌊dbl (dbl (v / nM) * dRange)⌋

def unifInt (nLow nHigh : ℤ) (nStream : ℕ) : StateM Streams ℤ := fun σ =>
  let s := streamOf nStream
  let v := (σ s).value.next
  (unif nLow nHigh v, Function.update σ s { σ s with value := v })

/-- `Seed[stream].usage += 1`. For a stream that does not exist this is a write behind the
array, and nothing of it is counted. -/
def countUsage (stream : ℕ) (σ : Streams) : Streams :=
  if h : stream ≤ maxStream then
    let s : StreamId := ⟨stream, Nat.lt_succ_of_le h⟩
    Function.update σ s { σ s with usage := (σ s).usage + 1 }
  else σ

def dssRandom (lower upper : ℤ) (stream : ℕ) : StateM Streams ℤ := do
  let tgt ← unifInt lower upper stream
  modify (countUsage stream)
  pure tgt

/-! ## Rows -/

def rowStart (σ : Streams) : Streams := fun s => { σ s with usage := 0 }

/-- The table of the rows that `row_stop` takes to their boundaries. -/
def rowTable (t : ℤ) : ℤ :=
  let t := if t = orderLine then order else t
  if t = partPsupp then part else t

/-- The streams of a table, or of its detail table. -/
def Owned (t : ℤ) (s : StreamId) : Prop :=
  (seed s).table = rowTable t ∨ (seed s).table = (tdefs (rowTable t)).child

instance (t : ℤ) (s : StreamId) : Decidable (Owned t s) := inferInstanceAs (Decidable (_ ∨ _))

def rowStop (t : ℤ) (σ : Streams) : Streams := fun s =>
  if Owned t s then
    { σ s with value := (σ s).value.advance ((seed s).boundary - (σ s).usage) }
  else σ s

/-! ## A draw moves a stream

The amount that a piece of a row draws: how often from each stream, and how often from stream
0 under the number of a stream that does not exist. -/

/-- Numbers of draws; `none` are those that no usage counts. -/
def Draws : Type := Option StreamId → ℕ

instance : AddCommMonoid Draws := inferInstanceAs (AddCommMonoid (Option StreamId → ℕ))

namespace Draws

/-- The draws that a stream is moved by without being counted. -/
def uncounted (n : Draws) (s : StreamId) : ℕ := if s = 0 then n none else 0

/-- One draw. -/
def single (d : Option StreamId) : Draws := fun e => if e = d then 1 else 0

theorem single_apply (d e : Option StreamId) : single d e = if e = d then 1 else 0 := rfl

@[simp] theorem zero_apply (d : Option StreamId) : (0 : Draws) d = 0 := rfl

@[simp] theorem add_apply (m n : Draws) (d : Option StreamId) : (m + n) d = m d + n d := rfl

@[simp] theorem smul_apply (k : ℕ) (n : Draws) (d : Option StreamId) : (k • n) d = k * n d := by
  induction k with
  | zero => simp
  | succ k ih => rw [succ_nsmul, add_apply, ih, Nat.succ_mul]

@[simp] theorem uncounted_zero (s : StreamId) : uncounted 0 s = 0 := by
  simp [uncounted]

@[simp] theorem uncounted_add (m n : Draws) (s : StreamId) :
    uncounted (m + n) s = uncounted m s + uncounted n s := by
  unfold uncounted
  split_ifs <;> simp

end Draws

instance : AddAction Draws Streams where
  vadd n σ s := ⟨StreamValue.next^[n (some s) + n.uncounted s] (σ s).value,
    (σ s).usage + n (some s)⟩
  zero_vadd σ := by
    funext s
    change Stream.mk _ _ = _
    simp
  add_vadd m n σ := by
    funext s
    change Stream.mk _ _ = Stream.mk (StreamValue.next^[_] (StreamValue.next^[_] _)) _
    rw [← Function.iterate_add_apply]
    congr 1
    · congr 1
      simp only [Draws.add_apply, Draws.uncounted_add]
      omega
    · change (σ s).usage + ((m (some s) + n (some s) : ℕ) : ℤ) = _ + _ + _
      push_cast
      ring

theorem vadd_value (n : Draws) (σ : Streams) (s : StreamId) :
    ((n +ᵥ σ) s).value = StreamValue.next^[n (some s) + n.uncounted s] (σ s).value := rfl

theorem vadd_usage (n : Draws) (σ : Streams) (s : StreamId) :
    ((n +ᵥ σ) s).usage = (σ s).usage + n (some s) := rfl

/-- A draw under the number of a stream. -/
def drawOf (nStream : ℕ) : Draws :=
  .single (if h : nStream ≤ maxStream then some ⟨nStream, Nat.lt_succ_of_le h⟩ else none)

theorem drawOf_some {nStream : ℕ} (h : nStream ≤ maxStream) (s : StreamId) :
    drawOf nStream (some s) = if (s : ℕ) = nStream then 1 else 0 := by
  rw [drawOf, dif_pos h, Draws.single_apply]
  simp only [Option.some_inj, Fin.ext_iff]

/-- **A draw moves one stream by one number.** -/
theorem dssRandom_eq (lower upper : ℤ) (stream : ℕ) (σ : Streams) :
    dssRandom lower upper stream σ =
      (unif lower upper (σ (streamOf stream)).value.next, drawOf stream +ᵥ σ) := by
  refine Prod.ext rfl (funext fun s => ?_)
  change countUsage stream (Function.update σ (streamOf stream) _) s = Stream.mk _ _
  by_cases h : stream ≤ maxStream
  · simp only [countUsage, streamOf, drawOf, dif_pos h, Function.update_self,
      Function.update_idem, Draws.uncounted, Draws.single_apply]
    by_cases hs : s = ⟨stream, Nat.lt_succ_of_le h⟩
    · subst hs
      simp
    · simp [hs]
  · simp only [countUsage, streamOf, drawOf, dif_neg h, Draws.uncounted, Draws.single_apply]
    by_cases hs : s = 0
    · subst hs
      simp
    · simp [hs]

/-! ## The scaling of a draw -/

theorem dbl_div_modulus (v : StreamValue) :
    0 ≤ dbl (v / nM) ∧ dbl (v / nM) ≤ (2 ^ 31 - 1 : ℕ) * 2 ^ (-31 : ℤ) := by
  have hM : (nM : ℚ) = 2147483647 := by norm_num [nM]
  have hv : ((v : ℕ) : ℚ) ≤ 2147483646 := by
    have := v.2.2
    unfold nM at this
    exact_mod_cast (by omega : (v : ℕ) ≤ 2147483646)
  have hnonneg : (0 : ℚ) ≤ v / nM := by positivity
  refine ⟨rounded_nonneg (by norm_num) hnonneg,
    rounded_le (-31) (by norm_num) (by norm_num) hnonneg ?_⟩
  rw [hM, div_le_iff₀ (by norm_num)]
  norm_num
  linarith

/-- What is scaled to a range of up to `2 ^ 31` numbers stays below the range. -/
theorem floor_scaled_lt (v : StreamValue) {r : ℕ} (hpos : 0 < r) (hr : r ≤ 2 ^ 31) :
    0 ≤ ⌊dbl (dbl (v / nM) * r)⌋ ∧ ⌊dbl (dbl (v / nM) * r)⌋ < r := by
  obtain ⟨hlow, hhigh⟩ := dbl_div_modulus v
  have hnonneg : 0 ≤ dbl (v / nM) * r := by positivity
  have hrq : (0 : ℚ) < r := by exact_mod_cast hpos
  refine ⟨Int.floor_nonneg.mpr (rounded_nonneg (by norm_num) hnonneg), Int.floor_lt.mpr ?_⟩
  rcases lt_or_ge r (2 ^ 22) with hsmall | hlarge
  · -- the exact product with the largest factor still has 53 digits
    have hbound : dbl (v / nM) * r ≤ (r * (2 ^ 31 - 1) : ℕ) * 2 ^ (-31 : ℤ) := by
      calc dbl (v / nM) * r ≤ (2 ^ 31 - 1 : ℕ) * 2 ^ (-31 : ℤ) * r := by gcongr
        _ = (r * (2 ^ 31 - 1) : ℕ) * 2 ^ (-31 : ℤ) := by
            push_cast
            ring
    refine (rounded_le (-31) (by norm_num) (by omega) hnonneg hbound).trans_lt ?_
    push_cast
    norm_num
    linarith
  · -- the product is below the range by at least one unit that the range has digits for
    have hlargeq : (2 ^ 22 : ℚ) ≤ r := by exact_mod_cast hlarge
    have hcast : ((r * 2 ^ 9 - 1 : ℕ) : ℚ) = r * 2 ^ 9 - 1 := by
      rw [Nat.cast_sub (by omega)]
      push_cast
      ring
    have hbound : dbl (v / nM) * r ≤ (r * 2 ^ 9 - 1 : ℕ) * 2 ^ (-9 : ℤ) := by
      calc dbl (v / nM) * r ≤ (2 ^ 31 - 1 : ℕ) * 2 ^ (-31 : ℤ) * r := by gcongr
        _ ≤ (r * 2 ^ 9 - 1 : ℕ) * 2 ^ (-9 : ℤ) := by
            rw [hcast]
            norm_num
            linarith
    refine (rounded_le (-9) (by norm_num) (by omega) hnonneg hbound).trans_lt ?_
    rw [hcast]
    norm_num
    linarith

/-- **A draw is between its bounds.** -/
theorem unif_mem {nLow nHigh : ℤ} (v : StreamValue) (h : nLow ≤ nHigh)
    (hrange : nHigh - nLow < 2 ^ 31) : nLow ≤ unif nLow nHigh v ∧ unif nLow nHigh v ≤ nHigh := by
  obtain ⟨k, hk⟩ := Int.eq_ofNat_of_zero_le (sub_nonneg.mpr h)
  have hr : ((nHigh : ℚ) - nLow + 1) = ((k + 1 : ℕ) : ℚ) := by
    have : nHigh = nLow + k := by omega
    rw [this]
    push_cast
    ring
  have hk31 : k + 1 ≤ 2 ^ 31 := by omega
  have hexact : dbl ((k + 1 : ℕ) : ℚ) = ((k + 1 : ℕ) : ℚ) := dbl_natCast (by omega)
  have hfloor := floor_scaled_lt v (r := k + 1) (Nat.succ_pos k) hk31
  simp only [unif, if_neg (not_lt.mpr h), hr, hexact]
  omega

/-! ## A row -/

/-- **After a row** the streams of its table are at their boundaries, however much the row
drew, and the other ones where the draws have left them. -/
theorem rowStop_value (t : ℤ) (n : Draws) (σ : Streams) (s : StreamId)
    (hn : n (some s) < nM) :
    (rowStop t (n +ᵥ rowStart σ) s).value =
      StreamValue.next^[(if Owned t s then (seed s).boundary.toNat else n (some s))
        + n.uncounted s] (σ s).value := by
  have hpos := boundary_pos s
  have hlt := boundary_lt s
  have hM : nM = 2147483647 := rfl
  unfold rowStop
  split_ifs with h
  · change StreamValue.advance _ (((n +ᵥ rowStart σ) s).value) = _
    rw [vadd_value, vadd_usage]
    simp only [rowStart, zero_add]
    rw [StreamValue.advance_iterate _ (by omega) (by omega) (by push_cast; omega)]
    congr 1
    push_cast
    omega
  · rfl

end Structor.Dbgen
