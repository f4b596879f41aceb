import Mathlib.Data.Set.Card
import Structor.Dbgen.Seeds
import Structor.Dbgen.SparseKeys

/-!
# The update sets of the star schema data generator

An update set inserts some orders and deletes as many: the keys of the new orders carry the
number of the update in the two bits that the sparse keys leave free, and the keys to delete
go to a file, one by one or as ranges.

## Main results

* `covers_prDrange` -- the keys that a delete file covers
* `update_fits` -- an update set fits the table that the earlier ones have left
* `ncard_refreshed` -- the size of the table after any number of update sets
-/
namespace Structor.Dbgen

open Structor.Python

/-! ## Insertions -/

/-- `rowcnt` of `main`: `(int)(fix1 * scale * refresh)`, where `fix1` is a whole number. -/
def updateRows (scale refresh : ℕ) : ℕ := (tdefs line).base / 10000 * scale * refresh

/-- The two bits that `gen_tbl` gives the orders of an update. -/
def insertSeq (refresh updNum : ℕ) : ℕ := orderSeq refresh (updNum % 10000)

/-- The order keys of `gen_tbl`. -/
def genKeys (scale refresh start count updNum : ℕ) : List Huge :=
  (List.range count).map fun k => mkSparse scale (start + k) (insertSeq refresh updNum)

theorem genKeys_eq (scale refresh start count updNum : ℕ) :
    genKeys scale refresh start count updNum =
      (List.range' start count).map fun i => mkSparse scale i (insertSeq refresh updNum) := by
  rw [genKeys, List.range'_eq_map_range, List.map_map]
  rfl

/-! ## Deletions -/

inductive DeleteLine
  | key (new : ℤ)
  | range (start last : ℤ)
  | sql (start last : ℤ)
deriving DecidableEq

/-- `DATE` has the number of `ORDER`, so the first table is the date table. -/
def DeleteLine.text : DeleteLine → Str
  | .key new => decimal new ++ "\n".toList
  | .range start last => decimal start ++ "|".toList ++ decimal last ++ "|\n".toList
  | .sql start last =>
      "delete from date.tbl where o_orderkey between ".toList ++ decimal start ++ " and ".toList
        ++ decimal last ++ ";\ndelete from lineorder.tbl where l_orderkey between ".toList
        ++ decimal start ++ " and ".toList ++ decimal last ++ ";\ncommit work;\n".toList

/-- The loop of `pr_drange` over the children, without segments. -/
def drangeLoop (genSql genRng : Bool) (seq : ℕ) : ℕ → ℕ → ℤ → ℤ → List DeleteLine
  | 0, _, start, last => if genRng then [.range start last] else []
  | cnt + 1, child, start, last =>
      let new : ℤ := mkSparseMacro child seq
      if genRng ∧ new - last = 1 then drangeLoop genSql genRng seq cnt (child + 1) start new
      else
        (if genSql then .sql start last else if genRng then .range start last else .key new) ::
          drangeLoop genSql genRng seq cnt (child + 1) new new

def prDrange (genSql genRng : Bool) (refresh min cnt num : ℕ) : List DeleteLine :=
  let seq := (num - 1) / (10000 / refresh)
  let start : ℤ := mkSparseMacro min seq
  drangeLoop genSql genRng seq cnt min start (start - 1)

/-- The keys that a line deletes. -/
def DeleteLine.covers : DeleteLine → Set ℤ
  | .key new => {new}
  | .range start last => Set.Icc start last
  | .sql start last => Set.Icc start last

def covers (lines : List DeleteLine) : Set ℤ := {k | ∃ l ∈ lines, k ∈ l.covers}

@[simp] theorem covers_nil : covers [] = ∅ := by
  simp [covers]

@[simp] theorem covers_cons (l : DeleteLine) (lines : List DeleteLine) :
    covers (l :: lines) = l.covers ∪ covers lines := by
  ext k
  simp [covers]

/-- The keys of `cnt` children from `child` on. -/
def childKeys (seq child cnt : ℕ) : Set ℤ :=
  {k | ∃ i, child ≤ i ∧ i < child + cnt ∧ k = mkSparseMacro i seq}

@[simp] theorem childKeys_zero (seq child : ℕ) : childKeys seq child 0 = ∅ := by
  ext k
  simp [childKeys]
  omega

theorem childKeys_succ (seq child cnt : ℕ) :
    childKeys seq child (cnt + 1) = {(mkSparseMacro child seq : ℤ)} ∪
      childKeys seq (child + 1) cnt := by
  ext k
  simp only [childKeys, Set.mem_ofPred_eq, Set.mem_union, Set.mem_singleton_iff]
  constructor
  · rintro ⟨i, hlow, hhigh, rfl⟩
    rcases hlow.eq_or_lt with rfl | h
    · exact .inl rfl
    · exact .inr ⟨i, h, by omega, rfl⟩
  · rintro (rfl | ⟨i, hlow, hhigh, rfl⟩)
    · exact ⟨child, le_rfl, by omega, rfl⟩
    · exact ⟨i, by omega, by omega, rfl⟩

theorem Icc_union_next {start last : ℤ} (h : start ≤ last + 1) :
    Set.Icc start last ∪ {last + 1} = Set.Icc start (last + 1) := by
  ext k
  simp only [Set.mem_union, Set.mem_Icc, Set.mem_singleton_iff]
  omega

/-- With ranges the loop covers the range it has open and the keys of the children. -/
theorem covers_drangeLoop_rng (genSql : Bool) (seq : ℕ) {cnt child : ℕ} {start last : ℤ}
    (h : start ≤ last + 1) :
    covers (drangeLoop genSql true seq cnt child start last) =
      Set.Icc start last ∪ childKeys seq child cnt := by
  induction cnt generalizing child start last with
  | zero => simp [drangeLoop, DeleteLine.covers]
  | succ cnt ih =>
      rw [drangeLoop, childKeys_succ, ← Set.union_assoc]
      by_cases hnext : (mkSparseMacro child seq : ℤ) - last = 1
      · have hnew : (mkSparseMacro child seq : ℤ) = last + 1 := by omega
        simp only [hnext, and_self, if_true]
        rw [hnew, ih (by omega), Icc_union_next h]
      · simp only [hnext, and_false, if_false, covers_cons]
        have hline : (if genSql = true then DeleteLine.sql start last
            else if True then .range start last else .key (mkSparseMacro child seq)).covers =
              Set.Icc start last := by
          cases genSql <;> rfl
        rw [hline, ih (by omega), Set.Icc_self, Set.union_assoc]

/-- Without ranges and SQL each key has a line. -/
theorem covers_drangeLoop_keys (seq cnt child : ℕ) (start last : ℤ) :
    covers (drangeLoop false false seq cnt child start last) = childKeys seq child cnt := by
  induction cnt generalizing child start last with
  | zero => simp [drangeLoop]
  | succ cnt ih =>
      rw [drangeLoop, childKeys_succ]
      simp [ih, DeleteLine.covers]

/-- In SQL without ranges a line has the key before the child. -/
theorem covers_drangeLoop_sql (seq cnt child : ℕ) (start last : ℤ) :
    covers (drangeLoop true false seq (cnt + 1) child start last) =
      Set.Icc start last ∪ childKeys seq child cnt := by
  induction cnt generalizing child start last with
  | zero => simp [drangeLoop, DeleteLine.covers]
  | succ cnt ih =>
      rw [drangeLoop, childKeys_succ]
      simp only [Bool.false_eq_true, false_and, if_false, covers_cons, ih, Set.Icc_self]
      rfl

/-- **The keys that a delete file covers.** In SQL without ranges the last key is missing. -/
theorem covers_prDrange (genSql genRng : Bool) (refresh min cnt num : ℕ) :
    covers (prDrange genSql genRng refresh min cnt num) =
      childKeys ((num - 1) / (10000 / refresh)) min
        (if genSql ∧ genRng = false then cnt - 1 else cnt) := by
  unfold prDrange
  cases genRng with
  | true => simp [covers_drangeLoop_rng]
  | false =>
      cases genSql with
      | false => simp [covers_drangeLoop_keys]
      | true =>
          cases cnt with
          | zero => simp [drangeLoop]
          | succ cnt => simp [covers_drangeLoop_sql]

/-! ## The table after some update sets -/

section Refresh

variable (genSql genRng : Bool) (scale refresh : ℕ)

/-- The numbers of the orders at the scale. -/
def orderRows : ℕ := (tdefs line).base * scale

/-- The numbers that are printed for some keys. -/
def keySet (keys : List Huge) : Set ℤ := {k | ∃ h ∈ keys, k = h.2 * 10 ^ 7 + h.1}

def insertedKeys (num : ℕ) : Set ℤ :=
  let rowcnt := updateRows scale refresh
  keySet (genKeys scale refresh ((num - 1) * rowcnt + 1) rowcnt num)

def deletedKeys (num : ℕ) : Set ℤ :=
  let rowcnt := updateRows scale refresh
  covers (prDrange genSql genRng refresh ((num - 1) * rowcnt + 1) rowcnt num)

/-- The order keys of the table after the update sets up to a number. A set is loaded with
the insertions first. -/
def refreshed : ℕ → Set ℤ
  | 0 => keySet (genKeys scale refresh 1 (orderRows scale) 0)
  | n + 1 =>
      (refreshed n ∪ insertedKeys scale refresh (n + 1)) \
        deletedKeys genSql genRng scale refresh (n + 1)

/-- The keys of some orders, with the two bits of each. -/
def keysOf (P : ℕ → ℕ → Prop) : Set ℤ := {k | ∃ i s, s < 4 ∧ P i s ∧ k = keyNumber scale i s}

end Refresh

section Keys

variable {scale : ℕ} {P Q : ℕ → ℕ → Prop}

theorem keysOf_congr (h : ∀ i s, s < 4 → (P i s ↔ Q i s)) : keysOf scale P = keysOf scale Q := by
  ext k
  constructor
  · rintro ⟨i, s, hs, hP, rfl⟩
    exact ⟨i, s, hs, (h i s hs).mp hP, rfl⟩
  · rintro ⟨i, s, hs, hQ, rfl⟩
    exact ⟨i, s, hs, (h i s hs).mpr hQ, rfl⟩

theorem keysOf_union : keysOf scale P ∪ keysOf scale Q = keysOf scale fun i s => P i s ∨ Q i s := by
  ext k
  constructor
  · rintro (⟨i, s, hs, h, rfl⟩ | ⟨i, s, hs, h, rfl⟩)
    · exact ⟨i, s, hs, .inl h, rfl⟩
    · exact ⟨i, s, hs, .inr h, rfl⟩
  · rintro ⟨i, s, hs, h | h, rfl⟩
    · exact .inl ⟨i, s, hs, h, rfl⟩
    · exact .inr ⟨i, s, hs, h, rfl⟩

section Small

variable (hscale : scale < max32bScale)

include hscale

theorem mem_keysOf {i s : ℕ} (hs : s < 4) : (keyNumber scale i s : ℤ) ∈ keysOf scale P ↔ P i s := by
  constructor
  · rintro ⟨j, t, ht, hP, hkey⟩
    obtain ⟨rfl, rfl⟩ := (keyNumber_inj_of_small hscale hs ht).mp (by exact_mod_cast hkey)
    exact hP
  · exact fun h => ⟨i, s, hs, h, rfl⟩

theorem keysOf_sdiff :
    keysOf scale P \ keysOf scale Q = keysOf scale fun i s => P i s ∧ ¬ Q i s := by
  ext k
  constructor
  · rintro ⟨⟨i, s, hs, hP, rfl⟩, hQ⟩
    exact ⟨i, s, hs, ⟨hP, fun h => hQ ((mem_keysOf hscale hs).mpr h)⟩, rfl⟩
  · rintro ⟨i, s, hs, ⟨hP, hQ⟩, rfl⟩
    exact ⟨⟨i, s, hs, hP, rfl⟩, fun h => hQ ((mem_keysOf hscale hs).mp h)⟩

theorem disjoint_keysOf (h : ∀ i s, s < 4 → P i s → ¬ Q i s) :
    Disjoint (keysOf scale P) (keysOf scale Q) := by
  rw [Set.disjoint_left]
  rintro _ ⟨i, s, hs, hP, rfl⟩ hQ
  exact h i s hs hP ((mem_keysOf hscale hs).mp hQ)

end Small

end Keys

section Run

variable {genSql genRng : Bool} {scale refresh : ℕ}

theorem updateRows_eq : updateRows scale refresh = 150 * scale * refresh := rfl

theorem orderRows_eq : orderRows scale = 1500000 * scale := rfl

/-- The deletions do not run out of orders before `10000 / refresh` sets. -/
theorem updateRows_mul_le (scale refresh : ℕ) :
    10000 / refresh * updateRows scale refresh ≤ orderRows scale := by
  have h : 10000 / refresh * refresh ≤ 10000 := Nat.div_mul_le_self 10000 refresh
  calc 10000 / refresh * updateRows scale refresh
      = 150 * scale * (10000 / refresh * refresh) := by
        rw [updateRows_eq]
        ring
    _ ≤ 150 * scale * 10000 := Nat.mul_le_mul_left _ h
    _ = orderRows scale := by
        rw [orderRows_eq]
        ring

/-- The orders of the table after the update sets up to `n`: those of the first data that were
not deleted, and all that were inserted. -/
def HasRow (scale refresh n i s : ℕ) : Prop :=
  (s = 0 ∧ min n (10000 / refresh) * updateRows scale refresh < i ∧ i ≤ orderRows scale) ∨
    (1 ≤ i ∧ i ≤ n * updateRows scale refresh ∧
      s = insertSeq refresh ((i - 1) / updateRows scale refresh + 1))

/-- The orders of update set `n + 1`. -/
def InSet (scale refresh n i : ℕ) : Prop :=
  n * updateRows scale refresh < i ∧ i ≤ (n + 1) * updateRows scale refresh

theorem insertSeq_succ (refresh : ℕ) {n : ℕ} (h : n + 1 < 10000) :
    insertSeq refresh (n + 1) = 1 + (n + 1) / (10000 / refresh) := by
  rw [insertSeq, orderSeq, Nat.mod_eq_of_lt h, if_neg (Nat.succ_ne_zero n)]

/-- The update set of an order. -/
theorem InSet.div_eq {n i : ℕ} (h : InSet scale refresh n i) :
    (i - 1) / updateRows scale refresh = n := by
  obtain ⟨hlow, hhigh⟩ := h
  exact Nat.div_eq_of_lt_le (by omega) (by omega)

/-- What the update set after the first `n` does to the orders. -/
theorem hasRow_succ {n : ℕ} (hrefresh : 0 < 10000 / refresh) (hn : n + 1 < 10000) (i s : ℕ)
    (hbits : n / (10000 / refresh) < 4) :
    (HasRow scale refresh n i s ∨ InSet scale refresh n i ∧ s = insertSeq refresh (n + 1)) ∧
        ¬ (InSet scale refresh n i ∧ s = n / (10000 / refresh) % 4) ↔
      HasRow scale refresh (n + 1) i s := by
  have hseq := insertSeq_succ refresh hn
  have hset := fun h : InSet scale refresh n i => h.div_eq
  have hmono : n / (10000 / refresh) ≤ (n + 1) / (10000 / refresh) :=
    Nat.div_le_div_right (Nat.le_succ n)
  have hsmall : n < 10000 / refresh → n / (10000 / refresh) = 0 := Nat.div_eq_of_lt
  have hlarge : 10000 / refresh ≤ n → 1 ≤ n / (10000 / refresh) := fun h =>
    (Nat.one_le_div_iff hrefresh).mpr h
  have hle := updateRows_mul_le scale refresh
  have hmin : min (n + 1) (10000 / refresh) * updateRows scale refresh =
      if n < 10000 / refresh then n * updateRows scale refresh + updateRows scale refresh
      else 10000 / refresh * updateRows scale refresh := by
    split_ifs with h
    · rw [min_eq_left h, Nat.add_mul, one_mul]
    · rw [min_eq_right (by omega)]
  have hmin' : min n (10000 / refresh) * updateRows scale refresh =
      if n < 10000 / refresh then n * updateRows scale refresh
      else 10000 / refresh * updateRows scale refresh := by
    split_ifs with h
    · rw [min_eq_left h.le]
    · rw [min_eq_right (by omega)]
  simp only [HasRow, hmin, hmin']
  simp only [InSet, Nat.add_mul, one_mul] at hset ⊢
  rw [Nat.mod_eq_of_lt hbits]
  generalize updateRows scale refresh = r at hset hle ⊢
  by_cases hi : n * r < i ∧ i ≤ n * r + r
  · -- an order of the set: its new version is there, the old one is not
    rw [hset hi, hseq]
    clear hset hseq hmin hmin'
    generalize (n + 1) / (10000 / refresh) = b at hmono ⊢
    by_cases hfirst : n < 10000 / refresh
    · simp only [if_pos hfirst, hsmall hfirst]
      omega
    · have := hlarge (not_lt.mp hfirst)
      simp only [if_neg hfirst]
      generalize n / (10000 / refresh) = a at *
      omega
  · split_ifs <;> omega

/-- The updates for which the two bits are enough. -/
def Counted (refresh n : ℕ) : Prop := n < 3 * (10000 / refresh) ∧ n < 10000

theorem Counted.insertSeq_lt {n : ℕ} (h : Counted refresh (n + 1)) :
    insertSeq refresh (n + 1) < 4 := by
  have hdiv : (n + 1) / (10000 / refresh) < 3 :=
    (Nat.div_lt_iff_lt_mul (by have := h.1; omega)).mpr h.1
  rw [insertSeq_succ refresh h.2]
  omega

variable (hscale : scale < max32bScale)

include hscale

/-- The keys that orders with these numbers and bits have. -/
theorem keySet_mkSparse {start count seq : ℕ} (hseq : seq < 4) :
    keySet ((List.range' start count).map fun i => mkSparse scale i seq) =
      keysOf scale fun i s => start ≤ i ∧ i < start + count ∧ s = seq := by
  have hkey : ∀ i, mkSparse scale i seq = (keyNumber scale i seq, 0) := fun i => by
    rw [mkSparse_eq fun h => absurd hscale (not_lt.mpr h), if_pos hscale]
  ext k
  simp only [keySet, keysOf, List.mem_map, List.mem_range'_1, Set.mem_ofPred_eq]
  constructor
  · rintro ⟨_, ⟨i, hi, rfl⟩, rfl⟩
    exact ⟨i, seq, hseq, ⟨hi.1, hi.2, rfl⟩, by simp [hkey]⟩
  · rintro ⟨i, s, hs, ⟨hlow, hhigh, rfl⟩, rfl⟩
    exact ⟨_, ⟨i, ⟨hlow, hhigh⟩, rfl⟩, by simp [hkey]⟩

theorem keySet_genKeys {start count updNum : ℕ} (hseq : insertSeq refresh updNum < 4) :
    keySet (genKeys scale refresh start count updNum) =
      keysOf scale fun i s => start ≤ i ∧ i < start + count ∧ s = insertSeq refresh updNum := by
  rw [genKeys_eq]
  exact keySet_mkSparse hscale hseq

theorem childKeys_eq (seq child cnt : ℕ) :
    childKeys seq child cnt =
      keysOf scale fun i s => child ≤ i ∧ i < child + cnt ∧ s = seq % 4 := by
  have hkey : ∀ i, mkSparseMacro i seq = keyNumber scale i (seq % 4) := fun i => by
    rw [mkSparseMacro_eq, keyNumber, lowPart, if_pos hscale]
  ext k
  constructor
  · rintro ⟨i, hlow, hhigh, rfl⟩
    exact ⟨i, seq % 4, Nat.mod_lt _ (by norm_num), ⟨hlow, hhigh, rfl⟩, by rw [hkey]⟩
  · rintro ⟨i, s, hs, ⟨hlow, hhigh, rfl⟩, rfl⟩
    exact ⟨i, hlow, hhigh, by rw [hkey]⟩

/-- The children of a set have the keys of the orders with their numbers and the bits. -/
theorem childKeys_eq_keySet (seq child cnt : ℕ) :
    childKeys seq child cnt =
      keySet ((List.range' child cnt).map fun i => mkSparse scale i (seq % 4)) := by
  rw [childKeys_eq hscale, keySet_mkSparse hscale (Nat.mod_lt seq four_pos)]

theorem insertedKeys_eq {n : ℕ} (hseq : insertSeq refresh (n + 1) < 4) :
    insertedKeys scale refresh (n + 1) =
      keysOf scale fun i s => InSet scale refresh n i ∧ s = insertSeq refresh (n + 1) := by
  rw [insertedKeys, keySet_genKeys hscale hseq, Nat.add_sub_cancel]
  refine keysOf_congr fun i s _ => ?_
  rw [InSet, Nat.add_mul, one_mul]
  omega

theorem deletedKeys_eq (hmode : genSql = false ∨ genRng = true) (n : ℕ) :
    deletedKeys genSql genRng scale refresh (n + 1) =
      keysOf scale fun i s => InSet scale refresh n i ∧ s = n / (10000 / refresh) % 4 := by
  have hnot : ¬ (genSql = true ∧ genRng = false) := by
    rcases hmode with h | h <;> simp [h]
  rw [deletedKeys, covers_prDrange, if_neg hnot, childKeys_eq hscale, Nat.add_sub_cancel]
  refine keysOf_congr fun i s _ => ?_
  rw [InSet, Nat.add_mul, one_mul]
  omega

/-- **The table after some update sets.** -/
theorem refreshed_eq (hmode : genSql = false ∨ genRng = true) {n : ℕ} (hn : Counted refresh n) :
    refreshed genSql genRng scale refresh n = keysOf scale (HasRow scale refresh n) := by
  induction n with
  | zero =>
      have hzero : insertSeq refresh 0 = 0 := rfl
      rw [refreshed, keySet_genKeys hscale (by rw [hzero]; norm_num), hzero]
      refine keysOf_congr fun i s _ => ?_
      rw [HasRow, Nat.zero_min, Nat.zero_mul]
      omega
  | succ n ih =>
      have hprev : Counted refresh n := ⟨by have := hn.1; omega, by have := hn.2; omega⟩
      have hrefresh : 0 < 10000 / refresh := by
        have := hn.1
        omega
      have hbits : n / (10000 / refresh) < 4 := by
        rw [Nat.div_lt_iff_lt_mul hrefresh]
        have := hn.1
        omega
      rw [refreshed, ih hprev, insertedKeys_eq hscale hn.insertSeq_lt,
        deletedKeys_eq hscale hmode, keysOf_union, keysOf_sdiff hscale]
      exact keysOf_congr fun i s _ => hasRow_succ hrefresh hn.2 i s hbits

/-- Orders that are there once have as many keys. -/
theorem ncard_keysOf (orders : Finset ℕ) (bits : ℕ → ℕ) (hbits : ∀ i ∈ orders, bits i < 4) :
    (keysOf scale fun i s => i ∈ orders ∧ s = bits i).Finite ∧
      (keysOf scale fun i s => i ∈ orders ∧ s = bits i).ncard = orders.card := by
  have himage : (keysOf scale fun i s => i ∈ orders ∧ s = bits i) =
      (fun i => (keyNumber scale i (bits i) : ℤ)) '' orders := by
    ext k
    constructor
    · rintro ⟨i, _, _, ⟨hi, rfl⟩, rfl⟩
      exact ⟨i, hi, rfl⟩
    · rintro ⟨i, hi, rfl⟩
      exact ⟨i, bits i, hbits i hi, ⟨hi, rfl⟩, rfl⟩
  have hinj : Set.InjOn (fun i => (keyNumber scale i (bits i) : ℤ)) orders := by
    intro i hi j hj h
    have hkey : keyNumber scale i (bits i) = keyNumber scale j (bits j) := Int.ofNat_inj.mp h
    exact ((keyNumber_inj_of_small hscale (hbits i hi) (hbits j hj)).mp hkey).1
  rw [himage]
  exact ⟨orders.finite_toSet.image _, by rw [hinj.ncard_image, Set.ncard_coe_finset]⟩

omit hscale in
/-- The bits of an inserted order are not those of the first data. -/
theorem Counted.bits_mem {n i : ℕ} (hn : Counted refresh n)
    (hi : i ∈ Finset.Icc 1 (n * updateRows scale refresh)) :
    0 < insertSeq refresh ((i - 1) / updateRows scale refresh + 1) ∧
      insertSeq refresh ((i - 1) / updateRows scale refresh + 1) < 4 := by
  obtain ⟨hone, hlast⟩ := Finset.mem_Icc.mp hi
  have hset : (i - 1) / updateRows scale refresh < n := by
    rw [Nat.div_lt_iff_lt_mul (Nat.pos_of_ne_zero fun h => by rw [h] at hlast; omega)]
    omega
  have hcounted : Counted refresh ((i - 1) / updateRows scale refresh + 1) :=
    ⟨by have := hn.1; omega, by have := hn.2; omega⟩
  refine ⟨?_, hcounted.insertSeq_lt⟩
  rw [insertSeq_succ refresh hcounted.2]
  exact Nat.add_pos_left one_pos _

/-- **The size of the table.** It stays the same while the deletions find their orders. -/
theorem ncard_refreshed (hmode : genSql = false ∨ genRng = true) {n : ℕ}
    (hn : Counted refresh n) :
    (refreshed genSql genRng scale refresh n).ncard =
      orderRows scale + (n - 10000 / refresh) * updateRows scale refresh := by
  have hrows : keysOf scale (HasRow scale refresh n) =
      (keysOf scale fun i s => i ∈ Finset.Ioc (min n (10000 / refresh) * updateRows scale refresh)
        (orderRows scale) ∧ s = 0) ∪
      keysOf scale fun i s => i ∈ Finset.Icc 1 (n * updateRows scale refresh) ∧
        s = insertSeq refresh ((i - 1) / updateRows scale refresh + 1) := by
    rw [keysOf_union]
    refine keysOf_congr fun i s _ => ?_
    rw [HasRow, Finset.mem_Ioc, Finset.mem_Icc]
    tauto
  obtain ⟨hold, hcount⟩ := ncard_keysOf hscale
    (Finset.Ioc (min n (10000 / refresh) * updateRows scale refresh) (orderRows scale))
    (fun _ => 0) fun _ _ => four_pos
  obtain ⟨hnew, hcount'⟩ := ncard_keysOf hscale (Finset.Icc 1 (n * updateRows scale refresh))
    (fun i => insertSeq refresh ((i - 1) / updateRows scale refresh + 1))
    fun i hi => (hn.bits_mem hi).2
  rw [refreshed_eq hscale hmode hn, hrows, Set.ncard_union_eq ?_ hold hnew, hcount, hcount',
    Nat.card_Ioc, Nat.card_Icc]
  · have hle := updateRows_mul_le scale refresh
    rcases le_total n (10000 / refresh) with h | h
    · have hn' : n * updateRows scale refresh ≤ 10000 / refresh * updateRows scale refresh :=
        Nat.mul_le_mul_right _ h
      rw [min_eq_left h, Nat.sub_eq_zero_of_le h]
      omega
    · rw [min_eq_right h, Nat.sub_mul]
      have hn' : 10000 / refresh * updateRows scale refresh ≤ n * updateRows scale refresh :=
        Nat.mul_le_mul_right _ h
      omega
  · refine disjoint_keysOf hscale fun i s _ hfirst hinserted => ?_
    have hpos := (hn.bits_mem hinserted.1).1
    rw [← hinserted.2, hfirst.2] at hpos
    exact lt_irrefl 0 hpos

end Run

end Structor.Dbgen
