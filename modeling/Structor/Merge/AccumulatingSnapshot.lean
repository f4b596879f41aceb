import Mathlib.Data.List.ReduceOption
import Structor.Lists
import Structor.Sql.Merge
import Structor.Text

/-!
# The accumulating snapshot of order fulfillment

Each run merges a snapshot of the operational system into the fact table. The
dates become keys of the date dimension, the lags are computed from the dates,
and a fact row is updated only when a checksum over its order number and date keys
differs from the one of the snapshot.

## Main definitions

* `OpSystemSnapshot`, `OrderFulfillment`, `DateDim`: the tables.
* `sksSubstituted`, `sub`: the source of the merge.
* `mergeOrders`: the fact table after one run.
-/
namespace Structor.Accumulating

open Sql

/-- The five milestones of an order, as dates or as keys of the date dimension. -/
structure Milestones where
  order : Option ℤ
  backlog : Option ℤ
  rtm : Option ℤ
  finishedInv : Option ℤ
  ship : Option ℤ
  deriving DecidableEq

namespace Milestones

def map (f : Option ℤ → Option ℤ) (m : Milestones) : Milestones :=
  ⟨f m.order, f m.backlog, f m.rtm, f m.finishedInv, f m.ship⟩

def toList (m : Milestones) : List (Option ℤ) := [m.order, m.backlog, m.rtm, m.finishedInv, m.ship]

/-- The columns of a row that the outer join did not match. -/
def null : Milestones := ⟨none, none, none, none, none⟩

theorem toList_injective {m n : Milestones} (h : m.toList = n.toList) : m = n := by
  cases m; cases n
  simpa [toList] using h

@[simp] theorem toList_map (f : Option ℤ → Option ℤ) (m : Milestones) :
    (m.map f).toList = m.toList.map f := rfl

end Milestones

structure Lags where
  orderToMfg : Option ℤ
  mfgToInv : Option ℤ
  invToShip : Option ℤ
  orderToShip : Option ℤ
  deriving DecidableEq

/-- `extract(day from a - b)`, with dates in days. -/
def dayDiff : Option ℤ → Option ℤ → Option ℤ
  | some a, some b => some (a - b)
  | _, _ => none

def lagsOf (dates : Milestones) : Lags where
  orderToMfg := dayDiff dates.rtm dates.order
  mfgToInv := dayDiff dates.finishedInv dates.rtm
  invToShip := dayDiff dates.ship dates.finishedInv
  orderToShip := dayDiff dates.ship dates.order

/-- A row of `op_system_snapshot`, whose order number is not NULL. -/
structure SnapshotRow where
  opOrderNumber : ℤ
  opCustomer : Option ℤ
  opProduct : Option ℤ
  opDates : Milestones
  deriving DecidableEq

structure OpSystemSnapshot where
  rows : List SnapshotRow
  number_nodup : (rows.map (·.opOrderNumber)).Nodup

/-- A row of the fact table. -/
structure OrderFulfillment where
  dateSks : Milestones
  customerKey : Option ℤ
  productKey : Option ℤ
  orderNumber : Option ℤ
  lags : Lags
  deriving DecidableEq

/-- The two columns of `date_dim` that the merge reads. -/
structure DateDim where
  id : Option ℤ
  calDate : Option ℤ
  deriving DecidableEq

/-! ## The source of the merge -/

/-- A snapshot row with the keys and lags of its dates. -/
structure Sks where
  opOrderNumber : ℤ
  opCustomer : Option ℤ
  opProduct : Option ℤ
  opDateSks : Milestones
  opLags : Lags
  deriving DecidableEq

def onDate (date : Option ℤ) (d : DateDim) : Truth := Truth.nullSafeEq date d.calDate

/-- The snapshot joined with the date dimension once for each milestone. -/
def sksSubstituted (dateDim : List DateDim) (snapshot : OpSystemSnapshot) : List Sks :=
  let d1 := innerJoin (fun s d => onDate s.opDates.order d) snapshot.rows dateDim
  let d2 := innerJoin (fun p d => onDate p.1.opDates.backlog d) d1 dateDim
  let d3 := innerJoin (fun p d => onDate p.1.1.opDates.rtm d) d2 dateDim
  let d4 := innerJoin (fun p d => onDate p.1.1.1.opDates.finishedInv d) d3 dateDim
  let d5 := innerJoin (fun p d => onDate p.1.1.1.1.opDates.ship d) d4 dateDim
  d5.map fun p =>
    let s := p.1.1.1.1.1
    { opOrderNumber := s.opOrderNumber
      opCustomer := s.opCustomer
      opProduct := s.opProduct
      opDateSks := ⟨p.1.1.1.1.2.id, p.1.1.1.2.id, p.1.1.2.id, p.1.2.id, p.2.id⟩
      opLags := lagsOf s.opDates }

/-- `concat_ws` skips its NULL arguments. -/
def concatWs (separator : Char) (parts : List (Option Str)) : Str :=
  [separator].intercalate parts.reduceOption

/-- The checksummed text of an order number and its date keys. -/
def keyText (number : Option ℤ) (dateSks : Milestones) : Str :=
  concatWs 'X' ((number :: dateSks.toList).map fun k => k.map decimal)

/-- A row of the merge source. -/
structure Sub where
  sks : Sks
  opCrc : ℤ
  dwCrc : ℤ

def sub (crc32 : Str → ℤ) (dateDim : List DateDim) (snapshot : OpSystemSnapshot)
    (facts : List OrderFulfillment) : List Sub :=
  (leftJoin (fun s f => Truth.eq (some s.opOrderNumber) f.orderNumber)
    (sksSubstituted dateDim snapshot) facts).map fun p =>
      { sks := p.1
        opCrc := crc32 (keyText (some p.1.opOrderNumber) p.1.opDateSks)
        dwCrc := match p.2 with
          | none => crc32 (keyText none .null)
          | some f => crc32 (keyText f.orderNumber f.dateSks) }

/-! ## The merge -/

/-- The update lists the date keys and the lags; the insert lists every column. -/
def mergeInto : MergeInto Sub OrderFulfillment where
  on u f := Truth.eq (some u.sks.opOrderNumber) f.orderNumber
  condition u _ := Truth.ne (some u.opCrc) (some u.dwCrc)
  update u f := { f with dateSks := u.sks.opDateSks, lags := u.sks.opLags }
  insert := some fun u =>
    { dateSks := u.sks.opDateSks
      customerKey := u.sks.opCustomer
      productKey := u.sks.opProduct
      orderNumber := some u.sks.opOrderNumber
      lags := u.sks.opLags }

/-- The fact table after one run of the merge. -/
def mergeOrders (crc32 : Str → ℤ) (dateDim : List DateDim) (facts : List OrderFulfillment)
    (snapshot : OpSystemSnapshot) : List OrderFulfillment :=
  mergeInto.apply facts (sub crc32 dateDim snapshot facts)

/-! ## The date dimension -/

/-- The row of a date, or NULLs. -/
def dateRow (dateDim : List DateDim) (date : Option ℤ) : DateDim :=
  (dateDim.find? fun d => d.calDate = date).getD ⟨none, none⟩

/-- The key of a date. -/
def dateId (dateDim : List DateDim) (date : Option ℤ) : Option ℤ := (dateRow dateDim date).id

/-- One row for each date in use, with keys that are not NULL and tell dates apart. -/
structure DateDimFor (dateDim : List DateDim) (used : Option ℤ → Prop) : Prop where
  one : ∀ date, used date → (matching (onDate date) dateDim).length = 1
  nonNull : ∀ date, used date → dateId dateDim date ≠ none
  distinct : ∀ date, used date → ∀ date', used date' →
    dateId dateDim date = dateId dateDim date' → date = date'

variable {dateDim : List DateDim} {used : Option ℤ → Prop}

theorem DateDimFor.matching_eq (h : DateDimFor dateDim used) {date : Option ℤ} (hd : used date) :
    matching (onDate date) dateDim = [dateRow dateDim date] := by
  obtain ⟨d, hmatch⟩ := List.length_eq_one_iff.mp (h.one date hd)
  have hhead : (matching (onDate date) dateDim).head? = some d := by rw [hmatch]; rfl
  simp only [matching, List.head?_filter, onDate, Truth.nullSafeEq_eq_yes, eq_comm (a := date)]
    at hhead
  rw [hmatch, dateRow, hhead, Option.getD_some]

/-- A join with the date dimension on dates in use. -/
theorem innerJoin_onDate (h : DateDimFor dateDim used) {α : Type} (date : α → Option ℤ)
    (left : List α) (hl : ∀ a ∈ left, used (date a)) :
    innerJoin (fun a d => onDate (date a) d) left dateDim =
      left.map fun a => (a, dateRow dateDim (date a)) :=
  innerJoin_of_unique _ fun a ha => h.matching_eq (hl a ha)

/-- The row of the merge source for a snapshot row. -/
def derive (dateDim : List DateDim) (s : SnapshotRow) : Sks where
  opOrderNumber := s.opOrderNumber
  opCustomer := s.opCustomer
  opProduct := s.opProduct
  opDateSks := s.opDates.map (dateId dateDim)
  opLags := lagsOf s.opDates

theorem sksSubstituted_eq (h : DateDimFor dateDim used) {snapshot : OpSystemSnapshot}
    (hused : ∀ s ∈ snapshot.rows, ∀ date ∈ s.opDates.toList, used date) :
    sksSubstituted dateDim snapshot = snapshot.rows.map (derive dateDim) := by
  rw [sksSubstituted, innerJoin_onDate h (fun s : SnapshotRow => s.opDates.order),
    innerJoin_onDate h (fun p : SnapshotRow × DateDim => p.1.opDates.backlog),
    innerJoin_onDate h (fun p : (SnapshotRow × DateDim) × DateDim => p.1.1.opDates.rtm),
    innerJoin_onDate h (fun p : ((SnapshotRow × DateDim) × DateDim) × DateDim =>
      p.1.1.1.opDates.finishedInv),
    innerJoin_onDate h (fun p : (((SnapshotRow × DateDim) × DateDim) × DateDim) × DateDim =>
      p.1.1.1.1.opDates.ship)]
  · simp only [List.map_map]
    rfl
  all_goals
    try simp only [List.map_map, List.forall_mem_map]
    exact fun s hs => hused s hs _ (by simp [Milestones.toList])

/-! ## The checksummed text -/

theorem map_some_reduceOption {l : List (Option ℤ)} (h : ∀ a ∈ l, a ≠ none) :
    l.reduceOption.map some = l := by
  induction l with
  | nil => rfl
  | cons a l ih =>
      cases a with
      | none => exact absurd rfl (h none (by simp))
      | some a =>
          rw [List.reduceOption_cons_of_some, List.map_cons,
            ih fun b hb => h b (List.mem_cons_of_mem _ hb)]

/-- The parts that are not NULL are read back by splitting at the separator. -/
theorem splitOn_keyText (n : ℤ) (k : Milestones) :
    (keyText (some n) k).splitOn 'X' = (n :: k.toList.reduceOption).map decimal := by
  have hX : ∀ p ∈ (n :: k.toList.reduceOption).map decimal, 'X' ∉ p := by
    intro p hp
    rcases List.mem_map.mp hp with ⟨z, -, rfl⟩
    exact not_mem_decimal (by decide) (by decide)
  rw [keyText, concatWs, List.reduceOption_map, List.reduceOption_cons_of_some]
  exact List.splitOn_intercalate 'X' hX (by simp)

/-- Without NULLs, the text tells order numbers and date keys apart. -/
theorem keyText_injective {n n' : ℤ} {k k' : Milestones} (hk : ∀ d ∈ k.toList, d ≠ none)
    (hk' : ∀ d ∈ k'.toList, d ≠ none) (h : keyText (some n) k = keyText (some n') k') :
    n = n' ∧ k = k' := by
  have hparts : (n :: k.toList.reduceOption).map decimal =
      (n' :: k'.toList.reduceOption).map decimal := by
    rw [← splitOn_keyText, ← splitOn_keyText, h]
  have hlist : n :: k.toList.reduceOption = n' :: k'.toList.reduceOption :=
    List.map_injective_iff.mpr (fun _ _ => decimal_injective) hparts
  obtain ⟨hn, hkeys⟩ := List.cons.inj hlist
  refine ⟨hn, Milestones.toList_injective ?_⟩
  rw [← map_some_reduceOption hk, hkeys, map_some_reduceOption hk']

/-! ## One run -/

/-- What the earlier runs leave: one row for each order number, with the keys and the
lags of some dates in use. -/
structure Ledger (dateDim : List DateDim) (used : Option ℤ → Prop)
    (facts : List OrderFulfillment) : Prop where
  numbered : ∀ f ∈ facts, f.orderNumber ≠ none
  number_nodup : (facts.map (·.orderNumber)).Nodup
  derived : ∀ f ∈ facts, ∃ dates : Milestones, (∀ date ∈ dates.toList, used date) ∧
    f.dateSks = dates.map (dateId dateDim) ∧ f.lags = lagsOf dates

variable {crc32 : Str → ℤ} {facts : List OrderFulfillment} {snapshot : OpSystemSnapshot}

/-- Distinct dates in use have distinct keys. -/
theorem DateDimFor.map_injective (h : DateDimFor dateDim used) {m n : Milestones}
    (hm : ∀ date ∈ m.toList, used date) (hn : ∀ date ∈ n.toList, used date)
    (heq : m.map (dateId dateDim) = n.map (dateId dateDim)) : m = n := by
  obtain ⟨a, b, c, d, e⟩ := m
  obtain ⟨a', b', c', d', e'⟩ := n
  simp only [Milestones.toList, List.mem_cons, List.not_mem_nil, or_false, forall_eq_or_imp,
    forall_eq] at hm hn
  simp only [Milestones.map, Milestones.mk.injEq] at heq ⊢
  exact ⟨h.distinct _ hm.1 _ hn.1 heq.1, h.distinct _ hm.2.1 _ hn.2.1 heq.2.1,
    h.distinct _ hm.2.2.1 _ hn.2.2.1 heq.2.2.1, h.distinct _ hm.2.2.2.1 _ hn.2.2.2.1 heq.2.2.2.1,
    h.distinct _ hm.2.2.2.2 _ hn.2.2.2.2 heq.2.2.2.2⟩

/-- The dates of the snapshot are in use. -/
def Covers (used : Option ℤ → Prop) (snapshot : OpSystemSnapshot) : Prop :=
  ∀ s ∈ snapshot.rows, ∀ date ∈ s.opDates.toList, used date

/-- The fact row of an order, if there is one. -/
def factOf (facts : List OrderFulfillment) (n : ℤ) : Option OrderFulfillment :=
  facts.find? fun f => Truth.eq (some n) f.orderNumber = .yes

/-- The source row of a snapshot row. -/
def subOf (crc32 : Str → ℤ) (dateDim : List DateDim) (facts : List OrderFulfillment)
    (s : SnapshotRow) : Sub where
  sks := derive dateDim s
  opCrc := crc32 (keyText (some s.opOrderNumber) (s.opDates.map (dateId dateDim)))
  dwCrc := match factOf facts s.opOrderNumber with
    | none => crc32 (keyText none .null)
    | some f => crc32 (keyText f.orderNumber f.dateSks)

theorem on_subOf {s : SnapshotRow} {f : OrderFulfillment} :
    mergeInto.on (subOf crc32 dateDim facts s) f = .yes ↔ f.orderNumber = some s.opOrderNumber :=
  Truth.eq_some_eq_yes ..

theorem sub_eq (h : DateDimFor dateDim used) (hfacts : Ledger dateDim used facts)
    (hused : Covers used snapshot) :
    sub crc32 dateDim snapshot facts = snapshot.rows.map (subOf crc32 dateDim facts) := by
  rw [sub, sksSubstituted_eq h hused, leftJoin_of_atMostOne, List.map_map, List.map_map]
  · rfl
  · intro s _
    refine length_filter_le_one hfacts.number_nodup _ ?_
    intro f _ g _ hf hg
    simp only [Truth.eq_some_eq_yes, decide_eq_true_eq] at hf hg
    exact hf.trans hg.symm

theorem not_rejects (h : DateDimFor dateDim used) (hfacts : Ledger dateDim used facts)
    (hused : Covers used snapshot) :
    ¬ mergeInto.Rejects facts (sub crc32 dateDim snapshot facts) := by
  rw [sub_eq h hfacts hused]
  apply MergeInto.not_rejects_map snapshot.number_nodup
  intro s s' f hs hs'
  exact Option.some.inj ((on_subOf.mp hs).symm.trans (on_subOf.mp hs'))

/-- The snapshot row of a fact row, if there is one. -/
def rowOf (snapshot : OpSystemSnapshot) (f : OrderFulfillment) : Option SnapshotRow :=
  snapshot.rows.find? fun s => f.orderNumber = some s.opOrderNumber

/-- A fact row with the keys and lags of its snapshot row. -/
def refresh (dateDim : List DateDim) (snapshot : OpSystemSnapshot) (f : OrderFulfillment) :
    OrderFulfillment :=
  match rowOf snapshot f with
  | none => f
  | some s => { f with dateSks := s.opDates.map (dateId dateDim), lags := lagsOf s.opDates }

/-- The fact row of a new order. -/
def insertRow (dateDim : List DateDim) (s : SnapshotRow) : OrderFulfillment where
  dateSks := s.opDates.map (dateId dateDim)
  customerKey := s.opCustomer
  productKey := s.opProduct
  orderNumber := some s.opOrderNumber
  lags := lagsOf s.opDates

/-- The checksum skips an update only when the update would change nothing. -/
theorem updateRow_eq (hcrc : Function.Injective crc32) (h : DateDimFor dateDim used)
    (hfacts : Ledger dateDim used facts) (hused : Covers used snapshot) {f : OrderFulfillment}
    (hf : f ∈ facts) :
    mergeInto.updateRow (sub crc32 dateDim snapshot facts) f = refresh dateDim snapshot f := by
  have hfind : (sub crc32 dateDim snapshot facts).find? (fun u => mergeInto.on u f = .yes) =
      (rowOf snapshot f).map (subOf crc32 dateDim facts) := by
    rw [sub_eq h hfacts hused, List.find?_map, rowOf]
    congr 2
    funext s
    exact decide_eq_decide.mpr on_subOf
  rw [MergeInto.updateRow, hfind, refresh]
  cases hrow : rowOf snapshot f with
  | none => rfl
  | some s =>
      have hs : s ∈ snapshot.rows := List.mem_of_find?_eq_some hrow
      have hnumber : f.orderNumber = some s.opOrderNumber := by
        simpa using List.find?_some hrow
      have hfact : factOf facts s.opOrderNumber = some f := by
        refine find?_eq_some_of_key hfacts.number_nodup hf (by simp [hnumber]) ?_
        intro g _ hg
        simpa [hnumber] using hg
      simp only [Option.map_some]
      split
      · rfl
      · rename_i hcond
        -- Equal checksums are equal dates, and so equal lags.
        have hsame : crc32 (keyText (some s.opOrderNumber) (s.opDates.map (dateId dateDim))) =
            crc32 (keyText (some s.opOrderNumber) f.dateSks) := by
          simpa [mergeInto, subOf, hfact, hnumber, Truth.ne_eq_yes] using hcond
        obtain ⟨dates, hdates, hsks, hlags⟩ := hfacts.derived f hf
        have hnonNull : ∀ m : Milestones, (∀ date ∈ m.toList, used date) →
            ∀ d ∈ (m.map (dateId dateDim)).toList, d ≠ none := by
          intro m hm d hd
          rw [Milestones.toList_map, List.mem_map] at hd
          rcases hd with ⟨date, hdate, rfl⟩
          exact h.nonNull date (hm date hdate)
        have hkeys := (keyText_injective (hnonNull _ (hused s hs))
          (hsks ▸ hnonNull dates hdates) (hcrc hsame)).2
        have hdateEq := h.map_injective (hused s hs) hdates (hkeys.trans hsks)
        rw [hkeys, hdateEq, ← hlags]

/-- One run refreshes the orders of the snapshot and appends the new ones. -/
theorem mergeOrders_eq (hcrc : Function.Injective crc32) (h : DateDimFor dateDim used)
    (hfacts : Ledger dateDim used facts) (hused : Covers used snapshot) :
    mergeOrders crc32 dateDim facts snapshot = facts.map (refresh dateDim snapshot) ++
      (snapshot.rows.filter fun s => ∀ f ∈ facts, f.orderNumber ≠ some s.opOrderNumber).map
        (insertRow dateDim) := by
  rw [mergeOrders, MergeInto.apply_of_not_rejects (not_rejects h hfacts hused)]
  congr 1
  · exact List.map_congr_left fun f hf => updateRow_eq hcrc h hfacts hused hf
  · rw [MergeInto.inserted, MergeInto.unmatched, sub_eq h hfacts hused, List.filter_map]
    have hfilter : ∀ s ∈ snapshot.rows,
        ((fun u => decide (∀ f ∈ facts, mergeInto.on u f ≠ .yes)) ∘ subOf crc32 dateDim facts) s =
          decide (∀ f ∈ facts, f.orderNumber ≠ some s.opOrderNumber) := by
      intro s _
      exact decide_eq_decide.mpr (forall₂_congr fun f _ => not_congr on_subOf)
    rw [List.filter_congr hfilter]
    simp only [mergeInto, List.map_map]
    rfl

end Structor.Accumulating
