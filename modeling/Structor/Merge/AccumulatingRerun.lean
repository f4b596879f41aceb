import Structor.Merge.AccumulatingRuns

/-!
# Running the merge again

A second run against the same snapshot recomputes both checksums from the fact table
of the first one. Every fact row of the snapshot's orders is then settled: its checksum
is the one of the snapshot row, whatever the checksum function is.

## Main definitions

* `OnePerOrder`, `OnePerDate`: the keys of the two tables.
* `Settled`: no checksum calls for an update.
-/
namespace Structor.Accumulating

open Sql

/-- At most one fact row has an order number. Rows without one are not counted. -/
def OnePerOrder (facts : List OrderFulfillment) : Prop :=
  ∀ n : ℤ, (facts.filter fun f => f.orderNumber = some n).length ≤ 1

/-- At most one row of the date dimension has a date. -/
def OnePerDate (dateDim : List DateDim) : Prop :=
  ∀ date : Option ℤ, (dateDim.filter fun d => d.calDate = date).length ≤ 1

/-- The checksum of a fact row is the one of the source row of its order. -/
def Settled (crc32 : Str → ℤ) (sks : List Sks) (f : OrderFulfillment) : Prop :=
  ∀ s ∈ sks, f.orderNumber = some s.opOrderNumber →
    crc32 (keyText (some s.opOrderNumber) s.opDateSks) = crc32 (keyText f.orderNumber f.dateSks)

variable {crc32 : Str → ℤ} {dateDim : List DateDim} {facts : List OrderFulfillment}
  {snapshot : OpSystemSnapshot}

theorem length_matching_onDate (h : OnePerDate dateDim) (date : Option ℤ) :
    (matching (onDate date) dateDim).length ≤ 1 := by
  have hfilter : matching (onDate date) dateDim = dateDim.filter fun d => d.calDate = date :=
    List.filter_congr fun d _ => by
      simp only [onDate, Truth.nullSafeEq_eq_yes, eq_comm (a := date)]
  rw [hfilter]
  exact h date

theorem length_matching_order (h : OnePerOrder facts) (n : ℤ) :
    (matching (fun f : OrderFulfillment => Truth.eq (some n) f.orderNumber) facts).length ≤ 1 := by
  have hfilter : matching (fun f : OrderFulfillment => Truth.eq (some n) f.orderNumber) facts =
      facts.filter fun f => f.orderNumber = some n :=
    List.filter_congr fun f _ => by simp only [Truth.eq_some_eq_yes]
  rw [hfilter]
  exact h n

/-- The joins with the date dimension drop rows, but repeat none. -/
theorem nodup_sksSubstituted (h : OnePerDate dateDim) (snapshot : OpSystemSnapshot) :
    ((sksSubstituted dateDim snapshot).map (·.opOrderNumber)).Nodup := by
  have hdate := length_matching_onDate h
  have h1 := nodup_innerJoin snapshot.number_nodup fun s => hdate s.opDates.order
  have h2 := nodup_innerJoin h1 fun p => hdate p.1.opDates.backlog
  have h3 := nodup_innerJoin h2 fun p => hdate p.1.1.opDates.rtm
  have h4 := nodup_innerJoin h3 fun p => hdate p.1.1.1.opDates.finishedInv
  have h5 := nodup_innerJoin h4 fun p => hdate p.1.1.1.1.opDates.ship
  rw [sksSubstituted, List.map_map]
  exact h5

/-- The source row for the keys of a snapshot row. -/
def subRow (crc32 : Str → ℤ) (facts : List OrderFulfillment) (s : Sks) : Sub where
  sks := s
  opCrc := crc32 (keyText (some s.opOrderNumber) s.opDateSks)
  dwCrc := match factOf facts s.opOrderNumber with
    | none => crc32 (keyText none .null)
    | some f => crc32 (keyText f.orderNumber f.dateSks)

theorem sub_eq_map (h : OnePerOrder facts) : sub crc32 dateDim snapshot facts =
    (sksSubstituted dateDim snapshot).map (subRow crc32 facts) := by
  rw [sub, leftJoin_of_atMostOne fun s _ => length_matching_order h s.opOrderNumber, List.map_map]
  rfl

theorem on_subRow {s : Sks} {f : OrderFulfillment} :
    mergeInto.on (subRow crc32 facts s) f = .yes ↔ f.orderNumber = some s.opOrderNumber :=
  Truth.eq_some_eq_yes ..

theorem factOf_eq (h : OnePerOrder facts) {f : OrderFulfillment} (hf : f ∈ facts) {n : ℤ}
    (hn : f.orderNumber = some n) : factOf facts n = some f :=
  find?_eq_some_of_length_le_one (length_matching_order h n) hf (by simp [hn])

/-- A row whose checksum agrees is not updated. -/
theorem updateRow_of_settled (h : OnePerOrder facts) {f : OrderFulfillment} (hf : f ∈ facts)
    (hsettled : Settled crc32 (sksSubstituted dateDim snapshot) f) :
    mergeInto.updateRow (sub crc32 dateDim snapshot facts) f = f := by
  rw [sub_eq_map h]
  by_cases hmatched : ∃ u ∈ (sksSubstituted dateDim snapshot).map (subRow crc32 facts),
      mergeInto.on u f = .yes
  · obtain ⟨u, hu, hon⟩ := hmatched
    obtain ⟨u', hu', hon', hupdate⟩ := MergeInto.updateRow_of_matched hu hon
    obtain ⟨s, hs, rfl⟩ := List.mem_map.mp hu'
    have hn := on_subRow.mp hon'
    have hsame : (subRow crc32 facts s).opCrc = (subRow crc32 facts s).dwCrc := by
      simp only [subRow, factOf_eq h hf hn]
      exact hsettled s hs hn
    have hcond : mergeInto.condition (subRow crc32 facts s) f ≠ .yes := by
      simp [mergeInto, Truth.ne_eq_yes, hsame]
    rw [hupdate, if_neg hcond]
  · exact MergeInto.updateRow_of_unmatched fun u hu hon => hmatched ⟨u, hu, hon⟩

/-- One run keeps the order number of a fact row and settles the row: either its checksum
agrees already, or it takes the keys of its source row. -/
theorem settled_updateRow (h : OnePerOrder facts) (hdate : OnePerDate dateDim)
    {f : OrderFulfillment} (hf : f ∈ facts) :
    (mergeInto.updateRow (sub crc32 dateDim snapshot facts) f).orderNumber = f.orderNumber ∧
      Settled crc32 (sksSubstituted dateDim snapshot)
        (mergeInto.updateRow (sub crc32 dateDim snapshot facts) f) := by
  by_cases hsettled : Settled crc32 (sksSubstituted dateDim snapshot) f
  · rw [updateRow_of_settled h hf hsettled]
    exact ⟨rfl, hsettled⟩
  · obtain ⟨s, hs, hn, hdiffer⟩ : ∃ s ∈ sksSubstituted dateDim snapshot,
        f.orderNumber = some s.opOrderNumber ∧
          crc32 (keyText (some s.opOrderNumber) s.opDateSks) ≠
            crc32 (keyText f.orderNumber f.dateSks) := by
      simpa [Settled] using hsettled
    have honly : ∀ s' ∈ sksSubstituted dateDim snapshot,
        f.orderNumber = some s'.opOrderNumber → s' = s := by
      intro s' hs' hn'
      have hkey : s'.opOrderNumber = s.opOrderNumber := Option.some.inj (hn'.symm.trans hn)
      exact List.inj_on_of_nodup_map (nodup_sksSubstituted hdate snapshot) hs' hs hkey
    have hmem : subRow crc32 facts s ∈ sub crc32 dateDim snapshot facts := by
      rw [sub_eq_map h]
      exact List.mem_map_of_mem hs
    obtain ⟨u, hu, hon, hupdate⟩ := MergeInto.updateRow_of_matched hmem (on_subRow.mpr hn)
    rw [sub_eq_map h] at hu
    obtain ⟨s', hs', rfl⟩ := List.mem_map.mp hu
    obtain rfl : s' = s := honly s' hs' (on_subRow.mp hon)
    have hcond : mergeInto.condition (subRow crc32 facts s') f = .yes := by
      simp [mergeInto, Truth.ne_eq_yes, subRow, factOf_eq h hf hn, hdiffer]
    rw [hupdate, if_pos hcond]
    refine ⟨rfl, ?_⟩
    intro s'' hs'' hn''
    obtain rfl : s'' = s' := honly s'' hs'' hn''
    simp only [mergeInto, subRow, hn]

/-- The source rows match a fact row at most once each. -/
theorem not_rejects_of_onePerOrder (h : OnePerOrder facts) (hdate : OnePerDate dateDim) :
    ¬ mergeInto.Rejects facts (sub crc32 dateDim snapshot facts) := by
  rw [sub_eq_map h]
  apply MergeInto.not_rejects_map (nodup_sksSubstituted hdate snapshot)
  intro s s' f hs hs'
  exact Option.some.inj ((on_subRow.mp hs).symm.trans (on_subRow.mp hs'))

/-- The source rows of new orders. -/
def newSks (facts : List OrderFulfillment) (sks : List Sks) : List Sks :=
  sks.filter fun s => ∀ f ∈ facts, f.orderNumber ≠ some s.opOrderNumber

/-- The fact row of a new order. -/
def rowOfSks (s : Sks) : OrderFulfillment where
  dateSks := s.opDateSks
  customerKey := s.opCustomer
  productKey := s.opProduct
  orderNumber := some s.opOrderNumber
  lags := s.opLags

theorem mergeOrders_eq_append (h : OnePerOrder facts) (hdate : OnePerDate dateDim) :
    mergeOrders crc32 dateDim facts snapshot =
      facts.map (mergeInto.updateRow (sub crc32 dateDim snapshot facts)) ++
        (newSks facts (sksSubstituted dateDim snapshot)).map rowOfSks := by
  rw [mergeOrders, MergeInto.apply_of_not_rejects (not_rejects_of_onePerOrder h hdate)]
  congr 1
  rw [MergeInto.inserted, MergeInto.unmatched, sub_eq_map h, List.filter_map]
  have hfilter : ∀ s ∈ sksSubstituted dateDim snapshot,
      ((fun u => decide (∀ f ∈ facts, mergeInto.on u f ≠ .yes)) ∘ subRow crc32 facts) s =
        decide (∀ f ∈ facts, f.orderNumber ≠ some s.opOrderNumber) := by
    intro s _
    exact decide_eq_decide.mpr (forall₂_congr fun f _ => not_congr on_subRow)
  rw [List.filter_congr hfilter]
  simp only [mergeInto, List.map_map]
  rfl

/-- The next fact table again has one row for each order number. -/
theorem onePerOrder_mergeOrders (h : OnePerOrder facts) (hdate : OnePerDate dateDim) :
    OnePerOrder (mergeOrders crc32 dateDim facts snapshot) := by
  intro n
  have hkept : (facts.map (mergeInto.updateRow (sub crc32 dateDim snapshot facts))).filter
      (fun f => f.orderNumber = some n) =
      (facts.filter fun f => f.orderNumber = some n).map
        (mergeInto.updateRow (sub crc32 dateDim snapshot facts)) := by
    rw [List.filter_map]
    congr 1
    refine List.filter_congr fun f hf => ?_
    simp only [Function.comp_apply, (settled_updateRow h hdate hf).1]
  rw [mergeOrders_eq_append h hdate, List.filter_append, List.length_append, hkept,
    List.length_map, List.filter_map, List.length_map]
  have hold := h n
  by_cases hn : ∃ f ∈ facts, f.orderNumber = some n
  · obtain ⟨f, hf, hn⟩ := hn
    have hnew : (newSks facts (sksSubstituted dateDim snapshot)).filter
        ((fun f => decide (f.orderNumber = some n)) ∘ rowOfSks) = [] := by
      rw [List.filter_eq_nil_iff]
      intro s hs heq
      have hfresh := of_decide_eq_true (List.mem_filter.mp hs).2
      exact hfresh f hf (hn.trans (of_decide_eq_true heq).symm)
    rw [hnew, List.length_nil]
    omega
  · have hnone : facts.filter (fun f => f.orderNumber = some n) = [] := by
      rw [List.filter_eq_nil_iff]
      intro f hf heq
      exact hn ⟨f, hf, of_decide_eq_true heq⟩
    have hnodup : ((newSks facts (sksSubstituted dateDim snapshot)).map (·.opOrderNumber)).Nodup :=
      (nodup_sksSubstituted hdate snapshot).sublist (List.filter_sublist.map _)
    have hnew := length_filter_le_one hnodup
      ((fun f => decide (f.orderNumber = some n)) ∘ rowOfSks) (by
        intro s _ s' _ hs hs'
        have hs := of_decide_eq_true hs
        have hs' := of_decide_eq_true hs'
        exact Option.some.inj (hs.trans hs'.symm))
    rw [hnone, List.length_nil]
    omega

/-- After a run every row is settled. -/
theorem settled_of_mem_mergeOrders (h : OnePerOrder facts) (hdate : OnePerDate dateDim) :
    ∀ f ∈ mergeOrders crc32 dateDim facts snapshot,
      Settled crc32 (sksSubstituted dateDim snapshot) f := by
  rw [mergeOrders_eq_append h hdate, List.forall_mem_append]
  constructor
  · intro f hf
    obtain ⟨f', hf', rfl⟩ := List.mem_map.mp hf
    exact (settled_updateRow h hdate hf').2
  · intro f hf
    obtain ⟨s, hs, rfl⟩ := List.mem_map.mp hf
    intro s' hs' hn
    have hkey : s'.opOrderNumber = s.opOrderNumber := (Option.some.inj hn).symm
    obtain rfl : s' = s := List.inj_on_of_nodup_map (nodup_sksSubstituted hdate snapshot) hs'
      (List.mem_of_mem_filter hs) hkey
    rfl

/-- After a run every order of the source has a fact row. -/
theorem exists_of_mem_sksSubstituted (h : OnePerOrder facts) (hdate : OnePerDate dateDim) :
    ∀ s ∈ sksSubstituted dateDim snapshot, ∃ f ∈ mergeOrders crc32 dateDim facts snapshot,
      f.orderNumber = some s.opOrderNumber := by
  intro s hs
  rw [mergeOrders_eq_append h hdate]
  by_cases hold : ∃ f ∈ facts, f.orderNumber = some s.opOrderNumber
  · obtain ⟨f, hf, hn⟩ := hold
    refine ⟨mergeInto.updateRow (sub crc32 dateDim snapshot facts) f, ?_, ?_⟩
    · exact List.mem_append_left _ (List.mem_map_of_mem hf)
    · rw [(settled_updateRow h hdate hf).1, hn]
  · refine ⟨rowOfSks s, List.mem_append_right _ (List.mem_map_of_mem ?_), rfl⟩
    refine List.mem_filter.mpr ⟨hs, decide_eq_true ?_⟩
    intro f hf hn
    exact hold ⟨f, hf, hn⟩

/-- A settled table with a row for every order of the source does not change. -/
theorem mergeOrders_eq_self (h : OnePerOrder facts)
    (hsettled : ∀ f ∈ facts, Settled crc32 (sksSubstituted dateDim snapshot) f)
    (hevery : ∀ s ∈ sksSubstituted dateDim snapshot,
      ∃ f ∈ facts, f.orderNumber = some s.opOrderNumber) :
    mergeOrders crc32 dateDim facts snapshot = facts := by
  refine MergeInto.apply_eq_self ?_ ?_
  · intro f hf
    exact updateRow_of_settled h hf (hsettled f hf)
  · intro u hu
    rw [sub_eq_map h] at hu
    obtain ⟨s, hs, rfl⟩ := List.mem_map.mp hu
    obtain ⟨f, hf, hn⟩ := hevery s hs
    exact ⟨f, hf, on_subRow.mpr hn⟩

/-- A second run against the same snapshot changes nothing, whatever `crc32` is. -/
theorem mergeOrders_idempotent (crc32 : Str → ℤ) (dateDim : List DateDim)
    (facts : List OrderFulfillment) (snapshot : OpSystemSnapshot) (h : OnePerOrder facts)
    (hdate : OnePerDate dateDim) :
    mergeOrders crc32 dateDim (mergeOrders crc32 dateDim facts snapshot) snapshot =
      mergeOrders crc32 dateDim facts snapshot :=
  mergeOrders_eq_self (onePerOrder_mergeOrders h hdate) (settled_of_mem_mergeOrders h hdate)
    (exists_of_mem_sksSubstituted h hdate)

/-- The script's second snapshot, merged twice after the first one. -/
theorem order2_rerun :
    OnePerOrder (mergeOrders sampleCrc sampleDateDim [] (order2 7 none)) ∧
    OnePerDate sampleDateDim ∧
    mergeOrders sampleCrc sampleDateDim
        (mergeOrders sampleCrc sampleDateDim
          (mergeOrders sampleCrc sampleDateDim [] (order2 7 none)) (order2 7 (some 15410)))
        (order2 7 (some 15410)) =
      mergeOrders sampleCrc sampleDateDim
        (mergeOrders sampleCrc sampleDateDim [] (order2 7 none)) (order2 7 (some 15410)) := by
  have hdate : OnePerDate sampleDateDim := by
    intro date
    have hnodup : (sampleDateDim.map (·.calDate)).Nodup := by decide
    refine length_filter_le_one hnodup _ ?_
    intro d _ d' _ hd hd'
    exact (of_decide_eq_true hd).trans (of_decide_eq_true hd').symm
  have hnone : OnePerOrder [] := fun n => Nat.zero_le 1
  have hone : OnePerOrder (mergeOrders sampleCrc sampleDateDim [] (order2 7 none)) :=
    onePerOrder_mergeOrders hnone hdate
  exact ⟨hone, hdate, mergeOrders_idempotent sampleCrc sampleDateDim _ _ hone hdate⟩

end Structor.Accumulating
