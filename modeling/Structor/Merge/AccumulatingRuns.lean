import Mathlib.Algebra.Group.Int.Defs
import Mathlib.Data.Option.Basic
import Structor.Merge.AccumulatingSnapshot

/-!
# Runs of the accumulating snapshot

After each run the fact row of a staged order has the keys and the lags of the
snapshot. Its customer and product are those of the run that inserted it: neither
the checksum nor the update lists these two columns.
-/
namespace Structor.Accumulating

open Sql
variable {crc32 : Str → ℤ} {dateDim : List DateDim} {used : Option ℤ → Prop}
  {facts : List OrderFulfillment} {snapshot : OpSystemSnapshot}

def factRows (facts : List OrderFulfillment) (n : ℤ) : List OrderFulfillment :=
  facts.filter fun f => f.orderNumber = some n

/-- The fact rows of orders that are not in the snapshot. -/
def otherFacts (snapshot : OpSystemSnapshot) (facts : List OrderFulfillment) :
    List OrderFulfillment :=
  facts.filter fun f => ∀ s ∈ snapshot.rows, f.orderNumber ≠ some s.opOrderNumber

/-- One fact row for each order of the snapshot, equal to the snapshot in every
column, and the rows of other orders unchanged. -/
structure Mirrors (dateDim : List DateDim) (snapshot : OpSystemSnapshot)
    (before after : List OrderFulfillment) : Prop where
  row : ∀ s ∈ snapshot.rows, ∃ f, factRows after s.opOrderNumber = [f] ∧
    f.dateSks = s.opDates.map (dateId dateDim) ∧ f.lags = lagsOf s.opDates ∧
    f.customerKey = s.opCustomer ∧ f.productKey = s.opProduct
  others : otherFacts snapshot after = otherFacts snapshot before

/-- As `Mirrors`, but an order that has a fact row keeps its customer and product. -/
structure Refreshed (dateDim : List DateDim) (snapshot : OpSystemSnapshot)
    (before after : List OrderFulfillment) : Prop where
  row : ∀ s ∈ snapshot.rows, ∃ f, factRows after s.opOrderNumber = [f] ∧
    f.dateSks = s.opDates.map (dateId dateDim) ∧ f.lags = lagsOf s.opDates ∧
    (f.customerKey, f.productKey) = match factOf before s.opOrderNumber with
      | none => (s.opCustomer, s.opProduct)
      | some g => (g.customerKey, g.productKey)
  others : otherFacts snapshot after = otherFacts snapshot before

@[simp] theorem refresh_orderNumber (f : OrderFulfillment) :
    (refresh dateDim snapshot f).orderNumber = f.orderNumber := by
  rw [refresh]
  split <;> rfl

theorem rowOf_eq_some {s : SnapshotRow} (hs : s ∈ snapshot.rows) {f : OrderFulfillment}
    (hf : f.orderNumber = some s.opOrderNumber) : rowOf snapshot f = some s := by
  refine find?_eq_some_of_key snapshot.number_nodup hs (by simp [hf]) ?_
  intro s' _ hs'
  have hs' : f.orderNumber = some s'.opOrderNumber := by simpa using hs'
  exact Option.some.inj (hs'.symm.trans hf)

/-- A fact row of a ledger is the only one of its order. -/
theorem Ledger.factRows_eq (h : Ledger dateDim used facts) {f : OrderFulfillment}
    (hf : f ∈ facts) {n : ℤ} (hn : f.orderNumber = some n) : factRows facts n = [f] := by
  have hlen : (factRows facts n).length ≤ 1 := by
    refine length_filter_le_one h.number_nodup _ ?_
    intro a _ b _ ha hb
    simp only [decide_eq_true_eq] at ha hb
    exact ha.trans hb.symm
  have hmem : f ∈ factRows facts n := by simp [factRows, hf, hn]
  match hrows : factRows facts n with
  | [] => simp [hrows] at hmem
  | [g] =>
      rw [hrows, List.mem_singleton] at hmem
      rw [hmem]
  | _ :: _ :: _ => simp [hrows] at hlen

/-- Each run leaves a ledger. -/
theorem Ledger.mergeOrders (hcrc : Function.Injective crc32) (h : DateDimFor dateDim used)
    (hfacts : Ledger dateDim used facts) (hused : Covers used snapshot) :
    Ledger dateDim used (mergeOrders crc32 dateDim facts snapshot) := by
  rw [mergeOrders_eq hcrc h hfacts hused]
  refine ⟨?_, ?_, ?_⟩
  · intro f hf
    rcases List.mem_append.mp hf with hf | hf
    · rcases List.mem_map.mp hf with ⟨g, hg, rfl⟩
      simpa using hfacts.numbered g hg
    · rcases List.mem_map.mp hf with ⟨s, -, rfl⟩
      simp [insertRow]
  · rw [List.map_append, List.map_map, List.map_map, List.nodup_append]
    have hkept : (facts.map ((·.orderNumber) ∘ refresh dateDim snapshot)) =
        facts.map (·.orderNumber) := by simp [Function.comp_def]
    have hnew : ((snapshot.rows.filter fun s =>
        ∀ f ∈ facts, f.orderNumber ≠ some s.opOrderNumber).map
          ((·.orderNumber) ∘ insertRow dateDim)).Nodup := by
      refine List.Nodup.sublist (List.filter_sublist.map _) ?_
      have hnodup := snapshot.number_nodup.map (Option.some_injective ℤ)
      rwa [List.map_map] at hnodup
    refine ⟨hkept ▸ hfacts.number_nodup, hnew, ?_⟩
    intro n hn m hm
    rw [hkept] at hn
    rcases List.mem_map.mp hn with ⟨f, hf, rfl⟩
    rcases List.mem_map.mp hm with ⟨s, hs, rfl⟩
    simp only [List.mem_filter, decide_eq_true_eq] at hs
    exact hs.2 f hf
  · intro f hf
    rcases List.mem_append.mp hf with hf | hf
    · rcases List.mem_map.mp hf with ⟨g, hg, rfl⟩
      rw [refresh]
      cases hrow : rowOf snapshot g with
      | none => exact hfacts.derived g hg
      | some s => exact ⟨s.opDates, hused s (List.mem_of_find?_eq_some hrow), rfl, rfl⟩
    · rcases List.mem_map.mp hf with ⟨s, hs, rfl⟩
      exact ⟨s.opDates, hused s (List.mem_of_mem_filter hs), rfl, rfl⟩

theorem ledger_nil : Ledger dateDim used [] := ⟨by simp, by simp, by simp⟩

/-- The fact tables that runs of the merge reach from the empty table. -/
theorem ledger_of_runs (hcrc : Function.Injective crc32) (h : DateDimFor dateDim used)
    (earlier : List OpSystemSnapshot) (hused : ∀ s ∈ earlier, Covers used s) :
    Ledger dateDim used (earlier.foldl (Accumulating.mergeOrders crc32 dateDim) []) := by
  refine List.foldlRecOn earlier _ ledger_nil ?_
  intro facts hfacts s hs
  exact Ledger.mergeOrders hcrc h hfacts (hused s hs)

theorem refreshed_of_ledger (hcrc : Function.Injective crc32) (h : DateDimFor dateDim used)
    (hfacts : Ledger dateDim used facts) (hused : Covers used snapshot) :
    Refreshed dateDim snapshot facts (mergeOrders crc32 dateDim facts snapshot) where
  row s hs := by
    have hafter := Ledger.mergeOrders hcrc h hfacts hused
    have heq := mergeOrders_eq hcrc h hfacts hused
    cases hfact : factOf facts s.opOrderNumber with
    | none =>
        have hfree : ∀ f ∈ facts, f.orderNumber ≠ some s.opOrderNumber := by
          simpa [factOf] using hfact
        have hmem : insertRow dateDim s ∈ mergeOrders crc32 dateDim facts snapshot := by
          rw [heq, List.mem_append]
          exact .inr (List.mem_map_of_mem (List.mem_filter.mpr ⟨hs, by simpa using hfree⟩))
        exact ⟨insertRow dateDim s, hafter.factRows_eq hmem rfl, rfl, rfl, rfl⟩
    | some g =>
        have hg : g ∈ facts := List.mem_of_find?_eq_some hfact
        have hn : g.orderNumber = some s.opOrderNumber := by simpa using List.find?_some hfact
        have hmem : refresh dateDim snapshot g ∈ mergeOrders crc32 dateDim facts snapshot := by
          rw [heq, List.mem_append]
          exact .inl (List.mem_map_of_mem hg)
        refine ⟨refresh dateDim snapshot g, hafter.factRows_eq hmem (by simpa using hn), ?_⟩
        simp [refresh, rowOf_eq_some hs hn]
  others := by
    rw [mergeOrders_eq hcrc h hfacts hused, otherFacts, List.filter_append]
    have hnew : ((snapshot.rows.filter fun s =>
        ∀ f ∈ facts, f.orderNumber ≠ some s.opOrderNumber).map (insertRow dateDim)).filter
          (fun f => ∀ s ∈ snapshot.rows, f.orderNumber ≠ some s.opOrderNumber) = [] := by
      simp only [List.filter_eq_nil_iff, List.mem_map, List.mem_filter, decide_eq_true_eq]
      rintro f ⟨s, ⟨hs, -⟩, rfl⟩ hf
      exact hf s hs rfl
    rw [hnew, List.append_nil]
    refine filter_map_of_fixed _ _ _ (fun f _ => by simp) (fun f _ hf => ?_)
    have hnone : rowOf snapshot f = none := by
      simpa [rowOf] using hf
    simp [refresh, hnone]

/-- The dates of a list of snapshots. -/
def usedDates (snapshots : List OpSystemSnapshot) : List (Option ℤ) :=
  snapshots.flatMap fun snapshot => snapshot.rows.flatMap fun s => s.opDates.toList

theorem covers_usedDates {snapshots : List OpSystemSnapshot} (h : snapshot ∈ snapshots) :
    Covers (· ∈ usedDates snapshots) snapshot := by
  intro s hs date hd
  exact List.mem_flatMap.mpr ⟨snapshot, h, List.mem_flatMap.mpr ⟨s, hs, hd⟩⟩

/-- After any sequence of earlier runs, one more run refreshes the fact table. -/
theorem mergeOrders_refreshed (hcrc : Function.Injective crc32) (earlier : List OpSystemSnapshot)
    (next : OpSystemSnapshot) (h : DateDimFor dateDim (· ∈ usedDates (earlier ++ [next]))) :
    Refreshed dateDim next (earlier.foldl (mergeOrders crc32 dateDim) [])
      (mergeOrders crc32 dateDim (earlier.foldl (mergeOrders crc32 dateDim) []) next) := by
  refine refreshed_of_ledger hcrc h ?_ (covers_usedDates (by simp))
  exact ledger_of_runs hcrc h earlier fun s hs => covers_usedDates (by simp [hs])

/-! ## An order of the script -/

/-- A number for each string, in base `2 ^ 33`. -/
def code : Str → ℤ
  | [] => 0
  | c :: cs => code cs * 2 ^ 33 + (c.toNat + 1)

theorem code_nonneg (s : Str) : 0 ≤ code s := by
  induction s with
  | nil => simp [code]
  | cons c cs ih =>
      simp only [code]
      omega

theorem code_injective {s t : Str} (h : code s = code t) : s = t := by
  induction s generalizing t with
  | nil =>
      cases t with
      | nil => rfl
      | cons d ds =>
          have hds := code_nonneg ds
          simp only [code] at h
          omega
  | cons c cs ih =>
      cases t with
      | nil =>
          have hcs := code_nonneg cs
          simp only [code] at h
          omega
      | cons d ds =>
          have hc : c.toNat < 2 ^ 32 := c.val.toNat_lt
          have hd : d.toNat < 2 ^ 32 := d.val.toNat_lt
          simp only [code] at h
          have hhead : c.toNat = d.toNat := by omega
          have htail : code cs = code ds := by omega
          rw [Char.toNat_inj.mp hhead, ih htail]

/-- The CRC-32 of the key texts of order 2, and values out of its range elsewhere. -/
def sampleCrc (s : Str) : ℤ :=
  if s = ("" : Str) then 0
  else if s = ("2X9191X9191X9194X9197X-1" : Str) then 2835899351
  else if s = ("2X9191X9191X9194X9197X9201" : Str) then 146706581
  else 2 ^ 32 + code s

theorem sampleCrc_injective : Function.Injective sampleCrc := by
  intro s t h
  have hs := code_nonneg s
  have ht := code_nonneg t
  simp only [sampleCrc] at h
  split_ifs at h <;> first | omega | simp_all
  exact code_injective (by omega)

/-- The days of March 2012 that order 2 uses, and a row for the NULL date. -/
def sampleDateDim : List DateDim := [⟨some 9191, some 15400⟩, ⟨some 9194, some 15403⟩,
  ⟨some 9197, some 15406⟩, ⟨some 9201, some 15410⟩, ⟨some (-1), none⟩]

/-- Order 2 of the script, for a customer and a shipping date. -/
def order2 (customer : ℤ) (ship : Option ℤ) : OpSystemSnapshot where
  rows := [⟨2, some customer, some 2, some 15400, some 15400, some 15403, some 15406, ship⟩]
  number_nodup := by simp

/-- The order ships between the two runs of the script. -/
theorem order2_refreshed : Refreshed sampleDateDim (order2 7 (some 15410))
    ([order2 7 none].foldl (mergeOrders sampleCrc sampleDateDim) [])
    (mergeOrders sampleCrc sampleDateDim
      ([order2 7 none].foldl (mergeOrders sampleCrc sampleDateDim) []) (order2 7 (some 15410))) :=
  mergeOrders_refreshed sampleCrc_injective [order2 7 none] (order2 7 (some 15410))
    ⟨by decide, by decide, by decide⟩

/-- The customer of the order changes between two runs, and the fact row keeps the
first one. -/
theorem order2_not_mirrored :
    DateDimFor sampleDateDim (· ∈ usedDates ([order2 7 none] ++ [order2 8 none])) ∧
    Function.Injective sampleCrc ∧
    ¬ Mirrors sampleDateDim (order2 8 none)
      ([order2 7 none].foldl (mergeOrders sampleCrc sampleDateDim) [])
      (mergeOrders sampleCrc sampleDateDim
        ([order2 7 none].foldl (mergeOrders sampleCrc sampleDateDim) []) (order2 8 none)) := by
  refine ⟨⟨by decide, by decide, by decide⟩, sampleCrc_injective, fun h => ?_⟩
  obtain ⟨f, hf, -, -, hcustomer, -⟩ := h.row ⟨2, some 8, some 2, some 15400, some 15400,
    some 15403, some 15406, none⟩ (by decide)
  have hrow : (factRows (mergeOrders sampleCrc sampleDateDim
      ([order2 7 none].foldl (mergeOrders sampleCrc sampleDateDim) []) (order2 8 none)) 2).map
        (·.customerKey) = [some 7] := by decide
  rw [hf] at hrow
  simp [hcustomer] at hrow

end Structor.Accumulating
