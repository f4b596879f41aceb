import Structor.Merge.HiveMergeTest

/-!
# Surrogate keys of orders and invoices

The initial load gives every order and every invoice a UUID, and the merges keep them. The
second load gives none, so that its first invoice breaks the integrity of the fact table.
-/
namespace Structor.HiveMerge

open Sql Fresh
variable {ω : Type} {supply : Supply ω} {db : Db ω}

/-! ## UUIDs -/

@[simp] theorem map_snd_withUuid {α : Type} (supply : Supply ω) (issued : ℕ) (rows : List α) :
    (withUuid supply issued rows).map Prod.snd = rows := by
  simp [withUuid, Function.comp_def]

theorem nodup_withUuid {α : Type} (supply : Supply ω) (issued : ℕ) (rows : List α) :
    ((withUuid supply issued rows).map Prod.fst).Nodup := by
  have hfst : (withUuid supply issued rows).map Prod.fst =
      (List.range' 0 rows.length).map fun i => supply.next (issued + i) := by
    rw [← List.zipIdx_map_snd 0 rows, withUuid, List.map_map, List.map_map]
    rfl
  rw [hfst]
  refine List.Nodup.map ?_ List.nodup_range'
  intro i j hij
  have hsum := supply.injective hij
  omega

/-! ## What the loads and the merges leave -/

/-- Every invoice has an id, and refers to the one order that has its order key. -/
structure Integrity [DecidableEq ω] (db : Db ω) : Prop where
  ids : ∀ i ∈ db.invoice, i.invoiceItemId ≠ none
  orders : ∀ i ∈ db.invoice, i.orderSk ≠ none ∧ ∃ o,
    (db.orders.filter fun o => o.orderSk = i.orderSk) = [o] ∧
      o.orderForeignPk = i.invoiceForeignOrderkey

/-- Keys are given to every row, and no key twice. -/
structure Assigned (db : Db ω) : Prop where
  ids : ∀ i ∈ db.invoice, i.invoiceItemId ≠ none
  sks : ∀ o ∈ db.orders, o.orderSk ≠ none
  nodup : (db.orders.map (·.orderSk)).Nodup
  refers : ∀ i ∈ db.invoice,
    (i.orderSk, i.invoiceForeignOrderkey) ∈ db.orders.map fun o => (o.orderSk, o.orderForeignPk)

theorem Assigned.integrity [DecidableEq ω] (h : Assigned db) : Integrity db where
  ids := h.ids
  orders i hi := by
    obtain ⟨o, ho, heq⟩ := List.mem_map.mp (h.refers i hi)
    obtain ⟨hsk, hkey⟩ := Prod.mk.inj heq
    have hone := length_filter_le_one h.nodup (fun o => decide (o.orderSk = i.orderSk)) (by
      intro a _ b _ ha hb
      exact (of_decide_eq_true ha).trans (of_decide_eq_true hb).symm)
    exact ⟨hsk ▸ h.sks o ho, o, filter_eq_singleton hone ho (decide_eq_true hsk), hkey⟩

theorem mem_of_mem_withUuid {α : Type} {issued : ℕ} {rows : List α} {r : ω × α}
    (h : r ∈ withUuid supply issued rows) : r.2 ∈ rows := by
  rw [← map_snd_withUuid supply issued rows]
  exact List.mem_map_of_mem h

theorem assigned_insertOrders (supply : Supply ω) (stage : List InvoiceLine)
    (horders : db.orders = []) (hinvoice : db.invoice = []) :
    Assigned (insertOrders supply stage db) := by
  refine ⟨?_, ?_, ?_, ?_⟩
  · intro i hi
    rw [insertOrders, hinvoice] at hi
    cases hi
  · intro o ho
    rw [insertOrders, horders, List.nil_append] at ho
    obtain ⟨s, -, rfl⟩ := List.mem_map.mp ho
    exact Option.some_ne_none _
  · have hsks : (insertOrders supply stage db).orders.map (·.orderSk) =
        ((withUuid supply db.issued (sales stage db.part)).map Prod.fst).map some := by
      rw [insertOrders, horders, List.nil_append, List.map_map, List.map_map]
      rfl
    rw [hsks]
    exact (nodup_withUuid supply _ _).map (Option.some_injective ω)
  · intro i hi
    rw [insertOrders, hinvoice] at hi
    cases hi

/-- An invoice row joins an order of its key. -/
theorem orderkey_of_mem_invoiceRows {orders : List (Order ω)} {part : List (Part ω)}
    {stage : List InvoiceLine} {r : (Order ω × Part ω) × InvoiceLine}
    (h : r ∈ invoiceRows orders part stage) :
    r.1.1 ∈ orders ∧ r.1.1.orderForeignPk = r.2.orderkey := by
  obtain ⟨hproduct, -, hon⟩ := mem_innerJoin.mp h
  rw [Truth.and_eq_yes, Truth.eq_some_eq_yes] at hon
  exact ⟨(List.mem_product.mp hproduct).1, (Option.some.inj hon.1).symm⟩

theorem Assigned.insertInvoice (h : Assigned db) (supply : Supply ω) (stage : List InvoiceLine) :
    Assigned (insertInvoice supply stage db) := by
  refine ⟨?_, h.sks, h.nodup, ?_⟩
  · intro i hi
    rcases List.mem_append.mp hi with hi | hi
    · exact h.ids i hi
    · obtain ⟨r, -, rfl⟩ := List.mem_map.mp hi
      exact Option.some_ne_none _
  · intro i hi
    rcases List.mem_append.mp hi with hi | hi
    · exact h.refers i hi
    · obtain ⟨r, hr, rfl⟩ := List.mem_map.mp hi
      obtain ⟨horder, hkey⟩ := orderkey_of_mem_invoiceRows (mem_of_mem_withUuid hr)
      refine List.mem_map.mpr ⟨r.2.1.1, horder, ?_⟩
      rw [hkey]
      rfl

theorem assigned_initialLoad (supply : Supply ω) (invoiceStage : List InvoiceLine)
    (partStage : List PartPrice) : Assigned (initialLoad supply invoiceStage partStage) :=
  (assigned_insertOrders supply invoiceStage rfl rfl).insertInvoice supply invoiceStage

theorem Assigned.mergePart (h : Assigned db) (stage : List PartCorrection) :
    Assigned (mergePart stage db) :=
  ⟨h.ids, h.sks, h.nodup, h.refers⟩

theorem Assigned.mergeOrders (h : Assigned db) : Assigned (mergeOrders db) := by
  have hkeys : (HiveMerge.mergeOrders db).orders.map (fun o => (o.orderSk, o.orderForeignPk)) =
      db.orders.map fun o => (o.orderSk, o.orderForeignPk) :=
    MergeInto.map_apply_of_update rfl (fun _ _ => rfl) _ _
  have hsks : (HiveMerge.mergeOrders db).orders.map (·.orderSk) = db.orders.map (·.orderSk) :=
    MergeInto.map_apply_of_update rfl (fun _ _ => rfl) _ _
  refine ⟨h.ids, ?_, ?_, ?_⟩
  · intro o ho hnull
    have hmem : none ∈ db.orders.map (·.orderSk) := by
      rw [← hsks, ← hnull]
      exact List.mem_map_of_mem ho
    obtain ⟨o', ho', hnull'⟩ := List.mem_map.mp hmem
    exact h.sks o' ho' hnull'
  · rw [hsks]
    exact h.nodup
  · rw [hkeys]
    exact h.refers

/-! ## The second load -/

/-- The loads and the merges keep the keys of the parts. -/
theorem map_partForeignPk (supply : Supply ω) (invoiceStage : List InvoiceLine)
    (partStage : List PartPrice) (corrections : List PartCorrection) :
    (mergeOrders (mergePart corrections (initialLoad supply invoiceStage partStage))).part.map
      (·.partForeignPk) = partStage.map (·.partkey) := by
  have hload : (initialLoad supply invoiceStage partStage).part.map (·.partForeignPk) =
      ((withUuid supply 0 partStage).map Prod.snd).map (·.partkey) := by
    rw [List.map_map]
    exact List.map_map
  calc
    (mergeOrders (mergePart corrections (initialLoad supply invoiceStage partStage))).part.map
        (·.partForeignPk) = (initialLoad supply invoiceStage partStage).part.map
          (·.partForeignPk) := MergeInto.map_apply_of_update rfl (fun _ _ => rfl) _ _
    _ = partStage.map (·.partkey) := by rw [hload, map_snd_withUuid]

/-- Without a line that matches a part the second load adds nothing. -/
theorem secondLoad_of_unmatched {stage : List InvoiceLine}
    (h : ∀ l ∈ stage, ∀ p ∈ db.part, p.partForeignPk ≠ l.partkey) : secondLoad stage db = db := by
  have hjoin : innerJoin onPart stage db.part = [] := by
    rw [List.eq_nil_iff_forall_not_mem]
    intro r hr
    obtain ⟨hl, hp, hon⟩ := mem_innerJoin.mp hr
    rw [onPart, Truth.eq_some_eq_yes] at hon
    exact h r.1 hl r.2 hp (Option.some.inj hon)
  have horders : insertNewOrders stage db = db := by
    simp [insertNewOrders, sales, hjoin, groupBy]
  have hrows : invoiceRows db.orders db.part stage = [] := by
    rw [List.eq_nil_iff_forall_not_mem]
    intro r hr
    obtain ⟨hproduct, hl, hon⟩ := mem_innerJoin.mp hr
    rw [Truth.and_eq_yes, Truth.eq_some_eq_yes, Truth.eq_some_eq_yes] at hon
    exact h r.2 hl r.1.2 (List.mem_product.mp hproduct).2 (Option.some.inj hon.2).symm
  rw [secondLoad, horders, insertNewInvoice, hrows, List.map_nil, List.append_nil]

/-- A line that matches a part becomes an invoice without an id. -/
theorem exists_null_id {stage : List InvoiceLine} {l : InvoiceLine} (hl : l ∈ stage)
    {p : Part ω} (hp : p ∈ db.part) (hkey : p.partForeignPk = l.partkey) :
    ∃ i ∈ (secondLoad stage db).invoice, i.invoiceItemId = none := by
  have hmatched : (l, p) ∈ innerJoin onPart stage db.part := by
    refine mem_innerJoin.mpr ⟨hl, hp, ?_⟩
    rw [onPart, Truth.eq_some_eq_yes, hkey]
  have hgroup : (l.orderkey, (innerJoin onPart stage db.part).filter
      fun r => r.1.orderkey = l.orderkey) ∈
        groupBy (fun r => r.1.orderkey) (innerJoin onPart stage db.part) :=
    mem_groupBy.mpr ⟨List.mem_map_of_mem hmatched, rfl⟩
  have horder : ∃ o ∈ (insertNewOrders stage db).orders, o.orderForeignPk = l.orderkey :=
    ⟨_, List.mem_append_right _ (List.mem_map_of_mem (List.mem_map_of_mem hgroup)), rfl⟩
  obtain ⟨o, ho, horderkey⟩ := horder
  have hrow : ((o, p), l) ∈ invoiceRows (insertNewOrders stage db).orders db.part stage := by
    refine mem_innerJoin.mpr ⟨List.mem_product.mpr ⟨ho, hp⟩, hl, ?_⟩
    rw [Truth.and_eq_yes, Truth.eq_some_eq_yes, Truth.eq_some_eq_yes, horderkey, hkey]
    exact ⟨rfl, rfl⟩
  exact ⟨invoiceOf none ((o, p), l), List.mem_append_right _ (List.mem_map_of_mem hrow), rfl⟩

/-- The script keeps the integrity of the fact table exactly if no line of the second load
matches a part. -/
theorem integrity_iff [DecidableEq ω] (supply : Supply ω) (invoiceStage : List InvoiceLine)
    (partStage : List PartPrice) (invoiceNewStage : List InvoiceLine)
    (partCorrectionStage : List PartCorrection) :
    Integrity (script supply invoiceStage partStage invoiceNewStage partCorrectionStage) ↔
      ∀ l ∈ invoiceNewStage, ∀ p ∈ partStage, p.partkey ≠ l.partkey := by
  have hparts := map_partForeignPk supply invoiceStage partStage partCorrectionStage
  have hassigned := ((assigned_initialLoad supply invoiceStage partStage).mergePart
    partCorrectionStage).mergeOrders
  rw [script]
  constructor
  · intro h l hl p hp hkey
    have hmem : l.partkey ∈ partStage.map (·.partkey) := List.mem_map.mpr ⟨p, hp, hkey⟩
    rw [← hparts] at hmem
    obtain ⟨p', hp', hkey'⟩ := List.mem_map.mp hmem
    obtain ⟨i, hi, hnull⟩ := exists_null_id hl hp' hkey'
    exact h.ids i hi hnull
  · intro h
    rw [secondLoad_of_unmatched]
    · exact hassigned.integrity
    · intro l hl p hp hkey
      have hmem : l.partkey ∈ partStage.map (·.partkey) := by
        rw [← hparts]
        exact List.mem_map.mpr ⟨p, hp, hkey⟩
      obtain ⟨p', hp', hkey'⟩ := List.mem_map.mp hmem
      exact h l hl p' hp' hkey'

/-- A line of the second load of the script, for a part of the first one. -/
theorem newOrder_not_integrity : ¬ Integrity (script ⟨id, Function.injective_id⟩
    [⟨"I-122-1023", "P-328-382", some 1, some (13 / 10)⟩]
    [⟨"P-328-382", some (3 / 2)⟩, ⟨"P-234-382", some 9⟩]
    [⟨"I-122-1025", "P-234-382", some 2, some (83 / 10)⟩] []) := by
  intro h
  have hnull : ∃ i ∈ (script ⟨id, Function.injective_id⟩
      [⟨"I-122-1023", "P-328-382", some 1, some (13 / 10)⟩]
      [⟨"P-328-382", some (3 / 2)⟩, ⟨"P-234-382", some 9⟩]
      [⟨"I-122-1025", "P-234-382", some 2, some (83 / 10)⟩] []).invoice,
      i.invoiceItemId = none := by
    refine exists_null_id (l := ⟨"I-122-1025", "P-234-382", some 2, some (83 / 10)⟩)
      (p := ⟨1, "P-234-382", some 9⟩) ?_ ?_ rfl
    · exact List.mem_singleton_self _
    · decide
  obtain ⟨i, hi, hid⟩ := hnull
  exact h.ids i hi hid

end Structor.HiveMerge
