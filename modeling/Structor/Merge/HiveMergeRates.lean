import Structor.Merge.HiveMergeIntegrity

/-!
# Discount rates after a price correction

The rate of an order is computed from the stage lines at first, and from the invoices after a
correction. The invoices are the stage lines that match a part, so that both are the rate of
these lines at the prices that hold.

## Main definitions

* `correctedPrice`, `expectedRate` -- the rate of an order, from the stage tables alone
-/
namespace Structor.HiveMerge

open Sql Fresh
variable {ω : Type} {part : List (Part ω)} {lines : List InvoiceLine}

/-! ## The expected rates -/

/-- The list price of a part: the corrected one where there is a correction. -/
def correctedPrice (partStage : List PartPrice) (corrections : List PartCorrection)
    (partkey : Str) : Option ℚ :=
  match corrections.find? fun c => c.partkey = some partkey with
  | some c => c.listPrice
  | none => (partStage.find? fun p => p.partkey = partkey).bind (·.listPrice)

/-- The stage lines of an order that match a part. -/
def matchedLines (partStage : List PartPrice) (stage : List InvoiceLine) (orderkey : Str) :
    List InvoiceLine :=
  stage.filter fun l => l.orderkey = orderkey ∧ ∃ p ∈ partStage, p.partkey = l.partkey

def expectedRate (partStage : List PartPrice) (corrections : List PartCorrection)
    (stage : List InvoiceLine) (orderkey : Str) : Option ℚ :=
  let lines := matchedLines partStage stage orderkey
  sub (some 1) (div (sum (lines.map fun l => mul l.quantity l.total))
    (sum (lines.map fun l => mul l.quantity (correctedPrice partStage corrections l.partkey))))

/-! ## The rate of an order in the tables -/

/-- The rate of the lines of an order. -/
def rateOf (lines : List InvoiceLine) (part : List (Part ω)) (orderkey : Str) : Option ℚ :=
  rate ((innerJoin onPart lines part).filter fun r => r.1.orderkey = orderkey)

theorem rate_perm {rows rows' : List (InvoiceLine × Part ω)} (h : rows.Perm rows') :
    rate rows = rate rows' := by
  rw [rate, rate, sum_perm (h.map _), sum_perm (h.map _)]

theorem rateOf_perm {lines' : List InvoiceLine} (h : lines.Perm lines') (orderkey : Str) :
    rateOf lines part orderkey = rateOf lines' part orderkey :=
  rate_perm ((h.flatMap_right _).filter _)

theorem matching_onPart (h : (part.map (·.partForeignPk)).Nodup) (l : InvoiceLine) :
    (matching (onPart l) part).length ≤ 1 := by
  refine length_filter_le_one h _ ?_
  intro p _ p' _ hp hp'
  simp only [onPart, Truth.eq_some_eq_yes, decide_eq_true_eq] at hp hp'
  exact Option.some.inj (hp.trans hp'.symm)

/-- The order keys of the lines that match a part. -/
def orderkeys (lines : List InvoiceLine) (part : List (Part ω)) : List Str :=
  ((innerJoin onPart lines part).map fun r => r.1.orderkey).dedup

theorem nodup_orderkeys (lines : List InvoiceLine) (part : List (Part ω)) :
    (orderkeys lines part).Nodup :=
  List.nodup_dedup _

theorem map_sales (lines : List InvoiceLine) (part : List (Part ω)) :
    (sales lines part).map (fun s => (s.orderkey, s.discountRate)) =
      (orderkeys lines part).map fun k => (k, rateOf lines part k) := by
  rw [sales, groupBy, List.map_map, List.map_map]
  rfl

/-- The invoices join the parts as their lines do. -/
theorem innerJoin_line (invoice : List (Invoice ω)) (part : List (Part ω)) :
    (innerJoin (fun i p => Truth.eq (some i.invoiceForeignPartkey) (some p.partForeignPk))
      invoice part).map (fun r => (r.1.line, r.2)) =
        innerJoin onPart (invoice.map Invoice.line) part := by
  rw [innerJoin, innerJoin, List.map_flatMap, List.flatMap_map]
  refine List.flatMap_congr fun i _ => ?_
  rw [List.map_map]
  rfl

theorem discountRates_eq (invoice : List (Invoice ω)) (part : List (Part ω)) :
    discountRates invoice part = (orderkeys (invoice.map Invoice.line) part).map fun k =>
      (k, rateOf (invoice.map Invoice.line) part k) := by
  rw [discountRates, groupBy, List.map_map, orderkeys, ← innerJoin_line, List.map_map]
  refine List.map_congr_left fun k _ => ?_
  rw [rateOf, ← innerJoin_line, List.filter_map]
  rfl

/-! ## The lines that match a part -/

def Matches (part : List (Part ω)) (l : InvoiceLine) : Prop :=
  ∃ p ∈ part, p.partForeignPk = l.partkey

instance (part : List (Part ω)) (l : InvoiceLine) : Decidable (Matches part l) :=
  inferInstanceAs (Decidable (∃ p ∈ part, _))

theorem matching_of_not_matches {l : InvoiceLine} (h : ¬ Matches part l) :
    matching (onPart l) part = [] := by
  rw [matching, List.filter_eq_nil_iff]
  intro p hp hon
  simp only [onPart, Truth.eq_some_eq_yes, decide_eq_true_eq] at hon
  exact h ⟨p, hp, Option.some.inj hon⟩

theorem matching_of_matches (h : (part.map (·.partForeignPk)).Nodup) {l : InvoiceLine}
    (hl : Matches part l) : ∃ p ∈ part, p.partForeignPk = l.partkey ∧
      matching (onPart l) part = [p] := by
  obtain ⟨p, hp, hkey⟩ := hl
  refine ⟨p, hp, hkey, filter_eq_singleton (matching_onPart h l) hp ?_⟩
  simp [onPart, hkey]

theorem mem_orderkeys {k : Str} :
    k ∈ orderkeys lines part ↔ ∃ l ∈ lines, l.orderkey = k ∧ Matches part l := by
  simp only [orderkeys, List.mem_dedup, List.mem_map, Prod.exists, mem_innerJoin, onPart,
    Truth.eq_some_eq_yes, Option.some.injEq]
  constructor
  · intro h
    obtain ⟨l, p, ⟨hl, hp, hkey⟩, hk⟩ := h
    exact ⟨l, hl, hk, p, hp, hkey⟩
  · intro h
    obtain ⟨l, hl, hk, p, hp, hkey⟩ := h
    exact ⟨l, p, ⟨hl, hp, hkey⟩, hk⟩

/-- Lines without a part do not count. -/
theorem innerJoin_filter_matches {part' : List (Part ω)}
    (hkeys : part'.map (·.partForeignPk) = part.map (·.partForeignPk)) :
    innerJoin onPart (lines.filter fun l => Matches part l) part' =
      innerJoin onPart lines part' := by
  rw [innerJoin, ← flatMap_ite_nil, innerJoin]
  refine List.flatMap_congr fun l _ => ?_
  by_cases hl : Matches part l
  · rw [if_pos hl]
  · have hl' : ¬ Matches part' l := by
      intro hmatches
      obtain ⟨p, hp, hkey⟩ := hmatches
      have hmem : l.partkey ∈ part.map (·.partForeignPk) := by
        rw [← hkeys, ← hkey]
        exact List.mem_map_of_mem hp
      obtain ⟨q, hq, hkey'⟩ := List.mem_map.mp hmem
      exact hl ⟨q, hq, hkey'⟩
    rw [if_neg hl, matching_of_not_matches hl', List.map_nil]

/-- What is computed from the lines of an order and the prices of their parts. -/
theorem map_rows {β : Type} (lines : List InvoiceLine)
    (h : (part.map (·.partForeignPk)).Nodup) (orderkey : Str)
    (g : InvoiceLine → Option ℚ → β) {price : Str → Option ℚ}
    (hprice : ∀ p ∈ part, price p.partForeignPk = p.listPrice) :
    ((innerJoin onPart lines part).filter fun r => r.1.orderkey = orderkey).map
        (fun r => g r.1 r.2.listPrice) =
      (lines.filter fun l => l.orderkey = orderkey ∧ Matches part l).map
        fun l => g l (price l.partkey) := by
  rw [innerJoin, List.filter_flatMap, List.map_flatMap, ← flatMap_ite_singleton]
  refine List.flatMap_congr fun l _ => ?_
  by_cases hl : Matches part l
  · obtain ⟨p, hp, hkey, hmatching⟩ := matching_of_matches h hl
    rw [hmatching]
    by_cases hk : l.orderkey = orderkey
    · simp [hk, hl, ← hkey, hprice p hp]
    · simp [hk]
  · rw [matching_of_not_matches hl]
    simp [hl]

/-! ## The two merges -/

variable {db : Db ω}

/-- A part with its corrected price. -/
def correct (stage : List PartCorrection) (p : Part ω) : Part ω :=
  match stage.find? fun c => c.partkey = some p.partForeignPk with
  | some c => { p with listPrice := c.listPrice }
  | none => p

@[simp] theorem correct_partForeignPk (stage : List PartCorrection) (p : Part ω) :
    (correct stage p).partForeignPk = p.partForeignPk := by
  rw [correct]
  split <;> rfl

theorem mem_corrections {stage : List PartCorrection} {u : Str × Option ℚ} :
    u ∈ corrections part stage ↔ ∃ p ∈ part, ∃ c ∈ stage,
      c.partkey = some p.partForeignPk ∧ (p.partForeignPk, c.listPrice) = u := by
  simp only [corrections, List.mem_map, Prod.exists, mem_innerJoin, Truth.eq_some_eq_yes]
  constructor
  · intro h
    obtain ⟨p, c, ⟨hp, hc, hkey⟩, rfl⟩ := h
    exact ⟨p, hp, c, hc, hkey, rfl⟩
  · intro h
    obtain ⟨p, hp, c, hc, hkey, rfl⟩ := h
    exact ⟨p, c, ⟨hp, hc, hkey⟩, rfl⟩

/-- Distinct keys give one correction for a part. -/
theorem nodup_corrections (hpart : (part.map (·.partForeignPk)).Nodup)
    {stage : List PartCorrection} (hstage : (stage.map (·.partkey)).Nodup) :
    ((corrections part stage).map Prod.fst).Nodup := by
  rw [corrections, List.map_map]
  refine nodup_innerJoin hpart fun p => ?_
  refine length_filter_le_one hstage _ ?_
  intro c _ c' _ hc hc'
  simp only [Truth.eq_some_eq_yes, decide_eq_true_eq] at hc hc'
  exact hc.trans hc'.symm

theorem part_mergePart (hpart : (db.part.map (·.partForeignPk)).Nodup)
    {stage : List PartCorrection} (hstage : (stage.map (·.partkey)).Nodup) :
    (mergePart stage db).part = db.part.map (correct stage) := by
  have hrejects : ¬ mergeIntoPart.Rejects db.part (corrections db.part stage) := by
    apply MergeInto.not_rejects_of_nodup (nodup_corrections hpart hstage)
    intro u u' p hu hu'
    simp only [mergeIntoPart, Truth.eq_some_eq_yes, Option.some.injEq] at hu hu'
    exact hu.symm.trans hu'
  have hpart' : (mergePart stage db).part =
      db.part.map (mergeIntoPart.updateRow (corrections db.part stage)) :=
    MergeInto.apply_of_insert_eq_none rfl hrejects
  rw [hpart']
  refine List.map_congr_left fun p hp => ?_
  rw [correct]
  cases hfind : stage.find? fun c => c.partkey = some p.partForeignPk with
  | none =>
      refine MergeInto.updateRow_of_unmatched fun u hu hon => ?_
      obtain ⟨p', hp', c, hc, hkey, rfl⟩ := mem_corrections.mp hu
      simp only [mergeIntoPart, Truth.eq_some_eq_yes, Option.some.injEq] at hon
      have hnone := List.find?_eq_none.mp hfind c hc
      rw [hkey, hon] at hnone
      simp at hnone
  | some c =>
      have hc := List.mem_of_find?_eq_some hfind
      have hkey : c.partkey = some p.partForeignPk := by simpa using List.find?_some hfind
      have hu : (p.partForeignPk, c.listPrice) ∈ corrections db.part stage :=
        mem_corrections.mpr ⟨p, hp, c, hc, hkey, rfl⟩
      obtain ⟨u, hu', hon, hupdate⟩ := MergeInto.updateRow_of_matched (m := mergeIntoPart) hu
        (by simp [mergeIntoPart] : mergeIntoPart.on (p.partForeignPk, c.listPrice) p = .yes)
      have hfst : u.1 = p.partForeignPk :=
        (Option.some.inj ((Truth.eq_some_eq_yes _ _).mp hon)).symm
      obtain rfl : u = (p.partForeignPk, c.listPrice) :=
        List.inj_on_of_nodup_map (nodup_corrections hpart hstage) hu' hu hfst
      rw [hupdate]
      rfl

/-- The second merge computes the rates of all orders anew. -/
theorem orders_mergeOrders (db : Db ω)
    (h : ∀ o ∈ db.orders, o.orderForeignPk ∈ orderkeys (db.invoice.map Invoice.line) db.part) :
    (mergeOrders db).orders = db.orders.map fun o => { o with
      discountRate := rateOf (db.invoice.map Invoice.line) db.part o.orderForeignPk } := by
  have hrejects : ¬ mergeIntoOrders.Rejects db.orders (discountRates db.invoice db.part) := by
    have hnodup : ((discountRates db.invoice db.part).map Prod.fst).Nodup := by
      rw [discountRates_eq, List.map_map]
      simpa [Function.comp_def] using nodup_orderkeys _ _
    apply MergeInto.not_rejects_of_nodup hnodup
    intro u u' o hu hu'
    simp only [mergeIntoOrders, Truth.eq_some_eq_yes, Option.some.injEq] at hu hu'
    exact hu.trans hu'.symm
  have horders : (mergeOrders db).orders =
      db.orders.map (mergeIntoOrders.updateRow (discountRates db.invoice db.part)) :=
    MergeInto.apply_of_insert_eq_none rfl hrejects
  rw [horders]
  refine List.map_congr_left fun o ho => ?_
  have hu : (o.orderForeignPk, rateOf (db.invoice.map Invoice.line) db.part o.orderForeignPk) ∈
      discountRates db.invoice db.part := by
    rw [discountRates_eq]
    exact List.mem_map.mpr ⟨_, h o ho, rfl⟩
  have hon : mergeIntoOrders.on
      (o.orderForeignPk, rateOf (db.invoice.map Invoice.line) db.part o.orderForeignPk) o =
        .yes := by
    simp [mergeIntoOrders]
  obtain ⟨u, hu', hon', hupdate⟩ := MergeInto.updateRow_of_matched hu hon
  rw [discountRates_eq] at hu'
  obtain ⟨k, -, rfl⟩ := List.mem_map.mp hu'
  have hk : k = o.orderForeignPk := Option.some.inj ((Truth.eq_some_eq_yes _ _).mp hon')
  rw [hupdate, hk]
  rfl

/-! ## The initial load -/

section Load
variable (supply : Supply ω) (stage : List InvoiceLine) (partStage : List PartPrice)

theorem map_part_initialLoad :
    (initialLoad supply stage partStage).part.map (fun p => (p.partForeignPk, p.listPrice)) =
      partStage.map fun p => (p.partkey, p.listPrice) := by
  conv_rhs => rw [← map_snd_withUuid supply 0 partStage, List.map_map]
  exact List.map_map

theorem map_orders_initialLoad :
    (initialLoad supply stage partStage).orders.map (fun o => (o.orderForeignPk, o.discountRate)) =
      (orderkeys stage (initialLoad supply stage partStage).part).map fun k =>
        (k, rateOf stage (initialLoad supply stage partStage).part k) := by
  rw [← map_sales]
  conv_rhs => rw [← map_snd_withUuid supply (0 + partStage.length) (sales stage _), List.map_map]
  exact List.map_map

end Load

theorem map_line_insertInvoice (supply : Supply ω) (stage : List InvoiceLine)
    (h : db.invoice = []) : (insertInvoice supply stage db).invoice.map Invoice.line =
      (invoiceRows db.orders db.part stage).map Prod.snd := by
  conv_rhs => rw [← map_snd_withUuid supply db.issued (invoiceRows _ _ _), List.map_map]
  rw [insertInvoice, h, List.nil_append, List.map_map]
  rfl

/-- The invoices are the stage lines that match a part. -/
theorem perm_invoice {orders : List (Order ω)} (hpart : (part.map (·.partForeignPk)).Nodup)
    (horders : orders.map (·.orderForeignPk) = orderkeys lines part) :
    ((invoiceRows orders part lines).map Prod.snd).Perm
      (lines.filter fun l => Matches part l) := by
  have hrows : (invoiceRows orders part lines).Perm (lines.flatMap fun l =>
      (matching (fun o : Order ω => Truth.eq (some o.orderForeignPk) (some l.orderkey))
        orders).flatMap fun o => (matching (fun p : Part ω =>
          Truth.eq (some p.partForeignPk) (some l.partkey)) part).map fun p => ((o, p), l)) :=
    perm_innerJoin_product
      (fun (o : Order ω) (l : InvoiceLine) => Truth.eq (some o.orderForeignPk) (some l.orderkey))
      (fun (p : Part ω) (l : InvoiceLine) => Truth.eq (some p.partForeignPk) (some l.partkey))
      orders part lines
  refine (hrows.map Prod.snd).trans (List.Perm.of_eq ?_)
  have hid : lines.filter (fun l => Matches part l) =
      (lines.filter fun l => Matches part l).map id := (List.map_id _).symm
  rw [hid, ← flatMap_ite_singleton, List.map_flatMap]
  refine List.flatMap_congr fun l hl => ?_
  have hparts : matching (fun p : Part ω =>
      Truth.eq (some p.partForeignPk) (some l.partkey)) part = matching (onPart l) part := by
    refine List.filter_congr fun p _ => ?_
    simp only [onPart, Truth.eq_some_eq_yes, Option.some.injEq]
    exact decide_eq_decide.mpr eq_comm
  rw [hparts]
  by_cases hmatches : Matches part l
  · obtain ⟨p, -, -, hmatching⟩ := matching_of_matches hpart hmatches
    -- The order of the line has one row, as its key is that of a group.
    have hkey : l.orderkey ∈ orders.map (·.orderForeignPk) := by
      rw [horders, mem_orderkeys]
      exact ⟨l, hl, rfl, hmatches⟩
    obtain ⟨o, ho, hkey⟩ := List.mem_map.mp hkey
    have hnodup : (orders.map (·.orderForeignPk)).Nodup := by
      rw [horders]
      exact nodup_orderkeys _ _
    have horder : matching (fun o : Order ω =>
        Truth.eq (some o.orderForeignPk) (some l.orderkey)) orders = [o] := by
      refine filter_eq_singleton (length_filter_le_one hnodup _ ?_) ho (by simp [hkey])
      intro a _ b _ ha hb
      simp only [Truth.eq_some_eq_yes, Option.some.injEq, decide_eq_true_eq] at ha hb
      exact ha.symm.trans hb
    rw [horder, hmatching, if_pos hmatches]
    rfl
  · rw [matching_of_not_matches hmatches, if_neg hmatches]
    simp

/-! ## The rates after the merges -/

/-- The tables after the initial load and the two merges. -/
def corrected (supply : Supply ω) (stage : List InvoiceLine) (partStage : List PartPrice)
    (corrections : List PartCorrection) : Db ω :=
  mergeOrders (mergePart corrections (initialLoad supply stage partStage))

section Corrected
variable (supply : Supply ω) {stage : List InvoiceLine} {partStage : List PartPrice}
  {corrections : List PartCorrection}

theorem keys_initialLoad (supply : Supply ω) (stage : List InvoiceLine)
    (partStage : List PartPrice) :
    (initialLoad supply stage partStage).part.map (·.partForeignPk) =
      partStage.map (·.partkey) := by
  have hkeys := congrArg (List.map Prod.fst) (map_part_initialLoad supply stage partStage)
  rwa [List.map_map, List.map_map] at hkeys

theorem orders_initialLoad (supply : Supply ω) (stage : List InvoiceLine)
    (partStage : List PartPrice) :
    (initialLoad supply stage partStage).orders.map (·.orderForeignPk) =
      orderkeys stage (initialLoad supply stage partStage).part := by
  have hkeys := congrArg (List.map Prod.fst) (map_orders_initialLoad supply stage partStage)
  rw [List.map_map, List.map_map] at hkeys
  exact hkeys.trans (List.map_id _)

theorem matches_iff {part' : List (Part ω)}
    (hkeys : part'.map (·.partForeignPk) = part.map (·.partForeignPk)) (l : InvoiceLine) :
    Matches part' l ↔ Matches part l := by
  have hmem : ∀ part : List (Part ω), Matches part l ↔ l.partkey ∈ part.map (·.partForeignPk) :=
    fun part => List.mem_map.symm
  rw [hmem, hmem, hkeys]

/-- The invoices of the initial load are its stage lines that match a part. -/
theorem perm_line (hpart : (partStage.map (·.partkey)).Nodup) :
    ((initialLoad supply stage partStage).invoice.map Invoice.line).Perm
      (stage.filter fun l => Matches (initialLoad supply stage partStage).part l) := by
  have hlines : (initialLoad supply stage partStage).invoice.map Invoice.line =
      (invoiceRows (initialLoad supply stage partStage).orders
        (initialLoad supply stage partStage).part stage).map Prod.snd :=
    map_line_insertInvoice supply stage rfl
  rw [hlines]
  refine perm_invoice ?_ (orders_initialLoad supply stage partStage)
  rw [keys_initialLoad]
  exact hpart

/-- The rate that the invoices give is the one of the stage lines. -/
theorem rateOf_invoice (hpart : (partStage.map (·.partkey)).Nodup) {part' : List (Part ω)}
    (hkeys : part'.map (·.partForeignPk) =
      (initialLoad supply stage partStage).part.map (·.partForeignPk)) (k : Str) :
    rateOf ((initialLoad supply stage partStage).invoice.map Invoice.line) part' k =
      rateOf stage part' k := by
  rw [rateOf_perm (perm_line supply hpart), rateOf, innerJoin_filter_matches hkeys, rateOf]

/-- The order keys of the invoices are those of the stage lines. -/
theorem mem_orderkeys_invoice (hpart : (partStage.map (·.partkey)).Nodup) {part' : List (Part ω)}
    (hkeys : part'.map (·.partForeignPk) =
      (initialLoad supply stage partStage).part.map (·.partForeignPk)) {o : Order ω}
    (ho : o ∈ (initialLoad supply stage partStage).orders) :
    o.orderForeignPk ∈
      orderkeys ((initialLoad supply stage partStage).invoice.map Invoice.line) part' := by
  have hkey : o.orderForeignPk ∈ orderkeys stage (initialLoad supply stage partStage).part := by
    rw [← orders_initialLoad]
    exact List.mem_map_of_mem ho
  obtain ⟨l, hl, hk, hmatches⟩ := mem_orderkeys.mp hkey
  refine mem_orderkeys.mpr ⟨l, ?_, hk, (matches_iff hkeys l).mpr hmatches⟩
  rw [(perm_line supply hpart).mem_iff]
  exact List.mem_filter.mpr ⟨hl, decide_eq_true hmatches⟩

/-- The price of a part after the corrections. -/
theorem correctedPrice_eq (hpart : (partStage.map (·.partkey)).Nodup) {p : Part ω}
    (hp : p ∈ (initialLoad supply stage partStage).part) :
    correctedPrice partStage corrections p.partForeignPk = (correct corrections p).listPrice := by
  rw [correctedPrice, correct]
  cases hfind : corrections.find? fun c => c.partkey = some p.partForeignPk with
  | some c => rfl
  | none =>
      have hmem : (p.partForeignPk, p.listPrice) ∈
          partStage.map fun p => (p.partkey, p.listPrice) := by
        rw [← map_part_initialLoad supply stage partStage]
        exact List.mem_map_of_mem hp
      obtain ⟨q, hq, heq⟩ := List.mem_map.mp hmem
      obtain ⟨hkey, hprice⟩ := Prod.mk.inj heq
      have hone : partStage.find? (fun p' => p'.partkey = p.partForeignPk) = some q := by
        refine find?_eq_some_of_key hpart hq (decide_eq_true hkey) ?_
        intro p' _ hp'
        exact (of_decide_eq_true hp').trans hkey.symm
      simp only [hone, Option.bind_some, hprice]

/-- The rate of the stage lines at the corrected prices. -/
theorem rateOf_correct (hpart : (partStage.map (·.partkey)).Nodup) (k : Str) :
    rateOf stage ((initialLoad supply stage partStage).part.map (correct corrections)) k =
      expectedRate partStage corrections stage k := by
  have hkeys : ((initialLoad supply stage partStage).part.map (correct corrections)).map
      (·.partForeignPk) = partStage.map (·.partkey) := by
    rw [← keys_initialLoad supply stage partStage, List.map_map]
    exact List.map_congr_left fun p _ => correct_partForeignPk corrections p
  have hnodup : (((initialLoad supply stage partStage).part.map (correct corrections)).map
      (·.partForeignPk)).Nodup := by
    rw [hkeys]
    exact hpart
  have hprice : ∀ p ∈ (initialLoad supply stage partStage).part.map (correct corrections),
      correctedPrice partStage corrections p.partForeignPk = p.listPrice := by
    intro p hp
    obtain ⟨q, hq, rfl⟩ := List.mem_map.mp hp
    rw [correct_partForeignPk]
    exact correctedPrice_eq supply hpart hq
  have hlines : (stage.filter fun l => l.orderkey = k ∧
      Matches ((initialLoad supply stage partStage).part.map (correct corrections)) l) =
        matchedLines partStage stage k := by
    refine List.filter_congr fun l _ => decide_eq_decide.mpr (and_congr_right fun _ => ?_)
    rw [Matches, ← List.mem_map, hkeys, List.mem_map]
  have hamounts := map_rows stage hnodup k (fun l _ => mul l.quantity l.total) hprice
  have hprices := map_rows stage hnodup k (fun l price => mul l.quantity price) hprice
  rw [hlines] at hamounts hprices
  rw [rateOf, rate, hamounts, hprices, expectedRate]

theorem orders_corrected (hpart : (partStage.map (·.partkey)).Nodup)
    (hcorrections : (corrections.map (·.partkey)).Nodup) :
    (corrected supply stage partStage corrections).orders =
      (initialLoad supply stage partStage).orders.map fun o => { o with
        discountRate := expectedRate partStage corrections stage o.orderForeignPk } := by
  have hnodup : ((initialLoad supply stage partStage).part.map (·.partForeignPk)).Nodup := by
    rw [keys_initialLoad]
    exact hpart
  have hpart' := part_mergePart hnodup hcorrections
  have hkeys : (mergePart corrections (initialLoad supply stage partStage)).part.map
      (·.partForeignPk) = (initialLoad supply stage partStage).part.map (·.partForeignPk) := by
    rw [hpart', List.map_map]
    exact List.map_congr_left fun p _ => correct_partForeignPk corrections p
  have horders := orders_mergeOrders (mergePart corrections (initialLoad supply stage partStage))
    fun o ho => mem_orderkeys_invoice supply hpart hkeys ho
  rw [corrected, horders]
  refine List.map_congr_left fun o _ => ?_
  have hrate := rateOf_invoice supply hpart hkeys o.orderForeignPk
  rw [← rateOf_correct supply hpart, ← hpart', ← hrate]
  rfl

/-- An order has as many rows as it needs. -/
theorem length_orders_corrected (hpart : (partStage.map (·.partkey)).Nodup)
    (hcorrections : (corrections.map (·.partkey)).Nodup) (k : Str) :
    ((corrected supply stage partStage corrections).orders.filter
      fun o => o.orderForeignPk = k).length =
        if matchedLines partStage stage k = [] then 0 else 1 := by
  have hkeys : (corrected supply stage partStage corrections).orders.map (·.orderForeignPk) =
      orderkeys stage (initialLoad supply stage partStage).part := by
    rw [← orders_initialLoad, orders_corrected supply hpart hcorrections, List.map_map]
    rfl
  have hcount : ((corrected supply stage partStage corrections).orders.filter
      fun o => o.orderForeignPk = k).length =
        (orderkeys stage (initialLoad supply stage partStage).part).count k := by
    rw [← hkeys, List.count, List.countP_map, ← List.countP_eq_length_filter]
    refine List.countP_congr fun o _ => ?_
    simp
  have hmem : k ∈ orderkeys stage (initialLoad supply stage partStage).part ↔
      matchedLines partStage stage k ≠ [] := by
    rw [mem_orderkeys, matchedLines, Ne, List.filter_eq_nil_iff]
    have hmatches : ∀ l, Matches (initialLoad supply stage partStage).part l ↔
        ∃ p ∈ partStage, p.partkey = l.partkey := by
      intro l
      rw [Matches, ← List.mem_map, keys_initialLoad, List.mem_map]
    simp [hmatches]
  rw [hcount, (nodup_orderkeys _ _).count]
  by_cases hlines : matchedLines partStage stage k = [] <;> simp [hmem, hlines]

/-- Without corrections the merges change nothing. -/
theorem corrected_nil (hpart : (partStage.map (·.partkey)).Nodup) :
    corrected supply stage partStage [] = initialLoad supply stage partStage := by
  have hsame : (initialLoad supply stage partStage).part.map (correct []) =
      (initialLoad supply stage partStage).part := List.map_id _
  have hnodup : ((initialLoad supply stage partStage).part.map (·.partForeignPk)).Nodup := by
    rw [keys_initialLoad]
    exact hpart
  have hnil : (([] : List PartCorrection).map (·.partkey)).Nodup := List.nodup_nil
  have hpart' : (mergePart [] (initialLoad supply stage partStage)).part =
      (initialLoad supply stage partStage).part := by
    rw [part_mergePart hnodup hnil, hsame]
  have horders : (corrected supply stage partStage []).orders =
      (initialLoad supply stage partStage).orders := by
    rw [orders_corrected supply hpart hnil]
    conv_rhs => rw [← List.map_id (initialLoad supply stage partStage).orders]
    refine List.map_congr_left fun o ho => ?_
    have hmem : (o.orderForeignPk, o.discountRate) ∈
        (initialLoad supply stage partStage).orders.map
          fun o => (o.orderForeignPk, o.discountRate) := List.mem_map_of_mem ho
    rw [map_orders_initialLoad] at hmem
    obtain ⟨k, -, heq⟩ := List.mem_map.mp hmem
    obtain ⟨rfl, hrate⟩ := Prod.mk.inj heq
    rw [← rateOf_correct supply hpart, hsame, hrate]
    rfl
  calc
    corrected supply stage partStage [] =
        { initialLoad supply stage partStage with
          part := (mergePart [] (initialLoad supply stage partStage)).part
          orders := (corrected supply stage partStage []).orders } := rfl
    _ = initialLoad supply stage partStage := by rw [hpart', horders]

/-- After the two merges every order has one row, with the discount rate of its stage lines at
the corrected prices. Without corrections the merges change nothing. -/
theorem rates_maintained (hpart : (partStage.map (·.partkey)).Nodup)
    (hcorrections : (corrections.map (·.partkey)).Nodup) :
    (∀ o ∈ (corrected supply stage partStage corrections).orders,
      o.discountRate = expectedRate partStage corrections stage o.orderForeignPk) ∧
    (∀ k, ((corrected supply stage partStage corrections).orders.filter
      fun o => o.orderForeignPk = k).length =
        if matchedLines partStage stage k = [] then 0 else 1) ∧
    (corrections = [] →
      corrected supply stage partStage corrections = initialLoad supply stage partStage) := by
  refine ⟨?_, length_orders_corrected supply hpart hcorrections, ?_⟩
  · rw [orders_corrected supply hpart hcorrections]
    intro o ho
    obtain ⟨o', -, rfl⟩ := List.mem_map.mp ho
    rfl
  · intro hnone
    subst hnone
    exact corrected_nil supply hpart

end Corrected

def sampleLines : List InvoiceLine := [⟨"I-122-1023", "P-328-382", some 1, some (13 / 10)⟩,
  ⟨"I-122-1023", "P-888-382", some 3, some (13 / 10)⟩,
  ⟨"I-122-1024", "P-234-123", some 5, some (53 / 10)⟩]

def sampleParts : List PartPrice := [⟨"P-328-382", some (3 / 2)⟩, ⟨"P-888-382", some (9 / 5)⟩,
  ⟨"P-234-123", some 6⟩, ⟨"P-234-382", some 9⟩]

/-- The correction of the script. -/
def sampleCorrections : List PartCorrection := [⟨some "P-888-382", some 2⟩]

theorem sampleLines_rates :
    ((corrected ⟨id, Function.injective_id⟩ sampleLines sampleParts sampleCorrections).orders.all
      fun o => decide (o.discountRate =
        expectedRate sampleParts sampleCorrections sampleLines o.orderForeignPk)) = true := by
  rw [List.all_eq_true]
  intro o ho
  apply decide_eq_true
  exact (rates_maintained ⟨id, Function.injective_id⟩ (by decide) (by decide)).1 o ho

end Structor.HiveMerge
