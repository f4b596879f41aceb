import Mathlib.Algebra.Field.Rat
import Structor.Fresh
import Structor.Lists
import Structor.Sql.Aggregate
import Structor.Text

/-!
# The invoice warehouse of `hive_merge_test1.sql`

The script loads the part dimension, the orders summary and the invoice facts from stage
tables, corrects list prices by a merge, fixes the discount rates by another one, and then
adds a second load.

## Main definitions

* `Db` -- the tables
* `initialLoad`, `mergePart`, `mergeOrders`, `secondLoad` -- the statements
* `script` -- all of them
-/
namespace Structor.HiveMerge

open Sql Fresh
variable {ω : Type}

/-! ## The tables -/

/-- A row of `invoice_initial_stage` or `invoice_new_stage`, whose keys are not NULL. -/
structure InvoiceLine where
  orderkey : Str
  partkey : Str
  quantity : Option ℚ
  total : Option ℚ

/-- A row of `part_initial_stage`, whose key is not NULL. -/
structure PartPrice where
  partkey : Str
  listPrice : Option ℚ

/-- A row of `part_correction_stage`. -/
structure PartCorrection where
  partkey : Option Str
  listPrice : Option ℚ

/-- A row of `part_0`. -/
structure Part (ω : Type) where
  partSk : ω
  partForeignPk : Str
  listPrice : Option ℚ
  deriving DecidableEq

/-- A row of `orders_0`. -/
structure Order (ω : Type) where
  orderSk : Option ω
  orderForeignPk : Str
  totalSale : Option ℚ
  discountRate : Option ℚ

/-- A row of `invoice_0`. -/
structure Invoice (ω : Type) where
  invoiceItemId : Option ω
  orderSk : Option ω
  invoiceForeignOrderkey : Str
  invoiceForeignPartkey : Str
  partSk : ω
  quantity : Option ℚ
  total : Option ℚ

/-- The tables, and how many UUIDs were given. -/
structure Db (ω : Type) where
  part : List (Part ω)
  orders : List (Order ω)
  invoice : List (Invoice ω)
  issued : ℕ

/-! ## The initial load -/

/-- Rows, each with a UUID. -/
def withUuid {α : Type} (supply : Supply ω) (issued : ℕ) (rows : List α) : List (ω × α) :=
  rows.zipIdx.map fun p => (supply.next (issued + p.2), p.1)

def insertPart (supply : Supply ω) (stage : List PartPrice) (db : Db ω) : Db ω :=
  { db with
    part := db.part ++ (withUuid supply db.issued stage).map fun p =>
      { partSk := p.1, partForeignPk := p.2.partkey, listPrice := p.2.listPrice }
    issued := db.issued + stage.length }

/-- `partkey = part_foreign_pk`. -/
def onPart (l : InvoiceLine) (p : Part ω) : Truth :=
  Truth.eq (some l.partkey) (some p.partForeignPk)

/-- `1 - sum(quantity*total) / sum(quantity*list_price)`. -/
def rate (rows : List (InvoiceLine × Part ω)) : Option ℚ :=
  sub (some 1) (div (sum (rows.map fun r => mul r.1.quantity r.1.total))
    (sum (rows.map fun r => mul r.1.quantity r.2.listPrice)))

/-- A row of the query over a stage table that is grouped by the order key. -/
structure Sale where
  orderkey : Str
  totalSale : Option ℚ
  discountRate : Option ℚ

def sales (stage : List InvoiceLine) (part : List (Part ω)) : List Sale :=
  (groupBy (fun r => r.1.orderkey) (innerJoin onPart stage part)).map fun g =>
    { orderkey := g.1
      totalSale := sum (g.2.map fun r => mul r.1.quantity r.1.total)
      discountRate := rate g.2 }

def insertOrders (supply : Supply ω) (stage : List InvoiceLine) (db : Db ω) : Db ω :=
  let rows := sales stage db.part
  { db with
    orders := db.orders ++ (withUuid supply db.issued rows).map fun s =>
      { orderSk := some s.1
        orderForeignPk := s.2.orderkey
        totalSale := s.2.totalSale
        discountRate := s.2.discountRate }
    issued := db.issued + rows.length }

/-- `from orders_0, part_0, stage where order_foreign_pk = orderkey and
part_foreign_pk = partkey`. -/
def invoiceRows (orders : List (Order ω)) (part : List (Part ω)) (stage : List InvoiceLine) :
    List ((Order ω × Part ω) × InvoiceLine) :=
  innerJoin (fun op l => (Truth.eq (some op.1.orderForeignPk) (some l.orderkey)).and
    (Truth.eq (some op.2.partForeignPk) (some l.partkey))) (orders ×ˢ part) stage

def invoiceOf (invoiceItemId : Option ω) (r : (Order ω × Part ω) × InvoiceLine) : Invoice ω where
  invoiceItemId := invoiceItemId
  orderSk := r.1.1.orderSk
  invoiceForeignOrderkey := r.2.orderkey
  invoiceForeignPartkey := r.2.partkey
  partSk := r.1.2.partSk
  quantity := r.2.quantity
  total := r.2.total

def insertInvoice (supply : Supply ω) (stage : List InvoiceLine) (db : Db ω) : Db ω :=
  let rows := invoiceRows db.orders db.part stage
  { db with
    invoice := db.invoice ++ (withUuid supply db.issued rows).map fun r => invoiceOf (some r.1) r.2
    issued := db.issued + rows.length }

def empty : Db ω := { part := [], orders := [], invoice := [], issued := 0 }

def initialLoad (supply : Supply ω) (invoiceStage : List InvoiceLine)
    (partStage : List PartPrice) : Db ω :=
  insertInvoice supply invoiceStage
    (insertOrders supply invoiceStage (insertPart supply partStage empty))

/-! ## The merges -/

/-- The source of the merge into `part_0`: the keys and the updated prices. -/
def corrections (part : List (Part ω)) (stage : List PartCorrection) :
    List (Str × Option ℚ) :=
  (innerJoin (fun p c => Truth.eq (some p.partForeignPk) c.partkey) part stage).map fun r =>
    (r.1.partForeignPk, r.2.listPrice)

def mergeIntoPart : MergeInto (Str × Option ℚ) (Part ω) where
  on u p := Truth.eq (some u.1) (some p.partForeignPk)
  condition _ _ := .yes
  update u p := { p with listPrice := u.2 }
  insert := none

def mergePart (stage : List PartCorrection) (db : Db ω) : Db ω :=
  { db with part := mergeIntoPart.apply db.part (corrections db.part stage) }

/-- The stage line that an invoice was made from. -/
def Invoice.line (i : Invoice ω) : InvoiceLine where
  orderkey := i.invoiceForeignOrderkey
  partkey := i.invoiceForeignPartkey
  quantity := i.quantity
  total := i.total

/-- The source of the merge into `orders_0`: the order keys and the discount rates. -/
def discountRates (invoice : List (Invoice ω)) (part : List (Part ω)) : List (Str × Option ℚ) :=
  (groupBy (fun r => r.1.invoiceForeignOrderkey)
    (innerJoin (fun i p => Truth.eq (some i.invoiceForeignPartkey) (some p.partForeignPk))
      invoice part)).map fun g => (g.1, rate (g.2.map fun r => (r.1.line, r.2)))

def mergeIntoOrders : MergeInto (Str × Option ℚ) (Order ω) where
  on u o := Truth.eq (some o.orderForeignPk) (some u.1)
  condition _ _ := .yes
  update u o := { o with discountRate := u.2 }
  insert := none

def mergeOrders (db : Db ω) : Db ω :=
  { db with orders := mergeIntoOrders.apply db.orders (discountRates db.invoice db.part) }

/-! ## The second load -/

/-- The new orders get no `order_sk`. -/
def insertNewOrders (stage : List InvoiceLine) (db : Db ω) : Db ω :=
  { db with
    orders := db.orders ++ (sales stage db.part).map fun s =>
      { orderSk := none
        orderForeignPk := s.orderkey
        totalSale := s.totalSale
        discountRate := s.discountRate } }

/-- The new invoices get no `invoice_item_id`. -/
def insertNewInvoice (stage : List InvoiceLine) (db : Db ω) : Db ω :=
  { db with
    invoice := db.invoice ++ (invoiceRows db.orders db.part stage).map (invoiceOf none) }

def secondLoad (stage : List InvoiceLine) (db : Db ω) : Db ω :=
  insertNewInvoice stage (insertNewOrders stage db)

def script (supply : Supply ω) (invoiceStage : List InvoiceLine) (partStage : List PartPrice)
    (invoiceNewStage : List InvoiceLine) (partCorrectionStage : List PartCorrection) : Db ω :=
  secondLoad invoiceNewStage
    (mergeOrders (mergePart partCorrectionStage (initialLoad supply invoiceStage partStage)))

end Structor.HiveMerge
