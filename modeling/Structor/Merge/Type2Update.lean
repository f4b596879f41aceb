import Structor.Sql.Merge
import Structor.Steps
import Structor.Text

/-!
# The type-2 dimension update with a helper table

The script classifies the staged customers against the current rows, doubles the
changed ones through the helper table `scd_types`, and merges the result: one
copy of a changed row closes the old version, the other carries the key -1, which
is meant to match nothing, and becomes the new version.

## Main definitions

* `Customer`, `NewCustomerStage`: the two tables.
* `sub`: the source of the merge.
* `mergeCustomer`: the table after one run of the script.
* `Dimension`: one current row for each key of the table.
-/
namespace Structor.Type2

open Sql

/-- A row of `customer`; every column is nullable. -/
structure Customer where
  sourcePk : Option ℤ
  sk : Option Str
  name : Option Str
  state : Option Str
  isCurrent : Option Bool
  endDate : Option ℤ
  deriving DecidableEq

/-- A row of `new_customer_stage`, whose key is not NULL. -/
structure StageRow where
  sourcePk : ℤ
  name : Option Str
  state : Option Str
  deriving DecidableEq

/-- The stage table of one run. -/
structure NewCustomerStage where
  rows : List StageRow
  pk_nodup : (rows.map (·.sourcePk)).Nodup

/-- One run of the script: its date, in days, and its stage table. -/
structure Load where
  currentDate : ℤ
  stage : NewCustomerStage

structure ScdType where
  type : ℕ
  invalidKey : Option ℤ

def scdTypes : List ScdType := [⟨1, none⟩, ⟨2, some (-1)⟩, ⟨2, none⟩]

/-! ## The source of the merge -/

/-- The condition of the outer join: the current rows of the staged key. -/
def onCurrent (s : StageRow) (c : Customer) : Truth :=
  (Truth.eq (some s.sourcePk) c.sourcePk).and (Truth.eq c.isCurrent (some true))

/-- `stage.name <> customer.name or stage.state <> customer.state`. -/
def differs (s : StageRow) (c : Customer) : Truth :=
  (Truth.ne s.name c.name).or (Truth.ne s.state c.state)

/-- 1 is an insert, 2 a new version and 0 is discarded. The columns of an
unmatched outer row are NULL. -/
def scdRowType (s : StageRow) (c : Option Customer) : ℕ :=
  match c with
  | none => 1
  | some c => if c.sourcePk.isNone then 1 else if differs s c = .yes then 2 else 0

structure Update where
  row : StageRow
  scdRowType : ℕ

def updates (stage : NewCustomerStage) (customer : List Customer) : List Update :=
  (leftJoin onCurrent stage.rows customer).map fun p => ⟨p.1, scdRowType p.1 p.2⟩

/-- A row of the merge source, with `coalesce(invalid_key, source_pk)`. -/
structure Sub where
  row : StageRow
  joinKey : Option ℤ
  deriving DecidableEq

def toSub (u : Update) (t : ScdType) : Sub := ⟨u.row, t.invalidKey <|> some u.row.sourcePk⟩

def sub (stage : NewCustomerStage) (customer : List Customer) : List Sub :=
  (innerJoin (fun u t => Truth.eq (some t.type) (some u.scdRowType)) (updates stage customer)
    scdTypes).map fun p => toSub p.1 p.2

/-! ## The merge -/

/-- `upper(substr(name, 0, 3))`. The server's case mapping is a parameter. -/
def surrogateKey (upper : Str → Str) (name : Option Str) : Option Str :=
  name.map fun n => upper (n.take 3)

def close (today : ℤ) (c : Customer) : Customer :=
  { c with isCurrent := some false, endDate := some today }

def newVersion (upper : Str → Str) (s : StageRow) : Customer where
  sourcePk := some s.sourcePk
  sk := surrogateKey upper s.name
  name := s.name
  state := s.state
  isCurrent := some true
  endDate := none

def mergeInto (upper : Str → Str) (today : ℤ) : MergeInto Sub Customer where
  on u c := Truth.eq u.joinKey c.sourcePk
  condition _ _ := .yes
  update _ c := close today c
  insert := some fun u => newVersion upper u.row

/-- The customer table after one run of the script. -/
def mergeCustomer (upper : Str → Str) (customer : List Customer) (load : Load) : List Customer :=
  (mergeInto upper load.currentDate).apply customer (sub load.stage customer)

/-! ## Current rows -/

def IsCurrentOf (k : ℤ) (c : Customer) : Prop := c.sourcePk = some k ∧ c.isCurrent = some true

instance (k : ℤ) (c : Customer) : Decidable (IsCurrentOf k c) :=
  inferInstanceAs (Decidable (_ ∧ _))

def currentRows (customer : List Customer) (k : ℤ) : List Customer :=
  customer.filter fun c => IsCurrentOf k c

/-- At most one current row for each key, and one for each key that is present. -/
structure Dimension (customer : List Customer) : Prop where
  atMostOne : ∀ k, (currentRows customer k).length ≤ 1
  present : ∀ c ∈ customer, ∀ k, c.sourcePk = some k → currentRows customer k ≠ []

variable {upper : Str → Str} {customer : List Customer} {stage : NewCustomerStage}

@[simp] theorem onCurrent_eq_yes (s : StageRow) (c : Customer) :
    onCurrent s c = .yes ↔ IsCurrentOf s.sourcePk c := by
  simp [onCurrent, IsCurrentOf]

theorem mem_currentRows {k : ℤ} {c : Customer} :
    c ∈ currentRows customer k ↔ c ∈ customer ∧ IsCurrentOf k c := by
  simp [currentRows]

theorem matching_onCurrent (s : StageRow) :
    matching (onCurrent s) customer = currentRows customer s.sourcePk := by
  simp [matching, currentRows]

/-- A staged key without a current row. -/
def IsNew (customer : List Customer) (s : StageRow) : Prop := currentRows customer s.sourcePk = []

instance (s : StageRow) : Decidable (IsNew customer s) := inferInstanceAs (Decidable (_ = _))

/-- A staged row that some current row of its key visibly differs from. -/
def Changes (customer : List Customer) (s : StageRow) : Prop :=
  ∃ c ∈ currentRows customer s.sourcePk, differs s c = .yes

instance (s : StageRow) : Decidable (Changes customer s) :=
  inferInstanceAs (Decidable (∃ c ∈ _, _))

/-- A staged row that is out of date: its key is new or it changes. -/
def Stale (customer : List Customer) (s : StageRow) : Prop := IsNew customer s ∨ Changes customer s

instance (s : StageRow) : Decidable (Stale customer s) := inferInstanceAs (Decidable (_ ∨ _))

/-- A current row gives its staged row the type 2 or 0. -/
theorem scdRowType_current {s : StageRow} {c : Customer}
    (hc : c ∈ currentRows customer s.sourcePk) :
    scdRowType s (some c) = if differs s c = .yes then 2 else 0 := by
  simp [scdRowType, (mem_currentRows.mp hc).2.1]

/-- The type of a staged row is 1 for a new key. -/
theorem mem_updates_one {s : StageRow} :
    ⟨s, 1⟩ ∈ updates stage customer ↔ s ∈ stage.rows ∧ IsNew customer s := by
  simp only [updates, List.mem_map, Prod.exists, mem_leftJoin, matching_onCurrent, Update.mk.injEq]
  constructor
  · rintro ⟨s', c, ⟨hs, ⟨hnew, rfl⟩ | ⟨r, hr, rfl⟩⟩, rfl, htype⟩
    · exact ⟨hs, hnew⟩
    · rw [scdRowType_current hr] at htype
      split at htype <;> simp at htype
  · rintro ⟨hs, hnew⟩
    exact ⟨s, none, ⟨hs, .inl ⟨hnew, rfl⟩⟩, rfl, rfl⟩

/-- The type of a staged row is 2 when it changes a current row. -/
theorem mem_updates_two {s : StageRow} :
    ⟨s, 2⟩ ∈ updates stage customer ↔ s ∈ stage.rows ∧ Changes customer s := by
  simp only [updates, List.mem_map, Prod.exists, mem_leftJoin, matching_onCurrent, Update.mk.injEq]
  constructor
  · rintro ⟨s', c, ⟨hs, ⟨hnew, rfl⟩ | ⟨r, hr, rfl⟩⟩, rfl, htype⟩
    · simp [scdRowType] at htype
    · rw [scdRowType_current hr] at htype
      refine ⟨hs, r, hr, ?_⟩
      by_contra hno
      simp [hno] at htype
  · rintro ⟨hs, c, hc, hd⟩
    exact ⟨s, some c, ⟨hs, .inr ⟨c, hc, rfl⟩⟩, rfl, by simp [scdRowType_current hc, hd]⟩

/-- The helper table gives type 1 its own key, and type 2 both keys. -/
theorem mem_scdTypes_join {n : ℕ} {pk : ℤ} {k : Option ℤ} :
    (∃ t ∈ scdTypes, t.type = n ∧ (t.invalidKey <|> some pk) = k) ↔
      (n = 1 ∨ n = 2) ∧ k = some pk ∨ n = 2 ∧ k = some (-1) := by
  simp [scdTypes]
  grind

/-- What a staged row contributes to the merge source: a new key comes once under
its own key, a changed one under the invalid key and under its own. -/
theorem mem_sub {s : StageRow} {k : Option ℤ} : ⟨s, k⟩ ∈ sub stage customer ↔
    s ∈ stage.rows ∧ (Stale customer s ∧ k = some s.sourcePk ∨
      Changes customer s ∧ k = some (-1)) := by
  have hsub : ⟨s, k⟩ ∈ sub stage customer ↔ ∃ n, ⟨s, n⟩ ∈ updates stage customer ∧
      ∃ t ∈ scdTypes, t.type = n ∧ (t.invalidKey <|> some s.sourcePk) = k := by
    simp only [sub, List.mem_map, Prod.exists, mem_innerJoin, toSub, Truth.eq_some_eq_yes,
      Sub.mk.injEq, Option.some.injEq]
    constructor
    · rintro ⟨⟨s', n⟩, t, ⟨hw, ht, htype⟩, rfl, hk⟩
      exact ⟨n, hw, t, ht, htype.symm, hk⟩
    · rintro ⟨n, hw, t, ht, htype, hk⟩
      exact ⟨⟨s, n⟩, t, ⟨hw, ht, htype.symm⟩, rfl, hk⟩
  simp only [hsub, mem_scdTypes_join]
  constructor
  · rintro ⟨n, hw, ⟨rfl | rfl, hk⟩ | ⟨rfl, hk⟩⟩
    · obtain ⟨hs, hnew⟩ := mem_updates_one.mp hw
      exact ⟨hs, .inl ⟨.inl hnew, hk⟩⟩
    · obtain ⟨hs, hch⟩ := mem_updates_two.mp hw
      exact ⟨hs, .inl ⟨.inr hch, hk⟩⟩
    · obtain ⟨hs, hch⟩ := mem_updates_two.mp hw
      exact ⟨hs, .inr ⟨hch, hk⟩⟩
  · rintro ⟨hs, ⟨hnew | hch, hk⟩ | ⟨hch, hk⟩⟩
    · exact ⟨1, mem_updates_one.mpr ⟨hs, hnew⟩, .inl ⟨.inl rfl, hk⟩⟩
    · exact ⟨2, mem_updates_two.mpr ⟨hs, hch⟩, .inl ⟨.inr rfl, hk⟩⟩
    · exact ⟨2, mem_updates_two.mpr ⟨hs, hch⟩, .inr ⟨rfl, hk⟩⟩

/-! ## One run -/

/-- Some source row has the key of the customer row. -/
def Hit (stage : NewCustomerStage) (customer : List Customer) (t : Customer) : Prop :=
  ∃ u ∈ sub stage customer, Truth.eq u.joinKey t.sourcePk = .yes

instance (t : Customer) : Decidable (Hit stage customer t) :=
  inferInstanceAs (Decidable (∃ u ∈ _, _))

/-- Two source rows have the key of one customer row, so that the merge is rejected. -/
def Ambiguous (stage : NewCustomerStage) (customer : List Customer) : Prop :=
  ∃ t ∈ customer,
    2 ≤ (matching (fun u : Sub => Truth.eq u.joinKey t.sourcePk) (sub stage customer)).length

instance : Decidable (Ambiguous stage customer) := inferInstanceAs (Decidable (∃ t ∈ _, _))

/-- The source rows that become new versions. -/
def fresh (stage : NewCustomerStage) (customer : List Customer) : List Sub :=
  (sub stage customer).filter fun u => ∀ t ∈ customer, Truth.eq u.joinKey t.sourcePk ≠ .yes

/-- The rows with a staged key that is new or changes, and the rows with the
invalid key when anything changes. -/
theorem hit_iff {t : Customer} : Hit stage customer t ↔ ∃ s ∈ stage.rows,
    Stale customer s ∧ t.sourcePk = some s.sourcePk ∨
      Changes customer s ∧ t.sourcePk = some (-1) := by
  constructor
  · rintro ⟨⟨s, k⟩, hu, hon⟩
    obtain ⟨hs, ⟨hc, rfl⟩ | ⟨hc, rfl⟩⟩ := mem_sub.mp hu
    · exact ⟨s, hs, .inl ⟨hc, by simpa using hon⟩⟩
    · exact ⟨s, hs, .inr ⟨hc, by simpa using hon⟩⟩
  · rintro ⟨s, hs, ⟨hc, ht⟩ | ⟨hc, ht⟩⟩
    · exact ⟨⟨s, some s.sourcePk⟩, mem_sub.mpr ⟨hs, .inl ⟨hc, rfl⟩⟩, by simp [ht]⟩
    · exact ⟨⟨s, some (-1)⟩, mem_sub.mpr ⟨hs, .inr ⟨hc, rfl⟩⟩, by simp [ht]⟩

theorem mergeCustomer_of_ambiguous {load : Load} (h : Ambiguous load.stage customer) :
    mergeCustomer upper customer load = customer :=
  MergeInto.apply_of_rejects h

/-- A run that is not rejected closes the rows that are hit, keeps the others and
appends the new versions. -/
theorem mergeCustomer_eq {load : Load} (h : ¬ Ambiguous load.stage customer) :
    mergeCustomer upper customer load =
      customer.map (fun t => if Hit load.stage customer t then close load.currentDate t else t) ++
        (fresh load.stage customer).map fun u => newVersion upper u.row := by
  have hrun : ¬ (mergeInto upper load.currentDate).Rejects customer (sub load.stage customer) := h
  rw [mergeCustomer, MergeInto.apply_of_not_rejects hrun]
  congr 1
  refine List.map_congr_left fun t _ => ?_
  by_cases hhit : Hit load.stage customer t
  · rw [if_pos hhit]
    obtain ⟨u, hu, hon⟩ := hhit
    have hon : (mergeInto upper load.currentDate).on u t = .yes := hon
    obtain ⟨u', -, -, heq⟩ := MergeInto.updateRow_of_matched hu hon
    rw [heq]
    simp [mergeInto]
  · rw [if_neg hhit]
    apply MergeInto.updateRow_of_unmatched
    intro u hu hon
    exact hhit ⟨u, hu, hon⟩

end Structor.Type2
