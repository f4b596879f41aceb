import Mathlib.Algebra.BigOperators.Group.List.Basic
import Mathlib.Algebra.Field.Defs
import Mathlib.Data.List.Dedup
import Mathlib.Data.List.ReduceOption
import Mathlib.Data.Multiset.Bind
import Structor.Sql.Merge

/-!
# Arithmetic and aggregates

The arithmetic of nullable numbers, the sum of a column, and GROUP BY. Neither the sum
nor what a join holds depends on the order of rows.

## Main definitions

* `mul`, `sub`, `div` -- NULL if an argument is, or if the divisor is zero
* `sum` -- the sum of the values that are not NULL
* `groupBy` -- the groups of a table
-/
namespace Structor.Sql
variable {α β γ κ K : Type} [Field K]

/-! ## Nullable numbers -/

def mul : Option K → Option K → Option K
  | some a, some b => some (a * b)
  | _, _ => none

def sub : Option K → Option K → Option K
  | some a, some b => some (a - b)
  | _, _ => none

/-- A division by zero gives NULL. -/
def div [DecidableEq K] : Option K → Option K → Option K
  | some a, some b => if b = 0 then none else some (a / b)
  | _, _ => none

/-- The sum of the values that are not NULL, or NULL if there is none. -/
def sum (values : List (Option K)) : Option K :=
  if values.reduceOption = [] then none else some values.reduceOption.sum

theorem sum_perm {values values' : List (Option K)} (h : values.Perm values') :
    sum values = sum values' := by
  have hreduce : values.reduceOption.Perm values'.reduceOption := h.filterMap id
  have hnil : values.reduceOption = [] ↔ values'.reduceOption = [] := by
    rw [← List.length_eq_zero_iff, hreduce.length_eq, List.length_eq_zero_iff]
  simp only [sum, hnil, hreduce.sum_eq]

/-! ## Groups -/

section Groups
variable [DecidableEq κ] {key : α → κ} {rows : List α}

/-- The keys of a table, each with its rows. -/
def groupBy (key : α → κ) (rows : List α) : List (κ × List α) :=
  (rows.map key).dedup.map fun k => (k, rows.filter fun a => key a = k)

theorem mem_groupBy {group : κ × List α} : group ∈ groupBy key rows ↔
    group.1 ∈ rows.map key ∧ group.2 = rows.filter fun a => key a = group.1 := by
  obtain ⟨k, members⟩ := group
  simp only [groupBy, List.mem_map, List.mem_dedup, Prod.mk.injEq]
  constructor
  · intro h
    obtain ⟨k', hk, rfl, rfl⟩ := h
    exact ⟨hk, rfl⟩
  · intro h
    exact ⟨k, h.1, rfl, h.2.symm⟩

end Groups

/-! ## The order of a join -/

theorem coe_matching (on : β → Truth) (rows : List β) (f : β → γ) :
    (((matching on rows).map f : List γ) : Multiset γ) =
      (rows : Multiset β).bind fun b => if on b = .yes then {f b} else 0 := by
  induction rows with
  | nil => rfl
  | cons b rows ih =>
      rw [← Multiset.cons_coe, Multiset.cons_bind, ← ih]
      by_cases hb : on b = .yes <;> simp [matching, hb]

/-- The row that three rows make, if they match. -/
def joined (on₁ : α → γ → Truth) (on₂ : β → γ → Truth) (a : α) (b : β) (c : γ) :
    Multiset ((α × β) × γ) :=
  if on₁ a c = .yes then if on₂ b c = .yes then {((a, b), c)} else 0 else 0

/-- A join of a product may be read row by row of its last table. -/
theorem perm_innerJoin_product (on₁ : α → γ → Truth) (on₂ : β → γ → Truth) (as : List α)
    (bs : List β) (cs : List γ) :
    (innerJoin (fun ab c => (on₁ ab.1 c).and (on₂ ab.2 c)) (as ×ˢ bs) cs).Perm
      (cs.flatMap fun c => (matching (fun a => on₁ a c) as).flatMap fun a =>
        (matching (fun b => on₂ b c) bs).map fun b => ((a, b), c)) := by
  have hleft : ((innerJoin (fun ab c => (on₁ ab.1 c).and (on₂ ab.2 c)) (as ×ˢ bs) cs : List _) :
      Multiset _) = (as : Multiset α).bind fun a => (bs : Multiset β).bind fun b =>
        (cs : Multiset γ).bind fun c => joined on₁ on₂ a b c := by
    have hproduct : ((as ×ˢ bs : List _) : Multiset _) =
        (as : Multiset α).bind fun a => (bs : Multiset β).map (Prod.mk a) :=
      (Multiset.coe_product as bs).symm
    rw [innerJoin, ← Multiset.coe_bind, hproduct, Multiset.bind_assoc]
    refine Multiset.bind_congr fun a _ => ?_
    rw [Multiset.bind_map]
    refine Multiset.bind_congr fun b _ => ?_
    rw [coe_matching]
    refine Multiset.bind_congr fun c _ => ?_
    by_cases ha : on₁ a c = .yes <;> simp [joined, ha]
  have hright : ((cs.flatMap fun c => (matching (fun a => on₁ a c) as).flatMap fun a =>
      (matching (fun b => on₂ b c) bs).map fun b => ((a, b), c) : List _) : Multiset _) =
      (cs : Multiset γ).bind fun c => (as : Multiset α).bind fun a =>
        (bs : Multiset β).bind fun b => joined on₁ on₂ a b c := by
    rw [← Multiset.coe_bind]
    refine Multiset.bind_congr fun c _ => ?_
    have hmatching : matching (fun a => on₁ a c) as = (matching (fun a => on₁ a c) as).map id :=
      (List.map_id _).symm
    rw [← Multiset.coe_bind, hmatching, coe_matching, Multiset.bind_assoc]
    refine Multiset.bind_congr fun a _ => ?_
    by_cases ha : on₁ a c = .yes
    · simp only [joined, ha, if_true, id_eq, Multiset.singleton_bind, coe_matching]
    · simp [joined, ha]
  rw [← Multiset.coe_eq_coe, hleft, hright, Multiset.bind_bind (cs : Multiset γ)]
  refine Multiset.bind_congr fun a _ => ?_
  exact Multiset.bind_bind _ _

end Structor.Sql
