import Mathlib.Tactic.Common

/-!
# Three-valued logic

A comparison of nullable values is true, false or unknown, and a condition
accepts a row only when it is true. A nullable value is an `Option`, with `none`
for NULL.
-/
namespace Structor.Sql

/-- The truth value of an SQL condition. -/
inductive Truth
  | no
  | unknown
  | yes
  deriving DecidableEq, Repr

namespace Truth
variable {α : Type} [DecidableEq α]

def ofBool : Bool → Truth
  | true => yes
  | false => no

/-- False when either side is, true when both are. -/
def and : Truth → Truth → Truth
  | no, _ => no
  | _, no => no
  | yes, yes => yes
  | _, _ => unknown

/-- True when either side is, false when both are. -/
def or : Truth → Truth → Truth
  | yes, _ => yes
  | _, yes => yes
  | no, no => no
  | _, _ => unknown

/-- `a = b`, unknown when either side is NULL. -/
def eq : Option α → Option α → Truth
  | some a, some b => ofBool (decide (a = b))
  | _, _ => unknown

/-- `a <> b`, unknown when either side is NULL. -/
def ne : Option α → Option α → Truth
  | some a, some b => ofBool (decide (a ≠ b))
  | _, _ => unknown

/-- `a <=> b`: never unknown, and true of two NULLs. -/
def nullSafeEq (a b : Option α) : Truth := ofBool (decide (a = b))

@[simp] theorem ofBool_eq_yes (b : Bool) : ofBool b = yes ↔ b = true := by
  cases b <;> simp [ofBool]

@[simp] theorem and_eq_yes (a b : Truth) : a.and b = yes ↔ a = yes ∧ b = yes := by
  cases a <;> cases b <;> simp [and]

@[simp] theorem or_eq_yes (a b : Truth) : a.or b = yes ↔ a = yes ∨ b = yes := by
  cases a <;> cases b <;> simp [or]

@[simp] theorem eq_some_eq_yes (a : α) (b : Option α) : eq (some a) b = yes ↔ b = some a := by
  cases b with
  | none => simp [eq]
  | some b => simpa [eq] using eq_comm

@[simp] theorem eq_eq_yes_some (a : Option α) (b : α) : eq a (some b) = yes ↔ a = some b := by
  cases a <;> simp [eq]

/-- A difference is seen only between two values that are not NULL. -/
theorem ne_eq_yes (a b : Option α) :
    ne a b = yes ↔ a.isSome ∧ b.isSome ∧ a ≠ b := by
  cases a <;> cases b <;> simp [ne]

@[simp] theorem nullSafeEq_eq_yes (a b : Option α) : nullSafeEq a b = yes ↔ a = b := by
  simp [nullSafeEq]

end Truth
end Structor.Sql
