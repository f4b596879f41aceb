import Mathlib.Data.Nat.Notation
import Mathlib.Logic.Function.Basic
import Mathlib.Tactic.Common

/-!
# Fresh values that are remembered

A supply gives a value that it has not given before each time it is asked. A cache asks
for a value the first time a key is used and remembers it.

## Main definitions

* `Supply` -- a sequence of different values
* `Cache.assign` -- the value of a key
* `Cache.Sound` -- no two keys have the same value
-/
namespace Structor.Fresh
variable {κ ω : Type}

/-- The values that are given, in order. -/
structure Supply (ω : Type) where
  next : ℕ → ω
  injective : Function.Injective next

/-- The values that are remembered, and how many were asked for. -/
structure Cache (κ ω : Type) where
  table : κ → Option ω
  issued : ℕ

namespace Cache

def empty : Cache κ ω := ⟨fun _ => none, 0⟩

/-- The value of a key, which is a new one if the key has none. -/
def assign [DecidableEq κ] (supply : Supply ω) (c : Cache κ ω) (k : κ) : Cache κ ω × ω :=
  match c.table k with
  | some a => (c, a)
  | none =>
      let a := supply.next c.issued
      ({ table := Function.update c.table k (some a), issued := c.issued + 1 }, a)

/-- The values were issued, each to one key. -/
structure Sound (supply : Supply ω) (c : Cache κ ω) : Prop where
  issued : ∀ k a, c.table k = some a → ∃ n < c.issued, a = supply.next n
  injective : ∀ k k' a, c.table k = some a → c.table k' = some a → k = k'

/-- What is remembered stays. -/
def Grows (c c' : Cache κ ω) : Prop := ∀ k a, c.table k = some a → c'.table k = some a

theorem Grows.refl (c : Cache κ ω) : Grows c c := fun _ _ h => h

theorem Grows.trans {c c' c'' : Cache κ ω} (h : Grows c c') (h' : Grows c' c'') : Grows c c'' :=
  fun k a hk => h' k a (h k a hk)

theorem sound_empty (supply : Supply ω) : Sound supply (empty : Cache κ ω) := by
  constructor <;> simp [empty]

variable [DecidableEq κ] {supply : Supply ω} {c : Cache κ ω}

theorem assign_of_some {k : κ} {a : ω} (h : c.table k = some a) :
    c.assign supply k = (c, a) := by
  rw [assign, h]

theorem assign_of_none {k : κ} (h : c.table k = none) : c.assign supply k =
    ({ table := Function.update c.table k (some (supply.next c.issued))
       issued := c.issued + 1 }, supply.next c.issued) := by
  rw [assign, h]

theorem table_assign (supply : Supply ω) (c : Cache κ ω) (k : κ) :
    (c.assign supply k).1.table k = some (c.assign supply k).2 := by
  cases h : c.table k with
  | some a => rw [assign_of_some h, h]
  | none => simp [assign_of_none h]

theorem grows_assign (supply : Supply ω) (c : Cache κ ω) (k : κ) :
    Grows c (c.assign supply k).1 := by
  intro k' a ha
  cases h : c.table k with
  | some b => rwa [assign_of_some h]
  | none =>
      have hne : k' ≠ k := by
        rintro rfl
        rw [h] at ha
        cases ha
      simpa [assign_of_none h, Function.update_of_ne hne] using ha

omit [DecidableEq κ] in
theorem Sound.ne_next (h : Sound supply c) {k : κ} {a : ω} (ha : c.table k = some a) :
    a ≠ supply.next c.issued := by
  rintro rfl
  obtain ⟨n, hn, heq⟩ := h.issued k _ ha
  exact Nat.ne_of_lt hn (supply.injective heq).symm

theorem sound_assign (h : Sound supply c) (k : κ) : Sound supply (c.assign supply k).1 := by
  cases hk : c.table k with
  | some a => rwa [assign_of_some hk]
  | none =>
      rw [assign_of_none hk]
      constructor
      · intro k' a ha
        simp only [Function.update_apply] at ha
        by_cases hk' : k' = k
        · rw [if_pos hk', Option.some.injEq] at ha
          exact ⟨c.issued, Nat.lt_succ_self _, ha.symm⟩
        · rw [if_neg hk'] at ha
          obtain ⟨n, hn, heq⟩ := h.issued k' a ha
          exact ⟨n, Nat.lt_succ_of_lt hn, heq⟩
      · intro k₁ k₂ a h₁ h₂
        simp only [Function.update_apply] at h₁ h₂
        by_cases hk₁ : k₁ = k
        · by_cases hk₂ : k₂ = k
          · rw [hk₁, hk₂]
          · rw [if_pos hk₁, Option.some.injEq] at h₁
            rw [if_neg hk₂] at h₂
            exact absurd h₁.symm (h.ne_next h₂)
        · rw [if_neg hk₁] at h₁
          by_cases hk₂ : k₂ = k
          · rw [if_pos hk₂, Option.some.injEq] at h₂
            exact absurd h₂.symm (h.ne_next h₁)
          · rw [if_neg hk₂] at h₂
            exact h.injective k₁ k₂ a h₁ h₂

end Cache

end Structor.Fresh
