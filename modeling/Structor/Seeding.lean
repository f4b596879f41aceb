import Mathlib.Data.Int.Notation
import Mathlib.Data.List.Basic
import Mathlib.Tactic.Common

/-!
# Loops over a source that is seeded now and then

A loop draws one row for each index. At some indexes the source is replaced by one that
depends on the index alone. What comes before such an index has no influence on the rows
from there on.

## Main definitions

* `rowLoop` -- the rows of the loop
* `Fresh` -- the source is replaced at the first index
-/
namespace Structor.Seeding
variable {σ α ι : Type}

/-- The rows that are drawn for a list of indexes. -/
def rowLoop (reseed : ℤ → Option σ) (row : ℤ → StateM σ α) : List ℤ → σ → List α
  | [], _ => []
  | i :: is, s =>
      let drawn := (row i).run ((reseed i).getD s)
      drawn.1 :: rowLoop reseed row is drawn.2

/-- The source is replaced at the first index, if there is one. -/
def Fresh (reseed : ℤ → Option σ) (is : List ℤ) : Prop := ∀ i ∈ is.head?, (reseed i).isSome = true

variable {reseed : ℤ → Option σ} {row : ℤ → StateM σ α} {is js : List ℤ}

@[simp] theorem rowLoop_nil (s : σ) : rowLoop reseed row [] s = [] := rfl

/-- What each row tells of its index, the rows of the loop tell of the indexes. -/
theorem map_rowLoop {β : Type} {f : α → β} {g : ℤ → β} (h : ∀ i s, f ((row i).run s).1 = g i)
    (is : List ℤ) (s : σ) : (rowLoop reseed row is s).map f = is.map g := by
  induction is generalizing s with
  | nil => rfl
  | cons i is ih => simp only [rowLoop, List.map_cons, h, ih]

/-- A loop that begins with a fresh source does not depend on the source it was given. -/
theorem rowLoop_of_fresh (h : Fresh reseed is) (s s' : σ) :
    rowLoop reseed row is s = rowLoop reseed row is s' := by
  cases is with
  | nil => rfl
  | cons i is =>
      obtain ⟨fresh, hfresh⟩ := Option.isSome_iff_exists.mp (h i rfl)
      simp only [rowLoop, hfresh, Option.getD_some]

theorem rowLoop_append (h : Fresh reseed js) (is : List ℤ) (s s' : σ) :
    rowLoop reseed row (is ++ js) s = rowLoop reseed row is s ++ rowLoop reseed row js s' := by
  induction is generalizing s with
  | nil => exact rowLoop_of_fresh h s s'
  | cons i is ih =>
      simp only [rowLoop, List.cons_append]
      rw [ih]

theorem Fresh.append (h : Fresh reseed is) (h' : Fresh reseed js) : Fresh reseed (is ++ js) := by
  cases is with
  | nil => exact h'
  | cons i is => exact h

theorem fresh_flatMap {block : ι → List ℤ} {cs : List ι}
    (h : ∀ c ∈ cs, Fresh reseed (block c)) : Fresh reseed (cs.flatMap block) := by
  induction cs with
  | nil => simp [Fresh]
  | cons c cs ih =>
      rw [List.flatMap_cons]
      apply Fresh.append
      · exact h c List.mem_cons_self
      · exact ih fun c' hc' => h c' (List.mem_cons_of_mem c hc')

/-- Blocks that each begin with a fresh source can be drawn by processes of their own, in
whatever state these start. -/
theorem rowLoop_flatMap (block : ι → List ℤ) (cs : List ι) (h : ∀ c ∈ cs, Fresh reseed (block c))
    (init : ι → σ) (s : σ) : rowLoop reseed row (cs.flatMap block) s =
      cs.flatMap fun c => rowLoop reseed row (block c) (init c) := by
  induction cs generalizing s with
  | nil => rfl
  | cons c cs ih =>
      have hrest : ∀ c' ∈ cs, Fresh reseed (block c') :=
        fun c' hc' => h c' (List.mem_cons_of_mem c hc')
      rw [List.flatMap_cons, rowLoop_append (fresh_flatMap hrest) (block c) s s,
        rowLoop_of_fresh (h c List.mem_cons_self) s (init c), ih hrest, List.flatMap_cons]

end Structor.Seeding
