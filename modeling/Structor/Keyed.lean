import Mathlib.Algebra.BigOperators.Group.List.Basic
import Mathlib.Algebra.GroupWithZero.Nat
import Mathlib.Data.List.Find
import Mathlib.Data.List.Induction
import Mathlib.Data.List.Nodup
import Mathlib.Data.Nat.Notation
import Structor.Lists

/-!
# Lists whose elements carry their own key

A dictionary kept as the list of its values, in insertion order. A value tells its
own key.

## Main definitions

* `Keyed.get` -- the value of a key
* `Keyed.put` -- replaces the value of the same key, or adds one at the end
-/
namespace Structor.Keyed
variable {α κ : Type} [DecidableEq κ] (key : α → κ)

/-- The value of a key. -/
def get (k : κ) (xs : List α) : Option α := xs.find? fun x => key x = k

/-- Replaces the value of the same key, or adds one at the end. -/
def put (x : α) : List α → List α
  | [] => [x]
  | y :: ys => if key y = key x then x :: ys else y :: put x ys

variable {key}

theorem key_of_get {k : κ} {xs : List α} {x : α} (h : get key k xs = some x) : key x = k := by
  simpa using List.find?_some h

theorem mem_of_get {k : κ} {xs : List α} {x : α} (h : get key k xs = some x) : x ∈ xs :=
  List.mem_of_find?_eq_some h

theorem get_isSome_iff {k : κ} {xs : List α} : (get key k xs).isSome ↔ k ∈ xs.map key := by
  simp [get, List.find?_isSome]

/-- With distinct keys each element is the value of its key. -/
theorem get_of_mem {xs : List α} (h : (xs.map key).Nodup) {x : α} (hx : x ∈ xs) :
    get key (key x) xs = some x :=
  find?_eq_some_of_key h hx (by simp) (by simp)

/-- A filter that keeps the elements of a key does not change its value. -/
theorem get_filter {k : κ} {p : α → Bool} {xs : List α} (h : ∀ x ∈ xs, key x = k → p x = true) :
    get key k (xs.filter p) = get key k xs := by
  rw [get, List.find?_filter]
  refine List.find?_congr fun x hx => ?_
  by_cases hk : key x = k
  · simp [hk, h x hx hk]
  · simp [hk]

theorem get_put (k : κ) (x : α) (xs : List α) :
    get key k (put key x xs) = if key x = k then some x else get key k xs := by
  induction xs with
  | nil => by_cases hx : key x = k <;> simp [get, put, hx]
  | cons y ys ih =>
      simp only [get] at ih ⊢
      by_cases hy : key y = key x
      · by_cases hx : key x = k <;> simp [put, hy, hx]
      · rw [put, if_neg hy]
        by_cases hk : key y = k
        · have hx : key x ≠ k := fun h => hy (hk.trans h.symm)
          simp [hk, hx]
        · simp [hk, ih]

/-- A new key comes last. -/
theorem put_of_get_none {x : α} {xs : List α} (h : get key (key x) xs = none) :
    put key x xs = xs ++ [x] := by
  induction xs with
  | nil => rfl
  | cons y ys ih =>
      by_cases hy : key y = key x
      · simp [get, hy] at h
      · rw [put, if_neg hy, ih (by simpa [get, hy] using h), List.cons_append]

/-- Put one after the other, the last value of a key counts. -/
theorem get_foldl_put (k : κ) (xs : List α) :
    get key k (xs.foldl (fun ys x => put key x ys) []) = get key k xs.reverse := by
  induction xs using List.reverseRecOn with
  | nil => rfl
  | append_singleton xs x ih =>
      rw [List.foldl_append, List.foldl_cons, List.foldl_nil, get_put, ih, List.reverse_append]
      by_cases hx : key x = k <;> simp [get, hx]

theorem mem_of_mem_put {x y : α} {xs : List α} (h : y ∈ put key x xs) : y = x ∨ y ∈ xs := by
  induction xs with
  | nil => exact .inl (List.mem_singleton.mp h)
  | cons z zs ih =>
      by_cases hz : key z = key x
      · rw [put, if_pos hz] at h
        exact (List.mem_cons.mp h).imp_right (List.mem_cons_of_mem z)
      · rw [put, if_neg hz] at h
        rcases List.mem_cons.mp h with rfl | h
        · exact .inr List.mem_cons_self
        · exact (ih h).imp_right (List.mem_cons_of_mem z)

/-- Nothing is there that was not put. -/
theorem mem_of_mem_foldl_put {y : α} {xs : List α}
    (h : y ∈ xs.foldl (fun ys x => put key x ys) []) : y ∈ xs := by
  induction xs using List.reverseRecOn with
  | nil => exact h
  | append_singleton xs x ih =>
      rw [List.foldl_append, List.foldl_cons, List.foldl_nil] at h
      rcases mem_of_mem_put h with rfl | h
      · exact List.mem_append_right _ (List.mem_singleton_self y)
      · exact List.mem_append_left _ (ih h)

theorem map_key_put (x : α) (xs : List α) :
    (put key x xs).map key = if key x ∈ xs.map key then xs.map key else xs.map key ++ [key x] := by
  induction xs with
  | nil => simp [put]
  | cons y ys ih =>
      by_cases hy : key y = key x
      · simp [put, hy]
      · have hy' : key x ≠ key y := fun h => hy h.symm
        by_cases hx : key x ∈ ys.map key
        · simp only [put, hy, if_false, List.map_cons, ih, hx, if_true]
          rw [if_pos (List.mem_cons_of_mem _ hx)]
        · simp only [put, hy, if_false, List.map_cons, ih, hx]
          rw [if_neg (by simp only [List.mem_cons, hy', hx, or_self, not_false_iff])]
          rfl

theorem nodup_put {x : α} {xs : List α} (h : (xs.map key).Nodup) :
    ((put key x xs).map key).Nodup := by
  rw [map_key_put]
  by_cases hx : key x ∈ xs.map key
  · rwa [if_pos hx]
  · rw [if_neg hx, List.nodup_append]
    refine ⟨h, List.nodup_singleton _, ?_⟩
    intro a ha b hb
    rw [List.mem_singleton] at hb
    rintro rfl
    exact hx (hb ▸ ha)

/-- `put` exchanges the measure of the old value for that of the new one. -/
theorem sum_put (f : α → ℕ) (x : α) (xs : List α) :
    ((put key x xs).map f).sum + ((get key (key x) xs).elim 0 f) = (xs.map f).sum + f x := by
  induction xs with
  | nil => simp [put, get]
  | cons y ys ih =>
      simp only [get] at ih ⊢
      by_cases hy : key y = key x
      · simp only [put, hy, if_true, List.map_cons, List.sum_cons, List.find?_cons, decide_true,
          Option.elim_some]
        omega
      · simp only [put, hy, if_false, List.map_cons, List.sum_cons, List.find?_cons,
          decide_false]
        omega

end Structor.Keyed
