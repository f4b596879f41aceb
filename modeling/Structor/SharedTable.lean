import Mathlib.Data.List.Basic
import Mathlib.Data.Nat.Notation
import Mathlib.Logic.Function.Basic
import Mathlib.Tactic.Common

/-!
# Tables that share their objects

A table has references to objects. Two tables can have the same reference, and a change of
the object is then seen in both. A table is merged into another one in place: where both have
an object the first one's is joined to it, elsewhere its object is shared.

## Main definitions

* `object` -- the object under a key
* `Apart` -- two tables share objects under the same keys only
* `mergeAt` -- the merge for one key
* `Mergeable` -- what a merge relies on for the keys that are left
-/
namespace Structor.SharedTable
variable {α κ : Type}

abbrev Ref : Type := ℕ

/-- The objects, by their references. -/
abbrev Memory (α : Type) : Type := List α

abbrev Table (κ : Type) : Type := κ → Option Ref

def read [Inhabited α] (memory : Memory α) (r : Ref) : α := memory.getD r default

def object (memory : Memory α) (table : Table κ) (k : κ) : Option α :=
  (table k).bind fun r => memory[r]?

/-- A reference that is in both tables is under the same key. -/
def Apart (f g : Table κ) : Prop := ∀ ⦃k l r⦄, f k = some r → g l = some r → k = l

/-- Every reference has an object. -/
def Stored (memory : Memory α) (table : Table κ) : Prop :=
  ∀ ⦃k r⦄, table k = some r → r < memory.length

variable {memory : Memory α} {f g : Table κ} {k l : κ} {r : Ref}

theorem object_eq_none (h : f k = none) : object memory f k = none := by
  rw [object, h, Option.bind_none]

theorem object_eq (h : f k = some r) : object memory f k = memory[r]? := by
  rw [object, h, Option.bind_some]

theorem object_read [Inhabited α] (hstored : Stored memory f) (h : f k = some r) :
    object memory f k = some (read memory r) := by
  have hlt : r < memory.length := hstored h
  rw [object_eq h, read, List.getD_eq_getElem?_getD, List.getElem?_eq_getElem hlt, Option.getD_some]

theorem object_congr {memory' : Memory α} (h : ∀ r, f k = some r → memory'[r]? = memory[r]?) :
    object memory' f k = object memory f k := by
  cases hk : f k with
  | none => rw [object_eq_none hk, object_eq_none hk]
  | some r => rw [object_eq hk, object_eq hk, h r hk]

theorem Apart.symm (h : Apart f g) : Apart g f := fun _ _ _ hg hf => (h hf hg).symm

/-! ## Changes -/

theorem Stored.append (h : Stored memory f) (a : α) : Stored (memory ++ [a]) f := by
  intro k r hr
  rw [List.length_append]
  exact Nat.lt_add_right 1 (h hr)

theorem Stored.modify (h : Stored memory f) (r : Ref) (change : α → α) :
    Stored (memory.modify r change) f := by
  intro k s hs
  rw [List.length_modify]
  exact h hs

/-- A new object is in no table. -/
theorem object_append (h : Stored memory f) (a : α) (k : κ) :
    object (memory ++ [a]) f k = object memory f k :=
  object_congr fun _ hr => List.getElem?_append_left (h hr)

theorem object_modify (change : α → α) (hr : f k = some r) :
    object (memory.modify r change) f k = (object memory f k).map change := by
  rw [object_eq hr, object_eq hr, List.getElem?_modify_eq]
  rfl

/-- An object does not change with another one. -/
theorem object_modify_of_ne (change : α → α) (hr : f k ≠ some r) :
    object (memory.modify r change) f k = object memory f k := by
  refine object_congr fun s hs => ?_
  have hne : r ≠ s := by
    rintro rfl
    exact hr hs
  exact List.getElem?_modify_ne change memory hne

variable [DecidableEq κ]

theorem object_update_self : object memory (Function.update f k (some r)) k = memory[r]? :=
  object_eq (Function.update_self k _ f)

theorem object_update_of_ne (h : l ≠ k) :
    object memory (Function.update f k (some r)) l = object memory f l := by
  rw [object, object, Function.update_of_ne h]

theorem Stored.update (h : Stored memory f) (hr : r < memory.length) :
    Stored memory (Function.update f k (some r)) := by
  intro l s hs
  by_cases hl : l = k
  · rw [hl, Function.update_self, Option.some.injEq] at hs
    rwa [← hs]
  · rw [Function.update_of_ne hl] at hs
    exact h hs

/-- A reference that the other table has under this key only can be entered. -/
theorem Apart.update (h : Apart f g) (hr : ∀ l, g l = some r → l = k) :
    Apart (Function.update f k (some r)) g := by
  intro l m s hl hm
  by_cases hlk : l = k
  · rw [hlk, Function.update_self, Option.some.injEq] at hl
    rw [hlk, hr m (hl ▸ hm)]
  · rw [Function.update_of_ne hlk] at hl
    exact h hl hm

theorem Apart.update_both (h : Apart f f) (hr : ∀ l, f l = some r → l = k) :
    Apart (Function.update f k (some r)) (Function.update f k (some r)) := by
  refine (h.update hr).symm.update ?_ |>.symm
  intro l hl
  by_cases hlk : l = k
  · exact hlk
  · rw [Function.update_of_ne hlk] at hl
    exact hr l hl

/-! ## Merging -/

variable [Inhabited α]

/-- The entry of a key is merged. An object of the new table is joined to the object that is
there, or shared. -/
def mergeAt (join : α → α → α) (new : Table κ) (s : Memory α × Table κ) (k : κ) :
    Memory α × Table κ :=
  match new k with
  | none => s
  | some n =>
      match s.2 k with
      | some r => (s.1.modify r (join (read s.1 n)), s.2)
      | none => (s.1, Function.update s.2 k (some n))

/-- The objects under the keys that are left are not shared yet. -/
structure Mergeable (new : Table κ) (keys : List κ) (s : Memory α × Table κ) : Prop where
  stored : Stored s.1 s.2
  storedNew : Stored s.1 new
  own : Apart s.2 s.2
  ownNew : Apart new new
  apart : Apart s.2 new
  unshared : ∀ k ∈ keys, ∀ l r, s.2 k = some r → new l ≠ some r

variable {new : Table κ} {keys : List κ} {s : Memory α × Table κ}

/-- What the merge of a key does, and that the others can still be merged. -/
theorem Mergeable.step (h : Mergeable new (k :: keys) s) (hk : k ∉ keys) (join : α → α → α) :
    Mergeable new keys (mergeAt join new s k) ∧
      (∀ l, object (mergeAt join new s k).1 new l = object s.1 new l) ∧
      ∀ l, object (mergeAt join new s k).1 (mergeAt join new s k).2 l =
        if l = k then (object s.1 new l).merge join (object s.1 s.2 l) else object s.1 s.2 l := by
  have hleft : ∀ m ∈ keys, m ≠ k := by
    rintro m hm rfl
    exact hk hm
  have hunshared : ∀ m ∈ keys, ∀ l r, s.2 m = some r → new l ≠ some r :=
    fun m hm => h.unshared m (List.mem_cons_of_mem k hm)
  cases hn : new k with
  | none =>
      have hmerge : mergeAt join new s k = s := by
        rw [mergeAt, hn]
      rw [hmerge]
      refine ⟨⟨h.stored, h.storedNew, h.own, h.ownNew, h.apart, hunshared⟩, fun _ => rfl, ?_⟩
      intro l
      by_cases hl : l = k
      · rw [if_pos hl, hl, object_eq_none hn]
        cases object s.1 s.2 k <;> rfl
      · rw [if_neg hl]
  | some n =>
      cases hr : s.2 k with
      | none =>
          have hmerge : mergeAt join new s k = (s.1, Function.update s.2 k (some n)) := by
            simp only [mergeAt, hn, hr]
          rw [hmerge]
          refine ⟨⟨h.stored.update (h.storedNew hn), h.storedNew, h.own.update_both ?_, h.ownNew,
            h.apart.update ?_, ?_⟩, fun _ => rfl, ?_⟩
          · exact fun l hl => h.apart hl hn
          · exact fun l hl => h.ownNew hl hn
          · intro m hm l r hmr
            exact hunshared m hm l r ((Function.update_of_ne (hleft m hm) _ s.2).symm.trans hmr)
          · intro l
            by_cases hl : l = k
            · rw [if_pos hl, hl, object_update_self, object_eq_none hr, object_eq hn,
                List.getElem?_eq_getElem (h.storedNew hn)]
              rfl
            · rw [if_neg hl, object_update_of_ne hl]
      | some r =>
          have hmerge : mergeAt join new s k = (s.1.modify r (join (read s.1 n)), s.2) := by
            simp only [mergeAt, hn, hr]
          have hnew : ∀ l, new l ≠ some r := fun l => h.unshared k List.mem_cons_self l r hr
          rw [hmerge]
          refine ⟨⟨h.stored.modify r _, h.storedNew.modify r _, h.own, h.ownNew, h.apart,
            hunshared⟩, fun l => object_modify_of_ne _ (hnew l), ?_⟩
          intro l
          by_cases hl : l = k
          · rw [if_pos hl, hl, object_modify _ hr, object_read h.stored hr,
              object_read h.storedNew hn]
            rfl
          · rw [if_neg hl]
            exact object_modify_of_ne _ fun hlr => hl (h.own hlr hr)

/-- After the merge of distinct keys an object of either table is there as it was, and two
objects of one key are joined. -/
theorem Mergeable.foldl (h : Mergeable new keys s) (hnodup : keys.Nodup) (join : α → α → α)
    (l : κ) :
    object (keys.foldl (mergeAt join new) s).1 (keys.foldl (mergeAt join new) s).2 l =
      if l ∈ keys then (object s.1 new l).merge join (object s.1 s.2 l) else object s.1 s.2 l := by
  induction keys generalizing s with
  | nil => rfl
  | cons k keys ih =>
      obtain ⟨hk, hkeys⟩ := List.nodup_cons.mp hnodup
      obtain ⟨hmergeable, hnew, hobject⟩ := h.step hk join
      rw [List.foldl_cons, ih hmergeable hkeys, hnew, hobject]
      by_cases hl : l = k
      · have hnot : l ∉ keys := hl ▸ hk
        rw [if_neg hnot, if_pos hl, if_pos (List.mem_cons.mpr (.inl hl))]
      · simp only [List.mem_cons, hl, false_or, if_false]

end Structor.SharedTable
