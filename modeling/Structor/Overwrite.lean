import Mathlib.Data.List.Induction
import Mathlib.Logic.Function.Basic
import Mathlib.Tactic.Common

/-!
# Writes that replace each other

A sequence of writes to named files leaves under each name what was written last.
-/
namespace Structor
variable {κ α β : Type} [DecidableEq κ] {writes : List (κ × α)}

/-- What is there after the writes, in order. -/
def writeAll (writes : List (κ × α)) : κ → Option α :=
  writes.foldl (fun files w => Function.update files w.1 (some w.2)) fun _ => none

theorem writeAll_concat (writes : List (κ × α)) (w : κ × α) :
    writeAll (writes ++ [w]) = Function.update (writeAll writes) w.1 (some w.2) := by
  simp [writeAll]

/-- Later writes come first, earlier ones are seen through them. -/
theorem writeAll_append (earlier later : List (κ × α)) (k : κ) :
    writeAll (earlier ++ later) k = (writeAll later k).or (writeAll earlier k) := by
  induction later using List.reverseRecOn with
  | nil => simp [writeAll]
  | append_singleton later w ih =>
      rw [← List.append_assoc, writeAll_concat, writeAll_concat]
      by_cases hk : w.1 = k
      · subst hk
        simp
      · rw [Function.update_of_ne (Ne.symm hk), Function.update_of_ne (Ne.symm hk), ih]

/-- Of several rounds of writes the last one that writes a name decides. -/
theorem writeAll_flatten (rounds : List (List (κ × α))) (k : κ) :
    writeAll rounds.flatten k = rounds.reverse.findSome? fun round => writeAll round k := by
  induction rounds using List.reverseRecOn with
  | nil => rfl
  | append_singleton rounds round ih =>
      rw [List.flatten_append, writeAll_append, List.flatten_singleton, ih, List.reverse_append]
      cases h : writeAll round k <;> simp [h]

/-- Where an element of a list with one more at the end can be. -/
theorem concat_eq_append_cons {l earlier later : List α} {last a : α} :
    l ++ [last] = earlier ++ a :: later ↔
      l = earlier ∧ last = a ∧ later = [] ∨
        ∃ front, later = front ++ [last] ∧ l = earlier ++ a :: front := by
  constructor
  · intro h
    rcases List.eq_nil_or_concat later with rfl | ⟨front, x, rfl⟩
    · obtain ⟨hl, hlast⟩ := List.append_inj' h rfl
      exact .inl ⟨hl, List.singleton_inj.mp hlast, rfl⟩
    · rw [List.concat_eq_append, ← List.cons_append, ← List.append_assoc] at h
      obtain ⟨hl, hlast⟩ := List.append_inj' h rfl
      obtain rfl := List.singleton_inj.mp hlast
      exact .inr ⟨front, List.concat_eq_append, hl⟩
  · rintro (⟨rfl, rfl, rfl⟩ | ⟨front, rfl, rfl⟩)
    · rfl
    · simp

/-- A name holds a value that was written to it and not replaced later. -/
theorem writeAll_eq_some_iff {k : κ} {a : α} : writeAll writes k = some a ↔
    ∃ earlier later, writes = earlier ++ (k, a) :: later ∧ ∀ w ∈ later, w.1 ≠ k := by
  induction writes using List.reverseRecOn with
  | nil => simp [writeAll]
  | append_singleton writes w ih =>
      obtain ⟨name, value⟩ := w
      simp only [writeAll_concat, concat_eq_append_cons, Prod.mk.injEq]
      by_cases hk : name = k
      · subst hk
        rw [Function.update_self, Option.some.injEq]
        constructor
        · rintro rfl
          exact ⟨writes, [], .inl ⟨rfl, ⟨rfl, rfl⟩, rfl⟩, by simp⟩
        · rintro ⟨earlier, later, ⟨-, ⟨-, hvalue⟩, -⟩ | ⟨front, rfl, -⟩, hlater⟩
          · exact hvalue
          · exact absurd rfl (hlater (name, value) (by simp))
      · rw [Function.update_of_ne (Ne.symm hk), ih]
        constructor
        · rintro ⟨earlier, later, hsplit, hlater⟩
          refine ⟨earlier, later ++ [(name, value)], .inr ⟨later, rfl, hsplit⟩, ?_⟩
          intro w hw
          rcases List.mem_append.mp hw with hw | hw
          · exact hlater w hw
          · rwa [List.mem_singleton.mp hw]
        · rintro ⟨earlier, later, ⟨-, ⟨hname, -⟩, -⟩ | ⟨front, rfl, hsplit⟩, hlater⟩
          · exact absurd hname hk
          · exact ⟨earlier, front, hsplit, fun w hw => hlater w (by simp [hw])⟩

/-- What is kept of the values that were written. -/
theorem writeAll_map (f : α → β) (k : κ) :
    writeAll (writes.map fun w => (w.1, f w.2)) k = (writeAll writes k).map f := by
  induction writes using List.reverseRecOn with
  | nil => rfl
  | append_singleton writes w ih =>
      rw [List.map_append, List.map_singleton, writeAll_concat, writeAll_concat]
      by_cases hk : w.1 = k
      · subst hk
        simp
      · rw [Function.update_of_ne (Ne.symm hk), Function.update_of_ne (Ne.symm hk), ih]

theorem exists_writeAll {w : κ × α} (hw : w ∈ writes) :
    ∃ a, writeAll writes w.1 = some a ∧ (w.1, a) ∈ writes := by
  have hsome : writeAll writes w.1 ≠ none := by
    induction writes using List.reverseRecOn with
    | nil => cases hw
    | append_singleton writes v ih =>
        rw [writeAll_concat]
        by_cases hname : w.1 = v.1
        · simp [hname]
        · have hmem : w ∈ writes := by
            rcases List.mem_append.mp hw with hw | hw
            · exact hw
            · exact absurd (congrArg Prod.fst (List.mem_singleton.mp hw)) hname
          rw [Function.update_of_ne hname]
          exact ih hmem
  obtain ⟨a, ha⟩ := Option.ne_none_iff_exists'.mp hsome
  obtain ⟨earlier, later, hsplit, -⟩ := writeAll_eq_some_iff.mp ha
  exact ⟨a, ha, by simp [hsplit]⟩

/-- Every write is still there under its name, as far as `f` tells, exactly if `f` does
not tell two writes of one name apart. -/
theorem kept_iff (f : α → β) : (∀ w ∈ writes, (writeAll writes w.1).map f = some (f w.2)) ↔
    ∀ v ∈ writes, ∀ w ∈ writes, v.1 = w.1 → f v.2 = f w.2 := by
  constructor
  · intro h v hv w hw hname
    have hkept := h v hv
    rw [hname, h w hw] at hkept
    exact (Option.some.inj hkept).symm
  · intro h w hw
    obtain ⟨a, ha, hmem⟩ := exists_writeAll hw
    rw [ha, Option.map_some, h (w.1, a) hmem w hw rfl]

/-- Every write is still there under some name exactly if it agrees with a write that
is not replaced. -/
theorem found_iff (f : α → β) : (∀ w ∈ writes, ∃ k, (writeAll writes k).map f = some (f w.2)) ↔
    ∀ w ∈ writes, ∃ earlier v later, writes = earlier ++ v :: later ∧
      (∀ u ∈ later, u.1 ≠ v.1) ∧ f v.2 = f w.2 := by
  refine forall_congr' fun w => forall_congr' fun _ => ?_
  constructor
  · rintro ⟨k, hk⟩
    obtain ⟨a, ha, hf⟩ := Option.map_eq_some_iff.mp hk
    obtain ⟨earlier, later, hsplit, hlater⟩ := writeAll_eq_some_iff.mp ha
    exact ⟨earlier, (k, a), later, hsplit, hlater, hf⟩
  · rintro ⟨earlier, ⟨k, a⟩, later, hsplit, hlater, hf⟩
    refine ⟨k, ?_⟩
    rw [writeAll_eq_some_iff.mpr ⟨earlier, later, hsplit, hlater⟩, Option.map_some, hf]

end Structor
