import Mathlib.Data.List.Basic
import Structor.Lists
import Structor.Sql.Truth

/-!
# Joins and the MERGE statement

A table is the list of its rows. `MergeInto` holds the clauses of one MERGE;
`MergeInto.run` rejects the statement when two source rows match one target row,
as the standard requires, and otherwise updates the matched rows in place and
appends one row for each source row without a match.
-/
namespace Structor.Sql
variable {α β γ σ τ : Type}

/-- The rows that a join condition accepts. -/
def matching (on : β → Truth) (rows : List β) : List β := rows.filter fun b => on b = .yes

def innerJoin (on : α → β → Truth) (left : List α) (right : List β) : List (α × β) :=
  left.flatMap fun a => (matching (on a) right).map fun b => (a, b)

/-- A left row without a match is kept once, against NULLs. -/
def leftJoin (on : α → β → Truth) (left : List α) (right : List β) : List (α × Option β) :=
  left.flatMap fun a =>
    match matching (on a) right with
    | [] => [(a, none)]
    | bs => bs.map fun b => (a, some b)

@[simp] theorem mem_matching {on : β → Truth} {rows : List β} {b : β} :
    b ∈ matching on rows ↔ b ∈ rows ∧ on b = .yes := by
  simp [matching]

theorem mem_innerJoin {on : α → β → Truth} {left : List α} {right : List β} {p : α × β} :
    p ∈ innerJoin on left right ↔ p.1 ∈ left ∧ p.2 ∈ right ∧ on p.1 p.2 = .yes := by
  obtain ⟨a, b⟩ := p
  simp [innerJoin]

/-- A join in which every left row has one match. -/
theorem innerJoin_of_unique {on : α → β → Truth} {left : List α} {right : List β} (f : α → β)
    (h : ∀ a ∈ left, matching (on a) right = [f a]) :
    innerJoin on left right = left.map fun a => (a, f a) := by
  rw [List.map_eq_flatMap, innerJoin]
  refine List.flatMap_congr fun a ha => ?_
  rw [h a ha, List.map_singleton]

/-- A join in which every left row has at most one match repeats no key of the left rows. -/
theorem nodup_innerJoin {on : α → β → Truth} {left : List α} {right : List β} {key : α → γ}
    (hleft : (left.map key).Nodup) (h : ∀ a, (matching (on a) right).length ≤ 1) :
    ((innerJoin on left right).map fun p => key p.1).Nodup := by
  refine hleft.sublist ?_
  induction left with
  | nil => exact List.Sublist.refl _
  | cons a left ih =>
      have hrest := ih (List.nodup_cons.mp hleft).2
      have hcons : innerJoin on (a :: left) right =
          (matching (on a) right).map (fun b => (a, b)) ++ innerJoin on left right := rfl
      have hlen := h a
      rw [hcons]
      match hm : matching (on a) right with
      | [] => exact hrest.cons _
      | [b] => exact hrest.cons_cons _
      | _ :: _ :: _ => simp [hm] at hlen

/-- A left row is kept with each of its matches, or alone when it has none. -/
theorem mem_leftJoin {on : α → β → Truth} {left : List α} {right : List β}
    {a : α} {b : Option β} :
    (a, b) ∈ leftJoin on left right ↔
      a ∈ left ∧ (matching (on a) right = [] ∧ b = none ∨
        ∃ r ∈ matching (on a) right, b = some r) := by
  simp only [leftJoin, List.mem_flatMap]
  constructor
  · rintro ⟨a', ha', h⟩
    cases hm : matching (on a') right with
    | nil =>
        obtain ⟨rfl, rfl⟩ : a = a' ∧ b = none := by simpa [hm] using h
        exact ⟨ha', .inl ⟨hm, rfl⟩⟩
    | cons r rs =>
        rw [hm] at h
        obtain ⟨r', hr', heq⟩ := List.mem_map.mp h
        obtain ⟨rfl, rfl⟩ := Prod.mk.inj heq
        exact ⟨ha', .inr ⟨r', hm ▸ hr', rfl⟩⟩
  · rintro ⟨ha, ⟨hm, rfl⟩ | ⟨r, hr, rfl⟩⟩
    · exact ⟨a, ha, by simp [hm]⟩
    · refine ⟨a, ha, ?_⟩
      cases hm : matching (on a) right with
      | nil => simp [hm] at hr
      | cons r' rs => simpa [hm] using hr

/-- An outer join in which every left row has at most one match. -/
theorem leftJoin_of_atMostOne {on : α → β → Truth} {left : List α} {right : List β}
    (h : ∀ a ∈ left, (matching (on a) right).length ≤ 1) :
    leftJoin on left right = left.map fun a => (a, right.find? fun b => on a b = .yes) := by
  rw [List.map_eq_flatMap, leftJoin]
  refine List.flatMap_congr fun a ha => ?_
  have hhead : right.find? (fun b => on a b = .yes) = (matching (on a) right).head? := by
    rw [matching, List.head?_filter]
  have hlen := h a ha
  rw [hhead]
  match hm : matching (on a) right with
  | [] => rfl
  | [b] => rfl
  | _ :: _ :: _ => simp [hm] at hlen

/-- The clauses of `merge into τ using σ`. A statement need not have a
`when not matched` clause. -/
structure MergeInto (σ τ : Type) where
  on : σ → τ → Truth
  /-- The extra condition of `when matched and`. -/
  condition : σ → τ → Truth
  update : σ → τ → τ
  insert : Option (σ → τ)

namespace MergeInto
variable (m : MergeInto σ τ) (target : List τ) (source : List σ)

/-- Two source rows match one target row. -/
def Rejects : Prop := ∃ t ∈ target, 2 ≤ (matching (fun s => m.on s t) source).length

instance : Decidable (m.Rejects target source) := inferInstanceAs (Decidable (∃ t ∈ target, _))

def updateRow (t : τ) : τ :=
  match source.find? fun s => m.on s t = .yes with
  | none => t
  | some s => if m.condition s t = .yes then m.update s t else t

/-- The source rows that match no target row. -/
def unmatched : List σ := source.filter fun s => ∀ t ∈ target, m.on s t ≠ .yes

def inserted : List τ :=
  match m.insert with
  | none => []
  | some f => (m.unmatched target source).map f

def run : Option (List τ) :=
  if m.Rejects target source then none
  else some (target.map (m.updateRow source) ++ m.inserted target source)

/-- The table after the statement: a rejected statement changes nothing. -/
def apply : List τ := (m.run target source).getD target

variable {m target source}

theorem apply_of_rejects (h : m.Rejects target source) : m.apply target source = target := by
  simp [apply, run, h]

theorem apply_of_not_rejects (h : ¬ m.Rejects target source) :
    m.apply target source = target.map (m.updateRow source) ++ m.inserted target source := by
  simp [apply, run, h]

/-- Source rows with distinct keys, where a target row has the key of its matches. -/
theorem not_rejects_map {ρ κ : Type} {rows : List ρ} {f : ρ → σ} {key : ρ → κ}
    (hnodup : (rows.map key).Nodup)
    (hon : ∀ r r' t, m.on (f r) t = .yes → m.on (f r') t = .yes → key r = key r') :
    ¬ m.Rejects target (rows.map f) := by
  rintro ⟨t, -, hlen⟩
  rw [matching, List.filter_map, List.length_map] at hlen
  have hle := length_filter_le_one hnodup ((fun s => decide (m.on s t = .yes)) ∘ f)
    fun r _ r' _ hr hr' => hon r r' t (of_decide_eq_true hr) (of_decide_eq_true hr')
  omega

theorem not_rejects_of_nodup {κ : Type} {key : σ → κ} (hnodup : (source.map key).Nodup)
    (hon : ∀ s s' t, m.on s t = .yes → m.on s' t = .yes → key s = key s') :
    ¬ m.Rejects target source := by
  rw [← List.map_id source]
  exact not_rejects_map hnodup hon

/-- A statement without an insert. -/
theorem apply_of_insert_eq_none (hinsert : m.insert = none) (h : ¬ m.Rejects target source) :
    m.apply target source = target.map (m.updateRow source) := by
  rw [apply_of_not_rejects h, inserted, hinsert, List.append_nil]

/-- A statement without an insert keeps what its update does not change. -/
theorem map_apply_of_update (hinsert : m.insert = none) {f : τ → β}
    (hupdate : ∀ s t, f (m.update s t) = f t) (target : List τ) (source : List σ) :
    (m.apply target source).map f = target.map f := by
  by_cases hrejects : m.Rejects target source
  · rw [apply_of_rejects hrejects]
  · rw [apply_of_insert_eq_none hinsert hrejects, List.map_map]
    refine List.map_congr_left fun t _ => ?_
    rw [Function.comp_apply, updateRow]
    split
    · rfl
    · split
      · exact hupdate _ t
      · rfl

theorem updateRow_of_unmatched {t : τ} (h : ∀ s ∈ source, m.on s t ≠ .yes) :
    m.updateRow source t = t := by
  have hnone : source.find? (fun s => m.on s t = .yes) = none := by
    simpa [List.find?_eq_none] using h
  simp [updateRow, hnone]

/-- The source row a target row is updated from is a match. -/
theorem updateRow_of_matched {t : τ} {s : σ} (hs : s ∈ source) (hon : m.on s t = .yes) :
    ∃ s' ∈ source, m.on s' t = .yes ∧
      m.updateRow source t = if m.condition s' t = .yes then m.update s' t else t := by
  cases hf : source.find? (fun s => m.on s t = .yes) with
  | none => exact absurd hon (by simpa using (List.find?_eq_none.mp hf) s hs)
  | some s' =>
      have hp := List.find?_some hf
      exact ⟨s', List.mem_of_find?_eq_some hf, by simpa using hp, by simp [updateRow, hf]⟩

/-- A statement with no row to change and no row to insert. -/
theorem apply_eq_self (hupdate : ∀ t ∈ target, m.updateRow source t = t)
    (hinsert : ∀ s ∈ source, ∃ t ∈ target, m.on s t = .yes) : m.apply target source = target := by
  by_cases hrejects : m.Rejects target source
  · exact apply_of_rejects hrejects
  · have hunmatched : m.unmatched target source = [] := by
      rw [unmatched, List.filter_eq_nil_iff]
      intro s hs hnone
      obtain ⟨t, ht, hon⟩ := hinsert s hs
      exact of_decide_eq_true hnone t ht hon
    have hinserted : m.inserted target source = [] := by
      cases hi : m.insert <;> simp [inserted, hi, hunmatched]
    rw [apply_of_not_rejects hrejects, hinserted, List.append_nil]
    calc
      target.map (m.updateRow source) = target.map id := List.map_congr_left hupdate
      _ = target := List.map_id target

end MergeInto
end Structor.Sql
