import Mathlib.Data.List.Basic
import Mathlib.Data.List.Forall2
import Mathlib.Data.List.Induction
import Mathlib.Data.List.Nodup

/-!
# List lemmas

Facts about prefixes, filters and maps that several modules use.
-/
namespace Structor
variable {α β : Type}

/-! ## Prefixes -/

theorem not_prefix_append {s t : List α} (h : ¬ s <+: t) (h' : ¬ t <+: s) (rest : List α) :
    ¬ s <+: t ++ rest := by
  intro hpre
  rcases List.prefix_or_prefix_of_prefix hpre (List.prefix_append t rest) with hst | hts
  · exact h hst
  · exact h' hts

/-- A text without the separator is a prefix of what stands before it. -/
theorem prefix_append_cons_iff {a : α} {s t rest : List α} (h : a ∉ s) :
    s <+: t ++ a :: rest ↔ s <+: t := by
  constructor
  · intro hpre
    rcases List.prefix_or_prefix_of_prefix hpre (List.prefix_append t _) with hst | ⟨u, rfl⟩
    · exact hst
    · rw [List.prefix_append_right_inj] at hpre
      cases u with
      | nil => simp
      | cons b u =>
          rw [List.cons_prefix_cons] at hpre
          simp [hpre.1] at h
  · intro hpre
    exact hpre.trans (List.prefix_append t _)

/-- Texts with a separator start alike when they do before and after it. -/
theorem append_cons_prefix_iff {a : α} {s t x y : List α} (hs : a ∉ s) (ht : a ∉ t) :
    s ++ a :: x <+: t ++ a :: y ↔ s = t ∧ x <+: y := by
  constructor
  · intro hpre
    have hst : s <+: t := (prefix_append_cons_iff hs).mp ((List.prefix_append s _).trans hpre)
    obtain ⟨u, rfl⟩ := hst
    rw [List.append_assoc, List.prefix_append_right_inj] at hpre
    cases u with
    | nil =>
        rw [List.nil_append, List.cons_prefix_cons] at hpre
        exact ⟨by simp, hpre.2⟩
    | cons b u =>
        rw [List.cons_append, List.cons_prefix_cons] at hpre
        simp [← hpre.1] at ht
  · rintro ⟨rfl, hxy⟩
    rw [List.prefix_append_right_inj, List.cons_prefix_cons]
    exact ⟨rfl, hxy⟩

/-- The pieces of a list do not have the separator. -/
theorem not_mem_of_mem_splitOn [BEq α] [LawfulBEq α] {a : α} {l piece : List α}
    (h : piece ∈ l.splitOn a) : a ∉ piece := by
  induction l generalizing piece with
  | nil => simp_all
  | cons b l ih =>
      rw [List.splitOn_cons_eq_if_modifyHead] at h
      split at h
      · rcases List.mem_cons.mp h with rfl | h
        · exact List.not_mem_nil
        · exact ih h
      · next hb =>
          cases hl : l.splitOn a with
          | nil => simp [hl] at h
          | cons first pieces =>
              rw [hl, List.modifyHead_cons, List.mem_cons] at h
              rcases h with rfl | h
              · rw [List.mem_cons, not_or]
                refine ⟨fun hab => hb (by simp [hab]), ih ?_⟩
                simp [hl]
              · apply ih
                simp [hl, h]

theorem forall_mem_intercalate {P : α → Prop} {sep : List α} (hsep : ∀ a ∈ sep, P a)
    {pieces : List (List α)} (h : ∀ p ∈ pieces, ∀ a ∈ p, P a) :
    ∀ a ∈ sep.intercalate pieces, P a := by
  induction pieces with
  | nil => exact List.forall_mem_nil P
  | cons p pieces ih =>
      rw [List.forall_mem_cons] at h
      cases pieces with
      | nil =>
          rw [List.intercalate_singleton]
          exact h.1
      | cons p' pieces =>
          rw [List.intercalate_cons_cons, List.forall_mem_append, List.forall_mem_append]
          exact ⟨⟨h.1, hsep⟩, ih h.2⟩

theorem not_mem_intercalate {a sep : α} (hsep : a ≠ sep) {pieces : List (List α)}
    (h : ∀ p ∈ pieces, a ∉ p) : a ∉ [sep].intercalate pieces := by
  have hpieces : ∀ p ∈ pieces, ∀ c ∈ p, c ≠ a := fun p hp c hc => ne_of_mem_of_not_mem hc (h p hp)
  have hne := forall_mem_intercalate (P := fun c => c ≠ a)
    (List.forall_mem_singleton.mpr hsep.symm) hpieces
  exact fun ha => hne a ha rfl

/-! ## Filters and maps -/

theorem flatMap_ite_nil (p : α → Prop) [DecidablePred p] (f : α → List β) (l : List α) :
    (l.flatMap fun a => if p a then f a else []) = (l.filter p).flatMap f := by
  induction l with
  | nil => rfl
  | cons a l ih => by_cases hp : p a <;> simp [hp, ih]

theorem flatMap_ite_singleton (p : α → Prop) [DecidablePred p] (f : α → β) (l : List α) :
    (l.flatMap fun a => if p a then [f a] else []) = (l.filter p).map f := by
  rw [flatMap_ite_nil, List.map_eq_flatMap]

/-- A map that fixes the elements of a filter, and moves no other into it, does not
change the filter. -/
theorem filter_map_of_fixed (p : α → Bool) (f : α → α) (l : List α)
    (hp : ∀ a ∈ l, p (f a) = p a) (hf : ∀ a ∈ l, p a = true → f a = a) :
    (l.map f).filter p = l.filter p := by
  have hcomp : l.filter (p ∘ f) = l.filter p := List.filter_congr hp
  calc
    (l.map f).filter p = (l.filter (p ∘ f)).map f := List.filter_map ..
    _ = (l.filter p).map f := by rw [hcomp]
    _ = (l.filter p).map id := by
      refine List.map_congr_left fun a ha => ?_
      obtain ⟨ha, hpa⟩ := List.mem_filter.mp ha
      exact hf a ha hpa
    _ = l.filter p := List.map_id _

theorem mapM_eq_some {f : α → Option β} {g : α → β} {l : List α}
    (h : ∀ a ∈ l, f a = some (g a)) : l.mapM f = some (l.map g) := by
  induction l with
  | nil => rfl
  | cons a l ih =>
      rw [List.mapM_cons, h a List.mem_cons_self, ih fun b hb => h b (List.mem_cons_of_mem a hb)]
      rfl

theorem exists_of_mem_mapM {f : α → Option β} {l : List α} {bs : List β} (h : l.mapM f = some bs)
    {b : β} (hb : b ∈ bs) : ∃ a ∈ l, f a = some b := by
  induction l generalizing bs with
  | nil =>
      obtain rfl := Option.some.inj h
      exact absurd hb List.not_mem_nil
  | cons a l ih =>
      rw [List.mapM_cons] at h
      obtain ⟨b', ha, h⟩ := Option.bind_eq_some_iff.mp h
      obtain ⟨rest, hl, h⟩ := Option.bind_eq_some_iff.mp h
      obtain rfl := Option.some.inj h
      rcases List.mem_cons.mp hb with rfl | hb
      · exact ⟨a, List.mem_cons_self, ha⟩
      · obtain ⟨a', ha', hb⟩ := ih hl hb
        exact ⟨a', List.mem_cons_of_mem a ha', hb⟩

theorem mem_flatten_of_mapM_ok {ε : Type} {f : α → Except ε (List β)} {l : List α}
    {ls : List (List β)} (h : l.mapM f = .ok ls) (x : β) :
    x ∈ ls.flatten ↔ ∃ a ∈ l, ∃ xs, f a = .ok xs ∧ x ∈ xs := by
  induction l generalizing ls with
  | nil =>
      cases h
      simp
  | cons a l ih =>
      rw [List.mapM_cons] at h
      cases ha : f a with
      | error e => simp [ha, bind, Except.bind] at h
      | ok xs =>
          cases hl : l.mapM f with
          | error e => simp [ha, hl, bind, Except.bind] at h
          | ok rest =>
              simp only [ha, hl, bind, Except.bind, pure, Except.pure, Except.ok.injEq] at h
              subst h
              simp [ha, ih hl]

theorem exists_of_mapM_ok {ε : Type} {f : α → Except ε β} {l : List α} {bs : List β}
    (h : l.mapM f = .ok bs) {a : α} (ha : a ∈ l) : ∃ b, f a = .ok b := by
  induction l generalizing bs with
  | nil => cases ha
  | cons c l ih =>
      rw [List.mapM_cons] at h
      cases hc : f c with
      | error e => simp [hc, bind, Except.bind] at h
      | ok b =>
          cases hl : l.mapM f with
          | error e => simp [hc, hl, bind, Except.bind] at h
          | ok rest =>
              rcases List.mem_cons.mp ha with rfl | ha
              · exact ⟨b, hc⟩
              · exact ih hl ha

theorem mapM_eq_ok_of_forall {ε : Type} {f : α → Except ε β} {l : List α}
    (h : ∀ a ∈ l, ∃ b, f a = .ok b) : ∃ bs, l.mapM f = .ok bs := by
  induction l with
  | nil => exact ⟨[], rfl⟩
  | cons a l ih =>
      obtain ⟨b, hb⟩ := h a List.mem_cons_self
      obtain ⟨bs, hbs⟩ := ih fun c hc => h c (List.mem_cons_of_mem a hc)
      exact ⟨b :: bs, by rw [List.mapM_cons, hb, hbs]; rfl⟩

/-- A list that is related to one with a last element has one itself. -/
theorem forall₂_concat_left {R : α → β → Prop} {l : List α} {a : α} {bs : List β}
    (h : List.Forall₂ R (l ++ [a]) bs) :
    ∃ front b, bs = front ++ [b] ∧ R a b ∧ List.Forall₂ R l front := by
  have hreverse := List.forall₂_reverse_iff.mpr h
  rw [List.reverse_append, List.reverse_singleton, List.singleton_append,
    List.forall₂_cons_left_iff] at hreverse
  obtain ⟨b, rest, hb, hrest, hall⟩ := hreverse
  refine ⟨rest.reverse, b, ?_, hb, ?_⟩
  · rw [← List.reverse_cons, ← hall, List.reverse_reverse]
  · rw [← List.forall₂_reverse_iff, List.reverse_reverse]
    exact hrest

/-- Pairs of an element and an element of its own list. -/
theorem nodup_flatMap_pair {f : α → List β} {l : List α} (h : l.Nodup)
    (hf : ∀ a ∈ l, (f a).Nodup) : (l.flatMap fun a => (f a).map (Prod.mk a)).Nodup := by
  rw [List.nodup_flatMap]
  constructor
  · intro a ha
    exact (hf a ha).map fun b c hbc => (Prod.mk.inj hbc).2
  · refine h.imp fun {a b} hab => ?_
    apply List.disjoint_left.mpr
    intro x hx hx'
    obtain ⟨c, -, rfl⟩ := List.mem_map.mp hx
    obtain ⟨d, -, heq⟩ := List.mem_map.mp hx'
    exact hab (Prod.mk.inj heq).1.symm

/-- The last element that a filter keeps. -/
theorem getLast?_filter {l : List α} {p : α → Bool} {a : α}
    (h : (l.filter p).getLast? = some a) :
    ∃ before after, l = before ++ a :: after ∧ p a = true ∧ ∀ x ∈ after, p x = false := by
  induction l using List.reverseRecOn with
  | nil => simp at h
  | append_singleton l x ih =>
      rw [List.filter_append] at h
      by_cases hx : p x = true
      · have hlast : x = a := by simpa [hx] using h
        exact ⟨l, [], by rw [hlast], hlast ▸ hx, by simp⟩
      · have hfilter : (l.filter p).getLast? = some a := by simpa [hx] using h
        obtain ⟨before, after, hl, ha, hafter⟩ := ih hfilter
        refine ⟨before, after ++ [x], by rw [hl]; simp, ha, ?_⟩
        intro y hy
        rcases List.mem_append.mp hy with hy | hy
        · exact hafter y hy
        · rw [List.mem_singleton.mp hy]
          simpa using hx

/-- An only match is all that a filter keeps. -/
theorem filter_eq_singleton {l : List α} {p : α → Bool} {a : α} (h : (l.filter p).length ≤ 1)
    (ha : a ∈ l) (hpa : p a = true) : l.filter p = [a] := by
  have hmem : a ∈ l.filter p := List.mem_filter.mpr ⟨ha, hpa⟩
  match hl : l.filter p with
  | [] => simp [hl] at hmem
  | [b] =>
      rw [hl] at hmem
      rw [List.mem_singleton.mp hmem]
  | _ :: _ :: _ => simp [hl] at h

/-- A search for the only match finds it. -/
theorem find?_eq_some_of_length_le_one {l : List α} {p : α → Bool} {a : α}
    (h : (l.filter p).length ≤ 1) (ha : a ∈ l) (hpa : p a = true) : l.find? p = some a := by
  rw [← List.head?_filter, filter_eq_singleton h ha hpa, List.head?_cons]

/-! ## Lists with distinct keys -/

variable {key : α → β} {l : List α}

/-- A predicate that fixes the key holds of at most one element. -/
theorem length_filter_le_one (h : (l.map key).Nodup) (p : α → Bool)
    (hp : ∀ a ∈ l, ∀ b ∈ l, p a = true → p b = true → key a = key b) :
    (l.filter p).length ≤ 1 := by
  have hnodup : ((l.filter p).map key).Nodup := h.sublist (List.filter_sublist.map key)
  match hl : l.filter p with
  | [] => simp
  | [a] => simp
  | a :: b :: rest =>
      have hmem : ∀ c ∈ a :: b :: rest, c ∈ l ∧ p c = true := by
        intro c hc
        rw [← hl] at hc
        exact List.mem_filter.mp hc
      obtain ⟨ha, hpa⟩ := hmem a (by simp)
      obtain ⟨hb, hpb⟩ := hmem b (by simp)
      rw [hl] at hnodup
      simp [hp a ha b hb hpa hpb] at hnodup

/-- A key that occurs is the key of one element. -/
theorem existsUnique_of_mem_map (h : (l.map key).Nodup) {k : β} (hk : k ∈ l.map key) :
    ∃! a, a ∈ l ∧ key a = k := by
  obtain ⟨a, ha, rfl⟩ := List.mem_map.mp hk
  refine ⟨a, ⟨ha, rfl⟩, ?_⟩
  intro b hb
  exact List.inj_on_of_nodup_map h hb.1 ha hb.2

/-- A search for the key of an element finds the element. -/
theorem find?_eq_some_of_key (h : (l.map key).Nodup) {p : α → Bool} {a : α} (ha : a ∈ l)
    (hpa : p a = true) (hp : ∀ b ∈ l, p b = true → key b = key a) : l.find? p = some a := by
  cases hf : l.find? p with
  | none => exact absurd hpa (by simpa using List.find?_eq_none.mp hf a ha)
  | some b =>
      have hb := List.mem_of_find?_eq_some hf
      have hkey := hp b hb (List.find?_some hf)
      rw [List.inj_on_of_nodup_map h hb ha hkey]

end Structor
