import Mathlib.Data.List.Infix
import Structor.Lists
import Structor.Python

/-!
# Texts without marker lines

A reader looks for lines that start with one of some prefixes. A text is quiet when none
of its lines does. Two quiet texts make a quiet text when the second does not go on with
a prefix that the first has left unfinished.

## Main definitions

* `Markers` -- the prefixes
* `Markers.Quiet` -- no line starts with a prefix
* `Markers.Apart` -- the text does not go on with a prefix
-/
namespace Structor

open Python

/-- Prefixes of lines. -/
structure Markers where
  prefixes : List Str
  nil_not_mem : [] ∉ prefixes
  break_not_mem : ∀ p ∈ prefixes, '\n' ∉ p

namespace Markers
variable (m : Markers)

/-- No line of the text starts with a prefix. -/
def Quiet (s : Str) : Prop := ∀ line ∈ fileLines s, ∀ p ∈ m.prefixes, ¬ p <+: line

instance (s : Str) : Decidable (m.Quiet s) :=
  inferInstanceAs (Decidable (∀ line ∈ fileLines s, ∀ p ∈ m.prefixes, ¬ p <+: line))

/-- The text does not start with a prefix or with the end of one. -/
def Apart (s : Str) : Prop := ∀ p ∈ m.prefixes, ∀ t, t <:+ p → t ≠ [] → ¬ t <+: s

/-- No prefix and no end of one goes on as the text does. -/
def Clear (s : Str) : Prop :=
  ∀ p ∈ m.prefixes, ∀ t ∈ p.tails, t ≠ [] → ¬ t <+: s ∧ ¬ s <+: t

instance (s : Str) : Decidable (m.Clear s) :=
  inferInstanceAs
    (Decidable (∀ p ∈ m.prefixes, ∀ t ∈ p.tails, t ≠ [] → ¬ t <+: s ∧ ¬ s <+: t))

variable {m} {s rest : Str}

/-! ## Texts that keep apart -/

@[simp] theorem apart_nil : m.Apart [] := by
  intro p _ t _ hne h
  exact hne (List.prefix_nil.mp h)

theorem apart_append (h : m.Clear s) (rest : Str) : m.Apart (s ++ rest) := by
  intro p hp t ht hne hpre
  have hclear := h p hp t ((List.mem_tails t p).mpr ht) hne
  exact not_prefix_append hclear.1 hclear.2 rest hpre

theorem apart_break (rest : Str) : m.Apart ('\n' :: rest) := by
  intro p hp t ht hne hpre
  cases t with
  | nil => exact hne rfl
  | cons c t =>
      have hc : c = '\n' := by
        rw [List.cons_prefix_cons] at hpre
        exact hpre.1
      apply m.break_not_mem p hp
      exact ht.subset (hc ▸ List.mem_cons_self)

/-! ## Quiet texts -/

@[simp] theorem quiet_nil : m.Quiet [] := by
  simp [Quiet, fileLines]

/-- A text after a line break starts a line of its own. -/
theorem quiet_append_break :
    m.Quiet (s ++ '\n' :: rest) ↔ m.Quiet (s ++ ['\n']) ∧ m.Quiet rest := by
  simp only [Quiet, fileLines_append_break s rest, List.mem_append, or_imp, forall_and]

/-- A text without line breaks is a line, or empty. -/
theorem quiet_of_not_mem (hs : '\n' ∉ s) : m.Quiet s ↔ ∀ p ∈ m.prefixes, ¬ p <+: s := by
  cases s with
  | nil =>
      simp only [quiet_nil, List.prefix_nil, true_iff]
      intro p hp hnil
      exact m.nil_not_mem (hnil ▸ hp)
  | cons c s =>
      simp only [Quiet, fileLines_of_not_mem hs, List.mem_singleton, forall_eq]

/-- The same for a text that is known to end a line. -/
theorem Quiet.append_of_break (h : m.Quiet s) (hend : ['\n'] <:+ s) (hrest : m.Quiet rest) :
    m.Quiet (s ++ rest) := by
  obtain ⟨before, rfl⟩ := hend
  rw [List.append_assoc, List.singleton_append, quiet_append_break]
  exact ⟨h, hrest⟩

theorem quiet_line (hs : '\n' ∉ s) : m.Quiet (s ++ ['\n']) ↔ ∀ p ∈ m.prefixes, ¬ p <+: s := by
  simp only [Quiet, fileLines_line hs, List.mem_singleton, forall_eq]
  apply forall₂_congr
  intro p hp
  rw [List.prefix_concat_iff, not_or, and_iff_right_iff_imp]
  intro _ heq
  apply m.break_not_mem p hp
  simp [heq]

theorem Apart.not_starts (h : m.Apart s) : ∀ p ∈ m.prefixes, ¬ p <+: s := by
  intro p hp
  exact h p hp p List.suffix_rfl fun hnil => m.nil_not_mem (hnil ▸ hp)

/-- The first line of a text that keeps apart does not finish a prefix. -/
theorem quiet_append_of_not_mem (hs : '\n' ∉ s) (h : m.Quiet s) (hrest : m.Quiet rest)
    (hapart : m.Apart rest) : m.Quiet (s ++ rest) := by
  rw [quiet_of_not_mem hs] at h
  cases hlines : fileLines rest with
  | nil =>
      have hnil : rest = [] := by
        rw [← fileLines_flatten rest, hlines, List.flatten_nil]
      rwa [hnil, List.append_nil, quiet_of_not_mem hs]
  | cons line lines =>
      have hline : line <+: rest := by
        rw [← fileLines_flatten rest, hlines, List.flatten_cons]
        exact List.prefix_append line _
      intro l hl p hp
      rw [fileLines_append_of_not_mem hs hlines, List.mem_cons] at hl
      rcases hl with rfl | hl
      · intro hpre
        rcases List.prefix_or_prefix_of_prefix hpre (List.prefix_append s line) with hps | hsp
        · exact h p hp hps
        · obtain ⟨t, rfl⟩ := hsp
          have ht : t <+: line := (List.prefix_append_right_inj s).mp hpre
          apply hapart _ hp t (List.suffix_append s t) _ (ht.trans hline)
          intro hnil
          exact h _ hp (by simp [hnil])
      · apply hrest l _ p hp
        rw [hlines]
        exact List.mem_cons_of_mem line hl

theorem quiet_append (h : m.Quiet s) (hrest : m.Quiet rest) (hapart : m.Apart rest) :
    m.Quiet (s ++ rest) := by
  by_cases hs : '\n' ∈ s
  · obtain ⟨before, last, rfl, hlast⟩ := exists_last_mem hs
    rw [quiet_append_break] at h
    rw [List.append_assoc, List.cons_append, quiet_append_break]
    exact ⟨h.1, quiet_append_of_not_mem hlast h.2 hrest hapart⟩
  · exact quiet_append_of_not_mem hs h hrest hapart

/-- A quiet text that may follow any other. -/
structure Calm (m : Markers) (s : Str) : Prop where
  quiet : m.Quiet s
  apart : m.Apart s

@[simp] theorem calm_nil : m.Calm [] := ⟨quiet_nil, apart_nil⟩

theorem quiet_blank : m.Quiet ['\n'] := by
  rw [← List.nil_append ['\n'], quiet_line List.not_mem_nil]
  exact apart_nil.not_starts

/-- A blank line in front of a quiet text. -/
theorem calm_break (h : m.Quiet s) : m.Calm ('\n' :: s) := by
  refine ⟨?_, apart_break s⟩
  exact quiet_blank.append_of_break List.suffix_rfl h

/-- A line that starts clear of the prefixes. -/
theorem calm_line (h : m.Clear s) (hs : '\n' ∉ s ++ rest) : m.Calm (s ++ rest ++ ['\n']) := by
  constructor
  · rw [quiet_line hs]
    exact (apart_append h rest).not_starts
  · rw [List.append_assoc]
    exact apart_append h _

theorem Quiet.append_calm (h : m.Quiet s) (hrest : m.Calm rest) : m.Quiet (s ++ rest) :=
  quiet_append h hrest.quiet hrest.apart

theorem Quiet.append_flatten (h : m.Quiet s) {texts : List Str}
    (htexts : ∀ text ∈ texts, m.Calm text) : m.Quiet (s ++ texts.flatten) := by
  induction texts generalizing s with
  | nil => simpa using h
  | cons text texts ih =>
      rw [List.forall_mem_cons] at htexts
      rw [List.flatten_cons, ← List.append_assoc]
      exact ih (h.append_calm htexts.1) htexts.2

end Markers
end Structor
