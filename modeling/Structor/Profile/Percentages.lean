import Mathlib.Algebra.BigOperators.Ring.List
import Mathlib.Algebra.Order.Field.Rat
import Mathlib.Tactic.Linarith
import Mathlib.Tactic.Positivity
import Structor.Profile.CallTree
import Structor.Python
import Structor.Rounding

/-!
# Percentages of the call tree

`addPercentages` gives every node the part that its count is of the root's count. The
results of the arithmetic are rounded: to doubles, or not at all where it is exact.

## Main definitions

* `Rounder` -- what is used of the rounding
* `double` -- the rounding of the program
* `addPercentToTree`, `addPercentages` -- the percentages of a tree
* `Node.withPercent` -- the tree that they leave
* `Graded` -- the percentage of a node and those of its children
* `Weighed` -- the same in exact arithmetic
-/
namespace Structor.Profile

open Python

/-! ## Rounding -/

/-- The rounding keeps the order of numbers that are not negative, and it keeps the integers
that are used. -/
structure Rounder (round : ℚ → ℚ) : Prop where
  mono : ∀ x y, 0 ≤ x → x ≤ y → round x ≤ round y
  pos : ∀ x, 0 < x → 0 < round x
  natCast : ∀ n : ℕ, n < 256 → round n = n

/-- The result of an operation on floating point numbers, whose exponents have no bounds
here. -/
def double (x : ℚ) : ℚ := Rounding.rounded 53 x

theorem rounder_double : Rounder double where
  mono _ _ hx h := Rounding.rounded_mono (by decide) hx h
  pos _ hx := Rounding.rounded_pos (by decide) hx
  natCast _ hn := Rounding.rounded_natCast (hn.trans (by decide))

theorem rounder_id : Rounder id where
  mono _ _ _ h := h
  pos _ hx := hx
  natCast _ _ := rfl

namespace Rounder
variable {round : ℚ → ℚ}

theorem zero (h : Rounder round) : round 0 = 0 := by
  exact_mod_cast h.natCast 0 (by decide)

theorem one (h : Rounder round) : round 1 = 1 := by
  exact_mod_cast h.natCast 1 (by decide)

theorem nonneg (h : Rounder round) {x : ℚ} (hx : 0 ≤ x) : 0 ≤ round x := by
  rw [← h.zero]
  exact h.mono 0 x le_rfl hx

end Rounder

/-! ## The percentages of a tree -/

/-- The part `myCount * 1.0 / totalCount`. -/
def partOf (round : ℚ → ℚ) (myCount totalCount : ℕ) : ℚ := round (round myCount / round totalCount)

section
variable (round : ℚ → ℚ)

mutual
/-- The percentages of a node and of those below it. -/
def addPercentToTree (totalCount : ℕ) : Node → Except Error Node
  | ⟨name, count, _, children⟩ =>
      match count with
      | none => .error .keyError
      | some myCount =>
          if totalCount = 0 then .error .zeroDivisionError
          else do
            let children ← addPercentToChildren totalCount children
            return ⟨name, some myCount, some (partOf round myCount totalCount), children⟩
def addPercentToChildren (totalCount : ℕ) : List Node → Except Error (List Node)
  | [] => return []
  | child :: rest => do
      let child ← addPercentToTree totalCount child
      let rest ← addPercentToChildren totalCount rest
      return child :: rest
end

def addPercentages (traceTree : Node) : Except Error Node :=
  match traceTree.count with
  | none => .error .keyError
  | some totalCount => addPercentToTree round totalCount traceTree

/-! ## The tree that is left -/

mutual
/-- The tree with the percentages of all nodes. -/
def Node.withPercent (totalCount : ℕ) : Node → Node
  | ⟨name, count, _, children⟩ =>
      ⟨name, count, some (partOf round (count.getD 0) totalCount),
        childrenWithPercent totalCount children⟩
def childrenWithPercent (totalCount : ℕ) : List Node → List Node
  | [] => []
  | child :: rest => child.withPercent totalCount :: childrenWithPercent totalCount rest
end

end

section
variable {round : ℚ → ℚ} {totalCount : ℕ}

theorem childrenWithPercent_eq (children : List Node) :
    childrenWithPercent round totalCount children =
      children.map (Node.withPercent round totalCount) := by
  induction children with
  | nil => rfl
  | cons child rest ih => rw [childrenWithPercent, ih, List.map_cons]

@[simp] theorem name_withPercent (n : Node) : (n.withPercent round totalCount).name = n.name := by
  obtain ⟨name, count, percent, children⟩ := n
  rw [Node.withPercent]

@[simp] theorem count_withPercent (n : Node) :
    (n.withPercent round totalCount).count = n.count := by
  obtain ⟨name, count, percent, children⟩ := n
  rw [Node.withPercent]

@[simp] theorem percent_withPercent (n : Node) :
    (n.withPercent round totalCount).percent = some (partOf round n.countOf totalCount) := by
  obtain ⟨name, count, percent, children⟩ := n
  rw [Node.withPercent]
  rfl

@[simp] theorem children_withPercent (n : Node) :
    (n.withPercent round totalCount).children =
      n.children.map (Node.withPercent round totalCount) := by
  obtain ⟨name, count, percent, children⟩ := n
  rw [Node.withPercent, childrenWithPercent_eq]

/-- The percentages do not change the way to a node. -/
theorem nodeAt_withPercent (path : List Str) (n : Node) :
    nodeAt path (n.withPercent round totalCount) =
      (nodeAt path n).map (Node.withPercent round totalCount) := by
  induction path generalizing n with
  | nil => rfl
  | cons step path ih =>
      have hchild : (n.withPercent round totalCount).getChild step =
          (n.getChild step).map (Node.withPercent round totalCount) := by
        simp only [Node.getChild, Keyed.get, children_withPercent, List.find?_map]
        congr 2
        funext child
        simp
      rw [nodeAt_cons, nodeAt_cons, hchild]
      cases n.getChild step with
      | none => rfl
      | some child => exact ih child

theorem distinct_withPercent {tree : Node} (h : Distinct tree) :
    Distinct (tree.withPercent round totalCount) := by
  intro path n hn
  rw [nodeAt_withPercent] at hn
  obtain ⟨m, hm, rfl⟩ := Option.map_eq_some_iff.mp hn
  have hnames : (m.withPercent round totalCount).children.map Node.name =
      m.children.map Node.name := by
    simp [Function.comp_def]
  rw [hnames]
  exact h path m hm

mutual
theorem addPercentToTree_eq (hpos : totalCount ≠ 0) (n : Node)
    (hcounts : ∀ path m, (path, m) ∈ n.nodes → m.count ≠ none) :
    addPercentToTree round totalCount n = .ok (n.withPercent round totalCount) := by
  match n, hcounts with
  | ⟨name, none, percent, children⟩, hcounts =>
      exact absurd rfl (hcounts [] ⟨name, none, percent, children⟩ (by simp [Node.nodes]))
  | ⟨name, some count, percent, children⟩, hcounts =>
      have hchildren := addPercentToChildren_eq hpos children fun path m hm =>
        hcounts path m (by simp [Node.nodes, hm])
      simp only [addPercentToTree, hpos, if_false, hchildren, bind, Except.bind, pure, Except.pure,
        Node.withPercent, Option.getD_some]
theorem addPercentToChildren_eq (hpos : totalCount ≠ 0) (children : List Node)
    (hcounts : ∀ path m, (path, m) ∈ childNodes children → m.count ≠ none) :
    addPercentToChildren round totalCount children =
      .ok (childrenWithPercent round totalCount children) := by
  match children, hcounts with
  | [], _ => rfl
  | child :: rest, hcounts =>
      have hchild := addPercentToTree_eq hpos child fun path m hm =>
        hcounts (child.name :: path) m (by simp [childNodes, hm])
      have hrest := addPercentToChildren_eq hpos rest fun path m hm =>
        hcounts path m (by simp [childNodes, hm])
      simp only [addPercentToChildren, hchild, hrest, bind, Except.bind, pure, Except.pure,
        childrenWithPercent]
end

end

/-! ## The percentages of a run -/

/-- The percentage, zero if there is none. -/
def Node.percentOf (n : Node) : ℚ := n.percent.getD 0

/-- A node has a percentage, and no child of it has a larger one. -/
structure Graded (n : Node) : Prop where
  percent : n.percent = some n.percentOf
  pos : 0 < n.percentOf
  le_one : n.percentOf ≤ 1
  child_le : ∀ child ∈ n.children, child.percentOf ≤ n.percentOf

/-- A node has a percentage, and its children have not more together. -/
structure Weighed (n : Node) : Prop where
  percent : n.percent = some n.percentOf
  pos : 0 < n.percentOf
  le_one : n.percentOf ≤ 1
  children : (n.children.map Node.percentOf).sum ≤ n.percentOf

@[simp] theorem percentOf_withPercent (round : ℚ → ℚ) (totalCount : ℕ) (n : Node) :
    (n.withPercent round totalCount).percentOf = partOf round n.countOf totalCount := by
  simp [Node.percentOf]

namespace Rounder
variable {round : ℚ → ℚ} {a b total : ℕ}

theorem natCast_pos (h : Rounder round) (ha : 0 < a) : 0 < round a :=
  h.pos a (by exact_mod_cast ha)

theorem partOf_pos (h : Rounder round) (ha : 0 < a) (htotal : 0 < total) :
    0 < partOf round a total :=
  h.pos _ (div_pos (h.natCast_pos ha) (h.natCast_pos htotal))

theorem partOf_mono (h : Rounder round) (hab : a ≤ b) :
    partOf round a total ≤ partOf round b total := by
  have hnonneg (n : ℕ) : 0 ≤ round n := h.nonneg n.cast_nonneg
  have hround : round a ≤ round b := h.mono a b a.cast_nonneg (by exact_mod_cast hab)
  exact h.mono _ _ (div_nonneg (hnonneg a) (hnonneg total))
    (div_le_div_of_nonneg_right hround (hnonneg total))

theorem partOf_self (h : Rounder round) (htotal : 0 < total) : partOf round total total = 1 := by
  rw [partOf, div_self (h.natCast_pos htotal).ne', h.one]

end Rounder

theorem partOf_id (a total : ℕ) : partOf id a total = (a : ℚ) / total := rfl

theorem sum_percentOf (totalCount : ℕ) (children : List Node) :
    ((children.map (Node.withPercent id totalCount)).map Node.percentOf).sum =
      ((children.map Node.countOf).sum : ℕ) / totalCount := by
  induction children with
  | nil => simp
  | cons child rest ih =>
      simp only [List.map_cons, List.sum_cons, ih, percentOf_withPercent, partOf_id, Nat.cast_add,
        add_div]

namespace Counted
variable {words : List (List Str)} {s : Node × Counts} {path : List Str} {n : Node}

theorem countOf_eq (h : Counted words s) (hn : nodeAt path s.1 = some n) :
    n.countOf = withPrefix words path := by
  rw [Node.countOf, h.count_eq hn, getD_tally]

theorem countOf_pos (h : Counted words s) (hwords : words ≠ [])
    (hn : nodeAt path s.1 = some n) : 0 < n.countOf := by
  rw [h.countOf_eq hn]
  by_cases hpath : path = []
  · rw [hpath, withPrefix_nil]
    exact List.length_pos_iff.mpr hwords
  · exact Nat.pos_of_ne_zero (h.pos_of_nodeAt hn hpath)

theorem count_some (h : Counted words s) (hwords : words ≠ [])
    (hn : nodeAt path s.1 = some n) : n.count = some n.countOf := by
  have hpos := h.countOf_pos hwords hn
  unfold Node.countOf at hpos ⊢
  cases hcount : n.count with
  | none => simp [hcount] at hpos
  | some count => rfl

theorem countOf_le (h : Counted words s) (hn : nodeAt path s.1 = some n) :
    n.countOf ≤ words.length := by
  rw [h.countOf_eq hn]
  exact List.countP_le_length

variable {round : ℚ → ℚ}

theorem addPercentages_eq (h : Counted words s) (hwords : words ≠ []) :
    addPercentages round s.1 = .ok (s.1.withPercent round words.length) := by
  have hroot : s.1.count = some words.length := by
    rw [h.count_some hwords (nodeAt_nil s.1), h.countOf_eq (nodeAt_nil s.1), withPrefix_nil]
  have hpos : words.length ≠ 0 := fun hzero => hwords (List.length_eq_zero_iff.mp hzero)
  have htree : addPercentToTree round words.length s.1 =
      .ok (s.1.withPercent round words.length) := by
    refine addPercentToTree_eq hpos s.1 fun path m hm => ?_
    rw [h.count_some hwords ((mem_nodes_iff h.distinct).mp hm)]
    simp
  simp only [addPercentages, hroot, htree]

theorem graded (h : Counted words s) (hwords : words ≠ []) (hround : Rounder round)
    (hn : nodeAt path s.1 = some n) : Graded (n.withPercent round words.length) := by
  have hlength : 0 < words.length := List.length_pos_iff.mpr hwords
  refine ⟨?_, ?_, ?_, ?_⟩
  · rw [percent_withPercent, percentOf_withPercent]
  · rw [percentOf_withPercent]
    exact hround.partOf_pos (h.countOf_pos hwords hn) hlength
  · rw [percentOf_withPercent, ← hround.partOf_self hlength]
    exact hround.partOf_mono (h.countOf_le hn)
  · rw [children_withPercent, List.forall_mem_map, percentOf_withPercent]
    intro child hchild
    rw [percentOf_withPercent]
    refine hround.partOf_mono ?_
    have hsum := h.count_eq_sum hn
    have hle : child.countOf ≤ (n.children.map Node.countOf).sum :=
      List.single_le_sum (fun _ _ => Nat.zero_le _) _ (List.mem_map_of_mem hchild)
    omega

/-- In exact arithmetic the parts of the children add up. -/
theorem weighed (h : Counted words s) (hwords : words ≠ [])
    (hn : nodeAt path s.1 = some n) : Weighed (n.withPercent id words.length) := by
  obtain ⟨hpercent, hpos, hle, -⟩ := h.graded hwords rounder_id hn
  refine ⟨hpercent, hpos, hle, ?_⟩
  have hlength : (0 : ℚ) < words.length := by
    exact_mod_cast List.length_pos_iff.mpr hwords
  rw [children_withPercent, sum_percentOf, percentOf_withPercent, partOf_id]
  have hsum := h.count_eq_sum hn
  have hchildren : ((n.children.map Node.countOf).sum : ℚ) ≤ n.countOf := by
    exact_mod_cast (by omega : (n.children.map Node.countOf).sum ≤ n.countOf)
  exact div_le_div_of_nonneg_right hchildren hlength.le

end Counted

end Structor.Profile
