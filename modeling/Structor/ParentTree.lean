import Mathlib.Combinatorics.SimpleGraph.Acyclic

/-!
# Trees given by parents

A graph whose edges lead from each vertex to its one parent, with a depth that grows from
the parent to the child, is a tree.

## Main definitions

* `ParentTree` -- a graph with its root, its parents and its depths
* `Below` -- the vertices under a vertex
* `stepEdges` -- the edges of labelled paths
-/
namespace Structor

open SimpleGraph

/-- The edges of the graph are those between child and parent. -/
structure ParentTree {V : Type} (G : SimpleGraph V) (root : V) (Parent : V → V → Prop)
    (depth : V → ℕ) : Prop where
  adj : ∀ u v, G.Adj u v ↔ Parent u v ∨ Parent v u
  exists_parent : ∀ v, v ≠ root → ∃ u, Parent v u
  unique : ∀ {v u u'}, Parent v u → Parent v u' → u = u'
  depth_lt : ∀ {v u}, Parent v u → depth u < depth v

namespace ParentTree
variable {V : Type} {G : SimpleGraph V} {root : V} {Parent : V → V → Prop} {depth : V → ℕ}

/-- The vertices at and under `v`. -/
inductive Below (Parent : V → V → Prop) (v : V) : V → Prop
  | self : Below Parent v v
  | child {x y : V} (hparent : Parent x y) (hy : Below Parent v y) : Below Parent v x

theorem depth_le_of_below (h : ParentTree G root Parent depth) {v x : V}
    (hx : Below Parent v x) : depth v ≤ depth x := by
  induction hx with
  | self => exact Nat.le_refl _
  | child hparent _ ih => exact ih.trans (h.depth_lt hparent).le

theorem reachable_root (h : ParentTree G root Parent depth) (v : V) : G.Reachable v root := by
  generalize hn : depth v = n
  induction n using Nat.strong_induction_on generalizing v with
  | h n ih =>
      by_cases hv : v = root
      · rw [hv]
      · obtain ⟨u, hu⟩ := h.exists_parent v hv
        have hadj : G.Adj v u := (h.adj v u).mpr (.inl hu)
        have hlt : depth u < n := hn ▸ h.depth_lt hu
        exact hadj.reachable.trans (ih _ hlt u rfl)

/-- Without the edge from `v` to its parent every edge stays in the part under `v`. -/
theorem below_of_adj (h : ParentTree G root Parent depth) {v u x y : V} (hu : Parent v u)
    (hadj : (G.deleteEdges {s(v, u)}).Adj x y) (hy : Below Parent v y) : Below Parent v x := by
  rw [deleteEdges_adj] at hadj
  rcases (h.adj x y).mp hadj.1 with hparent | hparent
  · exact .child hparent hy
  · cases hy with
    | self =>
        obtain rfl := h.unique hparent hu
        exact absurd Sym2.eq_swap hadj.2
    | child hother hx =>
        obtain rfl := h.unique hparent hother
        exact hx

theorem below_of_walk (h : ParentTree G root Parent depth) {v u x y : V} (hu : Parent v u)
    (walk : (G.deleteEdges {s(v, u)}).Walk x y) (hy : Below Parent v y) : Below Parent v x := by
  induction walk with
  | nil => exact hy
  | cons hadj _ ih => exact h.below_of_adj hu hadj (ih hy)

theorem isBridge (h : ParentTree G root Parent depth) {v u : V} (hu : Parent v u) :
    G.IsBridge s(v, u) := by
  rw [isBridge_iff]
  intro hreach
  obtain ⟨walk⟩ := hreach.symm
  have hle := h.depth_le_of_below (h.below_of_walk hu walk .self)
  exact absurd (h.depth_lt hu) (Nat.not_lt.mpr hle)

theorem isTree (h : ParentTree G root Parent depth) : G.IsTree where
  connected :=
    { preconnected := fun u v => (h.reachable_root u).trans (h.reachable_root v).symm
      nonempty := ⟨root⟩ }
  isAcyclic := by
    rw [isAcyclic_iff_forall_isBridge]
    intro e he
    induction e using Sym2.ind with
    | h u v =>
        rcases (h.adj u v).mp he with hparent | hparent
        · exact h.isBridge hparent
        · rw [Sym2.eq_swap]
          exact h.isBridge hparent

end ParentTree

/-- The edges between the labels of a path and of the path one step shorter. -/
def stepEdges {α V : Type} (P : Set (List α)) (label : List α → V) : Set (Sym2 V) :=
  {e | ∃ p step, p ++ [step] ∈ P ∧ e = s(label p, label (p ++ [step]))}

/-- Paths that are closed under prefixes make a tree if their labels are distinct. -/
theorem isTree_of_labels {α V : Type} {P : Set (List α)} (hnil : [] ∈ P)
    (hclosed : ∀ p step, p ++ [step] ∈ P → p ∈ P) {label : List α → V} (hinj : Set.InjOn label P) :
    ((fromEdgeSet (stepEdges P label)).induce (label '' P)).IsTree := by
  have hlabels : ∀ x : label '' P, ∃ p, p ∈ P ∧ label p = x := fun x => x.property
  choose pathOf hmem hlabel using hlabels
  have hpath : ∀ x p, p ∈ P → label p = x.1 → pathOf x = p := by
    intro x p hp hx
    exact hinj (hmem x) hp ((hlabel x).trans hx.symm)
  have htree : ParentTree ((fromEdgeSet (stepEdges P label)).induce (label '' P))
      ⟨label [], [], hnil, rfl⟩ (fun x y => ∃ step, pathOf x = pathOf y ++ [step])
      fun x => (pathOf x).length := by
    refine ⟨?_, ?_, ?_, ?_⟩
    · intro x y
      rw [induce_adj, fromEdgeSet_adj]
      constructor
      · rintro ⟨⟨p, step, hp, he⟩, -⟩
        have hprefix := hclosed p step hp
        rcases Sym2.eq_iff.mp he with ⟨hx, hy⟩ | ⟨hx, hy⟩
        · exact .inr ⟨step, by rw [hpath x p hprefix hx.symm, hpath y _ hp hy.symm]⟩
        · exact .inl ⟨step, by rw [hpath x _ hp hx.symm, hpath y p hprefix hy.symm]⟩
      · have hedge : ∀ a b : label '' P, (∃ step, pathOf a = pathOf b ++ [step]) →
            s(b.1, a.1) ∈ stepEdges P label ∧ b.1 ≠ a.1 := by
          rintro a b ⟨step, hstep⟩
          refine ⟨⟨pathOf b, step, hstep ▸ hmem a, by rw [hlabel, ← hstep, hlabel]⟩, ?_⟩
          intro hba
          have hsame : pathOf a = pathOf b := hpath a _ (hmem b) ((hlabel b).trans hba)
          simp [hsame] at hstep
        rintro (hxy | hyx)
        · rw [Sym2.eq_swap]
          exact (hedge x y hxy).imp_right Ne.symm
        · exact hedge y x hyx
    · intro x hx
      rcases List.eq_nil_or_concat (pathOf x) with hempty | ⟨p, step, hconcat⟩
      · refine absurd (Subtype.ext ?_) hx
        rw [← hlabel x, hempty]
      · rw [List.concat_eq_append] at hconcat
        have hp := hclosed p step (hconcat ▸ hmem x)
        exact ⟨⟨label p, p, hp, rfl⟩, step, by rw [hpath ⟨label p, p, hp, rfl⟩ p hp rfl, hconcat]⟩
    · rintro x u u' ⟨step, hu⟩ ⟨step', hu'⟩
      have hsame := (List.append_inj' (hu.symm.trans hu') rfl).1
      exact Subtype.ext (by rw [← hlabel u, hsame, hlabel])
    · rintro x u ⟨step, hu⟩
      rw [hu, List.length_append]
      exact Nat.lt_succ_self _
  exact htree.isTree

end Structor
