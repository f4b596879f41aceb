import Structor.ParentTree
import Structor.Profile.DumpTree

/-!
# The graph that is drawn

The graph library knows a node by its name and keeps one edge for a pair of nodes. The name
of a graph node is that of the step with a percentage of two decimals, so tree nodes that
share both are one graph node. The percentages are doubles.

## Main definitions

* `Drawing.graph` -- the graph of a drawing
* `Faithful` -- the graph is the part of the call tree that reaches the threshold
* `Separable` -- the percentages tell the tree nodes of a name apart
-/
namespace Structor.Profile

open Python

/-- The names of the graph nodes. -/
def Drawing.nodeNames (d : Drawing) : Set Str :=
  {name | name = head ∨ ∃ draw ∈ d.draws, draw.effectiveNodeName = name}

def Drawing.edges (d : Drawing) : Set (Sym2 Str) :=
  {e | ∃ draw ∈ d.draws, e = s(draw.parentNodeName, draw.effectiveNodeName)}

def Drawing.graph (d : Drawing) : SimpleGraph d.nodeNames :=
  (SimpleGraph.fromEdgeSet d.edges).induce d.nodeNames

/-- The graph node that is drawn for a tree node. -/
def Drawing.nameOf (d : Drawing) (path : List Str) : Str :=
  ((Keyed.get Draw.path path d.draws).map Draw.effectiveNodeName).getD head

/-- The graph is the part of the tree that reaches the threshold. -/
structure Faithful (tree : Node) (threshold : ℚ) (d : Drawing) : Prop where
  distinct : ∀ p ∈ reaching threshold tree.nodes, ∀ q ∈ reaching threshold tree.nodes,
    d.nameOf p = d.nameOf q → p = q
  names : ∀ name, name ∈ d.nodeNames ↔
    name = head ∨ ∃ p ∈ reaching threshold tree.nodes, d.nameOf p = name
  edges : ∀ e, e ∈ d.edges ↔ ∃ p step, p ∈ reaching threshold tree.nodes ∧
    p ++ [step] ∈ reaching threshold tree.nodes ∧ e = s(d.nameOf p, d.nameOf (p ++ [step]))
  loopless : ∀ e ∈ d.edges, ¬ e.IsDiag
  tree : d.graph.IsTree

section
variable (round : ℚ → ℚ) (words : List (List Str))

/-- The part of the words that start with a path, as it is computed. -/
def shareOf (path : List Str) : ℚ := partOf round (withPrefix words path) words.length

/-- A path that is drawn. -/
def Shown (threshold : ℚ) (path : List Str) : Prop :=
  0 < withPrefix words path ∧ threshold ≤ shareOf round words path

/-- The percentage in units of its second decimal. -/
def hundredths (percent : ℚ) : ℤ := Rounding.nearestEven (round (percent * 100) * 100)

/-- Drawn paths with the same last step differ in the second decimal of the percentage. -/
def Separable (threshold : ℚ) : Prop :=
  ∀ p q step, Shown round words threshold (p ++ [step]) →
    Shown round words threshold (q ++ [step]) →
      hundredths round (shareOf round words (p ++ [step])) =
        hundredths round (shareOf round words (q ++ [step])) → p = q

end

/-! ## Names of graph nodes -/

theorem two_digits : ∀ n < 100, ((Nat.toDigits 10 n).leftpad 2 '0').foldl
    (fun m c => 10 * m + (c.toNat - 48)) 0 = n ∧
    ((Nat.toDigits 10 n).leftpad 2 '0').all (fun c => c.isDigit) = true := by
  decide +kernel

theorem isDigit_two_digits {n : ℕ} {c : Char}
    (hc : c ∈ (Nat.toDigits 10 (n % 100)).leftpad 2 '0') : c.isDigit = true :=
  List.all_eq_true.mp (two_digits (n % 100) (Nat.mod_lt _ (by decide))).2 c hc

/-- A text without an opening bracket. -/
theorem bracket_not_mem_fixed (x : ℚ) : '(' ∉ fixed x := by
  intro hc
  rw [fixed, List.mem_append, List.mem_append, List.mem_cons] at hc
  rcases hc with (hc | hc) | hc | hc
  · split at hc <;> simp at hc
  · exact not_mem_decimal (by decide) (by decide) hc
  · cases hc
  · have := isDigit_two_digits hc
    revert this
    decide

/-- The two decimals give back the rounded number. -/
theorem fixed_inj {x y : ℚ} (hx : 0 ≤ x) (hy : 0 ≤ y) :
    fixed x = fixed y ↔ Rounding.nearestEven (x * 100) = Rounding.nearestEven (y * 100) := by
  have hfixed : ∀ z : ℚ, 0 ≤ z → fixed z =
      decimal ((Rounding.nearestEven (z * 100)).toNat / 100 : ℕ) ++
        '.' :: (Nat.toDigits 10 ((Rounding.nearestEven (z * 100)).toNat % 100)).leftpad 2 '0' := by
    intro z hz
    simp only [fixed, abs_of_nonneg hz, if_neg (not_lt.mpr hz), List.nil_append]
  rw [hfixed x hx, hfixed y hy]
  constructor
  · intro h
    have hdot : '.' ∉
        (Nat.toDigits 10 ((Rounding.nearestEven (x * 100)).toNat % 100)).leftpad 2 '0' := by
      intro hc
      have hdigit := isDigit_two_digits hc
      revert hdigit
      decide
    obtain ⟨hdecimal, -, hdigits⟩ := (List.append_cons_inj_of_notMem
      (not_mem_decimal (by decide) (by decide)) hdot).mp h
    have hdiv := Int.ofNat_inj.mp (decimal_injective hdecimal)
    have hmod := congrArg (List.foldl (fun m c => 10 * m + (c.toNat - 48)) 0) hdigits
    rw [(two_digits _ (Nat.mod_lt _ (by decide))).1,
      (two_digits _ (Nat.mod_lt _ (by decide))).1] at hmod
    have hxpos : 0 ≤ Rounding.nearestEven (x * 100) := Rounding.nearestEven_nonneg (by positivity)
    have hypos : 0 ≤ Rounding.nearestEven (y * 100) := Rounding.nearestEven_nonneg (by positivity)
    omega
  · intro h
    rw [h]

section
variable {round : ℚ → ℚ}

/-- The percentage of a name is what follows its last opening bracket. -/
theorem effectiveName_inj (hround : Rounder round) {name name' : Str} {percent percent' : ℚ}
    (h : 0 ≤ percent) (h' : 0 ≤ percent') :
    effectiveName round name percent = effectiveName round name' percent' ↔
      name = name' ∧ hundredths round percent = hundredths round percent' := by
  have hsplit : ∀ (before : Str) (share : ℚ), (effectiveName round before share).splitOn '(' =
      (before ++ [' ']).splitOn '(' ++ [fixed (round (share * 100)) ++ ['%', ')']] := by
    intro before share
    have hlast : '(' ∉ fixed (round (share * 100)) ++ ['%', ')'] := by
      simp [bracket_not_mem_fixed]
    rw [← splitOn_append_cons _ hlast]
    simp [effectiveName]
  rw [hundredths, hundredths,
    ← fixed_inj (hround.nonneg (by positivity)) (hround.nonneg (by positivity))]
  constructor
  · intro heq
    have hpieces := congrArg (List.splitOn '(') heq
    rw [hsplit, hsplit] at hpieces
    have hlast := (List.append_inj' hpieces rfl).2
    have hfixed : fixed (round (percent * 100)) = fixed (round (percent' * 100)) := by
      simpa using hlast
    refine ⟨?_, hfixed⟩
    rw [effectiveName, effectiveName, hfixed] at heq
    simpa using heq
  · rintro ⟨rfl, hfixed⟩
    rw [effectiveName, effectiveName, hfixed]

theorem effectiveName_ne_head (name : Str) (percent : ℚ) :
    effectiveName round name percent ≠ head := by
  intro h
  have hbracket : ')' ∈ effectiveName round name percent := by simp [effectiveName]
  rw [h] at hbracket
  revert hbracket
  decide

end

/-- The name of the graph node that a path gets. -/
def labelOf (round : ℚ → ℚ) (tree : Node) (path : List Str) : Str :=
  match path with
  | [] => head
  | step :: rest => ((nodeAt (step :: rest) tree).map (Node.effectiveName round)).getD head

theorem labelOf_of_nodeAt {round : ℚ → ℚ} {tree n : Node} {path : List Str} (hpath : path ≠ [])
    (hn : nodeAt path tree = some n) : labelOf round tree path = n.effectiveName round := by
  cases path with
  | nil => exact absurd rfl hpath
  | cons step rest => rw [labelOf, hn, Option.map_some, Option.getD_some]

theorem name_of_nodeAt {tree n : Node} {path : List Str} {step : Str}
    (hn : nodeAt (path ++ [step]) tree = some n) : n.name = step := by
  rw [nodeAt_append] at hn
  obtain ⟨parent, -, hstep⟩ := Option.bind_eq_some_iff.mp hn
  rw [nodeAt_cons] at hstep
  obtain ⟨child, hget, hchild⟩ := Option.bind_eq_some_iff.mp hstep
  obtain rfl : child = n := by simpa using hchild
  exact Keyed.key_of_get hget

/-! ## The drawing of a tree -/

/-- What is drawn of a tree: the nodes that reach the threshold, each with its label and
that of its parent. -/
structure Drawn (round : ℚ → ℚ) (tree : Node) (threshold : ℚ) (d : Drawing) : Prop where
  paths : ∀ path, (∃ draw ∈ d.draws, draw.path = path) ↔
    path ≠ [] ∧ path ∈ reaching threshold tree.nodes
  labels : ∀ draw ∈ d.draws, ∃ p step, draw.path = p ++ [step] ∧
    draw.parentNodeName = labelOf round tree p ∧
      draw.effectiveNodeName = labelOf round tree (p ++ [step])
  closed : ∀ p step, p ++ [step] ∈ reaching threshold tree.nodes →
    p ∈ reaching threshold tree.nodes

theorem mem_reaching {tree : Node} (h : Distinct tree) {threshold : ℚ} {path : List Str} :
    path ∈ reaching threshold tree.nodes ↔
      ∃ n, nodeAt path tree = some n ∧ threshold ≤ n.percentOf := by
  simp only [reaching, List.mem_map, List.mem_filter, decide_eq_true_eq]
  constructor
  · rintro ⟨⟨q, n⟩, ⟨hn, hle⟩, rfl⟩
    exact ⟨n, (mem_nodes_iff h).mp hn, hle⟩
  · rintro ⟨n, hn, hle⟩
    exact ⟨(path, n), ⟨(mem_nodes_iff h).mpr hn, hle⟩, rfl⟩

/-- A draw has the labels of its path. -/
theorem Places.labels {round : ℚ → ℚ} {tree child : Node} (h : Distinct tree)
    (hchild : child ∈ tree.children) {draw : Draw} (hplace : Places round head [] child draw) :
    ∃ p step, draw.path = p ++ [step] ∧ draw.parentNodeName = labelOf round tree p ∧
      draw.effectiveNodeName = labelOf round tree (p ++ [step]) := by
  obtain ⟨q, m, hm, hpath, hname, hparent⟩ := hplace.node
  have hnode := (mem_nodes_iff h).mp (mem_nodes_child hchild hm)
  have hlabel : draw.effectiveNodeName = labelOf round tree (child.name :: q) := by
    rw [hname, labelOf_of_nodeAt (by simp) hnode]
  rw [List.nil_append] at hpath
  rcases hparent with ⟨rfl, hparent⟩ | ⟨q', step, k, rfl, hk, hparent⟩
  · exact ⟨[], child.name, hpath, hparent, hlabel⟩
  · refine ⟨child.name :: q', step, hpath, ?_, hlabel⟩
    rw [hparent, labelOf_of_nodeAt (by simp) ((mem_nodes_iff h).mp (mem_nodes_child hchild hk))]

namespace Drawn
variable {round : ℚ → ℚ} {tree : Node} {threshold : ℚ} {d : Drawing}

/-- The root and the nodes that reach the threshold. -/
def shown (tree : Node) (threshold : ℚ) : Set (List Str) :=
  {p | p = [] ∨ p ∈ reaching threshold tree.nodes}

theorem nameOf_eq (h : Drawn round tree threshold d) {path : List Str}
    (hpath : path ∈ shown tree threshold) :
    d.nameOf path = labelOf round tree path := by
  rw [Drawing.nameOf]
  cases hget : Keyed.get Draw.path path d.draws with
  | some draw =>
      obtain ⟨p, step, heq, -, hlabel⟩ := h.labels draw (Keyed.mem_of_get hget)
      have hkey := Keyed.key_of_get hget
      rw [Option.map_some, Option.getD_some, hlabel, ← heq, hkey]
  | none =>
      rcases hpath with rfl | hpath
      · rfl
      · by_cases hnil : path = []
        · rw [hnil]
          rfl
        · obtain ⟨draw, hdraw, hkey⟩ := (h.paths path).mpr ⟨hnil, hpath⟩
          have hsome := Keyed.get_isSome_iff.mpr (List.mem_map.mpr ⟨draw, hdraw, hkey⟩)
          rw [hget] at hsome
          cases hsome

theorem nodeNames_eq (h : Drawn round tree threshold d) :
    d.nodeNames = labelOf round tree '' shown tree threshold := by
  ext name
  constructor
  · rintro (rfl | ⟨draw, hdraw, rfl⟩)
    · exact ⟨[], .inl rfl, rfl⟩
    · obtain ⟨p, step, heq, -, hlabel⟩ := h.labels draw hdraw
      have hpath := (h.paths _).mp ⟨draw, hdraw, heq⟩
      exact ⟨p ++ [step], .inr hpath.2, hlabel.symm⟩
  · rintro ⟨path, hpath, rfl⟩
    by_cases hnil : path = []
    · rw [hnil]
      exact .inl rfl
    · obtain ⟨draw, hdraw, hkey⟩ := (h.paths path).mpr ⟨hnil, hpath.resolve_left hnil⟩
      obtain ⟨p, step, heq, -, hlabel⟩ := h.labels draw hdraw
      exact .inr ⟨draw, hdraw, by rw [hlabel, ← heq, hkey]⟩

theorem edges_eq (h : Drawn round tree threshold d) :
    d.edges = stepEdges (shown tree threshold) (labelOf round tree) := by
  ext e
  constructor
  · rintro ⟨draw, hdraw, rfl⟩
    obtain ⟨p, step, heq, hparent, hlabel⟩ := h.labels draw hdraw
    have hpath := (h.paths _).mp ⟨draw, hdraw, heq⟩
    exact ⟨p, step, .inr hpath.2, by rw [hparent, hlabel]⟩
  · rintro ⟨p, step, hpath, rfl⟩
    have hreach := hpath.resolve_left (by simp)
    obtain ⟨draw, hdraw, hkey⟩ := (h.paths _).mpr ⟨by simp, hreach⟩
    obtain ⟨p', step', heq, hparent, hlabel⟩ := h.labels draw hdraw
    obtain ⟨rfl, hstep⟩ := List.append_inj' (heq.symm.trans hkey) rfl
    exact ⟨draw, hdraw, by rw [hparent, hlabel, hstep]⟩

/-- With distinct labels the graph is the tree. -/
theorem faithful (h : Drawn round tree threshold d)
    (hinj : Set.InjOn (labelOf round tree) (shown tree threshold)) : Faithful tree threshold d where
  distinct p hp q hq hname := by
    rw [h.nameOf_eq (.inr hp), h.nameOf_eq (.inr hq)] at hname
    exact hinj (.inr hp) (.inr hq) hname
  names name := by
    rw [h.nodeNames_eq]
    constructor
    · rintro ⟨path, rfl | hpath, rfl⟩
      · exact .inl rfl
      · exact .inr ⟨path, hpath, h.nameOf_eq (.inr hpath)⟩
    · rintro (rfl | ⟨path, hpath, rfl⟩)
      · exact ⟨[], .inl rfl, rfl⟩
      · exact ⟨path, .inr hpath, (h.nameOf_eq (.inr hpath)).symm⟩
  edges e := by
    rw [h.edges_eq]
    constructor
    · rintro ⟨p, step, hpath, rfl⟩
      have hreach := hpath.resolve_left (by simp)
      have hparent := h.closed p step hreach
      exact ⟨p, step, hparent, hreach, by rw [h.nameOf_eq (.inr hparent), h.nameOf_eq hpath]⟩
    · rintro ⟨p, step, hparent, hreach, rfl⟩
      exact ⟨p, step, .inr hreach, by rw [h.nameOf_eq (.inr hparent), h.nameOf_eq (.inr hreach)]⟩
  loopless e he := by
    rw [h.edges_eq] at he
    obtain ⟨p, step, hpath, rfl⟩ := he
    have hparent := h.closed p step (hpath.resolve_left (by simp))
    intro hdiag
    have hsame := hinj (.inr hparent) hpath (Sym2.mk_isDiag_iff.mp hdiag)
    simp at hsame
  tree := by
    have hclosed : ∀ p step, p ++ [step] ∈ shown tree threshold → p ∈ shown tree threshold :=
      fun p step hpath => .inr (h.closed p step (hpath.resolve_left (by simp)))
    rw [Drawing.graph, h.edges_eq, h.nodeNames_eq]
    exact isTree_of_labels (.inl rfl) hclosed hinj

end Drawn

/-! ## The drawing of a run -/

namespace Counted
variable {words : List (List Str)} {s : Node × Counts} {threshold : ℚ} {path : List Str}
  {round : ℚ → ℚ}

theorem distinct_percent (h : Counted words s) : Distinct (s.1.withPercent round words.length) :=
  distinct_withPercent h.distinct

/-- A node that is drawn has the share of its path. -/
theorem mem_reaching_iff (h : Counted words s) :
    path ∈ reaching threshold (s.1.withPercent round words.length).nodes ↔
      ∃ n, nodeAt path (s.1.withPercent round words.length) = some n ∧
        n.percentOf = shareOf round words path ∧ threshold ≤ shareOf round words path := by
  rw [mem_reaching h.distinct_percent]
  refine exists_congr fun n => and_congr_right fun hn => ?_
  rw [nodeAt_withPercent] at hn
  obtain ⟨m, hm, rfl⟩ := Option.map_eq_some_iff.mp hn
  rw [percentOf_withPercent, h.countOf_eq hm, shareOf]
  exact (and_iff_right rfl).symm

theorem mem_reaching_concat (h : Counted words s) (p : List Str) (step : Str) :
    p ++ [step] ∈ reaching threshold (s.1.withPercent round words.length).nodes ↔
      Shown round words threshold (p ++ [step]) := by
  rw [h.mem_reaching_iff, Shown]
  constructor
  · rintro ⟨n, hn, -, hle⟩
    rw [nodeAt_withPercent] at hn
    obtain ⟨m, hm, -⟩ := Option.map_eq_some_iff.mp hn
    exact ⟨Nat.pos_of_ne_zero (h.pos_of_nodeAt hm (by simp)), hle⟩
  · rintro ⟨hpos, hle⟩
    obtain ⟨m, hm⟩ := h.exists_nodeAt hpos
    refine ⟨m.withPercent round words.length, by rw [nodeAt_withPercent, hm]; rfl, ?_, hle⟩
    rw [percentOf_withPercent, h.countOf_eq hm, shareOf]

theorem labelOf_concat (h : Counted words s) {p : List Str} {step : Str}
    (hshown : Shown round words threshold (p ++ [step])) :
    labelOf round (s.1.withPercent round words.length) (p ++ [step]) =
      effectiveName round step (shareOf round words (p ++ [step])) := by
  obtain ⟨n, hn, hshare, -⟩ := h.mem_reaching_iff.mp ((h.mem_reaching_concat p step).mpr hshown)
  rw [labelOf_of_nodeAt (by simp) hn, Node.effectiveName, hshare, name_of_nodeAt hn]

theorem drawn (h : Counted words s) (hwords : words ≠ []) (hround : Rounder round) {d : Drawing}
    (hdump : dumpTree round (s.1.withPercent round words.length) s.2 threshold = .ok d) :
    Drawn round (s.1.withPercent round words.length) threshold d := by
  obtain ⟨d', hdump', hpaths, -, hplaces⟩ := h.exists_drawing hwords hround threshold
  obtain rfl := Except.ok.inj (hdump.symm.trans hdump')
  refine ⟨?_, ?_, ?_⟩
  · intro path
    have hmem : (∃ draw ∈ d.draws, draw.path = path) ↔ path ∈ d.draws.map Draw.path := by
      rw [List.mem_map]
    rw [hmem, hpaths, nodes_eq, ← childNodes_eq]
    simp only [reaching, List.mem_map, List.mem_filter, List.mem_cons, decide_eq_true_eq]
    constructor
    · rintro ⟨⟨q, n⟩, ⟨hn, hle⟩, rfl⟩
      refine ⟨?_, (q, n), ⟨.inr hn, hle⟩, rfl⟩
      rintro rfl
      rw [childNodes_eq] at hn
      simp at hn
    · rintro ⟨hnil, ⟨q, n⟩, ⟨heq | hn, hle⟩, rfl⟩
      · exact absurd (Prod.mk.inj heq).1 hnil
      · exact ⟨(q, n), ⟨hn, hle⟩, rfl⟩
  · intro draw hdraw
    obtain ⟨child, hchild, hplace⟩ := hplaces draw hdraw
    exact hplace.labels h.distinct_percent hchild
  · intro p step hreach
    obtain ⟨n, hn, hle⟩ := (mem_reaching h.distinct_percent).mp hreach
    rw [nodeAt_append] at hn
    obtain ⟨parent, hparent, hstep⟩ := Option.bind_eq_some_iff.mp hn
    have hdistinct : Distinct (s.1.withPercent round words.length) := h.distinct_percent
    rw [mem_reaching hdistinct]
    have hbelow : Distinct parent := by
      intro path m hm
      refine hdistinct (p ++ path) m ?_
      rw [nodeAt_append, hparent, Option.bind_some, hm]
    refine ⟨parent, hparent, hle.trans ?_⟩
    refine percentOf_le (fun path m hm => ?_) ((mem_nodes_iff hbelow).mpr hstep)
    have hnode : nodeAt (p ++ path) (s.1.withPercent round words.length) = some m := by
      rw [nodeAt_append, hparent, Option.bind_some, (mem_nodes_iff hbelow).mp hm]
    exact (h.drawable hwords hround ((mem_nodes_iff h.distinct_percent).mpr hnode)).graded

theorem shareOf_nonneg (hround : Rounder round) (path : List Str) :
    0 ≤ shareOf round words path := by
  have hzero : partOf round 0 words.length = 0 := by
    rw [partOf, Nat.cast_zero, hround.zero, zero_div, hround.zero]
  rw [← hzero]
  exact hround.partOf_mono (Nat.zero_le _)

/-- The labels are distinct exactly if the percentages tell the nodes of a name apart. -/
theorem injOn_labelOf_iff (h : Counted words s) (hround : Rounder round) :
    Set.InjOn (labelOf round (s.1.withPercent round words.length))
      (Drawn.shown (s.1.withPercent round words.length) threshold) ↔
        Separable round words threshold := by
  have hshown : ∀ p step, p ++ [step] ∈ Drawn.shown (s.1.withPercent round words.length) threshold ↔
      Shown round words threshold (p ++ [step]) := by
    intro p step
    rw [← h.mem_reaching_concat p step]
    exact or_iff_right (by simp)
  have hlabel : ∀ p step, Shown round words threshold (p ++ [step]) →
      labelOf round (s.1.withPercent round words.length) (p ++ [step]) ≠ head := by
    intro p step hp
    rw [h.labelOf_concat hp]
    exact effectiveName_ne_head step _
  constructor
  · intro hinj p q step hp hq hsecond
    have hsame : labelOf round (s.1.withPercent round words.length) (p ++ [step]) =
        labelOf round (s.1.withPercent round words.length) (q ++ [step]) := by
      rw [h.labelOf_concat hp, h.labelOf_concat hq,
        effectiveName_inj hround (shareOf_nonneg hround _) (shareOf_nonneg hround _)]
      exact ⟨rfl, hsecond⟩
    have hpath := hinj ((hshown p step).mpr hp) ((hshown q step).mpr hq) hsame
    exact (List.append_inj' hpath rfl).1
  · intro hsep p hp q hq hsame
    rcases List.eq_nil_or_concat' p with rfl | ⟨p, step, rfl⟩
    · rcases List.eq_nil_or_concat' q with rfl | ⟨q, step', rfl⟩
      · rfl
      · exact absurd hsame.symm (hlabel q step' ((hshown q step').mp hq))
    · rw [hshown] at hp
      rcases List.eq_nil_or_concat' q with rfl | ⟨q, step', rfl⟩
      · exact absurd hsame (hlabel p step hp)
      · rw [hshown] at hq
        rw [h.labelOf_concat hp, h.labelOf_concat hq,
          effectiveName_inj hround (shareOf_nonneg hround _) (shareOf_nonneg hround _)] at hsame
        obtain ⟨rfl, hsecond⟩ := hsame
        rw [hsep p q step hp hq hsecond]

/-- In a faithful graph the labels are distinct. -/
theorem separable_of_faithful (h : Counted words s) (hround : Rounder round) {d : Drawing}
    (hdrawn : Drawn round (s.1.withPercent round words.length) threshold d)
    (hfaithful : Faithful (s.1.withPercent round words.length) threshold d) :
    Separable round words threshold := by
  intro p q step hp hq hsecond
  have hreach := (h.mem_reaching_concat p step).mpr hp
  have hreach' := (h.mem_reaching_concat q step).mpr hq
  have hpath := hfaithful.distinct _ hreach _ hreach' (by
    rw [hdrawn.nameOf_eq (.inr hreach), hdrawn.nameOf_eq (.inr hreach'), h.labelOf_concat hp,
      h.labelOf_concat hq,
      effectiveName_inj hround (shareOf_nonneg hround _) (shareOf_nonneg hround _)]
    exact ⟨rfl, hsecond⟩)
  exact (List.append_inj' hpath rfl).1

end Counted

/-- With an accepted trace a graph is drawn. It is the part of the call tree that reaches the
threshold exactly if drawn nodes of one name differ in the second decimal of their
percentages. -/
theorem drawing_faithful_iff (calls : List Call) (threshold : ℚ) :
    (accepted calls ≠ [] → ∃ tree d, addPercentages double (run calls).1 = .ok tree ∧
      dumpTree double tree (run calls).2 threshold = .ok d) ∧
    ((∀ tree d, addPercentages double (run calls).1 = .ok tree →
      dumpTree double tree (run calls).2 threshold = .ok d → Faithful tree threshold d) ↔
        Separable double (accepted calls) threshold) := by
  have h := counted_run calls
  refine ⟨?_, ?_⟩
  · intro hcalls
    obtain ⟨d, hdump, -⟩ := h.exists_drawing hcalls rounder_double threshold
    exact ⟨_, d, h.addPercentages_eq hcalls, hdump⟩
  · by_cases hcalls : accepted calls = []
    · rw [hcalls]
      have hcount : (run calls).1.count = none := by
        rw [h.count_eq (nodeAt_nil _), hcalls]
        rfl
      refine iff_of_true ?_ ?_
      · intro tree d htree
        rw [addPercentages, hcount] at htree
        cases htree
      · intro p q step hp
        exact absurd hp.1 (by simp)
    · have htree : addPercentages double (run calls).1 = _ := h.addPercentages_eq hcalls
      obtain ⟨d, hdump, -⟩ := h.exists_drawing hcalls rounder_double threshold
      have hdrawn := h.drawn hcalls rounder_double hdump
      constructor
      · intro hall
        exact h.separable_of_faithful rounder_double hdrawn (hall _ d htree hdump)
      · intro hsep tree d' htree' hdump'
        obtain rfl := Except.ok.inj (htree.symm.trans htree')
        exact (h.drawn hcalls rounder_double hdump').faithful
          ((h.injOn_labelOf_iff rounder_double).mpr hsep)

-- 100 * (203 / 20000) is a double below 1.015, so 203 of 20000 print as 202 do
example :
    hundredths double (partOf double 202 20000) = hundredths double (partOf double 203 20000) ∧
      hundredths double (partOf double 203 20000) ≠
        hundredths double (partOf double 204 20000) := by
  decide +kernel

/-- The two nodes of a function that calls itself are one graph node with an edge to itself. The
threshold is the default one. -/
theorem recursive_not_faithful : ¬ ∀ tree d, addPercentages double (run [recursive]).1 = .ok tree →
    dumpTree double tree (run [recursive]).2 (double (1 / 100)) = .ok d →
      Faithful tree (double (1 / 100)) d := by
  intro hall
  have h := counted_run [recursive]
  have hcalls : accepted [recursive] ≠ [] := by decide
  obtain ⟨d, hdump, -⟩ := h.exists_drawing hcalls rounder_double (double (1 / 100))
  have hsep := h.separable_of_faithful rounder_double (h.drawn hcalls rounder_double hdump)
    (hall _ d (h.addPercentages_eq hcalls) hdump)
  have hfirst : withPrefix (accepted [recursive]) ["Main:f"] = 1 := by decide
  have hsecond : withPrefix (accepted [recursive]) ["Main:f", "Main:f"] = 1 := by decide
  have hone : shareOf double (accepted [recursive]) ["Main:f"] = 1 := by
    rw [shareOf, hfirst]
    exact rounder_double.partOf_self one_pos
  have htwo : shareOf double (accepted [recursive]) ["Main:f", "Main:f"] = 1 := by
    rw [shareOf, hsecond]
    exact rounder_double.partOf_self one_pos
  have hle : double (1 / 100) ≤ 1 := by
    have hmono := rounder_double.mono (1 / 100) 1 (by norm_num) (by norm_num)
    rwa [rounder_double.one] at hmono
  have hsame := hsep [] ["Main:f"] "Main:f" ⟨by decide, by rwa [List.nil_append, hone]⟩
    ⟨by decide, by rwa [List.singleton_append, htwo]⟩
    (by rw [List.nil_append, List.singleton_append, hone, htwo])
  simp at hsame

end Structor.Profile
