import Mathlib.Algebra.Order.BigOperators.Group.List
import Mathlib.Data.List.Basic
import Mathlib.Data.Rat.Floor
import Structor.Profile.Percentages

/-!
# Drawing the call tree

`dumpTree` draws the nodes whose percentage reaches a threshold, in depth-first order. A
subtree is passed over as soon as its root is below the threshold.

## Main definitions

* `getLevel`, `setColor` -- the colour of a node
* `effectiveName` -- the name of a node in the graph
* `buildGraph`, `dumpTree` -- the nodes and edges that are added to the graph
-/
namespace Structor.Profile

open Python

/-! ## Colours -/

/-- The built-in `hex`. -/
def hex (n : ℤ) : Str :=
  (if n < 0 then ['-', '0', 'x'] else ['0', 'x']) ++ Nat.toDigits 16 n.natAbs

/-- The built-in `int`, which rounds towards zero. -/
def truncate (x : ℚ) : ℤ := x.num.tdiv x.den

def getLevel (round : ℚ → ℚ) (percent : ℚ) : Str :=
  let level := (hex (255 - truncate (round (255 * percent)))).drop 2
  if level.length = 1 then '0' :: level else level

def setColor (round : ℚ → ℚ) (percent offsetPercent : ℚ) : Str :=
  let offsetPercent := if offsetPercent > 1 then 1 else offsetPercent
  let green := getLevel round percent
  let blue := if offsetPercent > 0 then getLevel round offsetPercent else green
  '#' :: 'f' :: 'f' :: green ++ blue

/-! ## Names -/

/-- The format `%0.2f`. The digits are those of the number itself, however long it is. -/
def fixed (x : ℚ) : Str :=
  let n := (Rounding.nearestEven (|x| * 100)).toNat
  (if x < 0 then ['-'] else []) ++ decimal (n / 100 : ℕ) ++
    '.' :: (Nat.toDigits 10 (n % 100)).leftpad 2 '0'

/-- The name of a graph node, `"%s (%s)"`. -/
def effectiveName (round : ℚ → ℚ) (name : Str) (percent : ℚ) : Str :=
  name ++ ' ' :: '(' :: fixed (round (percent * 100)) ++ ['%', ')']

/-! ## The graph -/

/-- `get_attribute`, and the look-up in a dictionary. -/
def getAttribute {α : Type} : Option α → Except Error α
  | some value => .ok value
  | none => .error .keyError

/-- The division `a * 1.0 / b`. -/
def ratio (round : ℚ → ℚ) (a b : ℕ) : Except Error ℚ :=
  if b = 0 then .error .zeroDivisionError else .ok (partOf round a b)

/-- What is added to the graph for one tree node: a graph node and the edge to it. The path
tells the tree nodes apart. -/
structure Draw where
  path : List Str
  parentNodeName : Str
  effectiveNodeName : Str
  fillcolor : Str

section
variable (round : ℚ → ℚ)

/-- The offset of a name that is counted elsewhere too. -/
def offsetOf (childNodeCount globalCount totalCount : ℕ) : Except Error ℚ := do
  let part ← ratio round childNodeCount globalCount
  if part < 3 / 4 then ratio round globalCount totalCount else return 0

mutual
/-- The node and those below it. `path` is the path of the parent. -/
def buildGraph (totalCount : ℕ) (globalCounts : Counts) (threshold : ℚ) (parent : Str)
    (path : List Str) : Node → Except Error (List Draw)
  | ⟨name, count, percent, children⟩ => do
      let myPercent ← getAttribute percent
      if myPercent < threshold then return []
      else
        let childNodeCount ← getAttribute count
        let effectiveNodeName := effectiveName round name myPercent
        let globalCount ← getAttribute (globalCounts name)
        let offsetPercent ← offsetOf round childNodeCount globalCount totalCount
        let below ← buildGraphs totalCount globalCounts threshold effectiveNodeName
          (path ++ [name]) children
        return ⟨path ++ [name], parent, effectiveNodeName,
          setColor round myPercent offsetPercent⟩ :: below
def buildGraphs (totalCount : ℕ) (globalCounts : Counts) (threshold : ℚ) (parent : Str)
    (path : List Str) : List Node → Except Error (List Draw)
  | [] => .ok []
  | child :: rest => do
      let first ← buildGraph totalCount globalCounts threshold parent path child
      let later ← buildGraphs totalCount globalCounts threshold parent path rest
      return first ++ later
end

/-- The colour of the node `HEAD`, and what is drawn after it. -/
structure Drawing where
  fillcolor : Str
  draws : List Draw

def head : Str := "HEAD"

def dumpTree (tree : Node) (globalCounts : Counts) (threshold : ℚ) : Except Error Drawing := do
  let myPercent ← getAttribute tree.percent
  let totalCount ← getAttribute tree.count
  let draws ← buildGraphs round totalCount globalCounts threshold head [] tree.children
  return ⟨setColor round myPercent 0, draws⟩

end

/-- The tree nodes that are drawn, `HEAD` for the root. -/
def Drawing.paths (d : Drawing) : List (List Str) := [] :: d.draws.map Draw.path

/-- The colours that are used. -/
def Drawing.colors (d : Drawing) : List Str := d.fillcolor :: d.draws.map Draw.fillcolor

/-! ## Colours are well formed -/

/-- A colour of four hexadecimal digits after `#ff`. -/
def IsColor (color : Str) : Prop :=
  ∃ digits, color = '#' :: 'f' :: 'f' :: digits ∧ digits.length = 4 ∧
    ∀ c ∈ digits, c ∈ "0123456789abcdef".toList

theorem truncate_bounds {x : ℚ} (h0 : 0 ≤ x) (h255 : x ≤ 255) :
    0 ≤ truncate x ∧ truncate x ≤ 255 := by
  have hden : (0 : ℤ) < x.den := by exact_mod_cast x.den_pos
  have hnum : 0 ≤ x.num := Rat.num_nonneg.mpr h0
  refine ⟨Int.tdiv_nonneg hnum hden.le, ?_⟩
  rw [truncate, Int.tdiv_eq_ediv_of_nonneg hnum]
  have hle : x.num ≤ 255 * x.den := by
    have hx : (x.num : ℚ) / x.den ≤ 255 := by rwa [Rat.num_div_den]
    rw [div_le_iff₀ (by exact_mod_cast x.den_pos)] at hx
    exact_mod_cast hx
  exact Int.ediv_le_of_le_mul hden hle

theorem level_digits : ∀ n < 256,
    ((Nat.toDigits 16 n).length = 1 ∨ (Nat.toDigits 16 n).length = 2) ∧
    ((Nat.toDigits 16 n).all fun c => "0123456789abcdef".toList.contains c) = true := by
  decide +kernel

section
variable {round : ℚ → ℚ}

/-- A level is two digits for every percentage from 0 to 1. -/
theorem getLevel_digits (hround : Rounder round) {percent : ℚ} (h0 : 0 ≤ percent)
    (h1 : percent ≤ 1) : (getLevel round percent).length = 2 ∧
      ∀ c ∈ getLevel round percent, c ∈ "0123456789abcdef".toList := by
  have hhighest : round 255 = 255 := by
    exact_mod_cast hround.natCast 255 (by decide)
  have hle : round (255 * percent) ≤ round 255 := hround.mono _ _ (by linarith) (by linarith)
  rw [hhighest] at hle
  obtain ⟨hlow, hhigh⟩ := truncate_bounds (hround.nonneg (by linarith)) hle
  obtain ⟨n, hn⟩ := Int.eq_ofNat_of_zero_le (by omega : 0 ≤ 255 - truncate (round (255 * percent)))
  have hlevel : (hex (255 - truncate (round (255 * percent)))).drop 2 = Nat.toDigits 16 n := by
    rw [hn, hex, if_neg (by omega)]
    rfl
  obtain ⟨hlength, hdigits⟩ := level_digits n (by omega)
  have hmem : ∀ c ∈ Nat.toDigits 16 n, c ∈ "0123456789abcdef".toList := by
    intro c hc
    exact List.contains_iff_mem.mp (List.all_eq_true.mp hdigits c hc)
  simp only [getLevel, hlevel]
  rcases hlength with hone | htwo
  · rw [if_pos hone]
    refine ⟨by rw [List.length_cons, hone], ?_⟩
    intro c hc
    rcases List.mem_cons.mp hc with rfl | hc
    · decide
    · exact hmem c hc
  · rw [if_neg (by omega)]
    exact ⟨htwo, hmem⟩

theorem isColor_setColor (hround : Rounder round) {percent offsetPercent : ℚ} (h0 : 0 ≤ percent)
    (h1 : percent ≤ 1) : IsColor (setColor round percent offsetPercent) := by
  obtain ⟨hgreen, hgreens⟩ := getLevel_digits hround h0 h1
  have hblue : ∀ blue : Str, blue.length = 2 → (∀ c ∈ blue, c ∈ "0123456789abcdef".toList) →
      IsColor ('#' :: 'f' :: 'f' :: getLevel round percent ++ blue) := by
    intro blue hlength hblues
    refine ⟨getLevel round percent ++ blue, rfl, by rw [List.length_append, hgreen, hlength], ?_⟩
    intro c hc
    exact (List.mem_append.mp hc).elim (hgreens c) (hblues c)
  simp only [setColor]
  by_cases hone : offsetPercent > 1
  · obtain ⟨hlength, hblues⟩ := getLevel_digits hround (zero_le_one' ℚ) le_rfl
    rw [if_pos hone, if_pos (by norm_num)]
    exact hblue _ hlength hblues
  · rw [if_neg hone]
    by_cases hpos : offsetPercent > 0
    · obtain ⟨hlength, hblues⟩ := getLevel_digits hround hpos.le (not_lt.mp hone)
      rw [if_pos hpos]
      exact hblue _ hlength hblues
    · rw [if_neg hpos]
      exact hblue _ hgreen hgreens

end

/-! ## What is drawn -/

/-- What the drawing needs to know of a node: its numbers are there, and its name is counted. -/
structure Drawable (globalCounts : Counts) (n : Node) : Prop where
  graded : Graded n
  count : n.count = some n.countOf
  pos : 0 < n.countOf
  counted : ∃ globalCount, globalCounts n.name = some globalCount ∧ n.countOf ≤ globalCount

/-- The name of a node in the graph. -/
def Node.effectiveName (round : ℚ → ℚ) (n : Node) : Str :=
  Profile.effectiveName round n.name n.percentOf

/-- A draw is that of a node in the tree `n`, whose root has this parent. -/
structure Places (round : ℚ → ℚ) (parent : Str) (path : List Str) (n : Node) (d : Draw) :
    Prop where
  node : ∃ q m, (q, m) ∈ n.nodes ∧ d.path = path ++ n.name :: q ∧
    d.effectiveNodeName = m.effectiveName round ∧
    (q = [] ∧ d.parentNodeName = parent ∨ ∃ q' step k, q = q' ++ [step] ∧ (q', k) ∈ n.nodes ∧
      d.parentNodeName = k.effectiveName round)
  color : IsColor d.fillcolor

theorem mem_nodes_self (n : Node) : ([], n) ∈ n.nodes := by
  rw [nodes_eq]
  exact List.mem_cons_self

theorem mem_nodes_child {n child m : Node} {path : List Str} (hchild : child ∈ n.children)
    (hm : (path, m) ∈ child.nodes) : (child.name :: path, m) ∈ n.nodes := by
  rw [nodes_eq]
  refine List.mem_cons_of_mem _ (List.mem_flatMap.mpr ⟨child, hchild, ?_⟩)
  exact List.mem_map.mpr ⟨(path, m), hm, rfl⟩

/-- No node has a larger percentage than a node above it. -/
theorem percentOf_le {n m : Node} {path : List Str}
    (h : ∀ path m, (path, m) ∈ n.nodes → Graded m) (hm : (path, m) ∈ n.nodes) :
    m.percentOf ≤ n.percentOf := by
  induction path generalizing n with
  | nil =>
      rw [nodes_eq] at hm
      simp only [List.mem_cons, Prod.mk.injEq, true_and, List.mem_flatMap, List.mem_map,
        reduceCtorEq, false_and, and_false, exists_false, or_false] at hm
      rw [hm]
  | cons step path ih =>
      rw [nodes_eq] at hm
      simp only [List.mem_cons, Prod.mk.injEq, reduceCtorEq, false_and, false_or, List.mem_flatMap,
        List.mem_map, List.cons.injEq, Prod.exists] at hm
      obtain ⟨child, hchild, q, k, hk, ⟨rfl, rfl⟩, rfl⟩ := hm
      have hbelow : k.percentOf ≤ child.percentOf :=
        ih (fun path m hm => h _ m (mem_nodes_child hchild hm)) hk
      exact hbelow.trans ((h [] n (mem_nodes_self n)).child_le child hchild)

section
variable {round : ℚ → ℚ} {totalCount : ℕ} {globalCounts : Counts} {threshold : ℚ}

/-- The nodes of a tree that reach the threshold. -/
def reaching (threshold : ℚ) (nodes : List (List Str × Node)) : List (List Str) :=
  (nodes.filter fun e => threshold ≤ e.2.percentOf).map Prod.fst

theorem exists_offsetOf {globalCount : ℕ} (hglobal : globalCount ≠ 0) (htotal : totalCount ≠ 0)
    (childNodeCount : ℕ) :
    ∃ offsetPercent, offsetOf round childNodeCount globalCount totalCount = .ok offsetPercent := by
  have hpart : ratio round childNodeCount globalCount =
      .ok (partOf round childNodeCount globalCount) :=
    if_neg hglobal
  have hratio : ratio round globalCount totalCount = .ok (partOf round globalCount totalCount) :=
    if_neg htotal
  simp only [offsetOf, hpart, hratio, bind, Except.bind]
  split
  · exact ⟨_, rfl⟩
  · exact ⟨_, rfl⟩

theorem buildGraph_of_lt {n : Node} (h : Drawable globalCounts n) (parent : Str)
    (path : List Str) (hlt : n.percentOf < threshold) :
    buildGraph round totalCount globalCounts threshold parent path n = .ok [] := by
  obtain ⟨name, count, percent, children⟩ := n
  cases percent with
  | none => cases h.graded.percent
  | some percent =>
      have hpercent : percent < threshold := hlt
      simp only [buildGraph, getAttribute, bind, Except.bind]
      rw [if_pos hpercent]
      rfl

/-- The look-ups for a node succeed. -/
theorem buildGraph_of_le {n : Node} (h : Drawable globalCounts n) (hpos : totalCount ≠ 0)
    (parent : Str) (path : List Str) (hle : threshold ≤ n.percentOf) : ∃ offsetPercent,
    buildGraph round totalCount globalCounts threshold parent path n = do
      let below ← buildGraphs round totalCount globalCounts threshold (n.effectiveName round)
        (path ++ [n.name]) n.children
      return ⟨path ++ [n.name], parent, (n.effectiveName round),
        setColor round n.percentOf offsetPercent⟩ :: below := by
  obtain ⟨name, count, percent, children⟩ := n
  obtain ⟨globalCount, hglobal, hcount⟩ := h.counted
  cases count with
  | none => cases h.count
  | some count =>
      cases percent with
      | none => cases h.graded.percent
      | some percent =>
          have hcountpos : 0 < count := h.pos
          have hcountle : count ≤ globalCount := hcount
          have hlookup : globalCounts name = some globalCount := hglobal
          obtain ⟨offsetPercent, hoffset⟩ :
              ∃ p, offsetOf round count globalCount totalCount = .ok p :=
            exists_offsetOf (by omega) hpos count
          have hpercent : ¬ percent < threshold := not_lt.mpr hle
          refine ⟨offsetPercent, ?_⟩
          simp only [buildGraph, getAttribute, bind, Except.bind]
          rw [if_neg hpercent]
          simp only [hlookup, hoffset]
          rfl

/-- What is drawn for a child is drawn for its parent. -/
theorem Places.child {parent : Str} {path : List Str} {n child : Node} {d : Draw}
    (h : Places round (n.effectiveName round) (path ++ [n.name]) child d)
    (hchild : child ∈ n.children) :
    Places round parent path n d := by
  obtain ⟨⟨q, m, hm, hpath, hname, hparent⟩, hcolor⟩ := h
  refine ⟨⟨child.name :: q, m, mem_nodes_child hchild hm, ?_, hname, .inr ?_⟩, hcolor⟩
  · rw [hpath, List.append_assoc, List.singleton_append]
  · rcases hparent with ⟨rfl, hparent⟩ | ⟨q', step, k, rfl, hk, hparent⟩
    · exact ⟨[], child.name, n, rfl, mem_nodes_self n, hparent⟩
    · exact ⟨child.name :: q', step, k, rfl, mem_nodes_child hchild hk, hparent⟩

mutual
/-- A subtree is drawn without the nodes below the threshold. -/
theorem buildGraph_eq (hround : Rounder round) (hpos : totalCount ≠ 0) (parent : Str)
    (path : List Str) (n : Node)
    (h : ∀ path m, (path, m) ∈ n.nodes → Drawable globalCounts m) :
    ∃ draws, buildGraph round totalCount globalCounts threshold parent path n = .ok draws ∧
      draws.map Draw.path =
        (reaching threshold n.nodes).map (fun q => path ++ n.name :: q) ∧
      ∀ d ∈ draws, Places round parent path n d := by
  match n, h with
  | ⟨name, count, percent, children⟩, h =>
      have hroot := h [] _ (mem_nodes_self _)
      by_cases hlt : Node.percentOf ⟨name, count, percent, children⟩ < threshold
      · refine ⟨[], buildGraph_of_lt hroot parent path hlt, ?_, by simp⟩
        have hnone : reaching threshold (Node.nodes ⟨name, count, percent, children⟩) = [] := by
          rw [reaching, List.map_eq_nil_iff, List.filter_eq_nil_iff]
          rintro ⟨q, m⟩ hm
          have hle := percentOf_le (fun path m hm => (h path m hm).graded) hm
          simpa using hle.trans_lt hlt
        rw [hnone]
        rfl
      · obtain ⟨offsetPercent, hbuild⟩ :=
          @buildGraph_of_le round _ _ _ _ hroot hpos parent path (not_lt.mp hlt)
        obtain ⟨below, hbelow, hpaths, hplaces⟩ := buildGraphs_eq hround hpos
          (Node.effectiveName round ⟨name, count, percent, children⟩) (path ++ [name]) children
          fun path m hm => h path m (by simp [Node.nodes, hm])
        simp only [hbelow] at hbuild
        refine ⟨_, hbuild, ?_, ?_⟩
        · simp only [List.map_cons, hpaths, Node.nodes, reaching, List.filter_cons,
            decide_eq_true (not_lt.mp hlt), if_true, List.map_map]
          simp [Function.comp_def]
        · intro d hd
          rcases List.mem_cons.mp hd with rfl | hd
          · refine ⟨⟨[], _, mem_nodes_self _, rfl, rfl, .inl ⟨rfl, rfl⟩⟩, ?_⟩
            exact isColor_setColor hround hroot.graded.pos.le hroot.graded.le_one
          · obtain ⟨child, hchild, hplace⟩ := hplaces d hd
            exact hplace.child hchild
theorem buildGraphs_eq (hround : Rounder round) (hpos : totalCount ≠ 0) (parent : Str)
    (path : List Str) (children : List Node)
    (h : ∀ path m, (path, m) ∈ childNodes children → Drawable globalCounts m) :
    ∃ draws, buildGraphs round totalCount globalCounts threshold parent path children = .ok draws ∧
      draws.map Draw.path = (reaching threshold (childNodes children)).map (path ++ ·) ∧
      ∀ d ∈ draws, ∃ child ∈ children, Places round parent path child d := by
  match children, h with
  | [], _ => exact ⟨[], rfl, rfl, by simp⟩
  | child :: rest, h =>
      obtain ⟨first, hfirst, hpaths, hplaces⟩ := buildGraph_eq hround hpos parent path child
        fun path m hm => h (child.name :: path) m (by simp [childNodes, hm])
      obtain ⟨later, hlater, hpaths', hplaces'⟩ := buildGraphs_eq hround hpos parent path rest
        fun path m hm => h path m (by simp [childNodes, hm])
      refine ⟨first ++ later, ?_, ?_, ?_⟩
      · simp only [buildGraphs, hfirst, hlater, bind, Except.bind, pure, Except.pure]
      · rw [List.map_append, hpaths, hpaths', childNodes, reaching, reaching, reaching,
          List.filter_append, List.map_append, List.map_append, List.filter_map]
        simp [Function.comp_def]
      · intro d hd
        rcases List.mem_append.mp hd with hd | hd
        · exact ⟨child, List.mem_cons_self, hplaces d hd⟩
        · obtain ⟨c, hc, hplace⟩ := hplaces' d hd
          exact ⟨c, List.mem_cons_of_mem _ hc, hplace⟩
end

end

/-! ## The drawing of a run -/

/-- A name is counted at least as often as each node that has it. -/
theorem countOf_le_total {tree n : Node} {path : List Str} (hn : (path, n) ∈ tree.nodes) :
    n.countOf ≤ total n.name tree := by
  refine List.single_le_sum (fun _ _ => Nat.zero_le _) _ (List.mem_map.mpr ⟨(path, n), ?_, rfl⟩)
  simpa using hn

namespace Counted
variable {words : List (List Str)} {s : Node × Counts} {path : List Str} {n : Node}
  {round : ℚ → ℚ}

theorem nodes_withPercent (h : Counted words s)
    (hn : (path, n) ∈ (s.1.withPercent round words.length).nodes) :
    ∃ m, nodeAt path s.1 = some m ∧ n = m.withPercent round words.length := by
  rw [mem_nodes_iff (distinct_withPercent h.distinct), nodeAt_withPercent] at hn
  obtain ⟨m, hm, rfl⟩ := Option.map_eq_some_iff.mp hn
  exact ⟨m, hm, rfl⟩

theorem drawable (h : Counted words s) (hwords : words ≠ []) (hround : Rounder round)
    (hn : (path, n) ∈ (s.1.withPercent round words.length).nodes) : Drawable s.2 n := by
  obtain ⟨m, hm, rfl⟩ := h.nodes_withPercent hn
  have hcount : (m.withPercent round words.length).countOf = m.countOf := by
    simp [Node.countOf]
  have hpos := h.countOf_pos hwords hm
  have htotal := countOf_le_total ((mem_nodes_iff h.distinct).mpr hm)
  refine ⟨h.graded hwords hround hm, ?_, ?_, ?_⟩
  · rw [hcount, count_withPercent]
    exact h.count_some hwords hm
  · rw [hcount]
    exact hpos
  · rw [hcount, name_withPercent]
    rw [← h.globals m.name] at htotal
    cases hglobal : s.2 m.name with
    | none =>
        rw [hglobal, Option.getD_none] at htotal
        omega
    | some globalCount =>
        rw [hglobal, Option.getD_some] at htotal
        exact ⟨globalCount, rfl, htotal⟩

theorem percentOf_root (h : Counted words s) (hwords : words ≠ []) (hround : Rounder round) :
    (s.1.withPercent round words.length).percentOf = 1 := by
  rw [percentOf_withPercent, h.countOf_eq (nodeAt_nil s.1), withPrefix_nil,
    hround.partOf_self (List.length_pos_iff.mpr hwords)]

/-- The drawing of a counted tree. -/
theorem exists_drawing (h : Counted words s) (hwords : words ≠ []) (hround : Rounder round)
    (threshold : ℚ) : ∃ drawing,
    dumpTree round (s.1.withPercent round words.length) s.2 threshold = .ok drawing ∧
      drawing.draws.map Draw.path =
        reaching threshold (childNodes (s.1.withPercent round words.length).children) ∧
      IsColor drawing.fillcolor ∧
      ∀ d ∈ drawing.draws, ∃ child ∈ (s.1.withPercent round words.length).children,
        Places round head [] child d := by
  have hpos : words.length ≠ 0 := fun hzero => hwords (List.length_eq_zero_iff.mp hzero)
  have hroot := nodeAt_nil s.1
  have hcount : (s.1.withPercent round words.length).count = some words.length := by
    rw [count_withPercent, h.count_some hwords hroot, h.countOf_eq hroot, withPrefix_nil]
  have hone := h.percentOf_root hwords hround
  have hpercent := (h.graded hwords hround hroot).percent
  obtain ⟨draws, hdraws, hpaths, hplaces⟩ := @buildGraphs_eq round _ _ threshold hround hpos
    head [] (s.1.withPercent round words.length).children fun path m hm => by
      have hn : (path, m) ∈ (s.1.withPercent round words.length).nodes := by
        rw [nodes_eq, ← childNodes_eq]
        exact List.mem_cons_of_mem _ hm
      exact h.drawable hwords hround hn
  refine ⟨⟨setColor round 1 0, draws⟩, ?_, ?_,
    isColor_setColor hround (by norm_num) le_rfl, hplaces⟩
  · simp only [dumpTree, hpercent, hone, hcount, getAttribute, hdraws, bind, Except.bind, pure,
      Except.pure]
  · rw [hpaths]
    simp

/-- The root reaches every threshold up to 1. -/
theorem reaching_nodes (h : Counted words s) (hwords : words ≠ []) (hround : Rounder round)
    {threshold : ℚ} (hthreshold : threshold ≤ 1) :
    reaching threshold (s.1.withPercent round words.length).nodes =
      [] :: reaching threshold (childNodes (s.1.withPercent round words.length).children) := by
  have hreaches : decide (threshold ≤ (s.1.withPercent round words.length).percentOf) = true := by
    rw [h.percentOf_root hwords hround]
    exact decide_eq_true hthreshold
  rw [nodes_eq, ← childNodes_eq]
  simp only [reaching, List.filter_cons, hreaches, if_true, List.map_cons]

end Counted

/-- In exact arithmetic, after any calls with an accepted trace: the percentages are positive and
at most 1, that of the root is 1, and the children of a node have not more than the node; exactly
the nodes that reach the threshold are drawn; every name is counted at least as often as a node of
it; and the colours are well formed. -/
theorem dumpTree_draws (calls : List Call) (hcalls : accepted calls ≠ []) {threshold : ℚ}
    (hthreshold : threshold ≤ 1) : ∃ tree drawing,
    addPercentages id (run calls).1 = .ok tree ∧
      dumpTree id tree (run calls).2 threshold = .ok drawing ∧
      tree.percent = some 1 ∧
      (∀ path n, (path, n) ∈ tree.nodes → Weighed n ∧
        ∃ globalCount, (run calls).2 n.name = some globalCount ∧ n.countOf ≤ globalCount) ∧
      drawing.paths = reaching threshold tree.nodes ∧
      ∀ color ∈ drawing.colors, IsColor color := by
  have h := counted_run calls
  obtain ⟨drawing, hdump, hpaths, hcolor, hplaces⟩ := h.exists_drawing hcalls rounder_id threshold
  refine ⟨_, drawing, h.addPercentages_eq hcalls, hdump, ?_, ?_, ?_, ?_⟩
  · rw [(h.weighed hcalls (nodeAt_nil _)).percent, h.percentOf_root hcalls rounder_id]
  · intro path n hn
    obtain ⟨m, hm, rfl⟩ := h.nodes_withPercent hn
    exact ⟨h.weighed hcalls hm, (h.drawable hcalls rounder_id hn).counted⟩
  · rw [Drawing.paths, hpaths, h.reaching_nodes hcalls rounder_id hthreshold]
  · intro color hc
    rcases List.mem_cons.mp hc with rfl | hc
    · exact hcolor
    · obtain ⟨d, hd, rfl⟩ := List.mem_map.mp hc
      obtain ⟨child, -, hplace⟩ := hplaces d hd
      exact hplace.color

/-- A trace of a function that calls itself. -/
def recursive : Call := ⟨[⟨"org.example", "Main", "f"⟩, ⟨"org.example", "Main", "f"⟩], []⟩

/-- The name of the recursive function is counted twice for one trace. -/
theorem dumpTree_recursive : ∃ tree drawing,
    addPercentages id (run [recursive]).1 = .ok tree ∧
      dumpTree id tree (run [recursive]).2 (1 / 100) = .ok drawing ∧
      tree.percent = some 1 ∧
      (∀ path n, (path, n) ∈ tree.nodes → Weighed n ∧
        ∃ globalCount, (run [recursive]).2 n.name = some globalCount ∧ n.countOf ≤ globalCount) ∧
      drawing.paths = reaching (1 / 100) tree.nodes ∧
      ∀ color ∈ drawing.colors, IsColor color :=
  dumpTree_draws [recursive] (by decide) (by norm_num)

end Structor.Profile
