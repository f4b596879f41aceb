import Mathlib.Data.Rat.Defs
import Mathlib.Logic.Function.Basic
import Structor.Keyed
import Structor.Prefixes
import Structor.Text

/-!
# The call tree of the profile visualiser

`addTrace` walks from the root along the reversed steps of a trace and counts every
node that it meets, in the node and once more by name in `globalCounts`. The tree
stands for the list of accepted traces.

## Main definitions

* `addTrace`, `run` -- one trace, and a sequence of traces from a fresh tree
* `nodeAt` -- the node at the end of a path
* `Counted` -- what tree and `globalCounts` say about the accepted traces
-/
namespace Structor.Profile

/-- A node of the tree. The children are a dictionary by name. -/
structure Node where
  name : Str
  count : Option ℕ
  percent : Option ℚ
  children : List Node

abbrev Counts := Str → Option ℕ

structure Frame where
  package : Str
  clazz : Str
  method : Str
deriving DecidableEq

def Frame.step (f : Frame) : Str := f.clazz ++ ':' :: f.method

/-- A `Node()` that has its name set. -/
def Node.new (name : Str) : Node := ⟨name, none, none, []⟩

def Node.getChild (n : Node) (name : Str) : Option Node := Keyed.get Node.name name n.children

/-- The node with this child in the place of the child of that name. -/
def Node.setChild (n child : Node) : Node :=
  { n with children := Keyed.put Node.name child n.children }

def increment (n : Node) : Node :=
  match n.count with
  | some count => { n with count := some (count + 1) }
  | none => { n with count := some (0 + 1) }

def addGlobalCount (globalCounts : Counts) (name : Str) : Counts :=
  match globalCounts name with
  | some count => Function.update globalCounts name (some (count + 1))
  | none => Function.update globalCounts name (some 1)

/-- The loop over the steps below a counted node. The source changes the child in
place; here it is put back. -/
def descend : List Str → Node → Counts → Node × Counts
  | [], thisNode, globalCounts => (thisNode, globalCounts)
  | step :: rest, thisNode, globalCounts =>
      let child := increment ((thisNode.getChild step).getD (Node.new step))
      let below := descend rest child (addGlobalCount globalCounts child.name)
      (thisNode.setChild below.1, below.2)

/-- Counts a node and those below it along the steps. -/
def visit (array : List Str) (thisNode : Node) (globalCounts : Counts) : Node × Counts :=
  let thisNode := increment thisNode
  descend array thisNode (addGlobalCount globalCounts thisNode.name)

/-- The steps of a trace, outermost call first. -/
def steps (trace : List Frame) : List Str := (trace.map Frame.step).reverse

def addTrace (traceTree : Node) (trace : List Frame) (killList : List Str)
    (globalCounts : Counts) : Node × Counts :=
  if trace.length > 0 then
    if (steps trace).any (· ∈ killList) then (traceTree, globalCounts)
    else visit (steps trace) traceTree globalCounts
  else (traceTree, globalCounts)

/-- The arguments of a call that are its own. -/
structure Call where
  trace : List Frame
  killList : List Str

/-- The calls in order, from a fresh node and no counts. -/
def run (calls : List Call) : Node × Counts :=
  calls.foldl (fun s call => addTrace s.1 call.trace call.killList s.2)
    (Node.new "HEAD", fun _ => none)

/-- A trace is counted if it is not empty and no step of it is killed. -/
def Call.Accepted (call : Call) : Prop :=
  call.trace ≠ [] ∧ ∀ step ∈ steps call.trace, step ∉ call.killList

instance (call : Call) : Decidable call.Accepted := inferInstanceAs (Decidable (_ ∧ _))

/-- The step lists of the accepted traces. -/
def accepted (calls : List Call) : List (List Str) :=
  (calls.filter (·.Accepted)).map fun call => steps call.trace

theorem addTrace_of_accepted {call : Call} (h : call.Accepted) (tree : Node)
    (globalCounts : Counts) : addTrace tree call.trace call.killList globalCounts =
      visit (steps call.trace) tree globalCounts := by
  obtain ⟨hne, hkill⟩ := h
  have hany : (steps call.trace).any (· ∈ call.killList) = false := by
    simpa using hkill
  rw [addTrace, if_pos (List.length_pos_iff.mpr hne), hany]
  rfl

theorem addTrace_of_rejected {call : Call} (h : ¬ call.Accepted) (tree : Node)
    (globalCounts : Counts) : addTrace tree call.trace call.killList globalCounts =
      (tree, globalCounts) := by
  by_cases hne : call.trace = []
  · simp [addTrace, hne]
  · have hany : (steps call.trace).any (· ∈ call.killList) = true := by
      simpa [Call.Accepted, hne] using h
    rw [addTrace, hany]
    simp

/-! ## Nodes and their names -/

/-- The count, zero if there is none. -/
def Node.countOf (n : Node) : ℕ := n.count.getD 0

@[simp] theorem count_increment (n : Node) : (increment n).count = some (n.countOf + 1) := by
  unfold increment Node.countOf
  split <;> simp [*]

@[simp] theorem name_increment (n : Node) : (increment n).name = n.name := by
  unfold increment
  split <;> rfl

@[simp] theorem children_increment (n : Node) : (increment n).children = n.children := by
  unfold increment
  split <;> rfl

@[simp] theorem getChild_increment (n : Node) (name : Str) :
    (increment n).getChild name = n.getChild name := by
  simp [Node.getChild]

@[simp] theorem getChild_new (name step : Str) : (Node.new name).getChild step = none := rfl

theorem getChild_setChild (n child : Node) (name : Str) :
    (n.setChild child).getChild name = if child.name = name then some child else n.getChild name :=
  Keyed.get_put name child n.children

theorem visit_nil (n : Node) (globalCounts : Counts) :
    visit [] n globalCounts = (increment n, addGlobalCount globalCounts n.name) := by
  simp [visit, descend]

theorem visit_cons (step : Str) (rest : List Str) (n : Node) (globalCounts : Counts) :
    visit (step :: rest) n globalCounts =
      let below := visit rest ((n.getChild step).getD (Node.new step))
        (addGlobalCount globalCounts n.name)
      ((increment n).setChild below.1, below.2) := by
  simp [visit, descend]

/-- The child that a step finds or makes has the name of the step. -/
theorem name_child (n : Node) (step : Str) :
    ((n.getChild step).getD (Node.new step)).name = step := by
  cases h : n.getChild step with
  | none => rfl
  | some child => exact Keyed.key_of_get h

@[simp] theorem name_visit (array : List Str) (n : Node) (globalCounts : Counts) :
    (visit array n globalCounts).1.name = n.name := by
  cases array with
  | nil => simp [visit_nil]
  | cons step rest => simp [visit_cons, Node.setChild]

/-! ## Paths -/

def nodeAt : List Str → Node → Option Node
  | [], n => some n
  | step :: path, n => (n.getChild step).bind (nodeAt path)

@[simp] theorem nodeAt_nil (n : Node) : nodeAt [] n = some n := rfl

theorem nodeAt_cons (step : Str) (path : List Str) (n : Node) :
    nodeAt (step :: path) n = (n.getChild step).bind (nodeAt path) := rfl

theorem nodeAt_append (path rest : List Str) (n : Node) :
    nodeAt (path ++ rest) n = (nodeAt path n).bind (nodeAt rest) := by
  induction path generalizing n with
  | nil => rfl
  | cons step path ih =>
      rw [List.cons_append, nodeAt_cons, nodeAt_cons, Option.bind_assoc]
      exact Option.bind_congr fun child _ => ih child

theorem nodeAt_new {name step : Str} {path : List Str} :
    nodeAt (step :: path) (Node.new name) = none := rfl

theorem nodeAt_visit_cons (step next : Str) (rest path : List Str) (n : Node)
    (globalCounts : Counts) : nodeAt (next :: path) (visit (step :: rest) n globalCounts).1 =
      if step = next then
        nodeAt path (visit rest ((n.getChild step).getD (Node.new step))
          (addGlobalCount globalCounts n.name)).1
      else nodeAt (next :: path) n := by
  rw [visit_cons, nodeAt_cons, getChild_setChild, name_visit, name_child, getChild_increment]
  by_cases h : step = next
  · simp [h]
  · simp [h, nodeAt_cons]

/-- A visit counts the nodes on the way, and makes those that are missing. -/
theorem count_nodeAt_visit (array path : List Str) (n : Node) (globalCounts : Counts) :
    (nodeAt path (visit array n globalCounts).1).map Node.count =
      if path <+: array then some (some (((nodeAt path n).map Node.countOf).getD 0 + 1))
      else (nodeAt path n).map Node.count := by
  induction array generalizing n globalCounts path with
  | nil =>
      cases path with
      | nil => simp [visit_nil]
      | cons next path => simp [visit_nil, nodeAt_cons]
  | cons step rest ih =>
      cases path with
      | nil => simp [visit_cons, Node.setChild]
      | cons next path =>
          rw [nodeAt_visit_cons]
          by_cases hstep : step = next
          · subst hstep
            rw [if_pos rfl, ih]
            cases hchild : n.getChild step with
            | some child => simp [nodeAt_cons, hchild]
            | none =>
                -- below a node that the visit makes there is nothing yet
                cases path with
                | nil => simp [nodeAt_cons, hchild, Node.new, Node.countOf]
                | cons s path => simp [nodeAt_cons, hchild]
          · have hpre : ¬ next :: path <+: step :: rest := by
              rw [List.cons_prefix_cons]
              exact fun h => hstep h.1.symm
            rw [if_neg hstep, if_neg hpre]

/-! ## Distinct children -/

/-- The children of every node have different names. -/
def Distinct (tree : Node) : Prop :=
  ∀ path n, nodeAt path tree = some n → (n.children.map Node.name).Nodup

theorem distinct_new (name : Str) : Distinct (Node.new name) := by
  intro path n h
  cases path with
  | nil =>
      obtain rfl : Node.new name = n := by simpa using h
      exact List.nodup_nil
  | cons step path => simp [nodeAt_new] at h

/-- The child that a step finds or makes. -/
theorem Distinct.child {n : Node} (h : Distinct n) (step : Str) :
    Distinct ((n.getChild step).getD (Node.new step)) := by
  cases hchild : n.getChild step with
  | none => exact distinct_new step
  | some child =>
      intro path m hm
      exact h (step :: path) m (by simpa [nodeAt_cons, hchild] using hm)

theorem Distinct.visit {n : Node} (h : Distinct n) (array : List Str) (globalCounts : Counts) :
    Distinct (visit array n globalCounts).1 := by
  induction array generalizing n globalCounts with
  | nil =>
      intro path m hm
      cases path with
      | nil =>
          obtain rfl : increment n = m := by simpa [visit_nil] using hm
          simpa using h [] n rfl
      | cons next path => exact h (next :: path) m (by simpa [visit_nil, nodeAt_cons] using hm)
  | cons step rest ih =>
      intro path m hm
      cases path with
      | nil =>
          rw [visit_cons, nodeAt_nil, Option.some.injEq] at hm
          subst hm
          exact Keyed.nodup_put (by simpa using h [] n rfl)
      | cons next path =>
          rw [nodeAt_visit_cons] at hm
          by_cases hstep : step = next
          · rw [if_pos hstep] at hm
            exact ih (h.child step) _ path m hm
          · rw [if_neg hstep] at hm
            exact h (next :: path) m hm

/-! ## All nodes -/

mutual
/-- The nodes of a tree, each with its path from the root. -/
def Node.nodes : Node → List (List Str × Node)
  | ⟨name, count, percent, children⟩ =>
      ([], ⟨name, count, percent, children⟩) :: childNodes children
def childNodes : List Node → List (List Str × Node)
  | [] => []
  | child :: rest =>
      child.nodes.map (fun entry => (child.name :: entry.1, entry.2)) ++ childNodes rest
end

theorem childNodes_eq (children : List Node) : childNodes children =
    children.flatMap fun child =>
      child.nodes.map fun entry => (child.name :: entry.1, entry.2) := by
  induction children with
  | nil => rfl
  | cons child rest ih => simp [childNodes, ih]

theorem nodes_eq (n : Node) : n.nodes = ([], n) :: n.children.flatMap fun child =>
    child.nodes.map fun entry => (child.name :: entry.1, entry.2) := by
  obtain ⟨name, count, percent, children⟩ := n
  rw [Node.nodes, childNodes_eq]

/-- With distinct children the nodes are those that a path leads to. -/
theorem mem_nodes_iff {tree : Node} (h : Distinct tree) {path : List Str} {n : Node} :
    (path, n) ∈ tree.nodes ↔ nodeAt path tree = some n := by
  induction path generalizing tree with
  | nil =>
      rw [nodes_eq, nodeAt_nil]
      simp [eq_comm]
  | cons step path ih =>
      have hnodup := h [] tree rfl
      rw [nodes_eq, nodeAt_cons]
      simp only [List.mem_cons, Prod.mk.injEq, List.mem_flatMap, List.mem_map, Prod.exists,
        reduceCtorEq, false_and, false_or, List.cons.injEq, Option.bind_eq_some_iff]
      constructor
      · rintro ⟨child, hchild, q, m, hm, ⟨rfl, rfl⟩, rfl⟩
        have hget : tree.getChild child.name = some child := Keyed.get_of_mem hnodup hchild
        have hd : Distinct child := by simpa [hget] using h.child child.name
        exact ⟨child, hget, (ih hd).mp hm⟩
      · rintro ⟨child, hget, hm⟩
        have hd : Distinct child := by simpa [hget] using h.child step
        exact ⟨child, Keyed.mem_of_get hget, path, n, (ih hd).mpr hm,
          ⟨Keyed.key_of_get hget, rfl⟩, rfl⟩

/-- The sum of the counts of the nodes of a name. -/
def total (name : Str) (tree : Node) : ℕ :=
  ((tree.nodes.filter fun entry => entry.2.name = name).map fun entry => entry.2.countOf).sum

theorem total_eq (name : Str) (n : Node) :
    total name n =
      (if n.name = name then n.countOf else 0) + (n.children.map (total name)).sum := by
  have hchildren : (((n.children.flatMap fun child => child.nodes.map fun entry =>
      (child.name :: entry.1, entry.2)).filter fun entry => entry.2.name = name).map
        fun entry => entry.2.countOf).sum = (n.children.map (total name)).sum := by
    induction n.children with
    | nil => rfl
    | cons child rest ih =>
        simp only [List.flatMap_cons, List.filter_append, List.map_append, List.sum_append, ih,
          List.map_cons, List.sum_cons, total, List.filter_map, List.map_map, Function.comp_def]
  rw [total, nodes_eq]
  by_cases hname : n.name = name
  · simp only [List.filter_cons, hname, decide_true, if_true, List.map_cons, List.sum_cons,
      hchildren]
  · simp only [List.filter_cons, hname, decide_false, if_false, hchildren, Bool.false_eq_true,
      Nat.zero_add]

@[simp] theorem total_new (name step : Str) : total name (Node.new step) = 0 := by
  simp [total_eq, Node.new, Node.countOf]

theorem total_increment (name : Str) (n : Node) :
    total name (increment n) = total name n + if n.name = name then 1 else 0 := by
  rw [total_eq, total_eq, name_increment, children_increment]
  by_cases hname : n.name = name
  · simp only [hname, if_true, Node.countOf, count_increment, Option.getD_some]
    omega
  · simp [hname]

/-- `setChild` exchanges the total of the old child for that of the new one. -/
theorem total_setChild (name : Str) (n child : Node) :
    total name (n.setChild child) + ((n.getChild child.name).elim 0 (total name)) =
      total name n + total name child := by
  have hsum : ((n.setChild child).children.map (total name)).sum +
      (n.getChild child.name).elim 0 (total name) =
        (n.children.map (total name)).sum + total name child :=
    Keyed.sum_put (total name) child n.children
  have hown : (if (n.setChild child).name = name then (n.setChild child).countOf else 0) =
      if n.name = name then n.countOf else 0 := rfl
  rw [total_eq name n, total_eq name (n.setChild child), hown]
  omega

theorem getD_addGlobalCount (globalCounts : Counts) (step name : Str) :
    (addGlobalCount globalCounts step name).getD 0 =
      (globalCounts name).getD 0 + if step = name then 1 else 0 := by
  by_cases h : step = name
  · subst h
    cases hcount : globalCounts step <;> simp [addGlobalCount, hcount]
  · have hne : name ≠ step := fun hn => h hn.symm
    cases hcount : globalCounts step <;> simp [addGlobalCount, hcount, h, Function.update_of_ne hne]

/-- Both counters of a name grow by the same number. -/
theorem total_visit (name : Str) (array : List Str) (n : Node) (globalCounts : Counts) :
    total name (visit array n globalCounts).1 + (globalCounts name).getD 0 =
      total name n + ((visit array n globalCounts).2 name).getD 0 := by
  induction array generalizing n globalCounts with
  | nil =>
      rw [visit_nil, total_increment, getD_addGlobalCount]
      omega
  | cons step rest ih =>
      have hbelow := ih ((n.getChild step).getD (Node.new step))
        (addGlobalCount globalCounts n.name)
      have hset := total_setChild name (increment n) (visit rest
        ((n.getChild step).getD (Node.new step)) (addGlobalCount globalCounts n.name)).1
      have hold : ((n.getChild step).elim 0 (total name)) =
          total name ((n.getChild step).getD (Node.new step)) := by
        cases n.getChild step <;> simp
      simp only [visit_cons]
      rw [name_visit, name_child, getChild_increment, hold, total_increment] at hset
      rw [getD_addGlobalCount] at hbelow
      omega

/-! ## The counts of a run -/

/-- A counter that has reached `n`: a counter at zero is missing. -/
def tally (n : ℕ) : Option ℕ := if n = 0 then none else some n

@[simp] theorem getD_tally (n : ℕ) : (tally n).getD 0 = n := by
  by_cases h : n = 0 <;> simp [tally, h]

@[simp] theorem tally_succ (n : ℕ) : tally (n + 1) = some (n + 1) := by
  simp [tally]

theorem eq_tally {counter : Option ℕ} (h : counter ≠ some 0) :
    counter = tally (counter.getD 0) := by
  cases counter with
  | none => rfl
  | some n =>
      have hn : n ≠ 0 := fun h0 => h (by rw [h0])
      simp [tally, hn]

/-- The tree and the counts by name stand for a list of step lists. -/
structure Counted (words : List (List Str)) (s : Node × Counts) : Prop where
  counts : ∀ path, (nodeAt path s.1).map Node.count =
    if path = [] ∨ 0 < withPrefix words path then some (tally (withPrefix words path)) else none
  distinct : Distinct s.1
  globals : ∀ name, (s.2 name).getD 0 = total name s.1
  positive : ∀ name, s.2 name ≠ some 0

theorem counted_fresh (name : Str) : Counted [] (Node.new name, fun _ => none) where
  counts path := by
    cases path with
    | nil => rfl
    | cons step path => simp [nodeAt_new]
  distinct := distinct_new name
  globals := by simp
  positive := by simp

theorem positive_addGlobalCount {globalCounts : Counts} (h : ∀ name, globalCounts name ≠ some 0)
    (step name : Str) : addGlobalCount globalCounts step name ≠ some 0 := by
  by_cases hname : name = step
  · subst hname
    cases hcount : globalCounts name <;> simp [addGlobalCount, hcount]
  · cases hcount : globalCounts step <;>
      simpa [addGlobalCount, hcount, Function.update_of_ne hname] using h name

theorem positive_visit {globalCounts : Counts} (h : ∀ name, globalCounts name ≠ some 0)
    (array : List Str) (n : Node) (name : Str) : (visit array n globalCounts).2 name ≠ some 0 := by
  induction array generalizing n globalCounts with
  | nil =>
      rw [visit_nil]
      exact positive_addGlobalCount h n.name name
  | cons step rest ih =>
      rw [visit_cons]
      exact ih (positive_addGlobalCount h n.name) _

theorem Counted.visit {words : List (List Str)} {s : Node × Counts} (h : Counted words s)
    (array : List Str) : Counted (words ++ [array]) (visit array s.1 s.2) where
  counts path := by
    have hold : ((nodeAt path s.1).map Node.countOf).getD 0 = withPrefix words path := by
      have hmap : (nodeAt path s.1).map Node.countOf =
          ((nodeAt path s.1).map Node.count).map fun count => count.getD 0 := by
        rw [Option.map_map]
        rfl
      rw [hmap, h.counts path]
      by_cases hpath : path = [] ∨ 0 < withPrefix words path
      · simp [hpath]
      · rw [if_neg hpath]
        simp only [Option.map_none, Option.getD_none]
        omega
    rw [count_nodeAt_visit, hold, withPrefix_concat]
    by_cases hpre : path <+: array
    · simp [hpre]
    · simp only [hpre, if_false, Nat.add_zero, h.counts path]
  distinct := h.distinct.visit array s.2
  globals name := by
    have htotal := total_visit name array s.1 s.2
    have hglobals := h.globals name
    omega
  positive := positive_visit h.positive array s.1

theorem accepted_concat (calls : List Call) (call : Call) :
    accepted (calls ++ [call]) =
      accepted calls ++ if call.Accepted then [steps call.trace] else [] := by
  by_cases h : call.Accepted <;> simp [accepted, h]

theorem counted_run (calls : List Call) : Counted (accepted calls) (run calls) := by
  induction calls using List.reverseRecOn with
  | nil => exact counted_fresh "HEAD"
  | append_singleton calls call ih =>
      have hrun : run (calls ++ [call]) =
          addTrace (run calls).1 call.trace call.killList (run calls).2 := by
        simp [run]
      rw [hrun, accepted_concat]
      by_cases h : call.Accepted
      · rw [addTrace_of_accepted h, if_pos h]
        exact ih.visit (steps call.trace)
      · rw [addTrace_of_rejected h, if_neg h, List.append_nil]
        exact ih

namespace Counted
variable {words : List (List Str)} {s : Node × Counts} {path : List Str} {n : Node}

theorem count_eq (h : Counted words s) (hn : nodeAt path s.1 = some n) :
    n.count = tally (withPrefix words path) := by
  have hcounts := h.counts path
  rw [hn, Option.map_some] at hcounts
  by_cases hpath : path = [] ∨ 0 < withPrefix words path
  · rw [if_pos hpath] at hcounts
    exact Option.some.inj hcounts
  · rw [if_neg hpath] at hcounts
    cases hcounts

theorem exists_nodeAt (h : Counted words s) (hpath : 0 < withPrefix words path) :
    ∃ n, nodeAt path s.1 = some n := by
  have hcounts := h.counts path
  rw [if_pos (.inr hpath)] at hcounts
  obtain ⟨n, hn, -⟩ := Option.map_eq_some_iff.mp hcounts
  exact ⟨n, hn⟩

/-- Only the root can be there without a word that passes it. -/
theorem pos_of_nodeAt (h : Counted words s) (hn : nodeAt path s.1 = some n) (hpath : path ≠ []) :
    withPrefix words path ≠ 0 := by
  intro hzero
  have hcounts := h.counts path
  rw [hn, if_neg (by simp [hpath, hzero])] at hcounts
  cases hcounts

theorem count_child (h : Counted words s) (hn : nodeAt path s.1 = some n) {child : Node}
    (hchild : child ∈ n.children) :
    child.count = tally (withPrefix words (path ++ [child.name])) := by
  have hget : n.getChild child.name = some child := Keyed.get_of_mem (h.distinct path n hn) hchild
  refine h.count_eq ?_
  rw [nodeAt_append, hn, Option.bind_some, nodeAt_cons, hget]
  rfl

/-- The words that pass a node go on to a child or end at the node. -/
theorem count_eq_sum (h : Counted words s) (hn : nodeAt path s.1 = some n) :
    n.countOf = (n.children.map Node.countOf).sum + endingAt words path := by
  have hcover : ∀ step, 0 < withPrefix words (path ++ [step]) →
      step ∈ n.children.map Node.name := by
    intro step hstep
    obtain ⟨m, hm⟩ := h.exists_nodeAt hstep
    rw [nodeAt_append, hn, Option.bind_some, nodeAt_cons] at hm
    obtain ⟨child, hget, -⟩ := Option.bind_eq_some_iff.mp hm
    rw [← Keyed.get_isSome_iff]
    exact Option.isSome_of_eq_some hget
  have hchildren : n.children.map Node.countOf =
      (n.children.map Node.name).map fun step => withPrefix words (path ++ [step]) := by
    rw [List.map_map]
    refine List.map_congr_left fun child hchild => ?_
    rw [Node.countOf, h.count_child hn hchild, getD_tally]
    rfl
  rw [Node.countOf, h.count_eq hn, getD_tally, hchildren]
  exact withPrefix_eq_sum (h.distinct path n hn) words path hcover

end Counted

/-- After any calls: a node counts the accepted traces that pass it, which go on to a
child or end there; the root counts all of them; `globalCounts` holds the sums by
name; and a rejected trace changes nothing. -/
theorem run_counts (calls : List Call) :
    (∀ path n, (path, n) ∈ (run calls).1.nodes →
      n.count = tally (withPrefix (accepted calls) path) ∧
      n.countOf = (n.children.map Node.countOf).sum + endingAt (accepted calls) path) ∧
    (∀ path, 0 < withPrefix (accepted calls) path → ∃ n, (path, n) ∈ (run calls).1.nodes) ∧
    (run calls).1.count = tally (accepted calls).length ∧
    (∀ name, (run calls).2 name = tally (total name (run calls).1)) ∧
    ∀ call : Call, ¬ call.Accepted → ∀ tree globalCounts,
      addTrace tree call.trace call.killList globalCounts = (tree, globalCounts) := by
  have h := counted_run calls
  refine ⟨?_, ?_, ?_, ?_, ?_⟩
  · intro path n hn
    rw [mem_nodes_iff h.distinct] at hn
    exact ⟨h.count_eq hn, h.count_eq_sum hn⟩
  · intro path hpath
    obtain ⟨n, hn⟩ := h.exists_nodeAt hpath
    exact ⟨n, (mem_nodes_iff h.distinct).mpr hn⟩
  · rw [h.count_eq (nodeAt_nil _), withPrefix_nil]
  · intro name
    rw [← h.globals name]
    exact eq_tally (h.positive name)
  · intro call hcall tree globalCounts
    exact addTrace_of_rejected hcall tree globalCounts

end Structor.Profile
