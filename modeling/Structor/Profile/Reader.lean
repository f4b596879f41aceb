import Mathlib.Data.List.Destutter
import Structor.Profile.Percentages

/-!
# Reading a profile

A profile is a sequence of blocks, each a header line and the indented frame lines of
one stack trace. The reader collects the frames of a block and adds the trace to the
call tree when it meets the header of the next block.

## Main definitions

* `readLine`, `read` -- the loop over the lines of a file
* `Block`, `normalised` -- a block, and the trace that the reader makes of it
-/
namespace Structor.Profile

open Python
variable {threadname : Option Str} {killList : List Str}

def ignorePackage : List Str :=
  ["com.sun.proxy", "java.lang.reflect", "java.net", "java.io", "org.apache.hadoop.hive.cli",
    "org.apache.hadoop.util", "sun.reflect", "sun.nio.cs"]

def ignorePrefix : List Str :=
  ["org.apache.thrift.", "org.apache.log4j.", "org.apache.hadoop.hive.metastore."]

structure ReadState where
  traceTree : Node
  globalCounts : Counts
  trace : List Frame
  oldPackage : Option Str

/-- The thread and the frame of a line. -/
def splitThread (line : Str) : Except Error (Str × Str) :=
  match (rstrip line).splitOn ',' with
  | [thread, traceInfo] => .ok (lstrip thread, traceInfo)
  | _ => .error .valueError

/-- A thread name that is missing or empty lets every thread pass. -/
def skipsThread (threadname : Option Str) (thread : Str) : Prop :=
  ∃ name ∈ threadname, name ≠ [] ∧ name ≠ thread

instance (threadname : Option Str) (thread : Str) : Decidable (skipsThread threadname thread) :=
  match threadname with
  | none => .isFalse (by simp [skipsThread])
  | some name => decidable_of_iff (name ≠ [] ∧ name ≠ thread) (by simp [skipsThread])

def parsePath (traceInfo : Str) : Except Error Frame := do
  let leftParen := rfind traceInfo '('
  let traceInfo := sliceTo traceInfo leftParen
  let path := traceInfo.splitOn '.'
  let (path, method) ← pop path
  let (path, clazz) ← pop path
  let package := ['.'].intercalate path
  return ⟨package, clazz, method⟩

/-- The frame of a line, unless it is filtered out. -/
def frameOf (threadname : Option Str) (line : Str) : Except Error (Option Frame) := do
  let (thread, traceInfo) ← splitThread line
  if skipsThread threadname thread then
    return none
  let frame ← parsePath traceInfo
  if ignorePackage.contains frame.package then
    return none
  if ∃ start ∈ ignorePrefix, start <+: frame.package then
    return none
  return some frame

/-- Only the first of consecutive frames of one package is kept. -/
def ReadState.add (s : ReadState) (frame : Frame) : ReadState :=
  if some frame.package ≠ s.oldPackage then
    { s with oldPackage := some frame.package, trace := s.trace ++ [frame] }
  else s

/-- A header line ends the trace before it. -/
def ReadState.flush (killList : List Str) (s : ReadState) : ReadState :=
  let counted := addTrace s.traceTree s.trace killList s.globalCounts
  ⟨counted.1, counted.2, [], none⟩

def readLine (threadname : Option Str) (killList : List Str) (s : ReadState) (line : Str) :
    Except Error ReadState :=
  if ¬ [' '] <+: line then .ok (s.flush killList)
  else do
    match ← frameOf threadname line with
    | none => return s
    | some frame => return s.add frame

/-- The loop over the lines of the file. -/
def read (threadname : Option Str) (killList : List Str) (lines : List Str) :
    Except Error ReadState :=
  lines.foldlM (readLine threadname killList) ⟨Node.new "HEAD", fun _ => none, [], none⟩

/-! ## Blocks -/

/-- A header line and the frame lines up to the next header or the end of the file. -/
structure Block where
  header : Str
  frames : List Str
  header_start : ¬ [' '] <+: header
  frame_start : ∀ line ∈ frames, [' '] <+: line
  frame_comma : ∀ line ∈ frames, line.count ',' = 1

def Block.lines (b : Block) : List Str := b.header :: b.frames

/-- The frame of a line that is kept by the filters. -/
def kept (threadname : Option Str) (line : Str) : Option Frame :=
  match frameOf threadname line with
  | .ok frame => frame
  | .error _ => none

def Frame.Differs (f g : Frame) : Prop := f.package ≠ g.package

instance : DecidableRel Frame.Differs :=
  fun f g => inferInstanceAs (Decidable (f.package ≠ g.package))

/-- The kept frames of a block, consecutive ones of a package merged into the first. -/
def normalised (threadname : Option Str) (b : Block) : List Frame :=
  (b.frames.filterMap (kept threadname)).destutter Frame.Differs

/-- The call that a block should make of `addTrace`. -/
def Block.call (threadname : Option Str) (killList : List Str) (b : Block) : Call :=
  ⟨normalised threadname b, killList⟩

/-- A line passes the reader if its thread is filtered out or its path has a dot. -/
def Legible (threadname : Option Str) (line : Str) : Prop :=
  ∃ parts, splitThread line = .ok parts ∧
    (skipsThread threadname parts.1 ∨ '.' ∈ sliceTo parts.2 (rfind parts.2 '('))

/-! ## One line -/

theorem splitThread_comma {before after : Str} (hb : ',' ∉ before) (ha : ',' ∉ after) :
    splitThread (before ++ ',' :: after) = .ok (lstrip before, rstrip after) := by
  have hstrip : ',' ∉ rstrip after := fun h => ha ((List.rdropWhile_prefix isSpace after).subset h)
  rw [splitThread, rstrip_append_cons (by decide), List.splitOn_append_cons_self_of_not_mem hb,
    List.splitOn_eq_singleton hstrip]

theorem count_of_splitThread {line : Str} {parts : Str × Str}
    (h : splitThread line = .ok parts) : (rstrip line).count ',' = 1 := by
  have hlength := length_splitOn ',' (rstrip line)
  unfold splitThread at h
  split at h
  · rename_i hsplit
    rw [hsplit] at hlength
    simpa using hlength.symm
  · cases h

theorem exists_splitThread {line : Str} (h : line.count ',' = 1) :
    ∃ parts, splitThread line = .ok parts := by
  have hmem : ',' ∈ line := by
    rw [← List.count_pos_iff]
    omega
  obtain ⟨before, after, rfl, hb⟩ := List.eq_append_cons_of_mem hmem
  have ha : ',' ∉ after := by
    rw [List.count_append, List.count_cons_self, List.count_eq_zero.mpr hb] at h
    rw [← List.count_eq_zero]
    omega
  exact ⟨_, splitThread_comma hb ha⟩

theorem parsePath_of_split {traceInfo clazz method : Str} {path : List Str}
    (h : (sliceTo traceInfo (rfind traceInfo '(')).splitOn '.' = path ++ [clazz] ++ [method]) :
    parsePath traceInfo = .ok ⟨['.'].intercalate path, clazz, method⟩ := by
  simp only [parsePath, h, pop_concat, bind, Except.bind, pure, Except.pure]

theorem parsePath_of_dot {traceInfo : Str} (h : '.' ∈ sliceTo traceInfo (rfind traceInfo '(')) :
    ∃ frame, parsePath traceInfo = .ok frame := by
  obtain ⟨before, method, hslice, hmethod⟩ := exists_last_mem h
  obtain hnil | ⟨path, clazz, hpath⟩ := (before.splitOn '.').eq_nil_or_concat
  · exact absurd hnil (List.splitOn_ne_nil _ _)
  · refine ⟨_, @parsePath_of_split traceInfo clazz method path ?_⟩
    rw [hslice, splitOn_append_cons before hmethod, hpath, List.concat_eq_append]

theorem parsePath_of_no_dot {traceInfo : Str}
    (h : '.' ∉ sliceTo traceInfo (rfind traceInfo '(')) :
    parsePath traceInfo = .error .indexError := by
  simp only [parsePath, List.splitOn_eq_singleton h]
  rfl

/-- The reader gets past a line of one comma exactly if it is legible. -/
theorem frameOf_ok_iff {line : Str} (h : line.count ',' = 1) :
    (∃ frame, frameOf threadname line = .ok frame) ↔ Legible threadname line := by
  obtain ⟨⟨thread, traceInfo⟩, hsplit⟩ := exists_splitThread h
  by_cases hskip : skipsThread threadname thread
  · have hlegible : Legible threadname line := ⟨_, hsplit, .inl hskip⟩
    simp [frameOf, hsplit, hskip, hlegible, bind, Except.bind, pure, Except.pure]
  · by_cases hdot : '.' ∈ sliceTo traceInfo (rfind traceInfo '(')
    · have hlegible : Legible threadname line := ⟨_, hsplit, .inr hdot⟩
      obtain ⟨frame, hframe⟩ := parsePath_of_dot hdot
      simp only [frameOf, hsplit, hskip, hframe, hlegible, bind, Except.bind, if_false, iff_true]
      split
      · exact ⟨_, rfl⟩
      · split
        · exact ⟨_, rfl⟩
        · exact ⟨_, rfl⟩
    · have hlegible : ¬ Legible threadname line := by
        rintro ⟨parts, hparts, hpass⟩
        obtain rfl : (thread, traceInfo) = parts := Except.ok.inj (hsplit.symm.trans hparts)
        exact hpass.elim hskip hdot
      simp [frameOf, hsplit, hskip, parsePath_of_no_dot hdot, hlegible, bind, Except.bind]

/-! ## One block -/

theorem readLine_header {line : Str} (h : ¬ [' '] <+: line) (s : ReadState) :
    readLine threadname killList s line = .ok (s.flush killList) := by
  rw [readLine, if_pos h]

/-- What a line of a block does to the state. -/
def nextState (threadname : Option Str) (s : ReadState) (line : Str) : ReadState :=
  (kept threadname line).elim s s.add

theorem readLine_frame {line : Str} (hstart : [' '] <+: line) (hcomma : line.count ',' = 1)
    (h : Legible threadname line) (s : ReadState) :
    readLine threadname killList s line = .ok (nextState threadname s line) := by
  obtain ⟨frame, hframe⟩ := (frameOf_ok_iff hcomma).mpr h
  rw [readLine, if_neg (not_not.mpr hstart)]
  cases frame <;> simp [nextState, kept, hframe, bind, Except.bind, pure, Except.pure]

theorem readLine_frame_ok_iff {line : Str} (hstart : [' '] <+: line)
    (hcomma : line.count ',' = 1) (s : ReadState) :
    (∃ s', readLine threadname killList s line = .ok s') ↔ Legible threadname line := by
  constructor
  · intro h
    rw [readLine, if_neg (not_not.mpr hstart)] at h
    rw [← frameOf_ok_iff hcomma]
    cases hframe : frameOf threadname line with
    | ok frame => exact ⟨frame, rfl⟩
    | error e => simp [hframe, bind, Except.bind] at h
  · intro h
    exact ⟨_, readLine_frame hstart hcomma h s⟩

/-- The state after the lines of a block. -/
def afterBlock (threadname : Option Str) (killList : List Str) (s : ReadState) (b : Block) :
    ReadState :=
  b.frames.foldl (nextState threadname) (s.flush killList)

theorem foldlM_block {b : Block} (h : ∀ line ∈ b.frames, Legible threadname line)
    (s : ReadState) : b.lines.foldlM (readLine threadname killList) s =
      .ok (afterBlock threadname killList s b) := by
  rw [Block.lines, List.foldlM_cons, readLine_header b.header_start]
  refine foldlM_eq_ok b.frames (fun line hline s => ?_) (s.flush killList)
  exact readLine_frame (b.frame_start line hline) (b.frame_comma line hline) (h line hline) s

theorem foldl_nextState (lines : List Str) (s : ReadState) :
    lines.foldl (nextState threadname) s =
      (lines.filterMap (kept threadname)).foldl ReadState.add s := by
  induction lines generalizing s with
  | nil => rfl
  | cons line lines ih =>
      rw [List.foldl_cons, ih]
      cases hkept : kept threadname line <;> simp [nextState, hkept]

/-- Adding frames leaves the tree, and merges consecutive frames of one package. -/
theorem foldl_add (frames trace : List Frame) (last : Frame) (tree : Node) (globalCounts : Counts) :
    ∃ oldPackage, frames.foldl ReadState.add
        ⟨tree, globalCounts, trace ++ [last], some last.package⟩ =
      ⟨tree, globalCounts, trace ++ frames.destutter' Frame.Differs last,
        oldPackage⟩ := by
  induction frames generalizing trace last with
  | nil => exact ⟨some last.package, rfl⟩
  | cons frame frames ih =>
      rw [List.foldl_cons]
      by_cases hne : last.Differs frame
      · have hadd : ReadState.add ⟨tree, globalCounts, trace ++ [last], some last.package⟩ frame =
            ⟨tree, globalCounts, (trace ++ [last]) ++ [frame], some frame.package⟩ := by
          have hne' : some frame.package ≠ some last.package := by simpa using Ne.symm hne
          rw [ReadState.add, if_pos hne']
        obtain ⟨oldPackage, hrest⟩ := ih (trace ++ [last]) frame
        refine ⟨oldPackage, ?_⟩
        rw [hadd, hrest, List.destutter'_cons_pos _ hne, List.append_assoc]
        rfl
      · have hadd : ReadState.add ⟨tree, globalCounts, trace ++ [last], some last.package⟩ frame =
            ⟨tree, globalCounts, trace ++ [last], some last.package⟩ := by
          have heq : ¬ some frame.package ≠ some last.package := by
            simpa using (not_not.mp hne).symm
          rw [ReadState.add, if_neg heq]
        rw [hadd, List.destutter'_cons_neg _ hne]
        exact ih trace last

theorem afterBlock_eq (s : ReadState) (b : Block) : ∃ oldPackage,
    afterBlock threadname killList s b =
      ⟨(addTrace s.traceTree s.trace killList s.globalCounts).1,
        (addTrace s.traceTree s.trace killList s.globalCounts).2,
        normalised threadname b, oldPackage⟩ := by
  rw [afterBlock, foldl_nextState, normalised, ReadState.flush]
  cases b.frames.filterMap (kept threadname) with
  | nil => exact ⟨none, rfl⟩
  | cons frame frames =>
      obtain ⟨oldPackage, h⟩ := foldl_add frames [] frame
        (addTrace s.traceTree s.trace killList s.globalCounts).1
        (addTrace s.traceTree s.trace killList s.globalCounts).2
      refine ⟨oldPackage, ?_⟩
      rw [List.destutter_cons']
      exact h

/-! ## The whole file -/

/-- The traces in the order of reading. The reader starts with an empty one. -/
def traces (threadname : Option Str) (blocks : List Block) : List (List Frame) :=
  [] :: blocks.map (normalised threadname)

theorem read_ok_iff (blocks : List Block) :
    (∃ s, read threadname killList (blocks.flatMap Block.lines) = .ok s) ↔
      ∀ b ∈ blocks, ∀ line ∈ b.frames, Legible threadname line := by
  have hline : ∀ line ∈ blocks.flatMap Block.lines, ∀ s,
      (∃ s', readLine threadname killList s line = .ok s') ↔
        ([' '] <+: line → Legible threadname line) := by
    intro line hline s
    by_cases hstart : [' '] <+: line
    · obtain ⟨b, hb, hmem⟩ := List.mem_flatMap.mp hline
      rcases List.mem_cons.mp hmem with rfl | hmem
      · exact absurd hstart b.header_start
      · rw [readLine_frame_ok_iff hstart (b.frame_comma line hmem)]
        simp [hstart]
    · simp [readLine_header hstart, hstart]
  rw [read, exists_foldlM_ok _ hline]
  constructor
  · intro h b hb line hmem
    exact h line (List.mem_flatMap.mpr ⟨b, hb, List.mem_cons_of_mem _ hmem⟩)
      (b.frame_start line hmem)
  · intro h line hmem hstart
    obtain ⟨b, hb, hmem⟩ := List.mem_flatMap.mp hmem
    rcases List.mem_cons.mp hmem with rfl | hmem
    · exact absurd hstart b.header_start
    · exact h b hb line hmem

/-- At the end all traces but the last have been added, and the last is pending. -/
theorem read_blocks {blocks : List Block}
    (h : ∀ b ∈ blocks, ∀ line ∈ b.frames, Legible threadname line) :
    ∃ s, read threadname killList (blocks.flatMap Block.lines) = .ok s ∧
      (s.traceTree, s.globalCounts) =
        run ((traces threadname blocks).dropLast.map fun trace => ⟨trace, killList⟩) ∧
      (traces threadname blocks).getLast? = some s.trace := by
  induction blocks using List.reverseRecOn with
  | nil => exact ⟨_, rfl, rfl, rfl⟩
  | append_singleton blocks b ih =>
      have hblocks : ∀ c ∈ blocks, ∀ line ∈ c.frames, Legible threadname line :=
        fun c hc => h c (by simp [hc])
      have hb : ∀ line ∈ b.frames, Legible threadname line := h b (by simp)
      obtain ⟨s, hread, htree, htrace⟩ := ih hblocks
      obtain ⟨oldPackage, hafter⟩ := @afterBlock_eq threadname killList s b
      have htraces : traces threadname (blocks ++ [b]) =
          traces threadname blocks ++ [normalised threadname b] := by
        simp [traces]
      have hpending : traces threadname blocks =
          (traces threadname blocks).dropLast ++ [s.trace] := by
        obtain ⟨front, hfront⟩ := List.getLast?_eq_some_iff.mp htrace
        rw [hfront, List.dropLast_concat]
      refine ⟨afterBlock threadname killList s b, ?_, ?_, ?_⟩
      · rw [read] at hread ⊢
        rw [List.flatMap_append, List.flatMap_singleton, List.foldlM_append, hread]
        exact foldlM_block hb s
      · rw [htraces, List.dropLast_concat, hpending, List.map_append, run, List.foldl_append,
          ← run, ← htree, hafter]
        rfl
      · rw [htraces, hafter]
        simp

/-! ## Percentages -/

/-- A tree with an accepted trace has a count in every node. -/
theorem addPercentages_run {calls : List Call} (h : accepted calls ≠ []) :
    ∃ tree, addPercentages double (run calls).1 = .ok tree :=
  ⟨_, (counted_run calls).addPercentages_eq h⟩

/-! ## The count of a file -/

/-- The root counts the blocks whose trace is accepted, and if there is one the
percentages can be added. -/
structure CountsAll (threadname : Option Str) (killList : List Str) (blocks : List Block)
    (s : ReadState) : Prop where
  count : s.traceTree.countOf = blocks.countP fun b => (b.call threadname killList).Accepted
  percentages : (∃ b ∈ blocks, (b.call threadname killList).Accepted) →
    ∃ tree, addPercentages double s.traceTree = .ok tree

/-- The calls of `addTrace` that reading makes: one for every block but the last. -/
theorem accepted_traces (blocks : List Block) :
    (accepted ((traces threadname blocks).dropLast.map fun trace => ⟨trace, killList⟩)).length =
      blocks.dropLast.countP fun b => (b.call threadname killList).Accepted := by
  have hempty : ¬ (⟨[], killList⟩ : Call).Accepted := fun h => h.1 rfl
  cases blocks with
  | nil => rfl
  | cons b blocks =>
      have hdrop : (traces threadname (b :: blocks)).dropLast =
          [] :: (b :: blocks).dropLast.map (normalised threadname) := by
        rw [traces, List.map_cons, List.dropLast_cons_cons, ← List.map_cons, List.map_dropLast]
      rw [hdrop, accepted, List.length_map, ← List.countP_eq_length_filter, List.map_cons,
        List.countP_cons_of_neg (by simpa using hempty), List.map_map, List.countP_map]
      rfl

/-- What the root counts when reading ends, and that this suffices for the percentages. -/
theorem read_count {blocks : List Block} {s : ReadState}
    (h : read threadname killList (blocks.flatMap Block.lines) = .ok s) :
    s.traceTree.countOf =
      blocks.dropLast.countP (fun b => (b.call threadname killList).Accepted) ∧
    (s.traceTree.countOf ≠ 0 → ∃ tree, addPercentages double s.traceTree = .ok tree) := by
  obtain ⟨s', hread, htree, -⟩ := read_blocks ((read_ok_iff blocks).mp ⟨s, h⟩)
  obtain rfl : s' = s := Except.ok.inj (hread.symm.trans h)
  have hcount := (counted_run ((traces threadname blocks).dropLast.map
    fun trace => ⟨trace, killList⟩)).count_eq (nodeAt_nil _)
  have haccepted := @accepted_traces threadname killList blocks
  rw [← htree, withPrefix_nil] at hcount
  have hcountOf : s'.traceTree.countOf = _ := congrArg (Option.getD · 0) hcount
  rw [getD_tally] at hcountOf
  refine ⟨hcountOf.trans haccepted, ?_⟩
  intro hne
  rw [hcountOf] at hne
  have hrun := addPercentages_run (fun hnil => hne (List.length_eq_zero_iff.mpr hnil))
  rwa [← htree] at hrun

/-- Reading ends if all frame lines are legible, and has then counted every block if the
last one is not to be counted: its trace is never added. -/
theorem read_countsAll_iff (threadname : Option Str) (killList : List Str) (blocks : List Block) :
    ((∃ s, read threadname killList (blocks.flatMap Block.lines) = .ok s) ↔
      ∀ b ∈ blocks, ∀ line ∈ b.frames, Legible threadname line) ∧
    ((∃ s, read threadname killList (blocks.flatMap Block.lines) = .ok s ∧
        CountsAll threadname killList blocks s) ↔
      (∀ b ∈ blocks, ∀ line ∈ b.frames, Legible threadname line) ∧
        ∀ b ∈ blocks.getLast?, ¬ (b.call threadname killList).Accepted) := by
  refine ⟨read_ok_iff blocks, ?_⟩
  rw [← @read_ok_iff threadname killList blocks]
  constructor
  · rintro ⟨s, hread, hall⟩
    refine ⟨⟨s, hread⟩, ?_⟩
    intro b hb haccepted
    obtain ⟨front, rfl⟩ := List.getLast?_eq_some_iff.mp hb
    have hcount := (read_count hread).1
    rw [hall.count, List.dropLast_concat, List.countP_append,
      List.countP_singleton, if_pos (by simpa using haccepted)] at hcount
    omega
  · rintro ⟨⟨s, hread⟩, hlast⟩
    obtain ⟨hcount, hpercentages⟩ := read_count hread
    have hall : s.traceTree.countOf =
        blocks.countP fun b => (b.call threadname killList).Accepted := by
      rw [hcount]
      rcases blocks.eq_nil_or_concat with rfl | ⟨front, b, rfl⟩
      · rfl
      · have hb : ¬ (b.call threadname killList).Accepted := hlast b (by simp)
        rw [List.concat_eq_append, List.dropLast_concat, List.countP_append,
          List.countP_singleton, if_neg (by simpa using hb), Nat.add_zero]
    refine ⟨s, hread, hall, ?_⟩
    rintro ⟨b, hb, haccepted⟩
    refine hpercentages ?_
    rw [hall]
    exact Nat.ne_of_gt (List.countP_pos_iff.mpr ⟨b, hb, by simpa using haccepted⟩)

/-- A profile of one block. -/
def oneBlock : Block where
  header := "12:00:00.000,main,4711,50.00%,0,false\n"
  frames := [" main,org.example.Main.run(10)\n"]
  header_start := by decide
  frame_start := by decide
  frame_comma := by decide

/-- The only trace of a file is not counted, and the percentages raise. -/
theorem oneBlock_not_counted : ∃ s,
    fileLines "12:00:00.000,main,4711,50.00%,0,false\n main,org.example.Main.run(10)\n" =
      [oneBlock].flatMap Block.lines ∧
    read none [] ([oneBlock].flatMap Block.lines) = .ok s ∧ ¬ CountsAll none [] [oneBlock] s ∧
    (oneBlock.call none []).Accepted ∧ addPercentages double s.traceTree = .error .keyError :=
  ⟨_, by decide, rfl, fun h => absurd h.count (by decide), by decide, rfl⟩

end Structor.Profile
