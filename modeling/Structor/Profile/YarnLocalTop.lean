import Structor.Keyed

/-!
# The views of the running containers (`YarnLocalTop.run`)

The main loop looks for containers on every fifth iteration, tracks a view for each process
id it has not got yet, and prints the views. A view whose process is gone asks to exit while
it is printed, and is deleted before the next look. A process id may appear again, with
another view.

## Main definitions

* `Tracker`, `move` -- the map of the views, and what the loop does to it
* `Run` -- the iterations of the loop, with all moves that they make
* `Refreshes` -- what a refresh should do
-/
namespace Structor.YarnLocalTop

/-- A view object. `ident` tells two of them apart that have the same process id. -/
structure View where
  ident : ℕ
  pid : ℤ
  shouldExit : Bool

/-- The map from process ids to views, in the order of the views' creation. -/
structure Tracker where
  map : List View
  /-- How many views were created. -/
  created : ℕ
  /-- The calls of `printView`: of which view, and whether the view asked to exit. -/
  printed : List (ℕ × Bool)

/-- What the loop does to the map, one thing at a time. -/
inductive Move
  /-- Delete the views that should exit. -/
  | delete
  /-- Track a process id that has no view. -/
  | look (pid : ℤ)
  /-- Print a view, unless it should exit. It may then ask to exit. -/
  | update (ident : ℕ) (exits : Bool)

def track (t : Tracker) (pid : ℤ) : Tracker :=
  match Keyed.get View.pid pid t.map with
  | some _ => t
  | none =>
      let view : View := { ident := t.created, pid, shouldExit := false }
      { t with map := Keyed.put View.pid view t.map, created := t.created + 1 }

def setExit (ident : ℕ) (exits : Bool) (v : View) : View :=
  if v.ident = ident then { v with shouldExit := v.shouldExit || exits } else v

def update (t : Tracker) (ident : ℕ) (exits : Bool) : Tracker :=
  match Keyed.get View.ident ident t.map with
  | none => t
  | some view =>
      if view.shouldExit then t
      else
        { t with
          map := t.map.map (setExit ident exits)
          printed := t.printed ++ [(ident, exits)] }

def move (t : Tracker) : Move → Tracker
  | .delete => { t with map := t.map.filter fun v => !v.shouldExit }
  | .look pid => track t pid
  | .update ident exits => update t ident exits

def pidCheckStep : ℤ := 5

structure Top where
  tracker : Tracker
  iterations : ℤ

/-- An `int` that is one too large wraps around. -/
def increment (n : ℤ) : ℤ := (n + 1).bmod (2 ^ 32)

/-- The moves before the views are printed, when `getYarnPids` returns `pids`. -/
def looks (pid : Option ℤ) (iterations : ℤ) (pids : List ℤ) : List Move :=
  match pid with
  | none =>
      if iterations.tmod pidCheckStep = 0 then .delete :: pids.map .look else []
  | some pid => [.look pid]

/-- Some iterations of the loop, with the moves they make. Each prints all views of the map, in
the order that the map has them in, which is not known. -/
inductive Run (pid : Option ℤ) (maxIterations : ℤ) : Top → List Move → Top → Prop
  | nil (s : Top) : Run pid maxIterations s [] s
  | iteration {s s' : Top} {moves : List Move} (pids : List ℤ) (updates : List (ℕ × Bool))
      (hwhile : s.iterations < maxIterations ∨ maxIterations < 0)
      (hvalues : (updates.map Prod.fst).Perm
        (((looks pid s.iterations pids).foldl move s.tracker).map.map View.ident))
      (hrest : Run pid maxIterations
        { tracker := (looks pid s.iterations pids ++
            updates.map fun u => Move.update u.1 u.2).foldl move s.tracker
          iterations := increment s.iterations } moves s') :
      Run pid maxIterations s
        ((looks pid s.iterations pids ++ updates.map fun u => Move.update u.1 u.2) ++ moves) s'

def start : Top where
  tracker := { map := [], created := 0, printed := [] }
  iterations := 0

/-! ## What should hold -/

def OnePerPid (t : Tracker) : Prop := (t.map.map View.pid).Nodup

/-- After a view asks to exit it is not printed again. -/
def NeverAgain (t : Tracker) : Prop := t.printed.Pairwise fun a b => a.2 = true → b.1 ≠ a.1

/-- A refresh keeps the views that have not asked to exit, and adds a view that was never seen
before for each process id of the list without one of them. -/
structure Refreshes (pids : List ℤ) (before after : Tracker) : Prop where
  views : ∃ fresh, after.map = (before.map.filter fun v => !v.shouldExit) ++ fresh ∧
    (fresh.map View.pid).Nodup ∧
    (∀ p, p ∈ fresh.map View.pid ↔
      p ∈ pids ∧ p ∉ (before.map.filter fun v => !v.shouldExit).map View.pid) ∧
    ∀ v ∈ fresh, (∀ u ∈ before.map, u.ident ≠ v.ident) ∧ ∀ u ∈ before.printed, u.1 ≠ v.ident
  none_exited : ∀ v ∈ after.map, v.shouldExit = false

/-! ## One move -/

/-- What holds of the map before every move. -/
structure Inv (t : Tracker) : Prop where
  pids : OnePerPid t
  idents : (t.map.map View.ident).Nodup
  lt : ∀ v ∈ t.map, v.ident < t.created
  printed : ∀ u ∈ t.printed, u.1 < t.created
  asked : ∀ u ∈ t.printed, u.2 = true → ∀ v ∈ t.map, v.ident = u.1 → v.shouldExit = true
  neverAgain : NeverAgain t

theorem inv_start : Inv start.tracker := by
  constructor <;> simp [start, OnePerPid, NeverAgain]

variable {t : Tracker}

/-- A process id with a view is passed over, one without gets a view at the end of the map. -/
theorem track_eq (t : Tracker) (pid : ℤ) :
    pid ∈ t.map.map View.pid ∧ track t pid = t ∨
      pid ∉ t.map.map View.pid ∧ track t pid = { t with
        map := t.map ++ [{ ident := t.created, pid, shouldExit := false }]
        created := t.created + 1 } := by
  rw [track]
  cases hget : Keyed.get View.pid pid t.map with
  | some v => exact .inl ⟨Keyed.get_isSome_iff.mp (by rw [hget]; rfl), rfl⟩
  | none =>
      refine .inr ⟨fun hmem => ?_, ?_⟩
      · have hsome := Keyed.get_isSome_iff.mpr hmem
        simp [hget] at hsome
      · have hput : Keyed.put View.pid ⟨t.created, pid, false⟩ t.map =
            t.map ++ [⟨t.created, pid, false⟩] := Keyed.put_of_get_none hget
        simp only [hput]

@[simp] theorem setExit_pid (ident : ℕ) (exits : Bool) (v : View) :
    (setExit ident exits v).pid = v.pid := by
  rw [setExit]
  split <;> rfl

@[simp] theorem setExit_ident (ident : ℕ) (exits : Bool) (v : View) :
    (setExit ident exits v).ident = v.ident := by
  rw [setExit]
  split <;> rfl

/-- No view takes its request back. -/
theorem setExit_shouldExit (ident : ℕ) (exits : Bool) (v : View) :
    (setExit ident exits v).shouldExit =
      (v.shouldExit || decide (v.ident = ident) && exits) := by
  by_cases h : v.ident = ident <;> simp [setExit, h]

/-- A view is printed if it is in the map and has not asked to exit. -/
theorem update_eq (t : Tracker) (ident : ℕ) (exits : Bool) :
    update t ident exits = t ∨
      (∃ v ∈ t.map, v.ident = ident ∧ v.shouldExit = false) ∧
        update t ident exits = { t with
          map := t.map.map (setExit ident exits)
          printed := t.printed ++ [(ident, exits)] } := by
  rw [update]
  cases hget : Keyed.get View.ident ident t.map with
  | none => exact .inl rfl
  | some v =>
      by_cases hexit : v.shouldExit = true
      · exact .inl (by simp [hexit])
      · refine .inr ⟨⟨v, Keyed.mem_of_get hget, Keyed.key_of_get hget, by simpa using hexit⟩, ?_⟩
        simp [hexit]

theorem inv_delete (h : Inv t) : Inv (move t .delete) where
  pids := h.pids.sublist (List.filter_sublist.map _)
  idents := h.idents.sublist (List.filter_sublist.map _)
  lt v hv := h.lt v (List.mem_of_mem_filter hv)
  printed := h.printed
  asked u hu hexit v hv := h.asked u hu hexit v (List.mem_of_mem_filter hv)
  neverAgain := h.neverAgain

theorem inv_look (h : Inv t) (pid : ℤ) : Inv (move t (.look pid)) := by
  have htrack : move t (.look pid) = track t pid := rfl
  rw [htrack]
  rcases track_eq t pid with ⟨-, heq⟩ | ⟨hnew, heq⟩
  · rw [heq]
    exact h
  · rw [heq]
    refine ⟨?_, ?_, ?_, ?_, ?_, h.neverAgain⟩
    · rw [OnePerPid, List.map_append, List.nodup_append]
      refine ⟨h.pids, List.nodup_singleton _, ?_⟩
      intro p hp q hq hpq
      rw [List.map_singleton, List.mem_singleton] at hq
      rw [hpq, hq] at hp
      exact hnew hp
    · rw [List.map_append, List.nodup_append]
      refine ⟨h.idents, List.nodup_singleton _, ?_⟩
      intro i hi j hj hij
      obtain ⟨v, hv, rfl⟩ := List.mem_map.mp hi
      rw [List.map_singleton, List.mem_singleton] at hj
      rw [hj] at hij
      exact absurd hij (Nat.ne_of_lt (h.lt v hv))
    · intro v hv
      rcases List.mem_append.mp hv with hv | hv
      · exact Nat.lt_succ_of_lt (h.lt v hv)
      · rw [List.mem_singleton.mp hv]
        exact Nat.lt_succ_self _
    · intro u hu
      exact Nat.lt_succ_of_lt (h.printed u hu)
    · intro u hu hexit v hv hident
      rcases List.mem_append.mp hv with hv | hv
      · exact h.asked u hu hexit v hv hident
      · have hlt := h.printed u hu
        rw [List.mem_singleton.mp hv] at hident
        simp only at hident
        omega

theorem inv_update (h : Inv t) (ident : ℕ) (exits : Bool) : Inv (move t (.update ident exits)) := by
  have hupdate : move t (.update ident exits) = update t ident exits := rfl
  rw [hupdate]
  rcases update_eq t ident exits with heq | ⟨⟨v, hv, hident, hexit⟩, heq⟩
  · rw [heq]
    exact h
  · rw [heq]
    have hpids : (t.map.map (setExit ident exits)).map View.pid = t.map.map View.pid := by
      simp [Function.comp_def]
    have hidents : (t.map.map (setExit ident exits)).map View.ident = t.map.map View.ident := by
      simp [Function.comp_def]
    refine ⟨?_, ?_, ?_, ?_, ?_, ?_⟩
    · rw [OnePerPid, hpids]
      exact h.pids
    · rw [hidents]
      exact h.idents
    · intro w hw
      obtain ⟨u, hu, rfl⟩ := List.mem_map.mp hw
      rw [setExit_ident]
      exact h.lt u hu
    · intro u hu
      rcases List.mem_append.mp hu with hu | hu
      · exact h.printed u hu
      · rw [List.mem_singleton.mp hu, ← hident]
        exact h.lt v hv
    · intro u hu hasked w hw hname
      obtain ⟨w', hw', rfl⟩ := List.mem_map.mp hw
      rw [setExit_ident] at hname
      rw [setExit_shouldExit]
      rcases List.mem_append.mp hu with hu | hu
      · rw [h.asked u hu hasked w' hw' hname, Bool.true_or]
      · rw [List.mem_singleton.mp hu] at hname hasked
        simp only at hname hasked
        simp [hname, hasked]
    · rw [NeverAgain, List.pairwise_append]
      refine ⟨h.neverAgain, List.pairwise_singleton _ _, ?_⟩
      intro u hu w hw hasked
      rw [List.mem_singleton.mp hw]
      intro hname
      have hexited := h.asked u hu hasked v hv (hident.trans hname)
      rw [hexit] at hexited
      cases hexited

theorem inv_move (h : Inv t) (m : Move) : Inv (move t m) := by
  cases m with
  | delete => exact inv_delete h
  | look pid => exact inv_look h pid
  | update ident exits => exact inv_update h ident exits

theorem inv_foldl_move (h : Inv t) (moves : List Move) : Inv (moves.foldl move t) := by
  induction moves generalizing t with
  | nil => exact h
  | cons m moves ih => exact ih (inv_move h m)

/-! ## A refresh -/

/-- Looking at process ids adds a view for each that has none. -/
theorem foldl_look (t : Tracker) (pids : List ℤ) : ∃ fresh,
    ((pids.map .look).foldl move t).map = t.map ++ fresh ∧
    (fresh.map View.pid).Nodup ∧
    (∀ p, p ∈ fresh.map View.pid ↔ p ∈ pids ∧ p ∉ t.map.map View.pid) ∧
    ∀ v ∈ fresh, t.created ≤ v.ident ∧ v.shouldExit = false := by
  induction pids generalizing t with
  | nil => exact ⟨[], by simp⟩
  | cons pid pids ih =>
      rw [List.map_cons, List.foldl_cons, move]
      obtain ⟨fresh, hmap, hnodup, hmem, hfresh⟩ := ih (track t pid)
      rcases track_eq t pid with ⟨hold, heq⟩ | ⟨hnew, heq⟩
      · rw [heq] at hmap hmem hfresh ⊢
        refine ⟨fresh, hmap, hnodup, ?_, hfresh⟩
        intro p
        rw [hmem, List.mem_cons]
        constructor
        · intro hp
          exact ⟨.inr hp.1, hp.2⟩
        · intro hp
          refine ⟨hp.1.resolve_left fun heq => hp.2 ?_, hp.2⟩
          rw [heq]
          exact hold
      · rw [heq] at hmap hmem hfresh ⊢
        simp only [List.map_append, List.map_singleton, List.mem_append, List.mem_singleton]
          at hmem
        refine ⟨⟨t.created, pid, false⟩ :: fresh, ?_, ?_, ?_, ?_⟩
        · rw [hmap, List.append_assoc, List.singleton_append]
        · rw [List.map_cons, List.nodup_cons, hmem]
          exact ⟨fun h => h.2 (.inr rfl), hnodup⟩
        · intro p
          rw [List.map_cons, List.mem_cons, List.mem_cons, hmem]
          by_cases hp : p = pid
          · subst hp
            simp [hnew]
          · simp [hp]
        · intro v hv
          rcases List.mem_cons.mp hv with rfl | hv
          · exact ⟨Nat.le_refl _, rfl⟩
          · exact ⟨Nat.le_of_succ_le (hfresh v hv).1, (hfresh v hv).2⟩

/-- A refresh does what it should. -/
theorem refreshes (h : Inv t) (pids : List ℤ) :
    Refreshes pids t ((Move.delete :: pids.map .look).foldl move t) := by
  obtain ⟨fresh, hmap, hnodup, hmem, hfresh⟩ := foldl_look (move t .delete) pids
  constructor
  · refine ⟨fresh, hmap, hnodup, hmem, ?_⟩
    intro v hv
    have hle : t.created ≤ v.ident := (hfresh v hv).1
    constructor
    · intro u hu
      exact Nat.ne_of_lt (Nat.lt_of_lt_of_le (h.lt u hu) hle)
    · intro u hu
      exact Nat.ne_of_lt (Nat.lt_of_lt_of_le (h.printed u hu) hle)
  · intro v hv
    rw [List.foldl_cons, hmap] at hv
    rcases List.mem_append.mp hv with hv | hv
    · simpa using (List.mem_filter.mp hv).2
    · exact (hfresh v hv).2

/-! ## The whole run -/

/-- The moves of the iterations lead from the first state to the last. -/
theorem Run.foldl_move {pid : Option ℤ} {maxIterations : ℤ} {s s' : Top} {moves : List Move}
    (h : Run pid maxIterations s moves s') : moves.foldl move s.tracker = s'.tracker := by
  induction h with
  | nil s => rfl
  | iteration pids updates hwhile hvalues hrest ih => rw [List.foldl_append, ih]

/-- At every moment of a run there is one view for a process id, no view is printed after it
asked to exit, and every refresh leaves the views it should. -/
theorem tracks_views {pid : Option ℤ} {maxIterations : ℤ} {s : Top} {moves : List Move}
    (h : Run pid maxIterations start moves s) :
    (∀ earlier later, moves = earlier ++ later →
      OnePerPid (earlier.foldl move start.tracker)) ∧
    NeverAgain s.tracker ∧
    ∀ earlier pids later, moves = earlier ++ (Move.delete :: pids.map .look) ++ later →
      Refreshes pids (earlier.foldl move start.tracker)
        ((earlier ++ (Move.delete :: pids.map .look)).foldl move start.tracker) := by
  refine ⟨?_, ?_, ?_⟩
  · intro earlier later _
    exact (inv_foldl_move inv_start earlier).pids
  · rw [← h.foldl_move]
    exact (inv_foldl_move inv_start moves).neverAgain
  · intro earlier pids later _
    rw [List.foldl_append]
    exact refreshes (inv_foldl_move inv_start earlier) pids

/-- The view of process 7 asks to exit when it is first printed. The process is listed again on
the second refresh and gets another view. -/
theorem reappearing_tracks : ∃ moves s, Run none 6 start moves s ∧
    s.tracker.map.map View.ident = [1, 2] ∧ NeverAgain s.tracker := by
  have hrun : ∃ moves s, Run none 6 start moves s ∧ s.tracker.map.map View.ident = [1, 2] :=
    ⟨_, _, .iteration [7, 7, 9] [(1, false), (0, true)] (by decide) (by decide)
      (.iteration [] [(0, false), (1, false)] (by decide) (by decide)
      (.iteration [] [(0, false), (1, false)] (by decide) (by decide)
      (.iteration [] [(0, false), (1, false)] (by decide) (by decide)
      (.iteration [] [(0, false), (1, false)] (by decide) (by decide)
      (.iteration [7] [(1, false), (2, false)] (by decide) (by decide) (.nil _)))))), by decide⟩
  obtain ⟨moves, s, hrun, hmap⟩ := hrun
  exact ⟨moves, s, hrun, hmap, (tracks_views hrun).2.1⟩

end Structor.YarnLocalTop
