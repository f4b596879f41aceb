import Mathlib.Data.Nat.Notation
import Mathlib.Tactic.Common
import Structor.Lists

/-!
# Puppet manifests

A manifest is a block of statements, each under the conditions of the `if`s around it. To
declare a class (`include`, `require`) is to execute the manifest of the class. An arrow
between two classes fails at the end if one of them was not declared.

## Main definitions

* `compile` -- the classes that are declared, or why there is no catalog
* `Executes` -- the statements that are reached
* `derive` -- all statements that can be reached, each with the conditions on its way
-/
namespace Structor.Puppet
variable {κ γ ε : Type}

inductive Stmt (γ : Type) where
  | declare (c : γ)
  | arrow (a b : γ)
deriving DecidableEq

/-- A statement and the conditions of the `if`s around it, outermost first. -/
structure Guarded (κ γ : Type) where
  given : List κ
  stmt : Stmt γ
deriving DecidableEq

abbrev Block (κ γ : Type) := List (Guarded κ γ)

/-- `include` or `require` of some classes. -/
def declare (cs : List γ) : Block κ γ := cs.map fun c => ⟨[], .declare c⟩

/-- `Class[a] -> Class[b]` -/
def arrow (a b : γ) : Block κ γ := [⟨[], .arrow a b⟩]

/-- A statement under more conditions. -/
def Guarded.under (ks : List κ) (g : Guarded κ γ) : Guarded κ γ := ⟨ks ++ g.given, g.stmt⟩

/-- `if k and k' .. { block }` -/
def when (ks : List κ) (b : Block κ γ) : Block κ γ := b.map (Guarded.under ks)

/-! ## Execution -/

/-- The conjunction of some conditions. A condition that is not reached is not evaluated. -/
def holds (eval : κ → Except ε Bool) : List κ → Except ε Bool
  | [] => .ok true
  | k :: ks => do if ← eval k then holds eval ks else pure false

/-- The statements of a block whose conditions hold. -/
def executed (eval : κ → Except ε Bool) : Block κ γ → Except ε (List (Stmt γ))
  | [] => .ok []
  | g :: b => do
      let t ← holds eval g.given
      let rest ← executed eval b
      pure (if t then g.stmt :: rest else rest)

inductive Failure (ε γ : Type) where
  | raised (e : ε)
  | noClass (c : γ)
  | notDeclared (c : γ)
  | tooDeep

/-- The statements that a statement leads to: those of the class it declares. -/
def enter (manifest : γ → Option (Block κ γ))
    (runBlock : Block κ γ → Except (Failure ε γ) (List (Stmt γ))) :
    Stmt γ → Except (Failure ε γ) (List (Stmt γ))
  | .declare c =>
      match manifest c with
      | none => .error (.noClass c)
      | some b => runBlock b
  | .arrow _ _ => .ok []

/-- The statements that a block executes, those of the classes it declares included. -/
def run (eval : κ → Except ε Bool) (manifest : γ → Option (Block κ γ)) :
    ℕ → Block κ γ → Except (Failure ε γ) (List (Stmt γ))
  | 0, _ => .error .tooDeep
  | n + 1, b => do
      let now ← (executed eval b).mapError .raised
      let inner ← now.mapM (enter manifest (run eval manifest n))
      pure (now ++ inner.flatten)

def classes (out : List (Stmt γ)) : List γ :=
  out.filterMap fun s =>
    match s with
    | .declare c => some c
    | .arrow _ _ => none

/-- The classes that arrows mention. -/
def ordered (out : List (Stmt γ)) : List γ :=
  out.flatMap fun s =>
    match s with
    | .declare _ => []
    | .arrow a b => [a, b]

/-- The first class that an arrow mentions and nothing declares. -/
def undeclared [DecidableEq γ] (out : List (Stmt γ)) : Option γ :=
  (ordered out).find? fun c => !(classes out).contains c

/-- The classes of the catalog. -/
def compile [DecidableEq γ] (eval : κ → Except ε Bool) (manifest : γ → Option (Block κ γ))
    (n : ℕ) (site : Block κ γ) : Except (Failure ε γ) (List γ) := do
  let out ← run eval manifest n site
  match undeclared out with
  | some c => .error (.notDeclared c)
  | none => pure (classes out)

/-- The statement is executed by the block or by a class that the block declares. -/
inductive Executes (eval : κ → Except ε Bool) (manifest : γ → Option (Block κ γ)) :
    Block κ γ → Stmt γ → Prop where
  | here {b : Block κ γ} {g : Guarded κ γ} (hg : g ∈ b) (h : holds eval g.given = .ok true) :
      Executes eval manifest b g.stmt
  | inside {b b' : Block κ γ} {g : Guarded κ γ} {c : γ} {s : Stmt γ} (hg : g ∈ b)
      (h : holds eval g.given = .ok true) (hc : g.stmt = .declare c)
      (hb : manifest c = some b') (hs : Executes eval manifest b' s) : Executes eval manifest b s

/-- All statements that can be reached, under the conditions of all blocks on the way. -/
def derive (manifest : γ → Option (Block κ γ)) : ℕ → Block κ γ → Block κ γ
  | 0, _ => []
  | n + 1, b => b ++ b.flatMap fun g =>
      match g.stmt with
      | .declare c => when g.given (derive manifest n ((manifest c).getD []))
      | .arrow _ _ => []

/-! ## Conditions -/

variable {eval : κ → Except ε Bool} {manifest : γ → Option (Block κ γ)} {b : Block κ γ}
  {s : Stmt γ} {out : List (Stmt γ)} {n : ℕ}

theorem holds_cons_of_true {k : κ} (hk : eval k = .ok true) (ks : List κ) :
    holds eval (k :: ks) = holds eval ks := by
  rw [holds, hk]
  rfl

theorem holds_cons_of_false {k : κ} (hk : eval k = .ok false) (ks : List κ) :
    holds eval (k :: ks) = .ok false := by
  rw [holds, hk]
  rfl

theorem holds_eq_true_iff {ks : List κ} :
    holds eval ks = .ok true ↔ ∀ k ∈ ks, eval k = .ok true := by
  induction ks with
  | nil => simp [holds]
  | cons k ks ih =>
      rw [List.forall_mem_cons, ← ih]
      cases hk : eval k with
      | error e => simp [holds, hk, bind, Except.bind]
      | ok t => cases t <;> simp [holds, hk, bind, Except.bind, pure, Except.pure]

/-- A conjunction whose conditions do not raise. -/
theorem exists_holds {ks : List κ} (h : ∀ k ∈ ks, ∃ t, eval k = .ok t) :
    ∃ t, holds eval ks = .ok t := by
  induction ks with
  | nil => exact ⟨true, rfl⟩
  | cons k ks ih =>
      rw [List.forall_mem_cons] at h
      obtain ⟨t, ht⟩ := h.1
      cases t with
      | false => exact ⟨false, holds_cons_of_false ht ks⟩
      | true => exact holds_cons_of_true ht ks ▸ ih h.2

theorem exists_eval_of_holds {k : κ} {ks : List κ} {t : Bool}
    (h : holds eval (k :: ks) = .ok t) : ∃ t', eval k = .ok t' := by
  cases hk : eval k with
  | error e => simp [holds, hk, bind, Except.bind] at h
  | ok t' => exact ⟨t', rfl⟩

theorem holds_append_eq_true_iff {ks ks' : List κ} :
    holds eval (ks ++ ks') = .ok true ↔ holds eval ks = .ok true ∧ holds eval ks' = .ok true := by
  simp only [holds_eq_true_iff, List.forall_mem_append]

/-! ## One block -/

theorem executed_cons (g : Guarded κ γ) (b : Block κ γ) {t : Bool} {rest : List (Stmt γ)}
    (ht : holds eval g.given = .ok t) (hrest : executed eval b = .ok rest) :
    executed eval (g :: b) = .ok (if t then g.stmt :: rest else rest) := by
  rw [executed, ht, hrest]
  rfl

theorem of_executed_cons {g : Guarded κ γ} (h : executed eval (g :: b) = .ok out) :
    ∃ t rest, holds eval g.given = .ok t ∧ executed eval b = .ok rest ∧
      out = if t then g.stmt :: rest else rest := by
  rw [executed] at h
  cases ht : holds eval g.given with
  | error e => simp [ht, bind, Except.bind] at h
  | ok t =>
      cases hrest : executed eval b with
      | error e => simp [ht, hrest, bind, Except.bind] at h
      | ok rest =>
          simp only [ht, hrest, bind, Except.bind, pure, Except.pure, Except.ok.injEq] at h
          exact ⟨t, rest, rfl, rfl, h.symm⟩

theorem mem_executed (h : executed eval b = .ok out) :
    s ∈ out ↔ ∃ g ∈ b, holds eval g.given = .ok true ∧ g.stmt = s := by
  induction b generalizing out with
  | nil =>
      cases h
      simp
  | cons g b ih =>
      obtain ⟨t, rest, ht, hrest, rfl⟩ := of_executed_cons h
      cases t <;> simp [ht, ih hrest, eq_comm]

/-- A block is executed unless a condition raises. -/
theorem exists_executed_iff :
    (∃ out, executed eval b = .ok out) ↔ ∀ g ∈ b, ∃ t, holds eval g.given = .ok t := by
  induction b with
  | nil => simp [executed]
  | cons g b ih =>
      rw [List.forall_mem_cons, ← ih]
      constructor
      · intro h
        obtain ⟨out, h⟩ := h
        obtain ⟨t, rest, ht, hrest, -⟩ := of_executed_cons h
        exact ⟨⟨t, ht⟩, rest, hrest⟩
      · intro h
        obtain ⟨⟨t, ht⟩, rest, hrest⟩ := h
        exact ⟨_, executed_cons g b ht hrest⟩

/-! ## The classes of statements -/

theorem mem_classes {c : γ} : c ∈ classes out ↔ .declare c ∈ out := by
  rw [classes, List.mem_filterMap]
  constructor
  · intro h
    obtain ⟨s, hs, hc⟩ := h
    cases s with
    | declare d => exact Option.some.inj hc ▸ hs
    | arrow a b => cases hc
  · intro h
    exact ⟨_, h, rfl⟩

theorem mem_ordered {c : γ} :
    c ∈ ordered out ↔ ∃ a b, .arrow a b ∈ out ∧ (c = a ∨ c = b) := by
  rw [ordered, List.mem_flatMap]
  constructor
  · intro h
    obtain ⟨s, hs, hc⟩ := h
    cases s with
    | declare d => cases hc
    | arrow a b => exact ⟨a, b, hs, by simpa using hc⟩
  · intro h
    obtain ⟨a, b, hs, hc⟩ := h
    exact ⟨_, hs, by simpa using hc⟩

/-! ## The run -/

theorem Executes.of_stmt {g : Guarded κ γ} (hg : g ∈ b) (h : holds eval g.given = .ok true)
    (hs : g.stmt = s) : Executes eval manifest b s :=
  hs ▸ .here hg h

/-- What a class executes, the blocks that declare the class execute. -/
theorem Executes.trans {c : γ} {b' : Block κ γ}
    (h : Executes eval manifest b (.declare c)) (hb : manifest c = some b')
    (hs : Executes eval manifest b' s) : Executes eval manifest b s := by
  generalize hd : Stmt.declare c = d at h
  induction h with
  | here hg hholds => exact .inside hg hholds hd.symm hb hs
  | inside hg hholds hc hb₁ _ ih => exact .inside hg hholds hc hb₁ (ih hd)

/-- A statement is executed by the block itself or by a class that is declared. -/
theorem Executes.inversion (h : Executes eval manifest b s) :
    (∃ g ∈ b, holds eval g.given = .ok true ∧ g.stmt = s) ∨
      ∃ c b', Executes eval manifest b (.declare c) ∧ manifest c = some b' ∧
        ∃ g ∈ b', holds eval g.given = .ok true ∧ g.stmt = s := by
  induction h with
  | here hg hholds => exact .inl ⟨_, hg, hholds, rfl⟩
  | @inside _ b' g c _ hg hholds hc hb' _ ih =>
      have hdeclare : Executes eval manifest _ (.declare c) := .of_stmt hg hholds hc
      rcases ih with hown | ⟨d, b'', hd, hb'', hinner⟩
      · exact .inr ⟨c, b', hdeclare, hb', hown⟩
      · exact .inr ⟨d, b'', hdeclare.trans hb' hd, hb'', hinner⟩

theorem run_succ {now : List (Stmt γ)} {inner : List (List (Stmt γ))}
    (hnow : executed eval b = .ok now)
    (hinner : now.mapM (enter manifest (run eval manifest n)) = .ok inner) :
    run eval manifest (n + 1) b = .ok (now ++ inner.flatten) := by
  rw [run, hnow]
  simp only [Except.mapError, bind, Except.bind, hinner]
  rfl

theorem of_run_succ (h : run eval manifest (n + 1) b = .ok out) :
    ∃ now inner, executed eval b = .ok now ∧
      now.mapM (enter manifest (run eval manifest n)) = .ok inner ∧
        out = now ++ inner.flatten := by
  rw [run] at h
  cases hnow : executed eval b with
  | error e => simp [hnow, Except.mapError, bind, Except.bind] at h
  | ok now =>
      simp only [hnow, Except.mapError, bind, Except.bind] at h
      cases hinner : now.mapM (enter manifest (run eval manifest n)) with
      | error e => simp [hinner] at h
      | ok inner =>
          simp only [hinner, pure, Except.pure, Except.ok.injEq] at h
          exact ⟨now, inner, rfl, hinner, h.symm⟩

/-- In a run that succeeds no condition of the block raises. -/
theorem exists_holds_of_run (h : run eval manifest n b = .ok out) :
    ∀ g ∈ b, ∃ t, holds eval g.given = .ok t := by
  cases n with
  | zero => cases h
  | succ n =>
      obtain ⟨now, _, hnow, _⟩ := of_run_succ h
      exact exists_executed_iff.mp ⟨now, hnow⟩

/-- A run that succeeds returns the statements that are reached. -/
theorem mem_run (h : run eval manifest n b = .ok out) :
    s ∈ out ↔ Executes eval manifest b s := by
  induction n generalizing b out s with
  | zero => cases h
  | succ n ih =>
      obtain ⟨now, inner, hnow, hinner, rfl⟩ := of_run_succ h
      rw [List.mem_append, mem_flatten_of_mapM_ok hinner]
      constructor
      · intro hs
        rcases hs with hs | ⟨d, hd, xs, hxs, hs⟩
        · obtain ⟨g, hg, hholds, rfl⟩ := (mem_executed hnow).mp hs
          exact .here hg hholds
        · obtain ⟨g, hg, hholds, rfl⟩ := (mem_executed hnow).mp hd
          cases hstmt : g.stmt with
          | arrow c d =>
              rw [hstmt] at hxs
              cases hxs
              cases hs
          | declare c =>
              rw [hstmt, enter] at hxs
              cases hb : manifest c with
              | none => simp [hb] at hxs
              | some b' =>
                  simp only [hb] at hxs
                  exact .inside hg hholds hstmt hb ((ih hxs).mp hs)
      · intro hs
        cases hs with
        | here hg hholds => exact .inl ((mem_executed hnow).mpr ⟨_, hg, hholds, rfl⟩)
        | @inside _ b' g c _ hg hholds hc hb hs =>
            have hmem : Stmt.declare c ∈ now := (mem_executed hnow).mpr ⟨g, hg, hholds, hc⟩
            obtain ⟨xs, hxs⟩ := exists_of_mapM_ok hinner hmem
            have hrun : run eval manifest n b' = .ok xs := by
              simpa only [enter, hb] using hxs
            exact .inr ⟨_, hmem, xs, hxs, (ih hrun).mpr hs⟩

/-- In a run that succeeds every class that is declared has a manifest. -/
theorem exists_manifest_of_run (h : run eval manifest n b = .ok out) {c : γ}
    (hc : Executes eval manifest b (.declare c)) : ∃ b', manifest c = some b' := by
  induction n generalizing b out with
  | zero => cases h
  | succ n ih =>
      obtain ⟨now, inner, hnow, hinner, rfl⟩ := of_run_succ h
      generalize hd : Stmt.declare c = d at hc
      cases hc with
      | @here _ g hg hholds =>
          have hmem : Stmt.declare c ∈ now := (mem_executed hnow).mpr ⟨g, hg, hholds, hd.symm⟩
          obtain ⟨xs, hxs⟩ := exists_of_mapM_ok hinner hmem
          cases hb : manifest c with
          | none => simp [enter, hb] at hxs
          | some b' => exact ⟨b', rfl⟩
      | @inside _ b' g c' _ hg hholds hc' hb hs =>
          have hmem : Stmt.declare c' ∈ now := (mem_executed hnow).mpr ⟨g, hg, hholds, hc'⟩
          obtain ⟨xs, hxs⟩ := exists_of_mapM_ok hinner hmem
          have hrun : run eval manifest n b' = .ok xs := by
            simpa only [enter, hb] using hxs
          exact ih hrun (hd ▸ hs)

/-! ## Depth -/

/-- The classes that a block declares itself are all below `n`. -/
def Below (rank : γ → ℕ) (n : ℕ) (b : Block κ γ) : Prop :=
  ∀ c ∈ classes (b.map Guarded.stmt), rank c < n

instance (rank : γ → ℕ) (n : ℕ) (b : Block κ γ) : Decidable (Below rank n b) :=
  inferInstanceAs (Decidable (∀ c ∈ classes (b.map Guarded.stmt), rank c < n))

/-- A class only declares classes of a smaller rank. -/
def Ranked (rank : γ → ℕ) (manifest : γ → Option (Block κ γ)) : Prop :=
  ∀ c b, manifest c = some b → Below rank (rank c) b

variable {rank : γ → ℕ}

theorem Below.lt (h : Below rank n b) {g : Guarded κ γ} (hg : g ∈ b) {c : γ}
    (hc : g.stmt = .declare c) : rank c < n :=
  h c (mem_classes.mpr (hc ▸ List.mem_map_of_mem hg))

theorem Below.mono {m : ℕ} (h : Below rank m b) (hm : m ≤ n) : Below rank n b :=
  fun c hc => Nat.lt_of_lt_of_le (h c hc) hm

theorem exists_run_succ (hholds : ∀ g ∈ b, ∃ t, holds eval g.given = .ok t)
    (hinner : ∀ g ∈ b, ∀ c, holds eval g.given = .ok true → g.stmt = .declare c →
      ∃ b' xs, manifest c = some b' ∧ run eval manifest n b' = .ok xs) :
    ∃ out, run eval manifest (n + 1) b = .ok out := by
  obtain ⟨now, hnow⟩ := exists_executed_iff.mpr hholds
  have henter : ∀ s ∈ now, ∃ xs, enter manifest (run eval manifest n) s = .ok xs := by
    intro s hs
    obtain ⟨g, hg, htrue, rfl⟩ := (mem_executed hnow).mp hs
    cases hstmt : g.stmt with
    | arrow c d => exact ⟨[], rfl⟩
    | declare c =>
        obtain ⟨b', xs, hb', hxs⟩ := hinner g hg c htrue hstmt
        exact ⟨xs, by simp only [enter, hb', hxs]⟩
  obtain ⟨inner, hinner⟩ := mapM_eq_ok_of_forall henter
  exact ⟨_, run_succ hnow hinner⟩

/-- Where no condition raises and every class has a manifest, a run succeeds that is deep
enough. -/
theorem exists_run (hrank : Ranked rank manifest) (hb : Below rank n b)
    (hholds : ∀ g ∈ b, ∃ t, holds eval g.given = .ok t)
    (hinside : ∀ c, Executes eval manifest b (.declare c) → ∃ b', manifest c = some b' ∧
      ∀ g ∈ b', ∃ t, holds eval g.given = .ok t) :
    ∃ out, run eval manifest (n + 1) b = .ok out := by
  induction n generalizing b with
  | zero =>
      refine exists_run_succ hholds fun g hg c _ hc => ?_
      exact absurd (hb.lt hg hc) (Nat.not_lt_zero _)
  | succ n ih =>
      refine exists_run_succ hholds fun g hg c htrue hc => ?_
      have hdeclare : Executes eval manifest b (.declare c) := .of_stmt hg htrue hc
      obtain ⟨b', hb', hholds'⟩ := hinside c hdeclare
      have hlt := hb.lt hg hc
      obtain ⟨out, hout⟩ := ih ((hrank c b' hb').mono (Nat.le_of_lt_succ hlt)) hholds'
        fun d hd => hinside d (hdeclare.trans hb' hd)
      exact ⟨b', out, hb', hout⟩

/-! ## The catalog -/

theorem undeclared_eq_none [DecidableEq γ] : undeclared out = none ↔
    ∀ a b, .arrow a b ∈ out → .declare a ∈ out ∧ .declare b ∈ out := by
  simp only [undeclared, List.find?_eq_none, mem_ordered, Bool.not_eq_true, Bool.not_eq_false',
    List.contains_iff_mem, mem_classes]
  constructor
  · intro h a b hab
    exact ⟨h a ⟨a, b, hab, .inl rfl⟩, h b ⟨a, b, hab, .inr rfl⟩⟩
  · rintro h c ⟨a, b, hab, rfl | rfl⟩
    · exact (h c b hab).1
    · exact (h a c hab).2

/-- There is a catalog if the run succeeds and all arrows are between classes that are
declared. -/
theorem exists_compile_iff [DecidableEq γ] {site : Block κ γ} :
    (∃ cs, compile eval manifest n site = .ok cs) ↔
      (∃ out, run eval manifest n site = .ok out) ∧
        ∀ a b, Executes eval manifest site (.arrow a b) →
          Executes eval manifest site (.declare a) ∧ Executes eval manifest site (.declare b) := by
  rw [compile]
  cases hrun : run eval manifest n site with
  | error e => simp [bind, Except.bind]
  | ok out =>
      simp only [← mem_run hrun, ← undeclared_eq_none]
      cases hcase : undeclared out with
      | none => simp [hcase, bind, Except.bind, pure, Except.pure]
      | some c => simp [hcase, bind, Except.bind]

/-! ## Symbolic execution -/

theorem mem_when {ks : List κ} {g : Guarded κ γ} :
    g ∈ when ks b ↔ ∃ h ∈ b, h.under ks = g := List.mem_map

theorem executes_of_derive {g : Guarded κ γ} (hg : g ∈ derive manifest n b)
    (h : holds eval g.given = .ok true) : Executes eval manifest b g.stmt := by
  induction n generalizing b g with
  | zero => cases hg
  | succ n ih =>
      rcases List.mem_append.mp hg with hg | hg
      · exact .here hg h
      · obtain ⟨g', hg', hg⟩ := List.mem_flatMap.mp hg
        cases hstmt : g'.stmt with
        | arrow c d => simp [hstmt] at hg
        | declare c =>
            simp only [hstmt, mem_when] at hg
            obtain ⟨h', hh', rfl⟩ := hg
            obtain ⟨houter, hinner⟩ := holds_append_eq_true_iff.mp h
            cases hb : manifest c with
            | none =>
                rw [hb] at hh'
                cases n <;> cases hh'
            | some b' =>
                rw [hb] at hh'
                exact .inside hg' houter hstmt hb (ih (g := h') hh' hinner)

/-- A statement is reached if the conditions of one of its derivations hold. -/
theorem executes_iff_derive (hrank : Ranked rank manifest) (hb : Below rank n b) :
    Executes eval manifest b s ↔
      ∃ g ∈ derive manifest (n + 1) b, holds eval g.given = .ok true ∧ g.stmt = s := by
  constructor
  · intro h
    induction h generalizing n with
    | @here b g hg hholds => exact ⟨g, List.mem_append_left _ hg, hholds, rfl⟩
    | @inside b b' g c s hg hholds hc hb' hs ih =>
        have hlt := hb.lt hg hc
        cases n with
        | zero => exact absurd hlt (Nat.not_lt_zero _)
        | succ n =>
            obtain ⟨h, hh, hinner, rfl⟩ := ih ((hrank c b' hb').mono (Nat.le_of_lt_succ hlt))
            refine ⟨h.under g.given, ?_, holds_append_eq_true_iff.mpr ⟨hholds, hinner⟩, rfl⟩
            refine List.mem_append_right _ (List.mem_flatMap.mpr ⟨g, hg, ?_⟩)
            simp only [hc, hb', Option.getD_some]
            exact mem_when.mpr ⟨h, hh, rfl⟩
  · intro h
    obtain ⟨g, hg, hholds, rfl⟩ := h
    exact executes_of_derive hg hholds

end Structor.Puppet
