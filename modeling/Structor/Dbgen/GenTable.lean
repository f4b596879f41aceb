import Structor.Dbgen.StarSchema

/-!
# The tables from a map job

`GenTable.java` writes a file of commands, and a job runs each of them in a mapper of its own:
the steps of all tables, and one step of the dates. The rows that the mappers read back are
the tables that the queries are run on.

## Main results

* `genTable_same` -- the rows of the job, and those of one run over the same numbers
* `genTable_rows` -- each row is well formed and has the key of its place
* `genTable_lineKeys` -- the keys of the lines below scale 1000
* `genTable_references` -- the references hold if there are not more mappers than the scale
* `genTable_dates` -- when the date table has all dates of the lines
* `genTable_isSome` -- when the job has an output
-/
namespace Structor.Dbgen

/-! ## The job -/

/-- A command of a mapper: `-C`, `-S` and `-T`. The distributions and the scale are those of the
job. -/
structure Command where
  procs : ℕ
  step : ℕ
  table : Str
deriving DecidableEq

def tableMappings : List (Str × Str) :=
  [("ALL".toList, "all".toList), ("CUSTOMERS".toList, "c".toList),
    ("SUPPLIERS".toList, "s".toList), ("NATION".toList, "l".toList),
    ("ORDERS".toList, "o".toList), ("PARTS".toList, "p".toList)]

def genInputOf (table : Str) (parallel i : ℕ) : List Command :=
  if table = "all".toList then
    [⟨parallel, i, "c".toList⟩, ⟨parallel, i, "l".toList⟩, ⟨parallel, i, "p".toList⟩,
      ⟨parallel, i, "s".toList⟩] ++ if i = 1 then [⟨parallel, i, "d".toList⟩] else []
  else [⟨parallel, i, table⟩]

def genInput (table : Str) (parallel : ℕ) : List Command :=
  (List.range' 1 parallel).flatMap (genInputOf table parallel)

/-- The option `-T` of `process_options`, for a single table. -/
def tableOption : Str → Option Table
  | 'c' :: _ => some .cust
  | 'p' :: _ => some .part
  | 's' :: _ => some .supp
  | 'd' :: _ => some .date
  | 'l' :: _ => some .line
  | _ => none

/-- A mapper: the rows of its command under the name of the table. -/
def runCommand (e : Env) (c : Command) : Option (Table × List Row) := do
  let t ← tableOption c.table
  let rows ← stepTbl e t c.procs c.step 0
  pure (t, rows)

/-- The option of `dbgen` for an option of the job. A name that is not in the enumeration is an
exception. -/
def optionOf (e : Env) : Option Str → Option Str
  | none => some "all".toList
  | some name => tableMappings.lookup (e.toUpperCase name)

/-- `run` of `GenTable`, as far as the output goes. Without an option there are as many mappers
as the scale. -/
def genTable (e : Env) (table : Option Str) (parallel : Option ℕ) :
    Option (List (Table × List Row)) := do
  let option ← optionOf e table
  let mappers := parallel.getD e.scale
  if mappers = 1 ∨ e.scale = 1 then none
  else (genInput option mappers).mapM (runCommand e)

/-- The directory of a table. -/
def outputOf (out : List (Table × List Row)) (t : Table) : List Row :=
  (out.filter fun r => r.1 = t).flatMap Prod.snd

/-! ## What the mappers put together -/

/-- What the mappers of step `k + 1` write. -/
def shareOutput (e : Env) (procs k : ℕ) : List (Table × List Row) :=
  [(.cust, shareRows e .cust procs 0 k), (.line, shareRows e .line procs 0 k),
    (.part, shareRows e .part procs 0 k), (.supp, shareRows e .supp procs 0 k)] ++
    if k = 0 then [(.date, shareRows e .date procs 0 k)] else []

section Job

variable {e : Env} (he : e.Drawable) {procs : ℕ} (hscale : e.scale / procs ≤ max32bScale)

include he hscale

theorem mapM_genInputOf (k : ℕ) :
    (genInputOf "all".toList procs (k + 1)).mapM (runCommand e) =
      some (shareOutput e procs k) := by
  have hrows := fun t => stepTbl_eq he t 0 k hscale
  have hfirst : k + 1 = 1 ↔ k = 0 := by omega
  rw [genInputOf, if_pos rfl, shareOutput]
  simp only [hfirst]
  split_ifs <;> simp [runCommand, tableOption, hrows]

theorem mapM_genInput (ks : List ℕ) :
    (ks.flatMap fun k => genInputOf "all".toList procs (k + 1)).mapM (runCommand e) =
      some (ks.flatMap (shareOutput e procs)) := by
  induction ks with
  | nil => rfl
  | cons k ks ih =>
      rw [List.flatMap_cons, List.flatMap_cons, List.mapM_append, mapM_genInputOf he hscale, ih]
      rfl

/-- The output of the job with so many mappers for each table. -/
theorem genTable_eq (hprocs : procs ≠ 1) (hone : e.scale ≠ 1) :
    genTable e none (some procs) = some ((List.range procs).flatMap (shareOutput e procs)) := by
  have hstart : ¬ (procs = 1 ∨ e.scale = 1) := by omega
  simp only [genTable, Option.getD_some, if_neg hstart, genInput, List.range'_eq_map_range,
    List.flatMap_map, Nat.add_comm 1]
  exact mapM_genInput he hscale (List.range procs)

end Job

theorem outputOf_append (out out' : List (Table × List Row)) (t : Table) :
    outputOf (out ++ out') t = outputOf out t ++ outputOf out' t := by
  rw [outputOf, List.filter_append, List.flatMap_append, ← outputOf, ← outputOf]

theorem outputOf_shareOutput (e : Env) (procs k : ℕ) (t : Table) :
    outputOf (shareOutput e procs k) t =
      if t = .date ∧ k ≠ 0 then [] else shareRows e t procs 0 k := by
  cases t <;> by_cases hk : k = 0 <;> simp [outputOf, shareOutput, hk]

/-- The output of a table, step by step. The dates are those of the first step. -/
theorem outputOf_flatMap (e : Env) (procs : ℕ) (ks : List ℕ) (t : Table) :
    outputOf (ks.flatMap (shareOutput e procs)) t =
      ks.flatMap fun k => if t = .date ∧ k ≠ 0 then [] else shareRows e t procs 0 k := by
  induction ks with
  | nil => rfl
  | cons k ks ih =>
      rw [List.flatMap_cons, List.flatMap_cons, outputOf_append, ih, outputOf_shareOutput]

/-! ## The tables of the job -/

/-- **The job makes the rows of one run** of `gen_tbl` over all numbers of the table, but for the
columns of `SameRow`, and but for the dates. `main` itself makes fewer parts than the steps. -/
theorem genTable_same {e : Env} (he : e.Drawable) {procs : ℕ} (hprocs : 1 < procs)
    (hone : e.scale ≠ 1) (hscale : e.scale / procs ≤ max32bScale)
    (hparts : 92 * (Table.base .part * e.scale / procs) < nM) :
    ∃ out, genTable e none (some procs) = some out ∧ ∀ t ≠ Table.date,
      List.Forall₂ SameRow (outputOf out t) (genTbl e t 1 (t.base * e.scale) 0 initial).1 := by
  refine ⟨_, genTable_eq he hscale (by omega) hone, fun t ht => ?_⟩
  have hrows := forall₂_shareRows he t 0 (by omega) hscale fun h => h ▸ hparts
  rw [outputOf_flatMap]
  simpa only [ht, false_and, if_false] using hrows

theorem genTable_same_sample :
    ∃ out, genTable sampleEnv none (some 2) = some out ∧ ∀ t ≠ Table.date,
      List.Forall₂ SameRow (outputOf out t)
        (genTbl sampleEnv t 1 (t.base * sampleEnv.scale) 0 initial).1 :=
  genTable_same sampleEnv_drawable (by decide) (by decide) (by decide) (by decide)

/-- What is known of row `i` of a table. -/
def RowOk (e : Env) : Table → ℕ → Row → Prop
  | .part, i, .part p => p.partkey = i ∧ ∃ is : List ℕ, is.length = pNameScl ∧ is.Nodup ∧
      (∀ j ∈ is, j < e.dists.colors.count) ∧
        (p.color, p.name) = genColor (joinedNames e.dists.colors is)
  | .supp, i, .supp s => s.suppkey = i ∧ 6 ≤ s.address.length ∧ s.address.length ≤ 24
  | .cust, i, .cust c => c.custkey = i ∧ 6 ≤ c.address.length ∧ c.address.length ≤ 24
  | .date, i, .date d => d = mkDate e.zone i
  | .line, i, .line o => OrderOk e o ∧ o.okey = mkSparse e.scale i 0
  | _, _, _ => False

theorem RowOk.orderRow {e : Env} {i : ℕ} {row : Row} (h : RowOk e .line i row) :
    OrderRow e i row := by
  cases row with
  | line o => exact ⟨o, rfl, h.1, h.2⟩
  | _ => exact h.elim

theorem rowOk_genRow {e : Env} (he : e.Drawable) (t : Table) (i : ℕ) :
    Returns (RowOk e t i) (genRow e t 0 i) := by
  intro σ
  cases t with
  | part =>
      obtain ⟨hthree, hcolors⟩ := he.colors
      have hM : nM = 2147483647 := rfl
      obtain ⟨colors, hcount⟩ := Int.eq_ofNat_of_zero_le ((Nat.cast_nonneg _).trans hthree)
      rw [hcount] at hthree hcolors
      obtain ⟨_, _, _, hkey, is, hlength, hnodup, hlt, hname⟩ :=
        metered_mkPart e hcount (by omega) (by omega) i (rowStart σ)
      exact ⟨hkey, is, hlength, hnodup, fun j hj => hcount ▸ by exact_mod_cast hlt j hj, hname⟩
  | supp =>
      obtain ⟨_, _, _, hsupp⟩ := metered_mkSupp e i (rowStart σ)
      exact hsupp
  | cust =>
      obtain ⟨_, _, _, hcust⟩ := metered_mkCust e i (rowStart σ)
      exact hcust
  | date => exact rfl
  | line =>
      obtain ⟨_, _, _, hok⟩ := metered_mkOrder he i (0 % 10000) (rowStart σ)
      exact hok

theorem rowOk_shareRows {e : Env} (he : e.Drawable) (t : Table) {procs : ℕ}
    (hprocs : 0 < procs) :
    List.Forall₂ (RowOk e t) (List.range' 1 (t.base * e.scale))
      ((List.range procs).flatMap (shareRows e t procs 0)) := by
  rw [← flatMap_stepRange t e.scale hprocs]
  refine List.rel_flatMap (List.forall₂_same.mpr fun _ _ => rfl) fun k k' hk => ?_
  obtain rfl : k = k' := hk
  exact Returns.mapM_forall₂ _ (rowOk_genRow he t) _

/-- **The rows of the job** are those of the numbers, in their order: the keys of the parts,
suppliers and customers are these numbers, and the orders are well formed. -/
theorem genTable_rows {e : Env} (he : e.Drawable) {procs : ℕ} (hprocs : 1 < procs)
    (hone : e.scale ≠ 1) (hscale : e.scale / procs ≤ max32bScale) :
    ∃ out, genTable e none (some procs) = some out ∧ ∀ t ≠ Table.date,
      List.Forall₂ (RowOk e t) (List.range' 1 (t.base * e.scale)) (outputOf out t) := by
  refine ⟨_, genTable_eq he hscale (by omega) hone, fun t ht => ?_⟩
  rw [outputOf_flatMap]
  simpa only [ht, false_and, if_false] using rowOk_shareRows he t (by omega)

theorem genTable_rows_sample :
    ∃ out, genTable sampleEnv none (some 2) = some out ∧ ∀ t ≠ Table.date,
      List.Forall₂ (RowOk sampleEnv t) (List.range' 1 (t.base * sampleEnv.scale))
        (outputOf out t) :=
  genTable_rows sampleEnv_drawable (by decide) (by decide) (by decide)

/-- **No two lines of the job have the same key**, below scale 1000. -/
theorem genTable_lineKeys {e : Env} (he : e.Drawable) {procs : ℕ} (hprocs : 1 < procs)
    (hone : e.scale ≠ 1) (hscale : e.scale < max32bScale) :
    ∃ out, genTable e none (some procs) = some out ∧
      ((outputOf out .line).flatMap Row.lineKeys).Nodup := by
  have hshare : e.scale / procs ≤ max32bScale := (Nat.div_le_self _ _).trans hscale.le
  refine ⟨_, genTable_eq he hshare (by omega) hone, ?_⟩
  rw [outputOf_flatMap]
  have hrows := (rowOk_shareRows he .line (by omega : 0 < procs)).imp fun _ _ => RowOk.orderRow
  simpa using nodup_of_orderRows hscale hrows List.nodup_range'

theorem genTable_lineKeys_sample :
    ∃ out, genTable sampleEnv none (some 2) = some out ∧
      ((outputOf out .line).flatMap Row.lineKeys).Nodup :=
  genTable_lineKeys sampleEnv_drawable (by decide) (by decide) (by decide)

/-- The output of the dates. -/
theorem outputOf_date (e : Env) {procs : ℕ} (hprocs : 0 < procs) :
    outputOf ((List.range procs).flatMap (shareOutput e procs)) .date =
      shareRows e .date procs 0 0 := by
  obtain ⟨n, rfl⟩ := Nat.exists_eq_succ_of_ne_zero hprocs.ne'
  rw [outputOf_flatMap, List.range_succ_eq_map, List.flatMap_cons, List.flatMap_map]
  simp

/-- A row of a table is made by the mapper that has its number. -/
theorem hasRows_output {e : Env} {procs : ℕ} (hprocs : 0 < procs) {t : Table} (ht : t ≠ .date) :
    HasRows e (outputOf ((List.range procs).flatMap (shareOutput e procs))) t
      ((t.base * e.scale : ℕ) : ℤ) := by
  intro i hpos hle
  have hle : i ≤ t.base * e.scale := by exact_mod_cast hle
  have hmem : i ∈ (List.range procs).flatMap (stepRange t e.scale procs) := by
    rw [flatMap_stepRange t e.scale hprocs]
    exact List.mem_range'_1.mpr ⟨hpos, by omega⟩
  obtain ⟨k, hk, hi⟩ := List.mem_flatMap.mp hmem
  obtain ⟨τ, hτ⟩ := exists_mem_mapM (f := genRow e t 0) (stepState e t procs k) hi
  refine ⟨rowStart τ, ?_⟩
  rw [outputOf_flatMap]
  simp only [ht, false_and, if_false]
  exact List.mem_flatMap.mpr ⟨k, hk, hτ⟩

/-- The number of parts of a line is at most that of the parts of a step. -/
theorem floorLog_succ_le {e : Env} (hlog : Real.exp e.floorLog ≤ e.scale) :
    e.floorLog + 1 ≤ e.scale := by
  have hexp : (e.floorLog : ℝ) + 1 ≤ e.scale := (Real.add_one_le_exp _).trans hlog
  exact_mod_cast hexp

theorem references_output {e : Env} (he : e.Drawable) {procs : ℕ} (hprocs : 1 < procs)
    (hle : procs ≤ e.scale) (hlog : Real.exp e.floorLog ≤ e.scale)
    (hzone : FromFirst e.zone) :
    ReferencesHold (outputOf ((List.range procs).flatMap (shareOutput e procs))) := by
  have hfloor := floorLog_succ_le hlog
  refine Complete.references (e := e) ⟨?_, hasRows_output (by omega) (by decide), ?_,
    hasRows_output (by omega) (by decide), ?_⟩
  · intro o ho
    rw [outputOf_flatMap] at ho
    obtain ⟨k, _, ho⟩ := List.mem_flatMap.mp ho
    exact orderOk_of_mem he ho
  · intro i hpos hi
    have hbase : lPkeyMax e = 200000 * (e.floorLog + 1) := rfl
    have hcount : ((Table.base .part * e.scale : ℕ) : ℤ) = 200000 * e.scale := by
      push_cast
      rfl
    exact hasRows_output (by omega) (by decide) i hpos (by omega)
  · intro k hk
    have hnum : commitDays < numDays := by decide
    have hshare : numDays ≤ numDays * e.scale / procs :=
      (Nat.le_div_iff_mul_le (by omega)).mpr (Nat.mul_le_mul_left numDays hle)
    rw [outputOf_date e (by omega)]
    exact (exists_date_iff hzone hprocs (by omega)).mpr (by omega)

/-- **The references hold in the tables of the job** if there are not more mappers for a table
than the scale. -/
theorem genTable_references {e : Env} (he : e.Drawable) {procs : ℕ} (hprocs : 1 < procs)
    (hle : procs ≤ e.scale) (hscale : e.scale / procs ≤ max32bScale)
    (hlog : Real.exp e.floorLog ≤ e.scale) (hzone : FromFirst e.zone) :
    ∃ out, genTable e none (some procs) = some out ∧ ReferencesHold (outputOf out) :=
  ⟨_, genTable_eq he hscale (by omega) (by omega),
    references_output he hprocs hle hlog hzone⟩

theorem genTable_references_sample :
    ∃ out, genTable sampleEnv none (some 2) = some out ∧ ReferencesHold (outputOf out) :=
  genTable_references sampleEnv_drawable (by decide) (by decide) (by decide)
    (by norm_num [sampleEnv]) sampleEnv_fromFirst

/-- **The dates of the job.** Every date that a line can have is in the date table if and only if
the share of the only step that makes dates is large enough. -/
theorem genTable_dates {e : Env} (he : e.Drawable) {procs : ℕ} (hprocs : 1 < procs)
    (hone : e.scale ≠ 1) (hscale : e.scale / procs ≤ max32bScale)
    (hzone : FromFirst e.zone) :
    ∃ out, genTable e none (some procs) = some out ∧
      ((∀ k < commitDays, ∃ d, Row.date d ∈ outputOf out .date ∧
        decimal d.datekey = ascDate (startDate + k)) ↔
          commitDays ≤ numDays * e.scale / procs) := by
  have hnum : commitDays ≤ numDays := by decide
  refine ⟨_, genTable_eq he hscale (by omega) hone, ?_⟩
  rw [outputOf_date e (by omega)]
  constructor
  · intro hall
    by_contra hlt
    have hshare : numDays * e.scale / procs < commitDays := not_le.mp hlt
    have hexists := (exists_date_iff hzone hprocs (hshare.trans_le hnum)).mp (hall _ hshare)
    exact lt_irrefl _ hexists
  · exact fun hle k hk => (exists_date_iff hzone hprocs (by omega)).mpr (by omega)

theorem genTable_dates_sample :
    ∃ out, genTable sampleEnv none (some 2) = some out ∧
      ∀ k < commitDays, ∃ d, Row.date d ∈ outputOf out .date ∧
        decimal d.datekey = ascDate (startDate + k) := by
  obtain ⟨out, hout, hdates⟩ := genTable_dates sampleEnv_drawable (by decide : 1 < 2)
    (by decide) (by decide) sampleEnv_fromFirst
  exact ⟨out, hout, hdates.mpr (by decide)⟩

/-! ## When the job fails -/

theorem isSome_mapM {α β : Type} (f : α → Option β) (l : List α) :
    (l.mapM f).isSome ↔ ∀ a ∈ l, (f a).isSome := by
  induction l with
  | nil => simp
  | cons a l ih =>
      rw [List.mapM_cons, List.forall_mem_cons, ← ih]
      cases f a <;> cases l.mapM f <;> simp

theorem isSome_stepTbl {e : Env} (hpos : 0 < e.scale) (t : Table) {procs i : ℕ} (hi : 0 < i) :
    (stepTbl e t procs i 0).isSome ↔ e.scale / procs ≤ max32bScale := by
  rw [stepTbl, Option.isSome_map, setState, if_neg (by omega)]
  split_ifs with h
  · simpa using h
  · simpa using h

theorem isSome_runCommand {e : Env} (hpos : 0 < e.scale) {c : Command} (hi : 0 < c.step) :
    (runCommand e c).isSome ↔
      (tableOption c.table).isSome ∧ e.scale / c.procs ≤ max32bScale := by
  unfold runCommand
  cases htable : tableOption c.table with
  | none => simp
  | some t =>
      rw [← isSome_stepTbl hpos t hi]
      cases hrows : stepTbl e t c.procs c.step 0 <;> simp [hrows]

/-- The options of the commands for all tables. -/
theorem mem_genInputOf_all {procs i : ℕ} {c : Command} (hc : c ∈ genInputOf "all".toList procs i) :
    c.procs = procs ∧ c.step = i ∧ (tableOption c.table).isSome := by
  rw [genInputOf, if_pos rfl] at hc
  rcases List.mem_append.mp hc with hc | hc
  · simp only [List.mem_cons, List.not_mem_nil, or_false] at hc
    rcases hc with rfl | rfl | rfl | rfl <;> exact ⟨rfl, rfl, rfl⟩
  · split_ifs at hc
    · obtain rfl := List.mem_singleton.mp hc
      exact ⟨rfl, rfl, rfl⟩
    · exact absurd hc List.not_mem_nil

theorem isSome_genInputOf {e : Env} (hpos : 0 < e.scale) (opt : Str) {procs i : ℕ} (hi : 0 < i) :
    (∀ c ∈ genInputOf opt procs i, (runCommand e c).isSome) ↔
      (opt = "all".toList ∨ (tableOption opt).isSome) ∧ e.scale / procs ≤ max32bScale := by
  by_cases hopt : opt = "all".toList
  · subst hopt
    constructor
    · intro h
      have hfirst := h ⟨procs, i, "c".toList⟩ (by simp [genInputOf])
      exact ⟨.inl rfl, ((isSome_runCommand hpos hi).mp hfirst).2⟩
    · rintro ⟨_, hscale⟩ c hc
      obtain ⟨hprocs, hstep, htable⟩ := mem_genInputOf_all hc
      exact (isSome_runCommand hpos (hstep ▸ hi)).mpr ⟨htable, hprocs ▸ hscale⟩
  · rw [genInputOf, if_neg hopt, List.forall_mem_singleton, isSome_runCommand hpos hi]
    simp only [hopt, false_or]

theorem isSome_mapM_genInput {e : Env} (hpos : 0 < e.scale) (opt : Str) {procs : ℕ}
    (hprocs : 0 < procs) :
    ((genInput opt procs).mapM (runCommand e)).isSome ↔
      (opt = "all".toList ∨ (tableOption opt).isSome) ∧ e.scale / procs ≤ max32bScale := by
  simp only [isSome_mapM, genInput, List.forall_mem_flatMap]
  constructor
  · exact fun h => (isSome_genInputOf hpos opt one_pos).mp
      (h 1 (List.mem_range'_1.mpr ⟨le_rfl, by omega⟩))
  · exact fun h i hi => (isSome_genInputOf hpos opt (List.mem_range'_1.mp hi).1).mpr h

/-- The names of the enumeration for which `dbgen` has a table: the orders have none. -/
def usableNames : List Str :=
  ["ALL".toList, "CUSTOMERS".toList, "SUPPLIERS".toList, "NATION".toList, "PARTS".toList]

theorem lookup_tableMappings : ∀ m ∈ tableMappings, tableMappings.lookup m.1 = some m.2 := by
  decide

theorem mem_usableNames_iff : ∀ m ∈ tableMappings,
    ((m.2 = "all".toList ∨ (tableOption m.2).isSome) ↔ m.1 ∈ usableNames) := by
  decide

theorem mem_tableMappings_of_usable : ∀ name ∈ usableNames, name ∈ tableMappings.map Prod.fst := by
  decide

/-- **When there is an output.** The scale is at most about a thousand times the number of
mappers, and the table is one that `dbgen` knows. -/
theorem genTable_isSome {e : Env} (hpos : 0 < e.scale) (hone : e.scale ≠ 1) {procs : ℕ}
    (hprocs : 1 < procs) (table : Option Str) :
    (genTable e table (some procs)).isSome ↔
      (∀ name ∈ table, e.toUpperCase name ∈ usableNames) ∧
        e.scale / procs ≤ max32bScale := by
  have hstart : ¬ (procs = 1 ∨ e.scale = 1) := by omega
  have hrun := fun opt => isSome_mapM_genInput hpos opt (by omega : 0 < procs)
  cases table with
  | none =>
      have hgen : genTable e none (some procs) =
          (genInput "all".toList procs).mapM (runCommand e) := by
        simp [genTable, optionOf, hstart]
      rw [hgen, hrun]
      simp
  | some name =>
      have hgen : genTable e (some name) (some procs) =
          (tableMappings.lookup (e.toUpperCase name)).bind fun opt =>
            (genInput opt procs).mapM (runCommand e) := by
        simp [genTable, optionOf, hstart]
      rw [hgen]
      simp only [Option.mem_some_iff, forall_eq']
      generalize e.toUpperCase name = upper
      by_cases hupper : upper ∈ tableMappings.map Prod.fst
      · obtain ⟨m, hm, rfl⟩ := List.mem_map.mp hupper
        rw [lookup_tableMappings m hm, Option.bind_some, hrun, mem_usableNames_iff m hm]
      · have hnone : tableMappings.lookup upper = none := by
          rw [List.lookup_eq_none_iff]
          intro m hm
          exact bne_iff_ne.mpr fun h => hupper (h ▸ List.mem_map_of_mem hm)
        have husable : upper ∉ usableNames := fun h => hupper (mem_tableMappings_of_usable upper h)
        simp [hnone, husable]

theorem genTable_isSome_sample : (genTable sampleEnv (some "customers") (some 2)).isSome := by
  refine (genTable_isSome (by decide) (by decide) (by decide) _).mpr
    ⟨fun name hname => ?_, by decide⟩
  obtain rfl := Option.some.inj hname
  decide

end Structor.Dbgen
