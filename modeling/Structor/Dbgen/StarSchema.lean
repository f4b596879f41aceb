import Mathlib.Analysis.SpecialFunctions.Exp
import Structor.Dbgen.Parallel

/-!
# The star schema

The tables that one process makes: each line of an order refers to rows that are in the
tables, and no two lines have the same key.

## Main results

* `references_mainTbl` -- the customer, the part, the supplier and the two dates of a line
* `nodup_lineKeys` -- the keys of the lines below scale 1000
* `exists_date_iff` -- the dates that a parallel run makes
-/
namespace Structor.Dbgen

/-! ## References -/

/-- The references of the lines: each names a row of the other tables. -/
structure ReferencesHold (tbl : Table → List Row) : Prop where
  cust : ∀ o, Row.line o ∈ tbl .line → ∀ l ∈ o.lineorders,
    ∃ c, Row.cust c ∈ tbl .cust ∧ (c.custkey : ℤ) = l.custkey
  part : ∀ o, Row.line o ∈ tbl .line → ∀ l ∈ o.lineorders,
    ∃ p, Row.part p ∈ tbl .part ∧ (p.partkey : ℤ) = l.partkey
  supp : ∀ o, Row.line o ∈ tbl .line → ∀ l ∈ o.lineorders,
    ∃ s, Row.supp s ∈ tbl .supp ∧ (s.suppkey : ℤ) = l.suppkey
  orderdate : ∀ o, Row.line o ∈ tbl .line → ∀ l ∈ o.lineorders,
    ∃ d, Row.date d ∈ tbl .date ∧ decimal d.datekey = l.orderdate
  commitDate : ∀ o, Row.line o ∈ tbl .line → ∀ l ∈ o.lineorders,
    ∃ d, Row.date d ∈ tbl .date ∧ decimal d.datekey = l.commitDate

/-- The rows of a table with the numbers up to `n` are there. -/
def HasRows (e : Env) (tbl : Table → List Row) (t : Table) (n : ℤ) : Prop :=
  ∀ i : ℕ, 0 < i → i ≤ n → ∃ τ, (mkRow e 0 i t τ).1 ∈ tbl t

/-- The number of days up to the last commit date. -/
def commitDays : ℕ := 2496

/-- Tables with all rows that an order can refer to. -/
structure Complete (e : Env) (tbl : Table → List Row) : Prop where
  orders : ∀ o, Row.line o ∈ tbl .line → OrderOk e o
  custs : HasRows e tbl .cust (oCkeyMax e)
  parts : HasRows e tbl .part (lPkeyMax e)
  supps : HasRows e tbl .supp (lSkeyMax e)
  dates : ∀ k < commitDays, ∃ d, Row.date d ∈ tbl .date ∧
    decimal d.datekey = ascDate (startDate + k)

theorem HasRows.exists {e : Env} {tbl : Table → List Row} {t : Table} {n key : ℤ}
    (h : HasRows e tbl t n) (hpos : 1 ≤ key) (hle : key ≤ n) :
    ∃ i : ℕ, (i : ℤ) = key ∧ ∃ τ, (mkRow e 0 i t τ).1 ∈ tbl t := by
  obtain ⟨i, rfl⟩ := Int.eq_ofNat_of_zero_le (by omega : 0 ≤ key)
  exact ⟨i, rfl, h i (by omega) hle⟩

/-- The days of an order and of the commitment of a line, counted from the first date. -/
theorem Complete.day {e : Env} {tbl : Table → List Row} (h : Complete e tbl) {o : Order}
    (ho : Row.line o ∈ tbl .line) {l : Lineorder} (hl : l ∈ o.lineorders) :
    ∃ k < commitDays, ∃ j < commitDays, l.orderdate = ascDate (startDate + (k : ℕ)) ∧
      l.commitDate = ascDate (startDate + (j : ℕ)) := by
  obtain ⟨tmpDate, hlow, hhigh, hodate, hlines⟩ := (h.orders o ho).dated
  obtain ⟨days, hdays, hdays', hcommit⟩ := (hlines l hl).commitDate
  have hbounds : startDate ≤ tmpDate ∧ tmpDate ≤ startDate + 2405 := ⟨hlow, hhigh⟩
  have hnum : commitDays = 2496 := rfl
  obtain ⟨k, hk⟩ := Int.eq_ofNat_of_zero_le (sub_nonneg.mpr hbounds.1)
  obtain ⟨j, rfl⟩ := Int.eq_ofNat_of_zero_le (by omega : 0 ≤ days)
  have horder : tmpDate = startDate + (k : ℤ) := by omega
  have hsum : (j : ℤ) + tmpDate = startDate + (k + j : ℕ) := by
    push_cast
    omega
  exact ⟨k, by omega, k + j, by omega, by rw [(hlines l hl).orderdate, hodate, horder],
    by rw [hcommit, hsum]⟩

theorem Complete.references {e : Env} {tbl : Table → List Row} (h : Complete e tbl) :
    ReferencesHold tbl where
  cust o ho l hl := by
    have hok := h.orders o ho
    obtain ⟨tmpDate, _, _, _, hlines⟩ := hok.dated
    obtain ⟨i, hi, τ, hτ⟩ := h.custs.exists hok.custkey.1 hok.custkey.2.1
    exact ⟨_, hτ, hi.trans (hlines l hl).custkey.symm⟩
  part o ho l hl := by
    obtain ⟨tmpDate, _, _, _, hlines⟩ := (h.orders o ho).dated
    obtain ⟨i, hi, τ, hτ⟩ := h.parts.exists (hlines l hl).partkey.1 (hlines l hl).partkey.2
    exact ⟨_, hτ, hi⟩
  supp o ho l hl := by
    obtain ⟨tmpDate, _, _, _, hlines⟩ := (h.orders o ho).dated
    obtain ⟨i, hi, τ, hτ⟩ := h.supps.exists (hlines l hl).suppkey.1 (hlines l hl).suppkey.2
    exact ⟨_, hτ, hi⟩
  orderdate o ho l hl := by
    obtain ⟨k, hk, _, _, horder, _⟩ := h.day ho hl
    rw [horder]
    exact h.dates k hk
  commitDate o ho l hl := by
    obtain ⟨_, _, j, hj, _, hcommit⟩ := h.day ho hl
    rw [hcommit]
    exact h.dates j hj

/-! ## The tables of one process -/

/-- A table as one process makes it, from any state of the streams. -/
def mainTbl (e : Env) (t : Table) (σ : Streams) : List Row :=
  (genTbl e t 1 (mainRowcnt e t) 0 σ).1

theorem exists_mem_mainTbl {e : Env} {t : Table} (σ : Streams) {i : ℕ} (hpos : 0 < i)
    (hle : i ≤ mainRowcnt e t) : ∃ τ, (mkRow e 0 i t τ).1 ∈ mainTbl e t σ := by
  have hmem : i ∈ List.range' 1 (mainRowcnt e t) := List.mem_range'_1.mpr ⟨hpos, by omega⟩
  obtain ⟨τ, hτ⟩ := exists_mem_mapM (f := genRow e t 0) σ hmem
  exact ⟨rowStart τ, hτ⟩

/-- An order that the loop makes, at any place of any run. -/
theorem orderOk_of_mem {e : Env} (he : e.Drawable) {updNum : ℕ} {is : List ℕ} {σ : Streams}
    {o : Order} (ho : Row.line o ∈ (is.mapM (genRow e .line updNum) σ).1) : OrderOk e o := by
  obtain ⟨i, _, τ, hrow⟩ := of_mem_mapM ho
  obtain ⟨_, _, _, hok, _⟩ := metered_mkOrder he i (updNum % 10000) (rowStart τ)
  have hsame : Row.line o = Row.line (mkOrder e i (updNum % 10000) (rowStart τ)).1 := hrow
  rwa [Row.line.inj hsame]

theorem getElem?_ascDate {k : ℕ} (hk : k < numDays) :
    mkAscdate[k]? = some (ascDate (startDate + k)) := by
  have hindex : ((startDate : ℤ) + k - startDate).toNat = k := by omega
  have hsome := getElem?_mkAscdate (k := k) (by unfold totDate; unfold numDays at hk; omega)
  rw [ascDate, hindex, List.getD_eq_getElem?_getD, hsome, Option.getD_some]

/-- A power of `e` that is at most the scale: the logarithms of the two bases are as they are
in exact arithmetic. -/
theorem floorLog_le {e : Env} (hlog : Real.exp e.floorLog ≤ e.scale)
    (hlog2 : e.scale < 2 ^ (e.floorLog2 + 1)) : e.floorLog ≤ e.floorLog2 := by
  have htwo : (2 : ℝ) ^ e.floorLog ≤ Real.exp e.floorLog := by
    rw [← mul_one (e.floorLog : ℝ), Real.exp_nat_mul]
    exact pow_le_pow_left₀ (by norm_num) (by linarith [Real.add_one_le_exp 1]) _
  have hlt : (2 : ℝ) ^ e.floorLog < 2 ^ (e.floorLog2 + 1) := by
    refine htwo.trans_lt (hlog.trans_lt ?_)
    exact_mod_cast hlog2
  exact Nat.lt_succ_iff.mp ((pow_lt_pow_iff_right₀ (by norm_num)).mp hlt)

/-- **The references hold in the tables of one process**, wherever the streams of each table
began. -/
theorem references_mainTbl {e : Env} (he : e.Drawable) (hlog : Real.exp e.floorLog ≤ e.scale)
    (hlog2 : e.scale < 2 ^ (e.floorLog2 + 1)) (hzone : FromFirst e.zone ∨ FromEve e.zone)
    (σ : Table → Streams) : ReferencesHold fun t => mainTbl e t (σ t) := by
  have hbase : oCkeyMax e = 30000 * e.scale ∧ lSkeyMax e = 2000 * e.scale ∧
      lPkeyMax e = 200000 * (e.floorLog + 1) := ⟨rfl, rfl, rfl⟩
  have hcount : mainRowcnt e .cust = 30000 * e.scale ∧ mainRowcnt e .supp = 2000 * e.scale ∧
      mainRowcnt e .part = 200000 * (1 + e.floorLog2) := ⟨rfl, rfl, rfl⟩
  have hfloor := floorLog_le hlog hlog2
  refine Complete.references (e := e) ⟨fun o ho => orderOk_of_mem he ho, ?_, ?_, ?_, ?_⟩
  · exact fun i hpos hle => exists_mem_mainTbl _ hpos (by omega)
  · exact fun i hpos hle => exists_mem_mainTbl _ hpos (by omega)
  · exact fun i hpos hle => exists_mem_mainTbl _ hpos (by omega)
  · intro k hk
    have hnum : commitDays < numDays := by decide
    obtain ⟨n, hpos, hle, hkey⟩ := exists_datekey hzone (by omega)
      (getElem?_ascDate (k := k) (by omega))
    obtain ⟨τ, hτ⟩ := exists_mem_mainTbl (e := e) (t := .date) (σ .date) hpos hle
    exact ⟨_, hτ, hkey⟩

theorem references_mainTbl_sample : ReferencesHold fun t => mainTbl sampleEnv t initial :=
  references_mainTbl sampleEnv_drawable (by norm_num [sampleEnv]) (by decide)
    (.inl sampleEnv_fromFirst) fun _ => initial

/-! ## The keys of the lines -/

/-- The order key and the line number, as they are printed. -/
def Row.lineKeys : Row → List (Str × ℕ)
  | .line o => o.lineorders.map fun l => (prHuge l.okey, l.linenumber)
  | _ => []

/-- What is known of the row of order `i`. -/
def OrderRow (e : Env) (i : ℕ) (row : Row) : Prop :=
  ∃ o, row = .line o ∧ OrderOk e o ∧ o.okey = mkSparse e.scale i 0

theorem OrderRow.key {e : Env} {i : ℕ} {row : Row} (h : OrderRow e i row) {k : Str × ℕ}
    (hk : k ∈ row.lineKeys) : k.1 = prHuge (mkSparse e.scale i 0) := by
  obtain ⟨o, rfl, hok, hokey⟩ := h
  obtain ⟨l, hl, rfl⟩ := List.mem_map.mp hk
  obtain ⟨_, _, _, _, hlines⟩ := hok.dated
  rw [(hlines l hl).okey, hokey]

theorem OrderRow.nodup {e : Env} {i : ℕ} {row : Row} (h : OrderRow e i row) :
    row.lineKeys.Nodup := by
  obtain ⟨o, rfl, hok, _⟩ := h
  have hnumbers : (o.lineorders.map Lineorder.linenumber).Nodup := by
    rw [hok.numbered]
    exact List.nodup_range.map fun a b hab => Nat.succ.inj hab
  refine List.Nodup.of_map Prod.snd ?_
  rwa [Row.lineKeys, List.map_map]

theorem orderRow_genRow {e : Env} (he : e.Drawable) (i : ℕ) (σ : Streams) :
    OrderRow e i (genRow e .line 0 i σ).1 := by
  obtain ⟨_, _, _, hok, hokey⟩ := metered_mkOrder he i (0 % 10000) (rowStart σ)
  exact ⟨_, rfl, hok, hokey⟩

/-- Below scale 1000 different orders have different keys. -/
theorem eq_of_prHuge_eq {scale i j : ℕ} (hscale : scale < max32bScale)
    (h : prHuge (mkSparse scale i 0) = prHuge (mkSparse scale j 0)) : i = j := by
  have hvoid (k : ℕ) : max32bScale ≤ scale → keyNumber scale k 0 < 10 ^ 14 :=
    fun hle => absurd hle (not_le.mpr hscale)
  rw [prHuge_mkSparse (hvoid i), prHuge_mkSparse (hvoid j)] at h
  have hnumber : keyNumber scale i 0 = keyNumber scale j 0 :=
    Int.ofNat_inj.mp (decimal_injective h)
  exact ((keyNumber_inj_of_small hscale (by norm_num) (by norm_num)).mp hnumber).1

/-- The keys of rows with numbers are those of the numbers. -/
theorem key_of_orderRows {e : Env} {is : List ℕ} {rows : List Row}
    (h : List.Forall₂ (OrderRow e) is rows) {k : Str × ℕ} (hk : k ∈ rows.flatMap Row.lineKeys) :
    ∃ i ∈ is, k.1 = prHuge (mkSparse e.scale i 0) := by
  induction h with
  | nil => exact absurd hk List.not_mem_nil
  | @cons i row is rows hrow hrows ih =>
      rw [List.flatMap_cons, List.mem_append] at hk
      rcases hk with hk | hk
      · exact ⟨i, List.mem_cons_self, hrow.key hk⟩
      · obtain ⟨j, hj, hkey⟩ := ih hk
        exact ⟨j, List.mem_cons_of_mem i hj, hkey⟩

theorem nodup_of_orderRows {e : Env} (hscale : e.scale < max32bScale) {is : List ℕ}
    {rows : List Row} (h : List.Forall₂ (OrderRow e) is rows) (his : is.Nodup) :
    (rows.flatMap Row.lineKeys).Nodup := by
  induction h with
  | nil => exact List.nodup_nil
  | @cons i row is rows hrow hrows ih =>
      obtain ⟨hi, his⟩ := List.nodup_cons.mp his
      refine List.Nodup.append hrow.nodup (ih his) fun k hk hk' => hi ?_
      obtain ⟨j, hj, hkey⟩ := key_of_orderRows hrows hk'
      rwa [eq_of_prHuge_eq hscale ((hrow.key hk).symm.trans hkey)]

/-- **No two lines have the same key**, below scale 1000. -/
theorem nodup_lineKeys {e : Env} (he : e.Drawable) (hscale : e.scale < max32bScale)
    (σ : Streams) : ((mainTbl e .line σ).flatMap Row.lineKeys).Nodup :=
  nodup_of_orderRows hscale (Returns.mapM_forall₂ _ (orderRow_genRow he) σ) List.nodup_range'

theorem nodup_lineKeys_sample : ((mainTbl sampleEnv .line initial).flatMap Row.lineKeys).Nodup :=
  nodup_lineKeys sampleEnv_drawable (by decide) initial

/-! ## The dates of a step -/

/-- The datekey of the day after `k` days. -/
def dayKey (k : ℕ) : ℕ := (1900 + (dayAt k).1) * 10000 + (dayAt k).2.1 * 100 + (dayAt k).2.2

/-- The keys grow with the days. -/
theorem strictMono_dayKey : StrictMono dayKey := by
  refine strictMono_nat_of_lt_succ fun k => ?_
  obtain ⟨_, ⟨_, hm⟩, hd, hlast⟩ := dayAt_valid k
  have hlen : monthLength (dayAt k).1 (dayAt k).2.1 ≤ 31 := by
    have := leap_le (dayAt k).1
    unfold monthLength
    split_ifs <;> omega
  unfold dayKey
  rw [dayAt_succ]
  unfold nextDay
  split_ifs <;> dsimp only <;> omega

theorem datekey_mkDate {zone : ℤ → ℤ} (hzone : FromFirst zone) {k : ℕ} (hk : k < numDays) :
    (mkDate zone (k + 1)).datekey = dayKey k := by
  have hm := (dayAt_valid k).2.1.1
  have hlocal := hzone.localtime_eq hk
  unfold numDays at hk
  rw [tmOfDay_eq (by omega)] at hlocal
  simp only [mkDate, hlocal, dayKey, Nat.sub_add_cancel hm, Nat.add_comm (dayAt k).1 1900]

/-- The texts of the dates are the keys. -/
theorem ascDate_eq {k : ℕ} (hk : k < numDays) : ascDate (startDate + k) = decimal (dayKey k) := by
  obtain ⟨_, ⟨_, hm⟩, _, hlast⟩ := dayAt_valid k
  have hlen : monthLength (dayAt k).1 (dayAt k).2.1 ≤ 31 := by
    have := leap_le (dayAt k).1
    unfold monthLength
    split_ifs <;> omega
  have htext := getElem?_ascDate hk
  unfold numDays at hk
  rw [getElem?_mkAscdate (by unfold totDate; omega), Option.some_inj] at htext
  have hyear : (dayAt k).1 < 100 := year_lt (by omega)
  rw [← htext, dayKey, decimal_datekey hyear (by omega) (by omega)]

/-- The dates of the first step: its share of the days. -/
theorem exists_date_iff {e : Env} (hzone : FromFirst e.zone) {children k : ℕ}
    (hchildren : 1 < children) (hk : k < numDays) :
    (∃ d, Row.date d ∈ shareRows e .date children 0 0 ∧
      decimal d.datekey = ascDate (startDate + k)) ↔ k < numDays * e.scale / children := by
  have hcount : (stepRows .date e.scale children).1 = numDays * e.scale / children := by
    rw [stepRows_eq _ _ (by omega)]
    rfl
  rw [shareRows, stepRange, if_neg (by omega), hcount, mul_zero, zero_add, ascDate_eq hk]
  constructor
  · rintro ⟨d, hd, hkey⟩
    obtain ⟨i, hi, τ, hrow⟩ := of_mem_mapM hd
    obtain ⟨hpos, hle⟩ := List.mem_range'_1.mp hi
    obtain ⟨j, rfl⟩ := Nat.exists_eq_add_of_le' hpos
    by_cases hj : j < numDays
    · have hdate : d = mkDate e.zone (j + 1) := Row.date.inj hrow
      rw [hdate, datekey_mkDate hzone hj] at hkey
      have : j = k := strictMono_dayKey.injective (Int.ofNat_inj.mp (decimal_injective hkey))
      omega
    · omega
  · intro hlt
    have hmem : k + 1 ∈ List.range' 1 (numDays * e.scale / children) :=
      List.mem_range'_1.mpr ⟨Nat.le_add_left 1 k, by omega⟩
    obtain ⟨τ, hτ⟩ := exists_mem_mapM (f := genRow e .date 0) (stepState e .date children 0) hmem
    exact ⟨_, hτ, by rw [datekey_mkDate hzone hk]⟩

end Structor.Dbgen
