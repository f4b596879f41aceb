import Structor.Generator.SeededRows
import Structor.Generator.Timeseries
import Structor.Generator.Weblog

/-!
# The workloads of the generator

The main program calls the function of the workload with the scale, the child and the
extras. The children of one scale are processes of their own, whose files make one data set.

## Main definitions

* `call` -- the call that the main program makes, as far as it matters what the rows are known by
* `Composes` -- every child completes, and no two children write rows with one key
-/
namespace Structor.Workloads
open Python
variable {ω σ μ ρ φ ν : Type}

/-- The names that the usage message offers. -/
inductive Workload where
  | accounts | multidevice | omniture | rawTimeseries | phoenixTimeseries | phoenix | allTypes
deriving DecidableEq

/-- What rows are known by. The number of a row is the text of its first column. -/
inductive Key where
  | customer (id : ℤ)
  | account (id : ℤ)
  | transaction (id : ℤ)
  | tracking (id : ℤ)
  | rowNumber (text : Str)
  | deviceTime (device time : ℤ)

/-- What the processes share. `mktime` is the time of a midnight of January. -/
structure Library (σ μ ρ φ ν : Type) where
  numeric : Multidevice.Numeric
  sqrt : ℕ → ℚ
  log : ℤ → ℚ
  mktime : ℤ → ℤ
  seedSeries : ℤ → σ
  drawSeries : σ → ℤ → ℤ → μ × σ
  sources : SeededRows.Sources ρ φ ν

/-- The draws of the raw time series, by tick and device. -/
structure RawDraws where
  alpha : ℤ → ℤ → { a : ℤ // 8 ≤ a ∧ a ≤ 12 }
  beta : ℤ → ℤ → Multidevice.Frac
  gamma : ℤ → ℤ → ℚ

/-- What a process draws and finds, for whichever workload it runs. -/
structure Process (ω ρ φ : Type) where
  accountTypes : Except Error (List Accounts.AccountType)
  transactionTypes : Except Error (List Accounts.TransactionType)
  accounts : Accounts.Draws
  uuid1 : Fresh.Supply ω
  multidevice : Multidevice.Draws
  omniture : Omniture.Draws
  raw : RawDraws
  initial : ρ × φ

/-! ## The accounts -/

/-- No global has the name of a look-up table: these are local variables of `fake_accounts`. -/
def mainGlobals : Accounts.Globals := ⟨none, none, none⟩

/-- The tables, or an argument mismatch. Both arguments are assigned again. -/
def fakeAccounts (proc : Process ω ρ φ) (_scale _child : ℤ) :
    Except Error (Option Accounts.Tables) := do
  let _accountTypes ← proc.accountTypes
  let _transactionTypes ← proc.transactionTypes
  let child : ℤ := 0
  let scale : ℤ := 1
  if child ≥ scale then pure none
  else
    match Accounts.rowLoop mainGlobals proc.accounts false (SeededRows.rowRange scale child) with
    | (tables, none) => .ok (some tables)
    | (_, some e) => .error e

/-! ## The raw time series -/

structure RawRecord where
  device : ℤ
  thisTime : ℤ
  value : ℚ

/-- `random.gammavariate` with the draw `g`. -/
def gammavariate (alpha beta g : ℚ) : Except Error ℚ :=
  if alpha ≤ 0 ∨ beta ≤ 0 then .error .valueError else .ok g

/-- `round(x, 3)` -/
def round3 (x : ℚ) : ℚ := ⌊x * 1000 + 1 / 2⌋ / 1000

/-- `datetime(2016, 1, day, 0, 0)` -/
def january (day : ℤ) : Except Error ℤ :=
  if 1 ≤ day ∧ day ≤ 31 then .ok day else .error .valueError

def fakeRawTimeseries (lib : Library σ μ ρ φ ν) (d : RawDraws) (scale child : ℤ) :
    Except Error (List RawRecord) := do
  if scale ≤ 0 then .error .valueError
  else
    let nDevices := ⌊scale * lib.log scale + 1⌋
    let tsmin ← january (child + 1)
    let ticks ← (xrange 0 (86400 / 15)).mapM fun i =>
      (xrange 0 nDevices).mapM fun j => do
        let value ← gammavariate (d.alpha i j).1 (d.beta i j).1 (d.gamma i j)
        pure { device := j, thisTime := lib.mktime tsmin + i * 15, value := round3 value }
    pure ticks.flatten

/-! ## The call -/

def accountsKeys (t : Accounts.Tables) : List Key :=
  t.customers.map (fun r => .customer r.customerId) ++
    t.accounts.map (fun r => .account r.accountId) ++
    t.customerAccounts.flatMap (fun r => [.customer r.customerId, .account r.accountId]) ++
    t.transactions.map fun r => .transaction r.transactionId

def multideviceKeys (out : Multidevice.Output ω) : List Key :=
  out.users.map (fun r => .customer r.userId) ++
    out.sales.flatMap (fun r => [.customer r.userId, .tracking r.trackingId]) ++
    out.clickstream.map fun r => .tracking r.trackingId

def rawKeys (rows : List RawRecord) : List Key :=
  rows.map fun r => .deviceTime r.device r.thisTime

def seriesKeys (rows : List (Timeseries.Record μ)) : List Key :=
  rows.map fun r => .deviceTime r.deviceId r.thisTime

def rowNumberKeys (rows : List (List Str)) : List Key :=
  rows.map fun r => .rowNumber (r.headD [])

/-- How many arguments the function of a workload takes. -/
def parameters : Workload → ℕ
  | .rawTimeseries => 2
  | _ => 3

/-- `function(scale, child, extras)`: the keys of the rows, or an argument mismatch. The rows of
the web log and of all types have no key. -/
def call (lib : Library σ μ ρ φ ν) (proc : Process ω ρ φ) (workload : Workload)
    (scale child : ℤ) : Except Error (Option (List Key)) :=
  if parameters workload < 3 then .error .typeError
  else
    match workload with
    | .accounts => (fakeAccounts proc scale child).map (Option.map accountsKeys)
    | .multidevice =>
        (Multidevice.fakeMultidevice lib.numeric proc.uuid1 proc.multidevice child).map fun out =>
          some (multideviceKeys out)
    | .omniture =>
        (Omniture.fakeOmniture lib.sqrt proc.omniture scale child).map (Option.map fun _ => [])
    | .rawTimeseries =>
        (fakeRawTimeseries lib proc.raw scale child).map fun rows => some (rawKeys rows)
    | .phoenixTimeseries =>
        .ok ((Timeseries.fakePhoenixTimeseries lib.seedSeries lib.drawSeries (lib.mktime 1) scale
          child).map seriesKeys)
    | .phoenix =>
        .ok ((SeededRows.fakePhoenix lib.sources scale child proc.initial).map rowNumberKeys)
    | .allTypes =>
        .ok ((SeededRows.fakeAllTypes lib.sources scale child proc.initial).map fun _ => [])

/-- The children of a scale, each a process of its own, complete and share no key. -/
structure Composes (lib : Library σ μ ρ φ ν) (procs : ℤ → Process ω ρ φ) (workload : Workload)
    (scale : ℤ) : Prop where
  completes : ∀ child, 0 ≤ child → child < scale →
    ∃ keys, call lib (procs child) workload scale child = .ok (some keys)
  separate : ∀ child child', 0 ≤ child → child < scale → 0 ≤ child' → child' < scale →
    child ≠ child' → ∀ keys keys',
      call lib (procs child) workload scale child = .ok (some keys) →
      call lib (procs child') workload scale child' = .ok (some keys') →
        ∀ k ∈ keys, k ∉ keys'

/-! ## Which keys a child may write -/

/-- The keys that belong to a child. -/
def Owns (lib : Library σ μ ρ φ ν) (scale child : ℤ) : Key → Prop
  | .customer id => ∃ i : ℤ, 0 ≤ i ∧ i < 1000 ∧ id = i + 1000 * child
  | .tracking id => ∃ i : ℤ, 0 ≤ i ∧ i < 20000 ∧ id = i + 20000 * child
  | .rowNumber text => ∃ i ∈ SeededRows.rowRange scale child, text = decimal i
  | .deviceTime device time =>
      ∃ i ∈ xrange (child * Timeseries.recordsPerFile) ((child + 1) * Timeseries.recordsPerFile),
        Timeseries.decode (lib.mktime 1) scale i = (device, time)
  | .account _ => False
  | .transaction _ => False

variable {lib : Library σ μ ρ φ ν} {proc : Process ω ρ φ} {scale child child' : ℤ}

theorem eq_of_mem_rowRange (h0 : 0 ≤ child) (h : child < scale) (h0' : 0 ≤ child')
    (h' : child' < scale) {i : ℤ} (hi : i ∈ SeededRows.rowRange scale child)
    (hi' : i ∈ SeededRows.rowRange scale child') : child = child' := by
  rw [SeededRows.rowRange] at hi hi'
  by_cases hscale : scale > 1
  · rw [if_pos hscale, mem_xrange] at hi hi'
    omega
  · omega

/-- A key belongs to one child at most. -/
theorem Owns.unique (hscale : 1 ≤ scale) (h0 : 0 ≤ child) (h : child < scale) (h0' : 0 ≤ child')
    (h' : child' < scale) {k : Key} (hk : Owns lib scale child k)
    (hk' : Owns lib scale child' k) : child = child' := by
  cases k with
  | customer id =>
      obtain ⟨i, hi, hlt, hid⟩ := hk
      obtain ⟨i', hi', hlt', hid'⟩ := hk'
      omega
  | account id => cases hk
  | transaction id => cases hk
  | tracking id =>
      obtain ⟨i, hi, hlt, hid⟩ := hk
      obtain ⟨i', hi', hlt', hid'⟩ := hk'
      omega
  | rowNumber text =>
      obtain ⟨i, hi, htext⟩ := hk
      obtain ⟨i', hi', htext'⟩ := hk'
      obtain rfl : i = i' := decimal_injective (htext.symm.trans htext')
      exact eq_of_mem_rowRange h0 h h0' h' hi hi'
  | deviceTime device time =>
      obtain ⟨i, hi, hkey⟩ := hk
      obtain ⟨i', hi', hkey'⟩ := hk'
      obtain rfl : i = i' := Timeseries.decode_injective hscale (hkey.trans hkey'.symm)
      rw [mem_xrange, Timeseries.recordsPerFile_eq] at hi hi'
      omega

/-! ## The calls -/

theorem error_of_accounts (lib : Library σ μ ρ φ ν) (proc : Process ω ρ φ) (scale child : ℤ) :
    ∃ e, call lib proc .accounts scale child = .error e := by
  -- The first row already reads `customer_types`.
  have hrow : ∀ d, Accounts.customerRows mainGlobals d 0 = .error .nameError := fun _ => rfl
  have hrows : Accounts.rowLoop mainGlobals proc.accounts false (SeededRows.rowRange 1 0) =
      (.empty, some .nameError) := by
    rw [SeededRows.rowRange, if_neg (by decide), xrange_of_lt (by decide), Accounts.rowLoop]
    simp [Accounts.reseedSplit, hrow]
  have hloop : ∃ e, fakeAccounts proc scale child = .error e := by
    rw [fakeAccounts]
    cases proc.accountTypes with
    | error e => exact ⟨e, rfl⟩
    | ok types =>
        cases proc.transactionTypes with
        | error e => exact ⟨e, rfl⟩
        | ok types' =>
            refine ⟨.nameError, ?_⟩
            simp only [bind, Except.bind]
            rw [if_neg (by decide), hrows]
  obtain ⟨e, he⟩ := hloop
  exact ⟨e, by rw [call, if_neg (by decide)]; simp only [he]; rfl⟩

theorem error_of_rawTimeseries (lib : Library σ μ ρ φ ν) (proc : Process ω ρ φ)
    (scale child : ℤ) : call lib proc .rawTimeseries scale child = .error .typeError := by
  rw [call, if_pos (by decide)]

theorem exists_multidevice_ok (lib : Library σ μ ρ φ ν) (proc : Process ω ρ φ)
    (scale child : ℤ) : ∃ keys, call lib proc .multidevice scale child = .ok (some keys) ∧
      ∀ k ∈ keys, Owns lib scale child k := by
  obtain ⟨out, s, hout, hgood, husers, hsales, hclicks⟩ :=
    Multidevice.exists_good_of_fakeMultidevice lib.numeric proc.uuid1 proc.multidevice child
  refine ⟨multideviceKeys out, ?_, ?_⟩
  · rw [call, if_neg (by decide)]
    simp only [hout]
    rfl
  have hcustomer : ∀ i, Owns lib scale child
      (.customer (Multidevice.userOf child proc.multidevice.journeys i)) := by
    intro i
    exact ⟨_, Multidevice.userOffset_nonneg _, Multidevice.userOffset_lt _, rfl⟩
  have htracking : ∀ i < Multidevice.numJournies.toNat, ∀ id : ℤ,
      id = i + Multidevice.numJournies * child → Owns lib scale child (.tracking id) := by
    intro i hi id hid
    simp only [Multidevice.numJournies] at hi hid
    exact ⟨i, by omega, by omega, hid⟩
  intro k hk
  simp only [multideviceKeys, List.mem_append, List.mem_map, List.mem_flatMap] at hk
  rcases hk with (⟨u, hu, rfl⟩ | ⟨x, hx, hk⟩) | ⟨c, hc, rfl⟩
  · have hid : u.userId ∈ out.users.map Multidevice.User.userId := List.mem_map_of_mem hu
    rw [husers, List.mem_map] at hid
    obtain ⟨i, hi, hid⟩ := hid
    rw [List.mem_range] at hi
    rw [← hid]
    exact ⟨i, by omega, by omega, rfl⟩
  · obtain ⟨i, hi, hxTracking, hxUser⟩ := hgood.users x ((hsales x).mp hx)
    rcases List.mem_cons.mp hk with rfl | hk
    · rw [hxUser]
      exact hcustomer i
    · obtain rfl := List.mem_singleton.mp hk
      exact htracking i hi _ hxTracking
  · obtain ⟨i, hi, hcTracking, -⟩ := hgood.clicks c ((hclicks c).mp hc)
    exact htracking i hi _ hcTracking

theorem exists_omniture_iff (lib : Library σ μ ρ φ ν) (proc : Process ω ρ φ) (h0 : 0 ≤ child)
    (h : child < scale) :
    (∃ keys, call lib proc .omniture scale child = .ok (some keys)) ↔ child ≤ 3 := by
  rw [← Omniture.exists_fakeOmniture_iff lib.sqrt proc.omniture h0 h, call, if_neg (by decide)]
  cases Omniture.fakeOmniture lib.sqrt proc.omniture scale child with
  | error e => simp [Except.map]
  | ok rows => cases rows <;> simp [Except.map]

theorem exists_phoenixTimeseries_ok (lib : Library σ μ ρ φ ν) (proc : Process ω ρ φ)
    (h : child < scale) : ∃ keys, call lib proc .phoenixTimeseries scale child = .ok (some keys) ∧
      ∀ k ∈ keys, Owns lib scale child k := by
  rw [call, if_neg (by decide)]
  simp only [Timeseries.fakePhoenixTimeseries_of_lt _ _ _ h, Option.map_some]
  refine ⟨_, rfl, ?_⟩
  intro k hk
  obtain ⟨r, hr, rfl⟩ := List.mem_map.mp hk
  have hkey := List.mem_map_of_mem (f := Timeseries.Record.key) hr
  rw [Timeseries.map_key_rowLoop, List.mem_map] at hkey
  obtain ⟨i, hi, hkey⟩ := hkey
  exact ⟨i, hi, hkey⟩

theorem exists_phoenix_ok (lib : Library σ μ ρ φ ν) (proc : Process ω ρ φ) (h : child < scale) :
    ∃ keys, call lib proc .phoenix scale child = .ok (some keys) ∧
      ∀ k ∈ keys, Owns lib scale child k := by
  have hnumber : ∀ (i : ℤ) (s : ρ × φ),
      ((SeededRows.phoenixRecord lib.sources i).run s).1.headD [] = decimal i := fun _ _ => rfl
  rw [call, if_neg (by decide)]
  simp only [SeededRows.fakePhoenix, SeededRows.splitRows, if_neg (Int.not_le.mpr h),
    Option.map_some]
  refine ⟨_, rfl, ?_⟩
  intro k hk
  obtain ⟨r, hr, rfl⟩ := List.mem_map.mp hk
  have htext := List.mem_map_of_mem (f := fun r => r.headD []) hr
  rw [Seeding.map_rowLoop hnumber, List.mem_map] at htext
  obtain ⟨i, hi, htext⟩ := htext
  exact ⟨i, hi, htext.symm⟩

theorem allTypes_eq_ok (lib : Library σ μ ρ φ ν) (proc : Process ω ρ φ) (h : child < scale) :
    call lib proc .allTypes scale child = .ok (some []) := by
  rw [call, if_neg (by decide)]
  simp only [SeededRows.fakeAllTypes, SeededRows.splitRows, if_neg (Int.not_le.mpr h)]
  rfl

theorem omniture_eq_nil {keys : List Key}
    (hcall : call lib proc .omniture scale child = .ok (some keys)) : keys = [] := by
  rw [call, if_neg (by decide)] at hcall
  cases hfile : Omniture.fakeOmniture lib.sqrt proc.omniture scale child with
  | error e => simp [hfile, Except.map] at hcall
  | ok rows =>
      simp only [hfile, Except.map, Except.ok.injEq, Option.map_eq_some_iff] at hcall
      obtain ⟨-, -, hkeys⟩ := hcall
      exact hkeys.symm

/-- What a call writes belongs to the child. -/
theorem owns_of_mem {workload : Workload} (h : child < scale) {keys : List Key}
    (hcall : call lib proc workload scale child = .ok (some keys)) {k : Key} (hk : k ∈ keys) :
    Owns lib scale child k := by
  have hsame : (∃ keys', call lib proc workload scale child = .ok (some keys') ∧
      ∀ k ∈ keys', Owns lib scale child k) → Owns lib scale child k := by
    intro hexists
    obtain ⟨keys', hcall', howns⟩ := hexists
    rw [hcall] at hcall'
    obtain rfl : keys = keys' := by simpa using hcall'
    exact howns k hk
  cases workload with
  | accounts =>
      obtain ⟨e, he⟩ := error_of_accounts lib proc scale child
      rw [he] at hcall
      cases hcall
  | multidevice => exact hsame (exists_multidevice_ok lib proc scale child)
  | omniture =>
      rw [omniture_eq_nil hcall] at hk
      cases hk
  | rawTimeseries =>
      rw [error_of_rawTimeseries] at hcall
      cases hcall
  | phoenixTimeseries => exact hsame (exists_phoenixTimeseries_ok lib proc h)
  | phoenix => exact hsame (exists_phoenix_ok lib proc h)
  | allTypes => exact hsame ⟨[], allTypes_eq_ok lib proc h, by simp⟩

/-! ## Children compose -/

/-- The workloads whose calls do not raise at a scale. -/
def Completes (workload : Workload) (scale : ℤ) : Prop :=
  workload ≠ .accounts ∧ workload ≠ .rawTimeseries ∧ (workload = .omniture → scale ≤ 4)

theorem exists_call_ok {workload : Workload} (hw : Completes workload scale) (h0 : 0 ≤ child)
    (h : child < scale) : ∃ keys, call lib proc workload scale child = .ok (some keys) := by
  obtain ⟨haccounts, hraw, homniture⟩ := hw
  cases workload with
  | accounts => exact absurd rfl haccounts
  | multidevice =>
      obtain ⟨keys, hkeys, -⟩ := exists_multidevice_ok lib proc scale child
      exact ⟨keys, hkeys⟩
  | omniture =>
      have hscale := homniture rfl
      exact (exists_omniture_iff lib proc h0 h).mpr (by omega)
  | rawTimeseries => exact absurd rfl hraw
  | phoenixTimeseries =>
      obtain ⟨keys, hkeys, -⟩ := exists_phoenixTimeseries_ok lib proc h
      exact ⟨keys, hkeys⟩
  | phoenix =>
      obtain ⟨keys, hkeys, -⟩ := exists_phoenix_ok lib proc h
      exact ⟨keys, hkeys⟩
  | allTypes => exact ⟨[], allTypes_eq_ok lib proc h⟩

/-- Sources that always draw the same. -/
def plainLibrary : Library Unit Unit ℤ ℤ ℤ where
  numeric := ⟨decimal, fun _ _ _ => 1, id, id, id⟩
  sqrt := fun n => n
  log := fun n => n
  mktime := fun day => 1451606400 + 86400 * (day - 1)
  seedSeries := fun _ => ()
  drawSeries := fun _ _ _ => ((), ())
  sources := SeededRows.counters

theorem half_mem : (0 : ℚ) ≤ 1 / 2 ∧ (1 / 2 : ℚ) < 1 := by
  norm_num

def half : Multidevice.Frac := ⟨1 / 2, half_mem⟩

def plainUser : Multidevice.UserDraws :=
  ⟨0, ("Ann", "Ann"), ("Ann", "Ann"), ⟨List.replicate 16 '4', by decide⟩, "Lyon", "NY", "12345",
    "ann@example.com", "555"⟩

def plainJourney : Multidevice.JourneyDraws :=
  ⟨0, half, half, half, 0, half, ⟨1, by norm_num⟩, fun _ => 7, fun _ => 30, half, half, half⟩

def plainVisit : Omniture.VisitDraws :=
  ⟨⟨0, by decide⟩, "NY", half, half, half, half, half, ⟨2, by decide⟩, half, "12345", half,
    fun _ _ => ⟨1, by norm_num⟩, half⟩

def plainProcess : Process ℕ ℤ ℤ where
  accountTypes := .error .ioError
  transactionTypes := .error .ioError
  accounts := Accounts.oneAccount
  uuid1 := ⟨id, fun _ _ h => h⟩
  multidevice := ⟨fun _ => ⟨0, 0, half, half⟩, fun _ => plainUser, fun _ => plainJourney⟩
  omniture := ⟨fun _ => 0, fun _ => half, fun _ => plainVisit⟩
  raw := ⟨fun _ _ => ⟨8, by decide⟩, fun _ _ => half, fun _ _ => 1⟩
  initial := (0, 0)

/-- Whatever the children draw, they compose exactly for the workloads that complete. -/
theorem composes_iff (lib : Library σ μ ρ φ ν) (procs : ℤ → Process ω ρ φ) (workload : Workload)
    {scale : ℤ} (hscale : 1 ≤ scale) :
    Composes lib procs workload scale ↔ Completes workload scale := by
  constructor
  · intro hcomposes
    refine ⟨?_, ?_, ?_⟩
    · rintro rfl
      obtain ⟨keys, hkeys⟩ := hcomposes.completes 0 (by omega) (by omega)
      obtain ⟨e, he⟩ := error_of_accounts lib (procs 0) scale 0
      rw [he] at hkeys
      cases hkeys
    · rintro rfl
      obtain ⟨keys, hkeys⟩ := hcomposes.completes 0 (by omega) (by omega)
      rw [error_of_rawTimeseries] at hkeys
      cases hkeys
    · rintro rfl
      have hlast := hcomposes.completes (scale - 1) (by omega) (by omega)
      have hchild := (exists_omniture_iff lib _ (by omega) (by omega)).mp hlast
      omega
  · intro hw
    constructor
    · intro child h0 h
      exact exists_call_ok hw h0 h
    · intro child child' h0 h h0' h' hne keys keys' hkeys hkeys' k hk hk'
      exact hne (Owns.unique hscale h0 h h0' h' (owns_of_mem h hkeys hk)
        (owns_of_mem h' hkeys' hk'))

/-- Four weeks of the web log are those of March. -/
theorem composes_four_weeks : Composes plainLibrary (fun _ => plainProcess) .omniture 4 :=
  (composes_iff plainLibrary (fun _ => plainProcess) .omniture (by decide)).mpr
    ⟨by decide, by decide, fun _ => by decide⟩

/-- The fifth week would end on the 35th of March. -/
theorem five_weeks_not_compose : ¬ Composes plainLibrary (fun _ => plainProcess) .omniture 5 := by
  intro h
  have hlast := (exists_omniture_iff plainLibrary plainProcess (by decide : (0 : ℤ) ≤ 4)
    (by decide)).mp (h.completes 4 (by decide) (by decide))
  omega

end Structor.Workloads
