import Structor.Dbgen.Build

/-!
# Skipping rows

`speed_seed.c` takes the streams of a table over the rows that other processes make. For each
table there is a list of jumps per row, which is right only for the streams that a row takes
to the boundary it is allowed.

## Main results

* `advanceStreams_value` -- some jumps take a stream as far as the sum of its jumps
* `genSeed_value` -- the streams of `Aligned` are taken over as many rows as are skipped
-/
namespace Structor.Dbgen

/-- The tables of the star schema. -/
inductive Table
  | part
  | supp
  | cust
  | date
  | line
deriving DecidableEq

def Table.number : Table → ℤ
  | .part => Dbgen.part
  | .supp => Dbgen.supp
  | .cust => Dbgen.cust
  | .date => Dbgen.date
  | .line => Dbgen.line

/-- The base of a table. -/
def Table.base (t : Table) : ℕ := (tdefs t.number).base

/-! ## Jumps -/

/-- `ADVANCE_STREAM`: the stream and the number of calls. -/
abbrev Jump := StreamId × ℕ

def advanceStream (σ : Streams) (j : Jump) : Streams :=
  Function.update σ j.1 { σ j.1 with value := (σ j.1).value.advance j.2 }

def advanceStreams (js : List Jump) (σ : Streams) : Streams := js.foldl advanceStream σ

/-- `FAKE_V_STR`: as many calls as the rows may have. -/
def fakeVStr (sd : StreamId) (cnt : ℕ) : Jump := (sd, (seed sd).boundary.toNat * cnt)

/-- How far some jumps take a stream. -/
def skipped (js : List Jump) (s : StreamId) : ℕ :=
  ((js.filter fun j => j.1 = s).map Prod.snd).sum

@[simp] theorem skipped_nil (s : StreamId) : skipped [] s = 0 := rfl

theorem skipped_cons (j : Jump) (js : List Jump) (s : StreamId) :
    skipped (j :: js) s = (if j.1 = s then j.2 else 0) + skipped js s := by
  unfold skipped
  by_cases h : j.1 = s
  · rw [List.filter_cons_of_pos (by simpa using h), if_pos h, List.map_cons, List.sum_cons]
  · rw [List.filter_cons_of_neg (by simpa using h), if_neg h, zero_add]

/-- A jump of fewer calls than the modulus has values. -/
theorem StreamValue.advance_natCast (v : StreamValue) {n : ℕ} (h : n < nM) :
    v.advance n = StreamValue.next^[n] v := by
  have hlow : -(nM : ℤ) < n := by
    have : 0 < nM := by decide
    omega
  have hjump := StreamValue.advance_iterate v (n := 0) hlow (by exact_mod_cast h) (by omega)
  rwa [Function.iterate_zero_apply, Nat.cast_zero, zero_add, Int.toNat_natCast] at hjump

theorem advanceStream_value (σ : Streams) (j : Jump) (s : StreamId) (h : j.1 = s → j.2 < nM) :
    (advanceStream σ j s).value =
      StreamValue.next^[if j.1 = s then j.2 else 0] (σ s).value := by
  unfold advanceStream
  by_cases hs : j.1 = s
  · subst hs
    rw [Function.update_self, if_pos rfl, ← StreamValue.advance_natCast _ (h rfl)]
  · rw [Function.update_of_ne (Ne.symm hs), if_neg hs, Function.iterate_zero_apply]

theorem advanceStreams_value (js : List Jump) (σ : Streams) (s : StreamId)
    (h : ∀ j ∈ js, j.1 = s → j.2 < nM) :
    (advanceStreams js σ s).value = StreamValue.next^[skipped js s] (σ s).value := by
  induction js generalizing σ with
  | nil => rfl
  | cons j js ih =>
      have hhead := advanceStream_value σ j s (h j List.mem_cons_self)
      have htail := ih (advanceStream σ j) fun k hk => h k (List.mem_cons_of_mem j hk)
      rw [advanceStreams, List.foldl_cons, ← advanceStreams, htail, hhead,
        ← Function.iterate_add_apply, skipped_cons, Nat.add_comm]

/-! ## The jumps of the tables -/

/-- The same number of calls on the streams from `first` up to `last`. -/
def advanceRange (first last numCalls : ℕ) : List Jump :=
  (List.range' first (last + 1 - first)).map fun i => (streamOf i, numCalls)

def pCmntSd : ℕ := 6
def lRflgSd : ℕ := 24
def lCmntSd : ℕ := 25
def cAbalSd : ℕ := 29
def cCmntSd : ℕ := 31
def sPhneSd : ℕ := 34
def sAbalSd : ℕ := 35
def sCmntSd : ℕ := 36
def bbbJnkSd : ℕ := 44
def bbbTypeSd : ℕ := 45
def bbbCmntSd : ℕ := 46
def bbbOffsetSd : ℕ := 47

def sdPart (skipCount : ℕ) : List Jump :=
  advanceRange pMfgSd pCntrSd skipCount ++
    [fakeVStr (streamOf pCmntSd) skipCount, (streamOf pNameSd, skipCount * 92)]

/-- The link to the orders is special: it is skipped only where there is a child. -/
def sdLine (child : Bool) (skipCount : ℕ) : List Jump :=
  (List.range oLcntMax.toNat).flatMap (fun _ => advanceRange lQtySd lRflgSd skipCount) ++
    [fakeVStr (streamOf lCmntSd) skipCount] ++
    (if child then [(streamOf oOdateSd, skipCount), (streamOf oLcntSd, skipCount)] else [])

def sdCust (skipCount : ℕ) : List Jump :=
  [fakeVStr (streamOf cAddrSd) skipCount, fakeVStr (streamOf cCmntSd) skipCount,
    (streamOf cNtrgSd, skipCount), (streamOf cPhneSd, 3 * skipCount),
    (streamOf cAbalSd, skipCount), (streamOf cMsegSd, skipCount)]

def sdSupp (skipCount : ℕ) : List Jump :=
  [(streamOf sNtrgSd, skipCount), (streamOf sPhneSd, 3 * skipCount),
    (streamOf sAbalSd, skipCount), fakeVStr (streamOf sAddrSd) skipCount,
    fakeVStr (streamOf sCmntSd) skipCount, (streamOf bbbCmntSd, skipCount),
    (streamOf bbbJnkSd, skipCount), (streamOf bbbOffsetSd, skipCount),
    (streamOf bbbTypeSd, skipCount)]

/-- `gen_seed` of a table, as `set_state` calls it. The date table has none. -/
def genSeed (t : Table) (skipCount : ℕ) : List Jump :=
  match t with
  | .part => sdPart skipCount
  | .supp => sdSupp skipCount
  | .cust => sdCust skipCount
  | .date => []
  | .line => sdLine true skipCount

/-- The streams that a row takes to the boundary, and of which the jumps keep count: not those
of the city, of the phone of a supplier, of the manufacturer and the category of a part, of
the customer and the priority of an order. -/
def Aligned : Table → Finset StreamId
  | .part => {1, 2, 3, 4, 37}
  | .supp => {32, 33}
  | .cust => {26, 27, 28, 30}
  | .date => ∅
  | .line => {13, 14, 15, 16, 18, 19, 20, 22, 43}

/-- What a row takes a stream of `Aligned` by. -/
def rowRate (s : StreamId) : ℕ := (seed s).boundary.toNat

/-- The number of calls of a jump grows with the rows. -/
theorem genSeed_eq (t : Table) (n : ℕ) :
    genSeed t n = (genSeed t 1).map fun j => (j.1, j.2 * n) := by
  cases t <;>
    simp [genSeed, sdPart, sdSupp, sdCust, sdLine, advanceRange, fakeVStr, List.map_flatMap,
      Function.comp_def, Nat.mul_comm]

theorem skipped_map (js : List Jump) (n : ℕ) (s : StreamId) :
    skipped (js.map fun j => (j.1, j.2 * n)) s = skipped js s * n := by
  induction js with
  | nil => simp
  | cons j js ih =>
      rw [List.map_cons, skipped_cons, skipped_cons, ih, add_mul, ite_mul, zero_mul]

theorem skipped_genSeed_one : ∀ t, ∀ s ∈ Aligned t, skipped (genSeed t 1) s = rowRate s := by
  intro t
  cases t <;> decide

/-- The most calls of a jump for a row. -/
def maxCalls : Table → ℕ
  | .part => 92
  | .supp => 9
  | .cust => 9
  | .date => 0
  | .line => 1

theorem calls_le_maxCalls : ∀ t, ∀ j ∈ genSeed t 1, j.1 ∈ Aligned t → j.2 ≤ maxCalls t := by
  intro t
  cases t <;> decide

/-- **The jumps of a table** take its streams over the rows that are skipped. -/
theorem genSeed_value {t : Table} {n : ℕ} (hn : maxCalls t * n < nM) (σ : Streams)
    {s : StreamId} (hs : s ∈ Aligned t) :
    (advanceStreams (genSeed t n) σ s).value =
      StreamValue.next^[rowRate s * n] (σ s).value := by
  rw [advanceStreams_value, genSeed_eq, skipped_map, skipped_genSeed_one t s hs]
  intro j hj hjs
  rw [genSeed_eq] at hj
  obtain ⟨k, hk, rfl⟩ := List.mem_map.mp hj
  have hle := calls_le_maxCalls t k hk (hjs ▸ hs)
  exact (Nat.mul_le_mul_right n hle).trans_lt hn

end Structor.Dbgen
