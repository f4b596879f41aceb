import Structor.Dbgen.SpeedSeed

/-!
# The driver of the star schema data generator

`gen_tbl` makes the rows of a table one after the other. With `-C` and `-S` a process makes
only its share of a table: `set_state` says how many rows this is, and takes the streams over
the shares before it.

## Main results

* `flatMap_stepRange` -- the shares are all rows of the table, each in one share
* `genRows_value` -- the streams of `Aligned` after some rows
-/
namespace Structor.Dbgen

/-! ## Rows of a table -/

inductive Row
  | part (p : Part)
  | supp (s : Supplier)
  | cust (c : Customer)
  | date (d : DateT)
  | line (o : Order)

def mkRow (e : Env) (updNum i : ℕ) : Table → StateM Streams Row
  | .part => Row.part <$> mkPart e i
  | .supp => Row.supp <$> mkSupp e i
  | .cust => Row.cust <$> mkCust e i
  | .date => pure (Row.date (mkDate e.zone i))
  | .line => Row.line <$> mkOrder e i (updNum % 10000)

/-- A turn of the loop of `gen_tbl`. -/
def genRow (e : Env) (t : Table) (updNum i : ℕ) : StateM Streams Row := do
  modify rowStart
  let row ← mkRow e updNum i t
  modify (rowStop t.number)
  pure row

/-- Without segments for the insertions. -/
def genTbl (e : Env) (t : Table) (start count updNum : ℕ) : StateM Streams (List Row) :=
  (List.range' start count).mapM (genRow e t updNum)

/-- The rows that `main` lets one process make. -/
def mainRowcnt (e : Env) : Table → ℕ
  | .part => Table.base .part * (1 + e.floorLog2)
  | .date => Table.base .date
  | t => t.base * e.scale

/-! ## Steps -/

/-- `result` and `*extra_rows` of `set_state`, for a step that there is. -/
def stepRows (t : Table) (sf procs : ℕ) : ℕ × ℕ :=
  let rowcount := t.base / procs * sf
  let remainder := t.base % procs * sf
  (rowcount + remainder / procs, remainder % procs)

/-- `none` is the abort. Without a step `*extra_rows` is not set, but then it is not used. -/
def setState (t : Table) (sf procs step : ℕ) (σ : Streams) : Option (ℕ × ℕ × Streams) :=
  if sf = 0 ∨ step = 0 then some (0, 0, σ)
  else if max32bScale < sf / procs then none
  else
    let rows := stepRows t sf procs
    some (rows.1, rows.2, (advanceStreams (genSeed t rows.1))^[step - 1] σ)

/-- The rows of a step, in a process of its own. -/
def stepTbl (e : Env) (t : Table) (children s updNum : ℕ) : Option (List Row) :=
  (setState t e.scale children s initial).map fun (rowcnt, extra, σ) =>
    (genTbl e t (rowcnt * (s - 1) + 1) (if s = children then rowcnt + extra else rowcnt)
      updNum σ).1

/-! ## The shares -/

theorem stepRows_eq (t : Table) (sf : ℕ) {procs : ℕ} (hprocs : 0 < procs) :
    stepRows t sf procs = (t.base * sf / procs, t.base * sf % procs) := by
  have hsplit : t.base * sf = t.base % procs * sf + procs * (t.base / procs * sf) := by
    calc t.base * sf = (t.base % procs + procs * (t.base / procs)) * sf := by
          rw [Nat.mod_add_div]
      _ = t.base % procs * sf + procs * (t.base / procs * sf) := by ring
  rw [stepRows, hsplit, Nat.add_mul_div_left _ _ hprocs, Nat.add_mul_mod_self_left, Nat.add_comm]

/-- The numbers of the rows of a step, counted from zero. -/
def stepRange (t : Table) (sf procs k : ℕ) : List ℕ :=
  let rows := stepRows t sf procs
  List.range' (rows.1 * k + 1) (if k + 1 = procs then rows.1 + rows.2 else rows.1)

theorem flatMap_stepRange_lt {t : Table} {sf procs k : ℕ} (hk : k < procs) :
    (List.range k).flatMap (stepRange t sf procs) =
      List.range' 1 ((stepRows t sf procs).1 * k) := by
  induction k with
  | zero => simp
  | succ k ih =>
      rw [List.range_succ, List.flatMap_append, ih (by omega), List.flatMap_singleton, stepRange,
        if_neg (by omega), Nat.add_comm (_ * k) 1, List.range'_append_1, Nat.mul_succ]

/-- **The steps make all rows of a table**, each row in one step. -/
theorem flatMap_stepRange (t : Table) (sf : ℕ) {procs : ℕ} (hprocs : 0 < procs) :
    (List.range procs).flatMap (stepRange t sf procs) = List.range' 1 (t.base * sf) := by
  obtain ⟨k, rfl⟩ := Nat.exists_eq_succ_of_ne_zero hprocs.ne'
  rw [List.range_succ, List.flatMap_append, flatMap_stepRange_lt (Nat.lt_succ_self k),
    List.flatMap_singleton, stepRange, if_pos rfl, Nat.add_comm (_ * k) 1, List.range'_append_1,
    stepRows_eq t sf hprocs, ← Nat.add_assoc, ← Nat.mul_succ, Nat.mul_comm, Nat.div_add_mod]

/-! ## The streams after some rows -/

theorem drawOf_le_one (nStream : ℕ) (d : Option StreamId) : drawOf nStream d ≤ 1 := by
  unfold drawOf
  rw [Draws.single_apply]
  split_ifs <;> omega

theorem ne_zero_of_mem_aligned : ∀ t, ∀ s ∈ Aligned t, s ≠ 0 := by
  intro t
  cases t <;> decide

/-- Only the date and the number of lines of an order are not taken to the boundary. -/
theorem owned_of_mem_aligned : ∀ t, ∀ s ∈ Aligned t,
    Owned t.number s ∨ t = .line ∧ (s = 13 ∨ s = 43) := by
  intro t
  cases t <;> decide

/-- The draws of a row of a table that fit the jumps. -/
def RowDraws (t : Table) (n : Draws) : Prop :=
  ∀ s ∈ Aligned t, n (some s) < nM ∧ (Owned t.number s ∨ n (some s) = rowRate s)

theorem rowDraws_of_owned {t : Table} (ht : t ≠ .line) {n : Draws}
    (hn : ∀ s, n (some s) < nM) : RowDraws t n :=
  fun s hs => ⟨hn s, (owned_of_mem_aligned t s hs).imp_right fun h => absurd h.1 ht⟩

theorem smul_drawOf_le (k nStream : ℕ) (d : Option StreamId) : (k • drawOf nStream) d ≤ k := by
  rw [Draws.smul_apply]
  exact (Nat.mul_le_mul_left k (drawOf_le_one nStream d)).trans_eq (mul_one k)

theorem rowDraws_custDraws {k : ℕ} (hk : k ≤ 24) : RowDraws .cust (custDraws k) := by
  refine rowDraws_of_owned (by decide) fun s => ?_
  have hM : nM = 2147483647 := rfl
  have haddr := smul_drawOf_le (1 + k) cAddrSd (some s)
  have hphone := smul_drawOf_le 3 cPhneSd (some s)
  have hnation := drawOf_le_one cNtrgSd (some s)
  have hcity := drawOf_le_one 98 (some s)
  have hmseg := drawOf_le_one cMsegSd (some s)
  simp only [custDraws, Draws.add_apply]
  omega

theorem rowDraws_suppDraws {k : ℕ} (hk : k ≤ 24) : RowDraws .supp (suppDraws k) := by
  refine rowDraws_of_owned (by decide) fun s => ?_
  have hM : nM = 2147483647 := rfl
  have haddr := smul_drawOf_le (1 + k) sAddrSd (some s)
  have hphone := smul_drawOf_le 3 cPhneSd (some s)
  have hnation := drawOf_le_one sNtrgSd (some s)
  have hcity := drawOf_le_one 98 (some s)
  simp only [suppDraws, Draws.add_apply]
  omega

/-- A row of a part has one stream only for the colors. -/
theorem rowDraws_partDraws {colors : ℕ} (h : colors < nM) : RowDraws .part (partDraws colors) := by
  refine rowDraws_of_owned (by decide) fun s => ?_
  have hM : nM = 2147483647 := rfl
  have hle := fun c => drawOf_le_one c (some s)
  simp only [partDraws, Draws.add_apply, Draws.smul_apply]
  by_cases hs : s = 37
  · subst hs
    have hzero : ∀ c ∈ [pMfgSd, pCatSd, pBrndSd, pTypeSd, pSizeSd, pCntrSd],
        drawOf c (some 37) = 0 := by decide
    have hone : drawOf pNameSd (some 37) = 1 := by decide
    rw [hone, hzero pMfgSd (by decide), hzero pCatSd (by decide), hzero pBrndSd (by decide),
      hzero pTypeSd (by decide), hzero pSizeSd (by decide), hzero pCntrSd (by decide)]
    omega
  · have hzero : drawOf pNameSd (some s) = 0 := by
      rw [drawOf_some (by decide)]
      exact if_neg fun h => hs (Fin.ext h)
    have h₁ := hle pMfgSd
    have h₂ := hle pCatSd
    have h₃ := hle pBrndSd
    have h₄ := hle pTypeSd
    have h₅ := hle pSizeSd
    have h₆ := hle pCntrSd
    rw [hzero, mul_zero]
    omega

theorem rowDraws_orderDraws {l : ℕ} (hl : l ≤ 7) : RowDraws .line (orderDraws l) := by
  have hM : nM = 2147483647 := rfl
  have hline (s : StreamId) : lineDraws (some s) ≤ 7 := by
    have hle := fun c => drawOf_le_one c (some s)
    have h₁ := hle lPkeySd
    have h₂ := hle lSkeySd
    have h₃ := hle lQtySd
    have h₄ := hle lDcntSd
    have h₅ := hle lTaxSd
    have h₆ := hle lCdteSd
    have h₇ := hle lSmodeSd
    simp only [lineDraws, Draws.add_apply]
    omega
  intro s hs
  refine ⟨?_, ?_⟩
  · have hlines : l * lineDraws (some s) ≤ 7 * 7 := Nat.mul_le_mul hl (hline s)
    have hle := fun c => drawOf_le_one c (some s)
    have h₁ := hle oOdateSd
    have h₂ := hle oCkeySd
    have h₃ := hle oPrioSd
    have h₄ := hle oClrkSd
    have h₅ := hle oLcntSd
    simp only [orderDraws, Draws.add_apply, Draws.smul_apply]
    omega
  · refine (owned_of_mem_aligned .line s hs).imp_right fun h => ?_
    -- the date and the number of lines are drawn once, and by no line
    have hzero : ∀ s ∈ [(13 : StreamId), 43], lineDraws (some s) = 0 := by decide
    have hone : ∀ s ∈ [(13 : StreamId), 43], drawOf oOdateSd (some s) + (drawOf oCkeySd (some s) +
        (drawOf oPrioSd (some s) + (drawOf oClrkSd (some s) + drawOf oLcntSd (some s)))) =
          rowRate s := by decide
    have hmem : s ∈ [(13 : StreamId), 43] := by simpa using h.2
    simp only [orderDraws, Draws.add_apply, Draws.smul_apply, hzero s hmem, mul_zero, add_zero]
    exact hone s hmem

theorem metered_mkRow {e : Env} (he : e.Drawable) (updNum i : ℕ) (t : Table) :
    Metered (fun (n : Draws) (_ : Row) => RowDraws t n) (mkRow e updNum i t) := by
  cases t with
  | part =>
      obtain ⟨hthree, hcolors⟩ := he.colors
      have hM : nM = 2147483647 := rfl
      obtain ⟨colors, hcount⟩ := Int.eq_ofNat_of_zero_le ((Nat.cast_nonneg _).trans hthree)
      rw [hcount] at hthree hcolors
      refine (metered_mkPart e hcount (by omega) (by omega) i).map fun n _ h => ?_
      rw [h.1]
      exact rowDraws_partDraws (by omega)
  | supp =>
      refine (metered_mkSupp e i).map fun n _ h => ?_
      obtain ⟨⟨k, hk, rfl⟩, _⟩ := h
      exact rowDraws_suppDraws hk
  | cust =>
      refine (metered_mkCust e i).map fun n _ h => ?_
      obtain ⟨⟨k, hk, rfl⟩, _⟩ := h
      exact rowDraws_custDraws hk
  | date => exact Metered.pure fun s hs => absurd hs (Finset.notMem_empty s)
  | line =>
      refine (metered_mkOrder he i (updNum % 10000)).map fun n _ h => ?_
      obtain ⟨⟨l, hl, rfl⟩, _⟩ := h
      exact rowDraws_orderDraws hl

/-- A row takes each stream of `Aligned` by its rate, whatever is in the row. -/
theorem genRow_value {e : Env} (he : e.Drawable) (t : Table) (updNum i : ℕ) (σ : Streams)
    {s : StreamId} (hs : s ∈ Aligned t) :
    ((genRow e t updNum i σ).2 s).value = StreamValue.next^[rowRate s] (σ s).value := by
  obtain ⟨n, hn, hdraws⟩ := metered_mkRow he updNum i t (rowStart σ)
  obtain ⟨hlt, hrate⟩ := hdraws s hs
  have hstate : (genRow e t updNum i σ).2 = rowStop t.number (n +ᵥ rowStart σ) := by
    rw [← hn]
    rfl
  have huncounted : n.uncounted s = 0 := if_neg (ne_zero_of_mem_aligned t s hs)
  rw [hstate, rowStop_value _ _ _ _ hlt, huncounted, Nat.add_zero]
  split_ifs with h
  · rfl
  · rw [hrate.resolve_left h]

theorem genRows_value {e : Env} (he : e.Drawable) (t : Table) (updNum : ℕ) (is : List ℕ)
    (σ : Streams) {s : StreamId} (hs : s ∈ Aligned t) :
    ((is.mapM (genRow e t updNum) σ).2 s).value =
      StreamValue.next^[rowRate s * is.length] (σ s).value := by
  induction is generalizing σ with
  | nil => rfl
  | cons i is ih =>
      have htail := ih (genRow e t updNum i σ).2
      rw [genRow_value he t updNum i σ hs, ← Function.iterate_add_apply] at htail
      rw [List.mapM_cons, List.length_cons, Nat.mul_succ]
      exact htail

/-- The state that a step starts in is that of the rows before the step. -/
theorem setState_value {e : Env} (he : e.Drawable) {t : Table} {procs k : ℕ} (updNum : ℕ)
    (hcalls : maxCalls t * (stepRows t e.scale procs).1 < nM) (hk : k < procs) {s : StreamId}
    (hs : s ∈ Aligned t) (σ : Streams) :
    ((advanceStreams (genSeed t (stepRows t e.scale procs).1))^[k] σ s).value =
      ((((List.range k).flatMap (stepRange t e.scale procs)).mapM (genRow e t updNum) σ).2
        s).value := by
  rw [genRows_value he t updNum _ σ hs, flatMap_stepRange_lt hk, List.length_range']
  clear hk
  induction k with
  | zero => rfl
  | succ k ih =>
      rw [Function.iterate_succ_apply', genSeed_value hcalls _ hs, ih,
        ← Function.iterate_add_apply]
      congr 1
      ring

end Structor.Dbgen
