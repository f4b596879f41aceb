import Structor.Merge.Type2Current

/-!
# The history of the type-2 dimension

A closed row should never change again. The matched branch of the merge joins on
the key alone, so it closes the older versions of a changed key once more, with
the date of the new run. `KeepsHistory` is the exact condition on a run for that
not to show.
-/
namespace Structor.Type2

open Sql
variable {upper : Str → Str} {customer : List Customer} {load : Load}

def IsClosed (c : Customer) : Prop := c.isCurrent = some false

instance (c : Customer) : Decidable (IsClosed c) := inferInstanceAs (Decidable (_ = _))

/-- No later run changes a closed row, and a row keeps the date of the run that
closed it. Rows are told apart by their position: a merge updates in place. -/
structure HistoryImmutable (upper : Str → Str) (customer : List Customer) (loads : List Load) :
    Prop where
  rows : ∀ earlier later rest, loads = earlier ++ later ++ rest → ∀ (i : ℕ) (c : Customer),
    (earlier.foldl (mergeCustomer upper) customer)[i]? = some c → IsClosed c →
    ((earlier ++ later).foldl (mergeCustomer upper) customer)[i]? = some c
  endDates : ∀ earlier load later rest, loads = earlier ++ load :: later ++ rest →
    ∀ (i : ℕ) (c d : Customer),
    (earlier.foldl (mergeCustomer upper) customer)[i]? = some c → ¬ IsClosed c →
    ((earlier ++ [load]).foldl (mergeCustomer upper) customer)[i]? = some d → IsClosed d →
    ∃ e, ((earlier ++ load :: later).foldl (mergeCustomer upper) customer)[i]? = some e ∧
      e.endDate = some load.currentDate

/-- The merge is rejected, or it hits no closed row that does not already have the
date of the run. A row is hit when its key is staged and out of date, or when it
holds the invalid key and a staged row changes. -/
def KeepsHistory (customer : List Customer) (load : Load) : Prop :=
  Ambiguous load.stage customer ∨ ∀ c ∈ customer, IsClosed c → ∀ s ∈ load.stage.rows,
    (Stale customer s ∧ c.sourcePk = some s.sourcePk ∨
      Changes customer s ∧ c.sourcePk = some (-1)) → c.endDate = some load.currentDate

instance (customer : List Customer) (load : Load) : Decidable (KeepsHistory customer load) :=
  inferInstanceAs (Decidable (_ ∨ _))

/-- Closing a closed row changes its date only. -/
theorem close_eq_self {today : ℤ} {c : Customer} (hc : IsClosed c) :
    close today c = c ↔ c.endDate = some today := by
  obtain ⟨pk, sk, name, state, cur, date⟩ := c
  have hcur : cur = some false := hc
  simp [close, hcur, eq_comm]

/-- A row of the table after an accepted run, by position. -/
theorem getElem?_mergeCustomer (h : ¬ Ambiguous load.stage customer) {i : ℕ} {c : Customer}
    (hc : customer[i]? = some c) : (mergeCustomer upper customer load)[i]? =
      some (if Hit load.stage customer c then close load.currentDate c else c) := by
  obtain ⟨hi, -⟩ := List.getElem?_eq_some_iff.mp hc
  rw [mergeCustomer_eq h, List.getElem?_append_left (by simpa using hi), List.getElem?_map, hc]
  rfl

/-- One run keeps the closed rows exactly under the condition. -/
theorem keepsHistory_iff : KeepsHistory customer load ↔ ∀ (i : ℕ) (c : Customer),
    customer[i]? = some c → IsClosed c → (mergeCustomer upper customer load)[i]? = some c := by
  by_cases hamb : Ambiguous load.stage customer
  · simp only [KeepsHistory, hamb, true_or, mergeCustomer_of_ambiguous hamb, true_iff]
    exact fun i c hc _ => hc
  · have hstep : ∀ (i : ℕ) (c : Customer), customer[i]? = some c → IsClosed c →
        ((mergeCustomer upper customer load)[i]? = some c ↔
          (Hit load.stage customer c → c.endDate = some load.currentDate)) := by
      intro i c hc hclosed
      rw [getElem?_mergeCustomer hamb hc, ← close_eq_self hclosed]
      split <;> simp_all
    simp only [KeepsHistory, hamb, false_or]
    constructor
    · intro hkeep i c hc hclosed
      rw [hstep i c hc hclosed]
      intro hhit
      obtain ⟨s, hs, hhit⟩ := hit_iff.mp hhit
      exact hkeep c (List.mem_of_getElem? hc) hclosed s hs hhit
    · intro hkeep c hc hclosed s hs hhit
      obtain ⟨i, hi⟩ := List.getElem?_of_mem hc
      exact (hstep i c hi hclosed).mp (hkeep i c hi hclosed) (hit_iff.mpr ⟨s, hs, hhit⟩)

/-- The run that closes a row gives it its date. -/
theorem endDate_of_closed {i : ℕ} {c d : Customer} (hc : customer[i]? = some c)
    (hopen : ¬ IsClosed c) (hd : (mergeCustomer upper customer load)[i]? = some d)
    (hclosed : IsClosed d) : d.endDate = some load.currentDate := by
  by_cases hamb : Ambiguous load.stage customer
  · rw [mergeCustomer_of_ambiguous hamb, hc] at hd
    obtain rfl : c = d := by simpa using hd
    exact absurd hclosed hopen
  · rw [getElem?_mergeCustomer hamb hc, Option.some.injEq] at hd
    split at hd
    · rw [← hd]
      rfl
    · exact absurd (hd ▸ hclosed) hopen

/-- The history is immutable exactly when every run keeps it, for any table and any
sequence of runs. -/
theorem historyImmutable_iff (upper : Str → Str) (customer : List Customer) (loads : List Load) :
    HistoryImmutable upper customer loads ↔
      EachStep (mergeCustomer upper) KeepsHistory customer loads := by
  constructor
  · intro h earlier load later hloads
    rw [@keepsHistory_iff upper]
    intro i c hc hclosed
    simpa using h.rows earlier [load] later (by simp [hloads]) i c hc hclosed
  · intro h
    have hrows : ∀ earlier later rest, loads = earlier ++ later ++ rest → ∀ (i : ℕ) (c : Customer),
        (earlier.foldl (mergeCustomer upper) customer)[i]? = some c → IsClosed c →
        ((earlier ++ later).foldl (mergeCustomer upper) customer)[i]? = some c := by
      rintro earlier later rest rfl i c hc hclosed
      rw [List.foldl_append]
      refine h.split.1.split.2.foldl_keeps (R := fun t => t[i]? = some c) ?_ hc
      intro t load hkeep ht
      exact keepsHistory_iff.mp hkeep i c ht hclosed
    refine ⟨hrows, ?_⟩
    rintro earlier load later rest hloads i c d hc hopen hd hclosed
    refine ⟨d, ?_, ?_⟩
    · have := hrows (earlier ++ [load]) later rest (by simp [hloads]) i d hd hclosed
      simpa using this
    · exact endDate_of_closed hc hopen (by simpa using hd) hclosed

/-- A stage that moves customer 3 to another state. -/
def moveStage (state : Str) : NewCustomerStage where
  rows := [⟨3, some "Xyz Co.", some state⟩]
  pk_nodup := by simp

/-- The second move of a customer gives its first version a new end date. -/
theorem second_change_not_immutable : ¬ HistoryImmutable asciiUpper initialCustomer
    [⟨17000, moveStage "TX"⟩, ⟨17031, moveStage "WA"⟩] := by
  intro h
  have hrow := h.rows [⟨17000, moveStage "TX"⟩] [⟨17031, moveStage "WA"⟩] [] rfl 2
    ⟨some 3, some "XYZ", some "Xyz Co.", some "CA", some false, some 17000⟩ (by decide) (by decide)
  revert hrow
  decide

end Structor.Type2
