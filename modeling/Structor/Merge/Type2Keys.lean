import Structor.Merge.Type2History

/-!
# The surrogate key of the type-2 dimension

The key should identify a row version, but it is computed from the name: the new
versions of a customer, and customers with names that start alike, share one.
`KeysApart` is the exact condition on a run for the keys to stay apart.

## Main definitions

* `Identified`: the keys tell the rows of the table apart.
* `Adds`: the staged rows that become new versions.
* `KeysApart`: the condition on a run.
-/
namespace Structor.Type2

open Sql
variable {upper : Str → Str} {customer : List Customer} {stage : NewCustomerStage} {load : Load}

/-- The surrogate keys are pairwise distinct, and none is NULL. -/
structure Identified (customer : List Customer) : Prop where
  distinct : (customer.map (·.sk)).Nodup
  nonNull : ∀ c ∈ customer, c.sk ≠ none

/-- No row of the table has the key. -/
def Absent (customer : List Customer) (k : ℤ) : Prop := ∀ c ∈ customer, c.sourcePk ≠ some k

instance (k : ℤ) : Decidable (Absent customer k) := inferInstanceAs (Decidable (∀ c ∈ _, _))

/-- A staged row of a key that is absent, or that changes while the invalid key is absent. -/
def Adds (customer : List Customer) (s : StageRow) : Prop :=
  Absent customer s.sourcePk ∨ Changes customer s ∧ Absent customer (-1)

instance (s : StageRow) : Decidable (Adds customer s) := inferInstanceAs (Decidable (_ ∨ _))

/-- The table has no NULL key, and the merge is rejected or the prefixes of the names it
adds are new keys: not NULL, different from each other, and not yet in the table. -/
structure KeysApart (upper : Str → Str) (customer : List Customer) (load : Load) : Prop where
  nonNull : ∀ c ∈ customer, c.sk ≠ none
  apart : Ambiguous load.stage customer ∨ ∀ s ∈ load.stage.rows, Adds customer s →
    s.name ≠ none ∧
    (∀ s' ∈ load.stage.rows, Adds customer s' →
      surrogateKey upper s.name = surrogateKey upper s'.name → s = s') ∧
    ∀ c ∈ customer, c.sk ≠ surrogateKey upper s.name

/-! ## The new versions of a run -/

/-- What a staged row contributes to the merge source: a copy under each key for every
current row that it changes. -/
def copies (customer : List Customer) (s : StageRow) : List Sub :=
  if IsNew customer s then [⟨s, some s.sourcePk⟩]
  else ((currentRows customer s.sourcePk).filter fun c => differs s c = .yes).flatMap
    fun _ => [⟨s, some (-1)⟩, ⟨s, some s.sourcePk⟩]

/-- A current row contributes both copies of a staged row that changes it. -/
theorem copies_current {s : StageRow} {c : Customer} (hc : c ∈ currentRows customer s.sourcePk) :
    (matching (fun t : ScdType => Truth.eq (some t.type) (some (scdRowType s (some c))))
        scdTypes).map (toSub ⟨s, scdRowType s (some c)⟩) =
      if differs s c = .yes then [⟨s, some (-1)⟩, ⟨s, some s.sourcePk⟩] else [] := by
  rw [scdRowType_current hc]
  by_cases hd : differs s c = .yes <;>
    simp [hd, matching, scdTypes, toSub, Truth.eq, Truth.ofBool]

theorem sub_eq_flatMap_copies : sub stage customer = stage.rows.flatMap (copies customer) := by
  simp only [sub, updates, leftJoin, innerJoin, List.map_flatMap, List.flatMap_map,
    List.flatMap_assoc, matching_onCurrent, List.map_map]
  refine List.flatMap_congr fun s _ => ?_
  cases hrows : currentRows customer s.sourcePk with
  | nil =>
      have hnew : IsNew customer s := hrows
      simp [copies, hnew, scdRowType, matching, scdTypes, toSub, Truth.eq, Truth.ofBool]
  | cons c cs =>
      have hold : ¬ IsNew customer s := by simp [IsNew, hrows]
      rw [copies, if_neg hold, hrows, ← flatMap_ite_nil, List.flatMap_map]
      refine List.flatMap_congr fun c' hc' => ?_
      exact copies_current (hrows ▸ hc')

/-- Two changed current rows of a key would both be matched twice. -/
theorem length_changed_le_one (h : ¬ Ambiguous stage customer) {s : StageRow}
    (hs : s ∈ stage.rows) :
    ((currentRows customer s.sourcePk).filter fun c => differs s c = .yes).length ≤ 1 := by
  by_contra hmany
  match hrows : (currentRows customer s.sourcePk).filter fun c => differs s c = .yes with
  | [] => simp [hrows] at hmany
  | [c] => simp [hrows] at hmany
  | c :: c' :: rest =>
      have hc : c ∈ currentRows customer s.sourcePk := by
        refine List.mem_of_mem_filter (p := fun c => decide (differs s c = .yes)) ?_
        rw [hrows]
        exact List.mem_cons_self
      have hold : ¬ IsNew customer s := List.ne_nil_of_mem hc
      obtain ⟨hmem, hpk, -⟩ := mem_currentRows.mp hc
      refine h ⟨c, hmem, ?_⟩
      have hcopies : (copies customer s).Sublist (sub stage customer) := by
        rw [sub_eq_flatMap_copies, List.flatMap_def]
        exact List.sublist_flatten_of_mem (List.mem_map_of_mem hs)
      have hlen := (hcopies.filter fun u => decide (Truth.eq u.joinKey c.sourcePk = .yes)).length_le
      refine Nat.le_trans ?_ hlen
      rw [copies, if_neg hold, hrows]
      by_cases hinvalid : (-1 : ℤ) = s.sourcePk <;> simp [hpk, hinvalid]

/-- In an accepted run a staged row has at most one copy under each key. -/
theorem copies_eq_subsOf (h : ¬ Ambiguous stage customer) {s : StageRow} (hs : s ∈ stage.rows) :
    copies customer s = subsOf customer s := by
  rw [copies, subsOf]
  split_ifs with hnew hch
  · rfl
  · have hlen := length_changed_le_one h hs
    obtain ⟨c, hc, hd⟩ := hch
    have hmem : c ∈ (currentRows customer s.sourcePk).filter fun c => differs s c = .yes :=
      List.mem_filter.mpr ⟨hc, decide_eq_true hd⟩
    cases hrows : (currentRows customer s.sourcePk).filter fun c => differs s c = .yes with
    | nil => simp [hrows] at hmem
    | cons d rest =>
        cases rest with
        | nil => rfl
        | cons e rest => simp [hrows] at hlen
  · have hnone : (currentRows customer s.sourcePk).filter (fun c => differs s c = .yes) = [] := by
      rw [List.filter_eq_nil_iff]
      intro c hc hd
      exact hch ⟨c, hc, of_decide_eq_true hd⟩
    rw [hnone, List.flatMap_nil]

/-- The new versions of an accepted run, in the order of the stage. -/
theorem fresh_rows (h : ¬ Ambiguous stage customer) :
    (fresh stage customer).map (·.row) = stage.rows.filter fun s => Adds customer s := by
  have hfresh : fresh stage customer = (sub stage customer).filter fun u =>
      ∀ t ∈ customer, Truth.eq u.joinKey t.sourcePk ≠ .yes := rfl
  rw [hfresh, sub_eq_flatMap_copies, List.filter_flatMap, List.map_flatMap]
  have hid : stage.rows.filter (fun s => Adds customer s) =
      (stage.rows.filter fun s => Adds customer s).map id := (List.map_id _).symm
  rw [hid, ← flatMap_ite_singleton]
  refine List.flatMap_congr fun s hs => ?_
  have hfree : ∀ k : ℤ, (∀ t ∈ customer, Truth.eq (some k) t.sourcePk ≠ .yes) ↔
      Absent customer k := by
    intro k
    simp [Absent]
  rw [copies_eq_subsOf h hs, subsOf]
  by_cases hnew : IsNew customer s
  · have hsame : ¬ Changes customer s := by
      intro hch
      obtain ⟨c, hc, -⟩ := hch
      exact List.ne_nil_of_mem hc hnew
    simp only [if_pos hnew, List.filter_cons, List.filter_nil, hfree]
    by_cases habsent : Absent customer s.sourcePk <;> simp [hsame, Adds, habsent]
  · have hpresent : ¬ Absent customer s.sourcePk := by
      intro habsent
      obtain ⟨c, hc⟩ := List.exists_mem_of_ne_nil _ hnew
      exact habsent c (mem_currentRows.mp hc).1 (mem_currentRows.mp hc).2.1
    by_cases hch : Changes customer s
    · simp only [if_neg hnew, if_pos hch, List.filter_cons, List.filter_nil, hfree]
      by_cases habsent : Absent customer (-1) <;> simp [hch, Adds, habsent, hpresent]
    · simp [hnew, hch, Adds, hpresent]

/-! ## The keys of a run -/

/-- A run that is not rejected keeps the keys of the table, and appends those of the staged
rows that it adds. -/
theorem map_sk_mergeCustomer (h : ¬ Ambiguous load.stage customer) :
    (mergeCustomer upper customer load).map (·.sk) = customer.map (·.sk) ++
      (load.stage.rows.filter fun s => Adds customer s).map fun s => surrogateKey upper s.name := by
  rw [mergeCustomer_eq h, List.map_append, ← fresh_rows h, List.map_map, List.map_map,
    List.map_map]
  congr 1
  refine List.map_congr_left fun t _ => ?_
  rw [Function.comp_apply]
  split <;> rfl

/-- A run leaves a table with distinct keys identified exactly under the condition. -/
theorem identified_mergeCustomer (hstart : (customer.map (·.sk)).Nodup) :
    Identified (mergeCustomer upper customer load) ↔ KeysApart upper customer load := by
  by_cases hamb : Ambiguous load.stage customer
  · rw [mergeCustomer_of_ambiguous hamb]
    exact ⟨fun h => ⟨h.nonNull, .inl hamb⟩, fun h => ⟨hstart, h.nonNull⟩⟩
  have hiff : Identified (mergeCustomer upper customer load) ↔
      ((mergeCustomer upper customer load).map (·.sk)).Nodup ∧
        none ∉ (mergeCustomer upper customer load).map (·.sk) := by
    refine ⟨fun h => ⟨h.distinct, by simpa using h.nonNull⟩, fun h => ⟨h.1, by simpa using h.2⟩⟩
  have hrows : (load.stage.rows.filter fun s => Adds customer s).Nodup := load.stage.nodup.filter _
  rw [hiff, map_sk_mergeCustomer hamb, List.nodup_append, List.nodup_map_iff_inj_on hrows,
    List.mem_append, not_or]
  constructor
  · intro h
    obtain ⟨⟨-, hinj, hdisjoint⟩, hold, hnew⟩ := h
    refine ⟨fun c hc hnull => hold (hnull ▸ List.mem_map_of_mem hc), .inr ?_⟩
    intro s hs hadds
    have hmem : s ∈ load.stage.rows.filter fun s => Adds customer s :=
      List.mem_filter.mpr ⟨hs, decide_eq_true hadds⟩
    refine ⟨?_, ?_, ?_⟩
    · intro hname
      refine hnew (List.mem_map.mpr ⟨s, hmem, ?_⟩)
      rw [hname, surrogateKey, Option.map_none]
    · intro s' hs' hadds' hkey
      exact hinj s hmem s' (List.mem_filter.mpr ⟨hs', decide_eq_true hadds'⟩) hkey
    · intro c hc hkey
      exact hdisjoint _ (List.mem_map_of_mem hc) _ (List.mem_map_of_mem hmem) hkey
  · intro h
    have hapart := h.apart.resolve_left hamb
    have hadded : ∀ s ∈ load.stage.rows.filter (fun s => Adds customer s),
        s ∈ load.stage.rows ∧ Adds customer s := by
      intro s hs
      exact ⟨List.mem_of_mem_filter hs, of_decide_eq_true (List.mem_filter.mp hs).2⟩
    refine ⟨⟨hstart, ?_, ?_⟩, ?_, ?_⟩
    · intro s hs s' hs' hkey
      obtain ⟨hs, hadds⟩ := hadded s hs
      obtain ⟨hs', hadds'⟩ := hadded s' hs'
      exact (hapart s hs hadds).2.1 s' hs' hadds' hkey
    · intro k hk k' hk'
      obtain ⟨c, hc, rfl⟩ := List.mem_map.mp hk
      obtain ⟨s, hs, rfl⟩ := List.mem_map.mp hk'
      obtain ⟨hs, hadds⟩ := hadded s hs
      exact (hapart s hs hadds).2.2 c hc
    · intro hnull
      obtain ⟨c, hc, hnull⟩ := List.mem_map.mp hnull
      exact h.nonNull c hc hnull
    · intro hnull
      obtain ⟨s, hs, hnull⟩ := List.mem_map.mp hnull
      obtain ⟨hs, hadds⟩ := hadded s hs
      exact (hapart s hs hadds).1 (Option.map_eq_none_iff.mp hnull)

/-- From a table with distinct keys, the keys identify the rows after every run exactly if
every run keeps them apart. -/
theorem identified_iff (upper : Str → Str) {customer : List Customer}
    (hstart : (customer.map (·.sk)).Nodup) (loads : List Load) :
    EachStep (mergeCustomer upper) (fun c load => Identified (mergeCustomer upper c load))
      customer loads ↔ EachStep (mergeCustomer upper) (KeysApart upper) customer loads := by
  refine eachStep_iff (fun c => (c.map (·.sk)).Nodup) ?_ ?_ hstart loads
  · intro c load hc
    exact identified_mergeCustomer hc
  · intro c load _ hidentified
    exact hidentified.distinct

/-- A stage with a new customer of another name. -/
def newCustomerStage : NewCustomerStage where
  rows := [⟨4, some "Pdq Co.", some "WI"⟩]
  pk_nodup := by simp

/-- A new customer with a prefix of its own gets a key of its own. -/
theorem identified_newCustomer : EachStep (mergeCustomer asciiUpper)
    (fun c load => Identified (mergeCustomer asciiUpper c load))
    initialCustomer [⟨17000, newCustomerStage⟩] := by
  have hstart : (initialCustomer.map (·.sk)).Nodup := by decide
  refine (identified_iff asciiUpper hstart _).mpr ?_
  rw [eachStep_cons]
  exact ⟨⟨by decide, .inr (by decide)⟩, eachStep_nil _⟩

/-- The new version of a customer gets the key of the old one. -/
theorem move_not_identified : (initialCustomer.map (·.sk)).Nodup ∧
    ¬ EachStep (mergeCustomer asciiUpper)
      (fun c load => Identified (mergeCustomer asciiUpper c load))
      initialCustomer [⟨17000, moveStage "TX"⟩] := by
  refine ⟨by decide, ?_⟩
  intro h
  have hdistinct := (h [] ⟨17000, moveStage "TX"⟩ [] rfl).distinct
  revert hdistinct
  decide

end Structor.Type2
