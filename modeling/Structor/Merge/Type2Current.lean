import Structor.Lists
import Structor.Merge.Type2Update

/-!
# The current rows of the type-2 dimension

Each run should leave one current row for every staged key, equal to the stage,
and no other key touched. Two things break this. A change that only `<>` between
NULL and a value could show is not seen, and once a row holds the key -1 the copy
of a changed row that should become its new version matches that row instead.
`Separates` excludes both, and is exact.
-/
namespace Structor.Type2

open Sql
variable {upper : Str → Str} {customer : List Customer} {stage : NewCustomerStage} {load : Load}

/-- The rows whose key is not staged. -/
def otherRows (stage : NewCustomerStage) (customer : List Customer) : List Customer :=
  customer.filter fun c => ∀ s ∈ stage.rows, c.sourcePk ≠ some s.sourcePk

/-- What one run should do to the customer table. -/
structure Converged (stage : NewCustomerStage) (before after : List Customer) : Prop where
  atMostOne : ∀ k, (currentRows after k).length ≤ 1
  staged : ∀ s ∈ stage.rows, ∃ c, currentRows after s.sourcePk = [c] ∧
    Truth.nullSafeEq c.name s.name = .yes ∧ Truth.nullSafeEq c.state s.state = .yes
  others : otherRows stage after = otherRows stage before

/-- The staged changes are visible to `<>`, and the invalid key is free whenever
some row changes. -/
structure Separates (customer : List Customer) (load : Load) : Prop where
  visible : ∀ s ∈ load.stage.rows, ∀ c ∈ currentRows customer s.sourcePk,
    (c.name, c.state) ≠ (s.name, s.state) → differs s c = .yes
  invalidKey : (∃ s ∈ load.stage.rows, Changes customer s) →
    ∀ c ∈ customer, c.sourcePk ≠ some (-1)

/-! ## The rows of one key -/

theorem NewCustomerStage.eq_of_pk {s s' : StageRow} (hs : s ∈ stage.rows) (hs' : s' ∈ stage.rows)
    (h : s.sourcePk = s'.sourcePk) : s = s' :=
  List.inj_on_of_nodup_map stage.pk_nodup hs hs' h

theorem NewCustomerStage.nodup (stage : NewCustomerStage) : stage.rows.Nodup :=
  stage.pk_nodup.of_map

/-- A staged key has one row in the stage. -/
theorem NewCustomerStage.filter_pk {s : StageRow} (hs : s ∈ stage.rows) :
    (stage.rows.filter fun s' => s'.sourcePk = s.sourcePk) = [s] := by
  have hmem : ∀ s', s' ∈ stage.rows.filter (fun s' => s'.sourcePk = s.sourcePk) ↔ s' = s := by
    intro s'
    simp only [List.mem_filter, decide_eq_true_eq]
    exact ⟨fun h => NewCustomerStage.eq_of_pk h.1 hs h.2, by rintro rfl; exact ⟨hs, rfl⟩⟩
  exact List.perm_singleton.mp ((List.perm_ext_iff_of_nodup (stage.nodup.filter _)
    (List.nodup_singleton s)).mpr (by simpa using hmem))

/-- What a staged row contributes to the merge source of a dimension. -/
def subsOf (customer : List Customer) (s : StageRow) : List Sub :=
  if IsNew customer s then [⟨s, some s.sourcePk⟩]
  else if Changes customer s then [⟨s, some (-1)⟩, ⟨s, some s.sourcePk⟩]
  else []

theorem sub_eq (h : ∀ k, (currentRows customer k).length ≤ 1) :
    sub stage customer = stage.rows.flatMap (subsOf customer) := by
  have hjoin : leftJoin onCurrent stage.rows customer =
      stage.rows.map fun s => (s, (currentRows customer s.sourcePk).head?) := by
    rw [leftJoin_of_atMostOne fun s _ => by rw [matching_onCurrent]; exact h s.sourcePk]
    simp [currentRows, List.head?_filter]
  simp only [sub, updates, hjoin, innerJoin, List.map_flatMap, List.flatMap_map, List.map_map]
  refine List.flatMap_congr fun s _ => ?_
  have hs := h s.sourcePk
  rcases hrows : currentRows customer s.sourcePk with _ | ⟨c, _ | ⟨d, rest⟩⟩
  · simp [subsOf, IsNew, hrows, scdRowType, matching, scdTypes, toSub, Truth.eq, Truth.ofBool]
  · have hc : c ∈ currentRows customer s.sourcePk := by simp [hrows]
    have htype := scdRowType_current hc
    by_cases hd : differs s c = .yes <;>
      simp [subsOf, IsNew, Changes, hrows, htype, hd, matching, scdTypes, toSub, Truth.eq,
        Truth.ofBool]
  · simp [hrows] at hs

/-- A key that is present is not new. -/
theorem Dimension.not_isNew (h : Dimension customer) {t : Customer} (ht : t ∈ customer)
    {s : StageRow} (hk : t.sourcePk = some s.sourcePk) : ¬ IsNew customer s :=
  h.present t ht _ hk

/-! ## A separating load -/

/-- The only source row with the key of a customer row is its own change. -/
theorem matching_sub (h : Dimension customer) (hsep : Separates customer load) {t : Customer}
    (ht : t ∈ customer) :
    matching (fun u : Sub => Truth.eq u.joinKey t.sourcePk) (sub load.stage customer) =
      (load.stage.rows.filter fun s =>
        Changes customer s ∧ t.sourcePk = some s.sourcePk).map fun s => ⟨s, some s.sourcePk⟩ := by
  rw [sub_eq h.atMostOne, matching, List.filter_flatMap, ← flatMap_ite_singleton]
  refine List.flatMap_congr fun s hs => ?_
  by_cases hnew : IsNew customer s
  · have hne : t.sourcePk ≠ some s.sourcePk := fun hk => h.not_isNew ht hk hnew
    simp [subsOf, hnew, hne]
  · by_cases hch : Changes customer s
    · have hne := hsep.invalidKey ⟨s, hs, hch⟩ t ht
      by_cases hk : t.sourcePk = some s.sourcePk
      · have hpk : -1 ≠ s.sourcePk := by simpa [hk, eq_comm] using hne
        simp [subsOf, hnew, hch, hk, hpk]
      · simp [subsOf, hnew, hch, hk, hne]
    · simp [subsOf, hnew, hch]

theorem not_ambiguous (h : Dimension customer) (hsep : Separates customer load) :
    ¬ Ambiguous load.stage customer := by
  rintro ⟨t, ht, hlen⟩
  rw [matching_sub h hsep ht, List.length_map] at hlen
  -- Two source rows for one customer row would be two staged rows with its key.
  have hle := length_filter_le_one load.stage.pk_nodup
    (fun s => decide (Changes customer s ∧ t.sourcePk = some s.sourcePk)) (by
      intro s _ s' _ hs hs'
      simp only [decide_eq_true_eq] at hs hs'
      exact Option.some.inj (hs.2.symm.trans hs'.2))
  omega

/-- The rows that a separating load closes. -/
theorem hit_iff_of_separates (h : Dimension customer) (hsep : Separates customer load)
    {t : Customer} (ht : t ∈ customer) : Hit load.stage customer t ↔
      ∃ s ∈ load.stage.rows, Changes customer s ∧ t.sourcePk = some s.sourcePk := by
  rw [hit_iff]
  constructor
  · rintro ⟨s, hs, ⟨hnew | hch, hk⟩ | ⟨hch, hk⟩⟩
    · exact absurd hnew (h.not_isNew ht hk)
    · exact ⟨s, hs, hch, hk⟩
    · exact absurd hk (hsep.invalidKey ⟨s, hs, hch⟩ t ht)
  · rintro ⟨s, hs, hch, hk⟩
    exact ⟨s, hs, .inl ⟨.inr hch, hk⟩⟩

/-- Every stale key gets its new version. -/
theorem fresh_eq (h : Dimension customer) (hsep : Separates customer load) :
    (fresh load.stage customer).map (fun u => newVersion upper u.row) =
      (load.stage.rows.filter fun s => Stale customer s).map (newVersion upper) := by
  have hfilter (u : Sub) : decide (∀ t ∈ customer, Truth.eq u.joinKey t.sourcePk ≠ .yes) =
      !decide (∃ t ∈ customer, Truth.eq u.joinKey t.sourcePk = .yes) := by
    rw [Bool.eq_iff_iff]
    simp
  simp only [fresh, hfilter]
  rw [sub_eq h.atMostOne, List.filter_flatMap, List.map_flatMap, ← flatMap_ite_singleton]
  refine List.flatMap_congr fun s hs => ?_
  by_cases hnew : IsNew customer s
  · have hfree : ¬ ∃ t ∈ customer, t.sourcePk = some s.sourcePk := by
      rintro ⟨t, ht, hk⟩
      exact h.not_isNew ht hk hnew
    simp [subsOf, Stale, hnew, -not_exists, hfree]
  · by_cases hch : Changes customer s
    · have hfree : ¬ ∃ t ∈ customer, t.sourcePk = some (-1) := by
        rintro ⟨t, ht, hk⟩
        exact hsep.invalidKey ⟨s, hs, hch⟩ t ht hk
      have hpresent : ∃ t ∈ customer, t.sourcePk = some s.sourcePk := by
        obtain ⟨c, hc, -⟩ := hch
        exact ⟨c, (mem_currentRows.mp hc).1, (mem_currentRows.mp hc).2.1⟩
      simp [subsOf, Stale, hnew, hch, -not_exists, hfree, hpresent]
    · simp [subsOf, Stale, hnew, hch]

/-- The table after a separating load: the changed keys are closed, and every
stale key gets one new version. -/
theorem mergeCustomer_of_separates (h : Dimension customer) (hsep : Separates customer load) :
    mergeCustomer upper customer load =
      customer.map (fun t =>
        if ∃ s ∈ load.stage.rows, Changes customer s ∧ t.sourcePk = some s.sourcePk
        then close load.currentDate t else t) ++
      (load.stage.rows.filter fun s => Stale customer s).map (newVersion upper) := by
  rw [mergeCustomer_eq (not_ambiguous h hsep), fresh_eq h hsep]
  congr 1
  refine List.map_congr_left fun t ht => ?_
  simp only [hit_iff_of_separates h hsep ht]

@[simp] theorem close_sourcePk (today : ℤ) (c : Customer) :
    (close today c).sourcePk = c.sourcePk := rfl

theorem not_isCurrentOf_close (k : ℤ) (today : ℤ) (c : Customer) :
    ¬ IsCurrentOf k (close today c) := by
  simp [IsCurrentOf, close]

@[simp] theorem isCurrentOf_newVersion (k : ℤ) (s : StageRow) :
    IsCurrentOf k (newVersion upper s) ↔ s.sourcePk = k := by
  simp [IsCurrentOf, newVersion]

/-- The current rows of a key after a separating load: the old ones unless the
key changes, and the new version of a stale key. -/
theorem currentRows_mergeCustomer (h : Dimension customer) (hsep : Separates customer load)
    (k : ℤ) : currentRows (mergeCustomer upper customer load) k =
      (if ∃ s ∈ load.stage.rows, Changes customer s ∧ s.sourcePk = k then []
        else currentRows customer k) ++
      (load.stage.rows.filter fun s => Stale customer s ∧ s.sourcePk = k).map
        (newVersion upper) := by
  rw [mergeCustomer_of_separates h hsep, currentRows, List.filter_append]
  congr 1
  · split
    · rename_i hch
      obtain ⟨s, hs, hch, rfl⟩ := hch
      refine List.filter_eq_nil_iff.mpr ?_
      intro t' ht'
      obtain ⟨t, ht, rfl⟩ := List.mem_map.mp ht'
      by_cases hk : t.sourcePk = some s.sourcePk
      · rw [if_pos ⟨s, hs, hch, hk⟩]
        simpa using not_isCurrentOf_close _ _ _
      · split <;> simp [IsCurrentOf, hk]
    · rename_i hch
      have hkeep : ∀ t, IsCurrentOf k t →
          ¬ ∃ s ∈ load.stage.rows, Changes customer s ∧ t.sourcePk = some s.sourcePk := by
        rintro t ⟨hk, -⟩ ⟨s, hs, hc, hsk⟩
        exact hch ⟨s, hs, hc, by simpa [hk, eq_comm] using hsk⟩
      refine filter_map_of_fixed _ _ _ (fun t _ => ?_) (fun t _ ht => ?_)
      · split
        · rename_i hclosed
          have hnot : ¬ IsCurrentOf k t := fun ht => hkeep t ht hclosed
          simp [hnot, not_isCurrentOf_close]
        · rfl
      · rw [if_neg (hkeep t (by simpa using ht))]
  · rw [List.filter_map, List.filter_filter]
    congr 1
    refine List.filter_congr fun s _ => ?_
    simp [and_comm]

/-- The current rows of a staged key: its new version if it is stale. -/
theorem currentRows_staged (h : Dimension customer) (hsep : Separates customer load)
    {s : StageRow} (hs : s ∈ load.stage.rows) :
    currentRows (mergeCustomer upper customer load) s.sourcePk =
      if Stale customer s then [newVersion upper s] else currentRows customer s.sourcePk := by
  have hrows : (load.stage.rows.filter fun s' => Stale customer s' ∧ s'.sourcePk = s.sourcePk) =
      if Stale customer s then [s] else [] := by
    simp only [Bool.decide_and, ← List.filter_filter, NewCustomerStage.filter_pk hs]
    by_cases hstale : Stale customer s <;> simp [hstale]
  have hchanges : (∃ s' ∈ load.stage.rows, Changes customer s' ∧ s'.sourcePk = s.sourcePk) ↔
      Changes customer s := by
    constructor
    · rintro ⟨s', hs', hch, hpk⟩
      rwa [NewCustomerStage.eq_of_pk hs' hs hpk] at hch
    · exact fun hch => ⟨s, hs, hch, rfl⟩
  rw [currentRows_mergeCustomer h hsep, hrows]
  simp only [hchanges]
  by_cases hch : Changes customer s
  · simp [hch, Stale]
  · by_cases hnew : IsNew customer s
    · have hnil : currentRows customer s.sourcePk = [] := hnew
      simp [hch, hnew, hnil, Stale]
    · simp [hch, hnew, Stale]

theorem currentRows_unstaged (h : Dimension customer) (hsep : Separates customer load)
    {k : ℤ} (hk : ∀ s ∈ load.stage.rows, s.sourcePk ≠ k) :
    currentRows (mergeCustomer upper customer load) k = currentRows customer k := by
  have hrows : (load.stage.rows.filter fun s => Stale customer s ∧ s.sourcePk = k) = [] := by
    simp only [List.filter_eq_nil_iff, decide_eq_true_eq, not_and]
    exact fun s hs _ => hk s hs
  rw [currentRows_mergeCustomer h hsep, hrows, if_neg]
  · simp
  · rintro ⟨s, hs, -, hsk⟩
    exact hk s hs hsk

/-! ## The exact condition -/

/-- A staged key that is not stale already has its staged values. -/
theorem eq_of_not_stale (h : Dimension customer) (hsep : Separates customer load)
    {s : StageRow} (hs : s ∈ load.stage.rows) (hstale : ¬ Stale customer s) :
    ∃ c, currentRows customer s.sourcePk = [c] ∧ c.name = s.name ∧ c.state = s.state := by
  obtain ⟨hnew, hch⟩ := not_or.mp hstale
  have hlen := h.atMostOne s.sourcePk
  match hrows : currentRows customer s.sourcePk with
  | [] => exact absurd hrows hnew
  | [c] =>
      refine ⟨c, rfl, ?_⟩
      have hc : c ∈ currentRows customer s.sourcePk := by simp [hrows]
      by_contra hne
      refine hch ⟨c, hc, hsep.visible s hs c hc ?_⟩
      simpa using hne
  | _ :: _ :: _ => simp [hrows] at hlen

theorem converged_of_separates (h : Dimension customer) (hsep : Separates customer load) :
    Converged load.stage customer (mergeCustomer upper customer load) where
  atMostOne k := by
    by_cases hk : ∃ s ∈ load.stage.rows, s.sourcePk = k
    · obtain ⟨s, hs, rfl⟩ := hk
      rw [currentRows_staged h hsep hs]
      split
      · simp
      · exact h.atMostOne _
    · rw [currentRows_unstaged h hsep (by simpa using hk)]
      exact h.atMostOne k
  staged s hs := by
    rw [currentRows_staged h hsep hs]
    by_cases hstale : Stale customer s
    · exact ⟨newVersion upper s, by simp [hstale], by simp [newVersion]⟩
    · obtain ⟨c, hc, hname, hstate⟩ := eq_of_not_stale h hsep hs hstale
      exact ⟨c, by simp [hstale, hc], by simp [hname, hstate]⟩
  others := by
    rw [mergeCustomer_of_separates h hsep, otherRows, List.filter_append]
    have hnew : ((load.stage.rows.filter fun s => Stale customer s).map (newVersion upper)).filter
        (fun c => ∀ s ∈ load.stage.rows, c.sourcePk ≠ some s.sourcePk) = [] := by
      simp only [List.filter_eq_nil_iff, List.mem_map, List.mem_filter, decide_eq_true_eq]
      rintro c ⟨s, ⟨hs, -⟩, rfl⟩ hc
      exact hc s hs rfl
    rw [hnew, List.append_nil]
    refine filter_map_of_fixed _ _ _ (fun t _ => ?_) (fun t _ ht => ?_)
    · split <;> rfl
    · rw [if_neg]
      rintro ⟨s, hs, -, hk⟩
      simp only [decide_eq_true_eq] at ht
      exact ht s hs hk

/-- A current row after any run is an old one or the new version of a source row
that matched nothing. -/
theorem mem_currentRows_mergeCustomer {c : Customer} {k : ℤ}
    (hc : c ∈ currentRows (mergeCustomer upper customer load) k) :
    c ∈ currentRows customer k ∨
      ∃ u ∈ fresh load.stage customer, u.row.sourcePk = k ∧ c = newVersion upper u.row := by
  obtain ⟨hmem, hcur⟩ := mem_currentRows.mp hc
  by_cases hamb : Ambiguous load.stage customer
  · rw [mergeCustomer_of_ambiguous hamb] at hc
    exact .inl hc
  · rw [mergeCustomer_eq hamb, List.mem_append, List.mem_map, List.mem_map] at hmem
    obtain ⟨t, ht, rfl⟩ | ⟨u, hu, rfl⟩ := hmem
    · split at hcur
      · exact absurd hcur (not_isCurrentOf_close _ _ _)
      · rename_i hhit
        rw [if_neg hhit]
        exact .inl (mem_currentRows.mpr ⟨ht, hcur⟩)
    · exact .inr ⟨u, hu, by simpa using hcur, rfl⟩

theorem Dimension.eq_of_current (h : Dimension customer) {k : ℤ} {c c' : Customer}
    (hc : c ∈ currentRows customer k) (hc' : c' ∈ currentRows customer k) : c = c' := by
  have hlen := h.atMostOne k
  match hrows : currentRows customer k with
  | [] => simp [hrows] at hc
  | [d] => simp_all
  | _ :: _ :: _ => simp [hrows] at hlen

theorem ne_of_differs {s : StageRow} {c : Customer} (h : differs s c = .yes) :
    (c.name, c.state) ≠ (s.name, s.state) := by
  intro heq
  obtain ⟨hname, hstate⟩ := Prod.mk.inj heq
  simp [differs, Truth.ne_eq_yes, hname, hstate] at h

/-- The source rows of a key with a current row come from a change of the key. -/
theorem changes_of_mem_fresh {u : Sub} (hu : u ∈ fresh load.stage customer) {c : Customer}
    (hc : c ∈ currentRows customer u.row.sourcePk) :
    Changes customer u.row ∧ ∀ t ∈ customer, t.sourcePk ≠ some (-1) := by
  obtain ⟨s, k⟩ := u
  obtain ⟨hu, hfree⟩ := List.mem_filter.mp hu
  have hfree : ∀ t ∈ customer, Truth.eq k t.sourcePk ≠ .yes := by simpa using hfree
  obtain ⟨hcmem, hpk, -⟩ := mem_currentRows.mp hc
  obtain ⟨-, ⟨-, rfl⟩ | ⟨hch, rfl⟩⟩ := mem_sub.mp hu
  · exact absurd hpk (by simpa using hfree c hcmem)
  · exact ⟨hch, by simpa using hfree⟩

theorem separates_of_converged (h : Dimension customer)
    (hconv : Converged load.stage customer (mergeCustomer upper customer load)) :
    Separates customer load where
  visible s hs c hc hne := by
    obtain ⟨c', hc', hname, hstate⟩ := hconv.staged s hs
    have hmem : c' ∈ currentRows (mergeCustomer upper customer load) s.sourcePk := by simp [hc']
    obtain hold | ⟨u, hu, hpk, -⟩ := mem_currentRows_mergeCustomer hmem
    · rw [h.eq_of_current hold hc] at hname hstate
      simp_all
    · obtain ⟨⟨d, hd, hdiff⟩, -⟩ := changes_of_mem_fresh hu (hpk ▸ hc)
      obtain ⟨hus, -⟩ := mem_sub.mp (List.mem_filter.mp hu).1
      rw [NewCustomerStage.eq_of_pk hus hs hpk] at hd hdiff
      rwa [h.eq_of_current hc hd]
  invalidKey := by
    rintro ⟨s, hs, c, hc, hdiff⟩ t ht hk
    obtain ⟨c', hc', hname, hstate⟩ := hconv.staged s hs
    have hmem : c' ∈ currentRows (mergeCustomer upper customer load) s.sourcePk := by simp [hc']
    obtain hold | ⟨u, hu, hpk, -⟩ := mem_currentRows_mergeCustomer hmem
    · rw [h.eq_of_current hold hc] at hname hstate
      exact ne_of_differs hdiff (by simp_all)
    · exact (changes_of_mem_fresh hu (hpk ▸ hc)).2 t ht hk

/-- A run that does what it should leaves a dimension. -/
theorem Converged.dimension {after : List Customer} (h : Dimension customer)
    (hconv : Converged stage customer after) : Dimension after where
  atMostOne := hconv.atMostOne
  present c hc k hk := by
    by_cases hstaged : ∃ s ∈ stage.rows, s.sourcePk = k
    · obtain ⟨s, hs, rfl⟩ := hstaged
      obtain ⟨c', hc', -⟩ := hconv.staged s hs
      simp [hc']
    · -- The rows of a key that is not staged are those from before the run.
      have hother : ∀ t, t.sourcePk = some k → (t ∈ after ↔ t ∈ customer) := by
        intro t ht
        have hout : ∀ s ∈ stage.rows, t.sourcePk ≠ some s.sourcePk := by
          intro s hs hts
          exact hstaged ⟨s, hs, by simpa [ht, eq_comm] using hts⟩
        have hmem : t ∈ otherRows stage after ↔ t ∈ otherRows stage customer := by
          rw [hconv.others]
        simpa only [otherRows, List.mem_filter, decide_eq_true_eq, and_iff_left hout] using hmem
      obtain ⟨d, hd⟩ := List.exists_mem_of_ne_nil _ (h.present c ((hother c hk).mp hc) k hk)
      obtain ⟨hd, hcur⟩ := mem_currentRows.mp hd
      exact List.ne_nil_of_mem (mem_currentRows.mpr ⟨(hother d hcur.1).mpr hd, hcur⟩)

/-- Every run of a sequence leaves the current rows of the stage exactly when every
load of the sequence separates the table it meets. -/
theorem converged_iff_separates (upper : Str → Str) (h : Dimension customer)
    (loads : List Load) :
    EachStep (mergeCustomer upper)
        (fun c load => Converged load.stage c (mergeCustomer upper c load)) customer loads ↔
      EachStep (mergeCustomer upper) Separates customer loads :=
  eachStep_iff Dimension
    (fun _ _ hd => ⟨separates_of_converged hd, converged_of_separates hd⟩)
    (fun _ _ hd hconv => hconv.dimension hd) h loads

/-! ## The table of the script -/

/-- A table of current rows with distinct keys is a dimension. -/
theorem dimension_of_nodup (hpk : (customer.map (·.sourcePk)).Nodup)
    (hcur : ∀ c ∈ customer, c.isCurrent = some true) : Dimension customer where
  atMostOne k := by
    refine length_filter_le_one hpk _ ?_
    intro c _ d _ hc hd
    simp only [decide_eq_true_eq] at hc hd
    exact hc.1.trans hd.1.symm
  present c hc k hk :=
    List.ne_nil_of_mem (mem_currentRows.mpr ⟨hc, hk, hcur c hc⟩)

/-- The rows the script starts from. -/
def initialCustomer : List Customer := [
  ⟨some 1, some "ABC", some "Abc Co.", some "OH", some true, none⟩,
  ⟨some 2, some "DEF", some "Def Co.", some "PA", some true, none⟩,
  ⟨some 3, some "XYZ", some "Xyz Co.", some "CA", some true, none⟩]

/-- The stage table of the script. -/
def initialStage : NewCustomerStage where
  rows := [⟨1, some "Abc Co.", some "OH"⟩, ⟨2, some "Def Co.", some "PA"⟩,
    ⟨3, some "Xyz Co.", some "TX"⟩, ⟨4, some "Pdq Co.", some "WI"⟩]
  pk_nodup := by decide

def asciiUpper (s : Str) : Str := s.map Char.toUpper

theorem dimension_initialCustomer : Dimension initialCustomer :=
  dimension_of_nodup (by decide) (by decide)

/-- The run of the script does what it should. -/
theorem converged_initial : EachStep (mergeCustomer asciiUpper)
    (fun c load => Converged load.stage c (mergeCustomer asciiUpper c load))
    initialCustomer [⟨17000, initialStage⟩] := by
  have hdim : Dimension initialCustomer := dimension_initialCustomer
  rw [converged_iff_separates asciiUpper hdim, eachStep_cons]
  exact ⟨⟨by decide, by decide⟩, eachStep_nil _⟩

/-- A customer whose state becomes NULL. -/
def nullStage : NewCustomerStage where
  rows := [⟨3, some "Xyz Co.", none⟩]
  pk_nodup := by decide

/-- The current row keeps the state it had. -/
theorem null_change_not_converged : Dimension initialCustomer ∧
    ¬ EachStep (mergeCustomer asciiUpper)
      (fun c load => Converged load.stage c (mergeCustomer asciiUpper c load))
      initialCustomer [⟨17000, nullStage⟩] := by
  refine ⟨dimension_initialCustomer, fun h => ?_⟩
  have hconv := h [] ⟨17000, nullStage⟩ [] rfl
  obtain ⟨c, hc, -, hstate⟩ := hconv.staged ⟨3, some "Xyz Co.", none⟩ (by decide)
  have hrows : currentRows
      (mergeCustomer asciiUpper initialCustomer ⟨17000, nullStage⟩) 3 =
      [⟨some 3, some "XYZ", some "Xyz Co.", some "CA", some true, none⟩] := by decide
  rw [List.foldl_nil, hrows] at hc
  simp only [List.cons.injEq, and_true] at hc
  subst hc
  simp at hstate

end Structor.Type2
