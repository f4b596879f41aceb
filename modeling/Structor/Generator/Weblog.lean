import Structor.Generator.Omniture

/-!
# The records of the web log

The age and the sex of a visitor are set in a chain of tests for the category, without an
`else` at its end. They are variables of the whole loop, so a category that no test names
would take them from the record before.

## Main definitions

* `ageAndSex` -- the chain of tests
* `record`, `records` -- a turn of the loop with its variables, and the file of a week
* `fakeOmniture` -- the file of a child, or what the call raises
* `WellFormed` -- what a record should be
-/
namespace Structor.Omniture

open Python Multidevice

/-! ## The loop -/

/-- The variables that keep their value from turn to turn. -/
structure Vars where
  zipCodeHistory : Category → Option Str
  age : Option ℤ
  sex : Option Str
  rows : List Row

/-- Age and sex, which stay as they are if no test names the category. -/
def ageAndSex (d : VisitDraws) (promoName category : Str) (old : Option ℤ × Option Str) :
    Option ℤ × Option Str :=
  let gammavariate (a b : ℕ) (least : ℚ) : Option ℤ := some ⌊(d.gamma a b).1 + least⌋
  let promoAge := decide (promoName ≠ []) && decide (1 / 2 < d.promoAge.1)
  let sex (female : ℚ) : Option Str := some (if d.sex.1 < female then "F" else "M")
  if category = "handbags".toList then
    (if promoAge then gammavariate 5 1 30 else gammavariate 5 4 18, sex (85 / 100))
  else if category = "accessories".toList ∨ category = "shoes".toList then
    (if promoAge then gammavariate 5 1 30 else gammavariate 5 5 18, sex (75 / 100))
  else if category = "grocery".toList then (gammavariate 5 3 18, sex (50 / 100))
  else if category = "books".toList then (gammavariate 5 2 40, sex (80 / 100))
  else if category = "games".toList ∨ category = "electronics".toList then
    (if promoAge then gammavariate 5 1 18 else gammavariate 5 2 18, sex (30 / 100))
  else if category = "computers".toList ∨ category = "outdoors".toList then
    (gammavariate 5 2 18, sex (30 / 100))
  else if category = "movies".toList ∨ category = "clothing".toList then
    (if promoAge then gammavariate 5 1 30 else gammavariate 5 4 18, sex (50 / 100))
  else if category = "home&garden".toList then (gammavariate 5 2 30, sex (50 / 100))
  else if category = "automotive".toList ∨ category = "tools".toList then
    (gammavariate 5 3 18, sex (10 / 100))
  else old

/-- The value of a variable of the function. -/
def bound {α : Type} : Option α → Except Error α
  | some value => .ok value
  | none => .error .nameError

/-- The promotions are a dictionary with the days of the week for keys. -/
def promotionOf (promotions : List Promotion) (promoId : ℤ) : Option Promotion :=
  if 0 ≤ promoId then promotions[promoId.toNat]? else none

/-- One turn of the loop. -/
def record (sqrt : ℕ → ℚ) (dateMin : ℤ) (promotions : List Promotion) (draws : ℕ → VisitDraws)
    (s : Vars) (i : ℕ) : Except Error Vars := do
  let d := draws i
  let promoId := d.offset.1 / 86400
  let promotion ← lookup (promotionOf promotions promoId)
  let tag := promoTag promotion promoId
  let promo := decide (d.promotion.1 < promotion.2)
  let promoName := if promo then tag else []
  let category ← chooseCategory d promo promotion
  let referrerId ← referrerId sqrt d promo tag category
  let zipCodeHistory := zipCodes s.zipCodeHistory d category
  let zipCode ← lookup (zipCodeHistory category)
  let person := ageAndSex d promoName category.name (s.age, s.sex)
  let age ← bound person.1
  let ageGroup ← ageGroup age
  let sex ← bound person.2
  let row : Row := {
    dateTime := dateMin + d.offset.1, state := d.state, category, age, sex, promoName, referrerId
    zipCode, isPromo := if promoName = [] then "0" else "1", ageGroup }
  pure { zipCodeHistory, age := person.1, sex := person.2, rows := s.rows ++ [row] }

/-- The file of a week that starts at `dateMin`, with `n` records. -/
def records (sqrt : ℕ → ℚ) (draws : Draws) (dateMin : ℤ) (n : ℕ) : Except Error (List Row) := do
  let promotions ← (List.range 7).mapM (promotion draws)
  let s ← (List.range n).foldlM (record sqrt dateMin promotions draws.visits)
    ⟨fun _ => none, none, none, []⟩
  pure s.rows

/-- The file of a child with `n` records, or an argument mismatch. -/
def weblog (sqrt : ℕ → ℚ) (draws : Draws) (n : ℕ) (scale child : ℤ) :
    Except Error (Option (List Row)) := do
  if child ≥ scale then pure none
  else
    let dateMin ← march (1 + 7 * child) 0 0
    let _dateMax ← march (1 + 7 * child + 6) 23 59
    let rows ← records sqrt draws dateMin n
    pure (some rows)

def fakeOmniture (sqrt : ℕ → ℚ) (draws : Draws) (scale child : ℤ) :
    Except Error (Option (List Row)) := weblog sqrt draws numVisits scale child

/-! ## The chain of tests -/

/-- The chain names every category. -/
theorem ageAndSex_name (d : VisitDraws) (promoName : Str) (c : Category)
    (old : Option ℤ × Option Str) : ageAndSex d promoName c.name old =
      (some (age d (decide (promoName ≠ [])) c),
        some (if d.sex.1 < femaleChance c then "F".toList else "M".toList)) := by
  simp only [ageAndSex, age]
  cases (decide (promoName ≠ []) && decide (1 / 2 < d.promoAge.1)) <;> cases c <;> rfl

/-! ## Records -/

/-- What a record should be, given the draws of its turn. -/
structure WellFormed (dateMin : ℤ) (promotions : List Promotion) (d : VisitDraws) (row : Row) :
    Prop where
  /-- The category is that of the promotion of the day, or the loop stops at it. -/
  category : ∃ promotion, promotionOf promotions ((row.dateTime - dateMin) / 86400) =
      some promotion ∧
    (if d.promotion.1 < promotion.2 then row.category = promotion.1
      else ∃ j, ∃ h : j < categories.length,
        seek d.value.1 0 (10 / 100 + (d.fuzz.1 - 1 / 2) / 30) = .ok j ∧
          row.category = categories[j].1)
  age : row.age = Omniture.age d (decide (row.promoName ≠ [])) row.category
  sex : row.sex = if d.sex.1 < femaleChance row.category then "F".toList else "M".toList
  adult : 18 ≤ row.age
  ageGroup : ∃ lower before after, ageGroups = before ++ (lower, row.ageGroup) :: after ∧
    lower ≤ row.age ∧ ∀ x ∈ after, row.age < x.1
  isPromo : row.isPromo = "1".toList ∨ row.isPromo = "0".toList
  isPromo_iff : row.isPromo = "1".toList ↔
    ∃ promotion, promotionOf promotions ((row.dateTime - dateMin) / 86400) = some promotion ∧
      row.promoName = promoTag promotion ((row.dateTime - dateMin) / 86400)

theorem promoTag_ne_nil (promotion : Promotion) (promoId : ℤ) :
    promoTag promotion promoId ≠ [] := by
  simp [promoTag]

/-- The last group whose lower bound is not above the age. -/
theorem ageGroup_eq {age : ℤ} {group : Str} (h : ageGroup age = .ok group) :
    ∃ lower before after, ageGroups = before ++ (lower, group) :: after ∧ lower ≤ age ∧
      ∀ x ∈ after, age < x.1 := by
  have hlast := getLast?_of_item h
  rw [List.getLast?_map] at hlast
  obtain ⟨⟨lower, group'⟩, hfilter, rfl⟩ := Option.map_eq_some_iff.mp hlast
  obtain ⟨before, after, hgroups, hlower, hafter⟩ := getLast?_filter hfilter
  refine ⟨lower, before, after, hgroups, by simpa using hlower, ?_⟩
  intro x hx
  simpa using hafter x hx

/-- The category of a turn. -/
theorem chooseCategory_eq (d : VisitDraws) (promotion : Promotion) : ∃ c,
    chooseCategory d (decide (d.promotion.1 < promotion.2)) promotion = .ok c ∧
      if d.promotion.1 < promotion.2 then c = promotion.1
      else ∃ j, ∃ h : j < categories.length,
        seek d.value.1 0 (10 / 100 + (d.fuzz.1 - 1 / 2) / 30) = .ok j ∧ c = categories[j].1 := by
  by_cases hpromo : d.promotion.1 < promotion.2
  · refine ⟨promotion.1, ?_, ?_⟩
    · rw [chooseCategory, if_pos (decide_eq_true hpromo)]
      rfl
    · rw [if_pos hpromo]
  · obtain ⟨j, hj, hlt⟩ : ∃ j, seek d.value.1 0 (10 / 100 + (d.fuzz.1 - 1 / 2) / 30) = .ok j ∧
        j < categories.length :=
      exists_seek_ok d.value.2.2 (by simp [length_categories]) (by simp [length_categories])
    have hfirst : item categories 0 = .ok (.accessories, 10 / 100) := rfl
    refine ⟨categories[j].1, ?_, ?_⟩
    · rw [chooseCategory, if_neg (by simp [hpromo])]
      simp only [bind, Except.bind, hfirst, hj, item_natCast hlt]
      rfl
    · rw [if_neg hpromo]
      exact ⟨j, hlt, hj, rfl⟩

theorem exists_promotionOf {promotions : List Promotion} (h : promotions.length = 7)
    (offset : Moment) :
    ∃ promotion, promotionOf promotions (offset.1 / 86400) = some promotion := by
  obtain ⟨hlo, hhi⟩ := offset.2
  have hindex : (offset.1 / 86400).toNat < promotions.length := by omega
  rw [promotionOf, if_pos (by omega)]
  exact ⟨_, List.getElem?_eq_getElem hindex⟩

/-- The promotion that a record names. -/
def promoName (d : VisitDraws) (promotion : Promotion) : Str :=
  if d.promotion.1 < promotion.2 then promoTag promotion (d.offset.1 / 86400) else []

theorem promoName_ne_nil_iff (d : VisitDraws) (promotion : Promotion) :
    promoName d promotion ≠ [] ↔ d.promotion.1 < promotion.2 := by
  rw [promoName]
  by_cases hpromo : d.promotion.1 < promotion.2
  · simp [hpromo, promoTag_ne_nil]
  · simp [hpromo]

/-- The record of a turn. -/
def rowOf (dateMin : ℤ) (d : VisitDraws) (promotion : Promotion) (category : Category)
    (referrerId zipCode ageGroup : Str) : Row where
  dateTime := dateMin + d.offset.1
  state := d.state
  category := category
  age := age d (decide (promoName d promotion ≠ [])) category
  sex := if d.sex.1 < femaleChance category then "F" else "M"
  promoName := promoName d promotion
  referrerId := referrerId
  zipCode := zipCode
  isPromo := if promoName d promotion = [] then "0" else "1"
  ageGroup := ageGroup

theorem wellFormed_rowOf {dateMin : ℤ} {promotions : List Promotion} {d : VisitDraws}
    {promotion : Promotion} {category : Category} {group : Str} (referrer zipCode : Str)
    (hpromotion : promotionOf promotions (d.offset.1 / 86400) = some promotion)
    (hchosen : if d.promotion.1 < promotion.2 then category = promotion.1
      else ∃ j, ∃ h : j < categories.length,
        seek d.value.1 0 (10 / 100 + (d.fuzz.1 - 1 / 2) / 30) = .ok j ∧ category = categories[j].1)
    (hadult : 18 ≤ age d (decide (promoName d promotion ≠ [])) category)
    (hgroup : ageGroup (age d (decide (promoName d promotion ≠ [])) category) = .ok group) :
    WellFormed dateMin promotions d
      (rowOf dateMin d promotion category referrer zipCode group) := by
  have hday : dateMin + d.offset.1 - dateMin = d.offset.1 := by omega
  constructor
  case category =>
    refine ⟨promotion, ?_, hchosen⟩
    simp only [rowOf, hday]
    exact hpromotion
  case age => rfl
  case sex => rfl
  case adult => exact hadult
  case ageGroup => exact ageGroup_eq hgroup
  case isPromo =>
    simp only [rowOf]
    split
    · exact .inr rfl
    · exact .inl rfl
  case isPromo_iff =>
    simp only [rowOf, hday]
    by_cases hpromo : d.promotion.1 < promotion.2
    · rw [if_neg ((promoName_ne_nil_iff d promotion).mpr hpromo), promoName, if_pos hpromo]
      exact iff_of_true rfl ⟨promotion, hpromotion, rfl⟩
    · have hnil : promoName d promotion = [] := if_neg hpromo
      rw [hnil, if_pos rfl]
      refine iff_of_false (by decide) ?_
      rintro ⟨other, -, hname⟩
      exact promoTag_ne_nil other _ hname.symm

/-- A turn of the loop, whatever the variables hold. -/
theorem exists_record (sqrt : ℕ → ℚ) (dateMin : ℤ) {promotions : List Promotion}
    (hpromotions : promotions.length = 7) (draws : ℕ → VisitDraws) (s : Vars) (i : ℕ) :
    ∃ s' row, record sqrt dateMin promotions draws s i = .ok s' ∧ s'.rows = s.rows ++ [row] ∧
      WellFormed dateMin promotions (draws i) row := by
  obtain ⟨promotion, hpromotion⟩ := exists_promotionOf hpromotions (draws i).offset
  obtain ⟨category, hcategory, hchosen⟩ := chooseCategory_eq (draws i) promotion
  obtain ⟨referrer, hreferrer⟩ := exists_referrerId_ok sqrt (draws i)
    (decide ((draws i).promotion.1 < promotion.2))
    (promoTag promotion ((draws i).offset.1 / 86400)) category
  obtain ⟨zipCode, hzipCode⟩ := exists_zipCode s.zipCodeHistory (draws i) category
  have hadult := le_age (draws i) (decide (promoName (draws i) promotion ≠ [])) category
  obtain ⟨group, hgroup⟩ := exists_ageGroup_ok hadult
  have hname : (if decide ((draws i).promotion.1 < promotion.2) = true then
      promoTag promotion ((draws i).offset.1 / 86400) else []) = promoName (draws i) promotion := by
    rw [promoName]
    simp only [decide_eq_true_eq]
  simp only [lookup] at hzipCode
  have hrecord : record sqrt dateMin promotions draws s i = .ok
      ⟨zipCodes s.zipCodeHistory (draws i) category,
        some (age (draws i) (decide (promoName (draws i) promotion ≠ [])) category),
        some (if (draws i).sex.1 < femaleChance category then "F".toList else "M".toList),
        s.rows ++ [rowOf dateMin (draws i) promotion category referrer zipCode group]⟩ := by
    simp only [record, hpromotion, lookup, bind, Except.bind, hcategory, hreferrer, hname,
      ageAndSex_name, bound, hgroup]
    rw [hzipCode]
    rfl
  exact ⟨_, _, hrecord, rfl, wellFormed_rowOf referrer zipCode hpromotion hchosen hadult hgroup⟩

/-! ## The file -/

theorem exists_loop (sqrt : ℕ → ℚ) (dateMin : ℤ) {promotions : List Promotion}
    (hpromotions : promotions.length = 7) (draws : ℕ → VisitDraws) (n : ℕ) :
    ∃ s, (List.range n).foldlM (record sqrt dateMin promotions draws)
        ⟨fun _ => none, none, none, []⟩ = .ok s ∧
      List.Forall₂ (fun i row => WellFormed dateMin promotions (draws i) row)
        (List.range n) s.rows := by
  induction n with
  | zero => exact ⟨_, rfl, .nil⟩
  | succ n ih =>
      obtain ⟨s, hs, hrows⟩ := ih
      obtain ⟨s', row, hrecord, hadd, hwell⟩ := exists_record sqrt dateMin hpromotions draws s n
      refine ⟨s', ?_, ?_⟩
      · rw [List.range_succ, List.foldlM_append, hs]
        simp only [bind, Except.bind, List.foldlM_cons, List.foldlM_nil, hrecord, pure, Except.pure]
      · rw [List.range_succ, hadd]
        exact List.rel_append hrows (.cons hwell .nil)

/-- For all draws, every week and any number of records nothing raises, and the records are
well formed. -/
theorem records_wellFormed (sqrt : ℕ → ℚ) (draws : Draws) (dateMin : ℤ) (n : ℕ) :
    ∃ promotions rows, (List.range 7).mapM (promotion draws) = .ok promotions ∧
      records sqrt draws dateMin n = .ok rows ∧
      List.Forall₂ (fun i row => WellFormed dateMin promotions (draws.visits i) row)
        (List.range n) rows := by
  obtain ⟨promotions, hpromotions, hlen⟩ := exists_promotions_ok draws
  obtain ⟨s, hs, hrows⟩ := exists_loop sqrt dateMin hlen draws.visits n
  refine ⟨promotions, s.rows, hpromotions, ?_, hrows⟩
  simp only [records, bind, Except.bind, hpromotions, hs]
  rfl

/-- The weeks that begin in March and end there. -/
theorem exists_weblog_iff (sqrt : ℕ → ℚ) (draws : Draws) (n : ℕ) {scale child : ℤ}
    (h0 : 0 ≤ child) (h : child < scale) :
    (∃ rows, weblog sqrt draws n scale child = .ok (some rows)) ↔ child ≤ 3 := by
  rw [weblog, if_neg (by omega)]
  constructor
  · rintro ⟨rows, hrows⟩
    obtain ⟨dateMin, -, hrows⟩ := bind_eq_ok hrows
    obtain ⟨dateMax, hmax, -⟩ := bind_eq_ok hrows
    by_contra hchild
    rw [march, if_neg (by omega)] at hmax
    cases hmax
  · intro hchild
    obtain ⟨-, rows, -, hrows, -⟩ := records_wellFormed sqrt draws
      ((1 + 7 * child - 1) * 86400 + 0 * 3600 + 0 * 60) n
    rw [march_eq_ok (by omega) (by omega), march_eq_ok (by omega) (by omega)]
    exact ⟨rows, by simp only [bind, Except.bind, hrows]; rfl⟩

/-- The number of records does not matter. -/
theorem exists_fakeOmniture_iff (sqrt : ℕ → ℚ) (draws : Draws) {scale child : ℤ} (h0 : 0 ≤ child)
    (h : child < scale) :
    (∃ rows, fakeOmniture sqrt draws scale child = .ok (some rows)) ↔ child ≤ 3 :=
  exists_weblog_iff sqrt draws numVisits h0 h

end Structor.Omniture
