import Structor.Generator.Accounts
import Structor.Generator.Multidevice

/-!
# The web log

A child writes a week of visits of a shop. A visit is of a category, which the promotion of
the day decides or a draw; the category decides the age, the sex and the zip code.

Times are seconds since the first of March. The draws of a visit are given, each by the place
where it is used.

## Main definitions

* `seek` -- the loop that selects a category
* `shuffle` -- `random.shuffle` with a constant for a source
* `referrerId`, `zipCodes`, `age`, `ageGroup` -- what is drawn for a visit
* `promotion` -- the promotion of a day
-/
namespace Structor.Omniture
open Python Multidevice
variable {α : Type}

inductive Category where
  | accessories | automotive | books | clothing | computers | electronics | games | grocery
  | handbags | homeGarden | movies | outdoors | shoes | tools
deriving DecidableEq

def Category.name : Category → Str
  | .accessories => "accessories"
  | .automotive => "automotive"
  | .books => "books"
  | .clothing => "clothing"
  | .computers => "computers"
  | .electronics => "electronics"
  | .games => "games"
  | .grocery => "grocery"
  | .handbags => "handbags"
  | .homeGarden => "home&garden"
  | .movies => "movies"
  | .outdoors => "outdoors"
  | .shoes => "shoes"
  | .tools => "tools"

/-- The categories with their base weights. -/
def categories : List (Category × ℚ) := [
  (.accessories, 10 / 100), (.automotive, 15 / 100), (.books, 20 / 100), (.clothing, 30 / 100),
  (.computers, 40 / 100), (.electronics, 50 / 100), (.games, 60 / 100), (.grocery, 65 / 100),
  (.handbags, 70 / 100), (.homeGarden, 75 / 100), (.movies, 80 / 100), (.outdoors, 85 / 100),
  (.shoes, 95 / 100), (.tools, 1)]

def ageGroups : List (ℤ × Str) := [(18, "18-25"), (26, "26-35"), (35, "35-50"), (51, "50+")]

def maxReferrers : ℤ := 15
def numVisits : ℕ := 500000

/-! ## The draws -/

/-- What `faker.date_time_between` returns, from the first minute of a week to its last one. -/
def Moment : Type := { t : ℤ // 0 ≤ t ∧ t ≤ 6 * 86400 + 23 * 3600 + 59 * 60 }

/-- `gamma a b` is what `random.gammavariate(a, b)` returns. -/
structure VisitDraws where
  offset : Moment
  state : Str
  promotion : Frac
  value : Frac
  fuzz : Frac
  partner : Frac
  referral : Frac
  referrer : Accounts.Zipf maxReferrers
  newZipCode : Frac
  postcode : Str
  promoAge : Frac
  gamma : ℕ → ℕ → { g : ℚ // 0 < g }
  sex : Frac

structure Draws where
  category : ℕ → ℕ
  chance : ℕ → Frac
  visits : ℕ → VisitDraws

/-! ## A visit -/

/-- `while prob <= value and i <= len(categories)` -/
def seek (value : ℚ) (i : ℕ) (prob : ℚ) : Except Error ℕ :=
  if prob ≤ value ∧ i ≤ categories.length then do
    let next ← item categories (i + 1 : ℕ)
    seek value (i + 1) next.2
  else .ok i
termination_by categories.length + 1 - i

/-- `x[i], x[j] = x[j], x[i]` -/
def swap (l : List α) (i j : ℕ) : Except Error (List α) := do
  let a ← item l i
  let b ← item l j
  pure ((l.set i b).set j a)

/-- `random.shuffle(l, lambda: r)`, from the last index down to 1. -/
def shuffle (r : ℚ) (l : List α) : Except Error (List α) :=
  (List.range' 1 (l.length - 1)).reverse.foldlM
    (fun l (i : ℕ) => swap l i ⌊r * ((i : ℚ) + 1)⌋.toNat) l

/-- `(sum([ math.sqrt(ord(x)) for x in tag ]) % 99) / 100.0` -/
def shuffleSeed (sqrt : ℕ → ℚ) (tag : Str) : ℚ :=
  let sum := (tag.map fun c => sqrt c.toNat).sum
  (sum - 99 * ⌊sum / 99⌋) / 100

/-- The number of a partner, by the tag that mixes them up. -/
def referrerOf (sqrt : ℕ → ℚ) (tag : Str) (d : VisitDraws) : Except Error ℤ := do
  let ids ← shuffle (shuffleSeed sqrt tag) (xrange 1 20)
  item ids (d.referrer.1 - 1)

def age (d : VisitDraws) (promo : Bool) (category : Category) : ℤ :=
  let draw (a b : ℕ) (least : ℚ) : ℤ := ⌊(d.gamma a b).1 + least⌋
  let promoAge := promo && decide (1 / 2 < d.promoAge.1)
  match category with
  | .handbags => if promoAge then draw 5 1 30 else draw 5 4 18
  | .accessories => if promoAge then draw 5 1 30 else draw 5 5 18
  | .shoes => if promoAge then draw 5 1 30 else draw 5 5 18
  | .grocery => draw 5 3 18
  | .books => draw 5 2 40
  | .games => if promoAge then draw 5 1 18 else draw 5 2 18
  | .electronics => if promoAge then draw 5 1 18 else draw 5 2 18
  | .computers => draw 5 2 18
  | .outdoors => draw 5 2 18
  | .movies => if promoAge then draw 5 1 30 else draw 5 4 18
  | .clothing => if promoAge then draw 5 1 30 else draw 5 4 18
  | .homeGarden => draw 5 2 30
  | .automotive => draw 5 3 18
  | .tools => draw 5 3 18

/-- The chance that a visitor is a woman. -/
def femaleChance : Category → ℚ
  | .handbags => 85 / 100
  | .accessories => 75 / 100
  | .shoes => 75 / 100
  | .grocery => 50 / 100
  | .books => 80 / 100
  | .games => 30 / 100
  | .electronics => 30 / 100
  | .computers => 30 / 100
  | .outdoors => 30 / 100
  | .movies => 50 / 100
  | .clothing => 50 / 100
  | .homeGarden => 50 / 100
  | .automotive => 10 / 100
  | .tools => 10 / 100

/-- `[ x[1] for x in age_groups if x[0] <= age ][-1]` -/
def ageGroup (age : ℤ) : Except Error Str :=
  item ((ageGroups.filter fun x => decide (x.1 ≤ age)).map Prod.snd) (-1)

structure Row where
  dateTime : ℤ
  state : Str
  category : Category
  age : ℤ
  sex : Str
  promoName : Str
  referrerId : Str
  zipCode : Str
  isPromo : Str
  ageGroup : Str

/-- A promotion of a day: its category and its chance. -/
abbrev Promotion := Category × ℚ

def promoTag (promotion : Promotion) (promoId : ℤ) : Str :=
  promotion.1.name ++ '-' :: decimal promoId

/-- The category of the promotion, or the one that is drawn. -/
def chooseCategory (d : VisitDraws) (promo : Bool) (promotion : Promotion) :
    Except Error Category := do
  if promo then pure promotion.1
  else
    let fuzzFactor := (d.fuzz.1 - 1 / 2) / 30
    let first ← item categories 0
    let i ← seek d.value.1 0 (first.2 + fuzzFactor)
    let chosen ← item categories i
    pure chosen.1

def referrerId (sqrt : ℕ → ℚ) (d : VisitDraws) (promo : Bool) (tag : Str) (category : Category) :
    Except Error Str := do
  if promo && decide (d.partner.1 < 75 / 100) then
    let referrer ← referrerOf sqrt tag d
    pure (tag ++ "-partnerid-".toList ++ decimal referrer)
  else if d.referral.1 < 30 / 100 then
    let referrer ← referrerOf sqrt category.name d
    pure ("partnerid-".toList ++ decimal referrer)
  else pure ("search" : Str)

/-- The zip codes of the categories, after a visit. -/
def zipCodes (history : Category → Option Str) (d : VisitDraws) (category : Category) :
    Category → Option Str :=
  if history category = none ∨ 7 / 10 < d.newZipCode.1 then
    Function.update history category (some (d.postcode.take 4 ++ ['0']))
  else history

/-- A lookup in a dictionary. -/
def lookup (x : Option α) : Except Error α :=
  match x with
  | some a => .ok a
  | none => .error .keyError

/-! ## The run -/

/-- `datetime(2016, 03, day, hour, minute)` -/
def march (day hour minute : ℤ) : Except Error ℤ :=
  if 1 ≤ day ∧ day ≤ 31 then .ok ((day - 1) * 86400 + hour * 3600 + minute * 60)
  else .error .valueError

def promotion (draws : Draws) (x : ℕ) : Except Error Promotion := do
  let category ← choice categories (draws.category x)
  pure (category.1, uniform (3 / 100) (10 / 100) (draws.chance x))

/-! ## Nothing raises but the date -/

/-- The index -1 is the last one. -/
theorem exists_item_last_ok {l : List α} (h : l ≠ []) : ∃ a, item l (-1) = .ok a := by
  have hpos := List.length_pos_iff.mpr h
  have hlast : item l (-1) = item l ((l.length - 1 : ℕ) : ℤ) := by
    have hneg : (-1 : ℤ) < 0 := by decide
    have hnonneg : ¬ ((l.length - 1 : ℕ) : ℤ) < 0 := by omega
    rw [item, item, if_pos hneg, if_neg hnonneg]
    have hindex : (-1 + (l.length : ℤ)).toNat = ((l.length - 1 : ℕ) : ℤ).toNat := by omega
    rw [hindex]
    have hnonneg' : ¬ (-1 + (l.length : ℤ)) < 0 := by omega
    simp only [if_neg hnonneg, if_neg hnonneg']
  rw [hlast]
  exact ⟨_, item_natCast (by omega)⟩

theorem length_categories : categories.length = 14 := rfl

/-- The loop stops at a category, whose weight it has. The last category has the weight 1. -/
theorem exists_seek_ok {value : ℚ} (hvalue : value < 1) {i : ℕ} {prob : ℚ}
    (hi : i < categories.length) (hlast : i + 1 = categories.length → prob = 1) :
    ∃ j, seek value i prob = .ok j ∧ j < categories.length := by
  induction hn : categories.length - i generalizing i prob with
  | zero => omega
  | succ n ih =>
      rw [seek]
      by_cases hprob : prob ≤ value ∧ i ≤ categories.length
      · have hne : i + 1 ≠ categories.length := by
          intro hlen
          have hone := hlast hlen
          linarith [hprob.1]
        have hnext : i + 1 < categories.length := by omega
        have hweight : i + 1 + 1 = categories.length → categories[i + 1].2 = 1 := by
          intro hlen
          obtain rfl : i = 12 := by
            rw [length_categories] at hlen
            omega
          rfl
        obtain ⟨j, hj, hlt⟩ := ih hnext hweight (by omega)
        refine ⟨j, ?_, hlt⟩
        rw [if_pos hprob, item_natCast hnext]
        exact hj
      · exact ⟨i, by rw [if_neg hprob], hi⟩

theorem exists_swap_ok {l : List α} {i j : ℕ} (hi : i < l.length) (hj : j < l.length) :
    ∃ l', swap l i j = .ok l' ∧ l'.length = l.length := by
  refine ⟨(l.set i l[j]).set j l[i], ?_, by simp⟩
  rw [swap, item_natCast hi, item_natCast hj]
  rfl

/-- A source below 1 picks each index out of those that are left. -/
theorem exists_shuffle_ok {r : ℚ} (hr : r < 1) (l : List α) :
    ∃ l', shuffle r l = .ok l' ∧ l'.length = l.length := by
  have hloop : ∀ (is : List ℕ) (l : List α), (∀ i ∈ is, i < l.length) →
      ∃ l', is.foldlM (fun l (i : ℕ) => swap l i ⌊r * ((i : ℚ) + 1)⌋.toNat) l = .ok l' ∧
        l'.length = l.length := by
    intro is
    induction is with
    | nil => exact fun l _ => ⟨l, rfl, rfl⟩
    | cons i is ih =>
        intro l his
        rw [List.forall_mem_cons] at his
        have hj : ⌊r * ((i : ℚ) + 1)⌋.toNat < l.length := by
          have hfloor : ⌊r * ((i : ℚ) + 1)⌋ < (i + 1 : ℕ) := by
            apply Int.floor_lt.mpr
            push_cast
            nlinarith
          omega
        obtain ⟨l₁, hl₁, hlen₁⟩ := exists_swap_ok his.1 hj
        obtain ⟨l₂, hl₂, hlen₂⟩ := ih l₁ (by rw [hlen₁]; exact his.2)
        exact ⟨l₂, by rw [List.foldlM_cons, hl₁]; exact hl₂, hlen₂.trans hlen₁⟩
  apply hloop
  intro i hi
  rw [List.mem_reverse, List.mem_range'_1] at hi
  omega

theorem shuffleSeed_lt (sqrt : ℕ → ℚ) (tag : Str) : shuffleSeed sqrt tag < 1 := by
  have hlt := Int.lt_floor_add_one ((tag.map fun c => sqrt c.toNat).sum / 99)
  rw [shuffleSeed]
  linarith

theorem exists_referrerOf_ok (sqrt : ℕ → ℚ) (tag : Str) (d : VisitDraws) :
    ∃ k, referrerOf sqrt tag d = .ok k := by
  obtain ⟨ids, hids, hlen⟩ := exists_shuffle_ok (shuffleSeed_lt sqrt tag) (xrange 1 20)
  have hlo : 2 ≤ d.referrer.1 := d.referrer.2.1
  have hhi : d.referrer.1 ≤ 15 := d.referrer.2.2
  obtain ⟨k, -, hk⟩ := exists_item_ok (l := ids) (k := d.referrer.1 - 1) (by omega) (by
    have hids : (xrange 1 20).length = 19 := rfl
    omega)
  exact ⟨k, by rw [referrerOf, hids]; exact hk⟩

theorem exists_referrerId_ok (sqrt : ℕ → ℚ) (d : VisitDraws) (promo : Bool) (tag : Str)
    (category : Category) : ∃ r, referrerId sqrt d promo tag category = .ok r := by
  obtain ⟨k, hk⟩ := exists_referrerOf_ok sqrt tag d
  obtain ⟨k', hk'⟩ := exists_referrerOf_ok sqrt category.name d
  rw [referrerId]
  split_ifs
  · exact ⟨_, by rw [hk]; rfl⟩
  · exact ⟨_, by rw [hk']; rfl⟩
  · exact ⟨_, rfl⟩

theorem exists_zipCode (history : Category → Option Str) (d : VisitDraws) (category : Category) :
    ∃ z, lookup (zipCodes history d category category) = .ok z := by
  rw [zipCodes]
  split_ifs with h
  · exact ⟨_, by rw [Function.update_self]; rfl⟩
  · obtain ⟨z, hz⟩ := Option.ne_none_iff_exists'.mp fun hnone => h (.inl hnone)
    exact ⟨z, by rw [hz]; rfl⟩

/-- Nobody is below the first age group. -/
theorem le_age (d : VisitDraws) (promo : Bool) (category : Category) :
    18 ≤ age d promo category := by
  have hdraw : ∀ (a b : ℕ) (least : ℚ), 18 ≤ least → 18 ≤ ⌊(d.gamma a b).1 + least⌋ := by
    intro a b least hleast
    have hpos := (d.gamma a b).2
    exact Int.le_floor.mpr (by push_cast; linarith)
  cases category <;> simp only [age] <;> try split_ifs
  all_goals
    apply hdraw
    norm_num

theorem exists_ageGroup_ok {age : ℤ} (h : 18 ≤ age) : ∃ g, ageGroup age = .ok g := by
  have hmem : ("18-25" : Str) ∈ (ageGroups.filter fun x => decide (x.1 ≤ age)).map Prod.snd := by
    refine List.mem_map.mpr ⟨(18, "18-25"), List.mem_filter.mpr ⟨List.mem_cons_self, ?_⟩, rfl⟩
    simpa using h
  exact exists_item_last_ok (List.ne_nil_of_mem hmem)

theorem exists_promotions_ok (draws : Draws) :
    ∃ promotions, (List.range 7).mapM (promotion draws) = .ok promotions ∧
      promotions.length = 7 := by
  have hpromotion : ∀ x ∈ List.range 7, ∃ p, promotion draws x = .ok p ∧ () = () := by
    intro x _
    obtain ⟨c, -, hc⟩ :=
      exists_choice_ok (l := categories) (by simp [categories]) (draws.category x)
    exact ⟨_, by rw [promotion, hc]; rfl, rfl⟩
  obtain ⟨promotions, hpromotions, hlen⟩ := exists_mapM_ok (List.range 7) hpromotion
  exact ⟨promotions, hpromotions, by simpa using congrArg List.length hlen⟩

theorem march_eq_ok {day : ℤ} (h : 1 ≤ day) (h' : day ≤ 31) (hour minute : ℤ) :
    march day hour minute = .ok ((day - 1) * 86400 + hour * 3600 + minute * 60) := by
  rw [march, if_pos ⟨h, h'⟩]

end Structor.Omniture
