import Mathlib.Data.Rat.Floor
import Structor.Fresh
import Structor.Python

/-!
# The multi-device click-stream

Users go on journeys: they visit some pages of a shop on one platform and may buy, and a
user who was on a mobile device may come back to buy on the desktop. Every user has one
cookie for each platform, which is made up when it is first needed.

Times are microseconds since the midnight before the first day of the stream. Random draws
are given: `Frac` is what `random.random()` returns, and `random.uniform(a, b)` is
`a + (b - a) * random.random()`.

## Main definitions

* `assignCookie` -- the cookie of a user on a platform
* `journey` -- one turn of the loop over the journeys
* `fakeMultidevice` -- the files of a child
-/
namespace Structor.Multidevice
open Python
variable {ω α : Type}

def numUsers : ℤ := 1000
def numJournies : ℤ := 20000
def numCampaigns : ℕ := 20
def numProducts : ℤ := 100
def baseDesktopSaleChance : ℚ := 4 / 100
def baseMobileSaleChance : ℚ := 1 / 100
def chanceSwitchMobileToDesktop : ℚ := 3 / 4

inductive Platform where
  | desktop
  | mobile
deriving DecidableEq

/-- What `random.random()` returns. -/
def Frac : Type := { r : ℚ // 0 ≤ r ∧ r < 1 }

/-- `random.uniform(a, b)` -/
def uniform (a b : ℚ) (r : Frac) : ℚ := a + (b - a) * r.1

def seconds (n : ℤ) : ℤ := n * 1000000
def minutes (n : ℤ) : ℤ := seconds (60 * n)
def hours (n : ℤ) : ℤ := minutes (60 * n)

/-- Functions of `datetime`, `numpy` and `scipy`. -/
structure Numeric where
  str : ℤ → Str
  gaussian : ℚ → ℚ → ℚ → ℚ
  desktopCdf : ℚ → ℚ
  mobileCdf₁ : ℚ → ℚ
  mobileCdf₂ : ℚ → ℚ

/-! ## Campaigns and users -/

structure Campaign where
  id : ℤ
  sexPreference : Str
  mobileOptimized : Bool
  optimalHour : ℤ
  promotedProduct : ℤ

structure CampaignDraws where
  sexPreference : ℕ
  mobileOptimized : ℕ
  optimalHour : Frac
  promotedProduct : Frac

def sexes : List Str := ["M", "F"]

def campaign (d : CampaignDraws) (i : ℕ) : Except Error Campaign := do
  let sexPreference ← choice sexes d.sexPreference
  let mobileOptimized ← choice [true, false] d.mobileOptimized
  pure {
    id := i + 1, sexPreference, mobileOptimized
    optimalHour := ⌊uniform 8 18 d.optimalHour⌋
    promotedProduct := ⌊uniform 0 numProducts d.promotedProduct⌋ }

/-- `x[a:b]` -/
def slice (x : Str) (a b : ℕ) : Str := (x.take b).drop a

def join (sep : Char) (parts : List Str) : Str := List.intercalate [sep] parts

/-- `None` for a number of any other length. -/
def creditCardWithDashes (x : Str) : Option Str :=
  if x.length = 12 then some (join '-' [slice x 0 4, slice x 4 6, slice x 6 8, slice x 8 12])
  else if x.length = 13 then some (join '-' [slice x 0 4, slice x 4 7, slice x 7 9, slice x 9 13])
  else if x.length = 14 then some (join '-' [slice x 0 4, slice x 4 7, slice x 7 10, slice x 10 14])
  else if x.length = 15 then some (join '-' [slice x 0 4, slice x 4 8, slice x 8 11, slice x 11 15])
  else if x.length = 16 then some (join '-' [slice x 0 4, slice x 4 8, slice x 8 12, slice x 12 16])
  else none

/-- The numbers that `faker.credit_card_number()` makes up have 12 to 16 digits. -/
structure UserDraws where
  sex : ℕ
  maleNames : Str × Str
  femaleNames : Str × Str
  creditCard : { x : Str // 12 ≤ x.length ∧ x.length ≤ 16 }
  city : Str
  state : Str
  postalCode : Str
  email : Str
  phone : Str

structure User where
  userId : ℤ
  sex : Str
  line : Str

/-- `'|'.join(record)`, which raises at a column that is `None`. -/
def joinRecord (record : List (Option Str)) : Except Error Str := do
  let columns ← record.mapM fun column =>
    match column with
    | some s => .ok s
    | none => .error .typeError
  pure (join '|' columns)

def user (child : ℤ) (d : UserDraws) (i : ℕ) : Except Error User := do
  let userId := i + numUsers * child
  let sex ← choice sexes d.sex
  let names := if sex = ("M" : Str) then d.maleNames else d.femaleNames
  let line ← joinRecord [some (decimal userId), some (join ' ' [names.1, names.2]), some sex,
    creditCardWithDashes d.creditCard.1, some d.city, some d.state, some d.postalCode,
    some d.email, some d.phone]
  pure { userId, sex, line }

/-! ## Cookies and addresses -/

/-- For each user a slot for the desktop and a slot for the mobile device. -/
abbrev Slots (α : Type) := ℤ → Option (Option α × Option α)

def slot (platform : Platform) (row : Option α × Option α) : Option α :=
  match platform with
  | .desktop => row.1
  | .mobile => row.2

def setSlot (platform : Platform) (a : α) (row : Option α × Option α) : Option α × Option α :=
  match platform with
  | .desktop => (some a, row.2)
  | .mobile => (row.1, some a)

/-- The cookies, the number of calls of `uuid1`, and the cookie. -/
def assignCookie (uuid1 : Fresh.Supply ω) (cookies : Slots ω) (issued : ℕ) (userId : ℤ)
    (platform : Platform) : Slots ω × ℕ × ω :=
  let row := (cookies userId).getD (none, none)
  match slot platform row with
  | some cookie => (Function.update cookies userId (some row), issued, cookie)
  | none =>
      let cookie := uuid1.next issued
      (Function.update cookies userId (some (setSlot platform cookie row)), issued + 1, cookie)

def randomIpAddress (userId : ℤ) : Str :=
  join '.' [decimal 10, decimal (userId / 256 ^ 2 % 256), decimal (userId / 256 % 256),
    decimal (userId % 256)]

/-- The addresses, and the address of a user on a platform. -/
def assignIpAddress (ipAddresses : Slots Str) (userId : ℤ) (platform : Platform) :
    Slots Str × Str :=
  let row := (ipAddresses userId).getD (none, none)
  match slot platform row with
  | some ip => (Function.update ipAddresses userId (some row), ip)
  | none =>
      let ip := randomIpAddress userId
      (Function.update ipAddresses userId (some (setSlot platform ip row)), ip)

/-! ## Journeys -/

structure Click (ω : Type) where
  clickTime : ℤ
  ipAddress : Str
  productId : ℤ
  campaignId : ℤ
  cookieId : ω
  platform : Platform
  trackingId : ℤ

structure Sale (ω : Type) where
  saleTime : ℤ
  userId : ℤ
  productId : ℤ
  campaignId : ℤ
  cookieId : ω
  trackingId : ℤ

/-- The draws of a journey, the pages by their number. -/
structure JourneyDraws where
  dateTime : ℤ
  timeOffset : Frac
  choice : Frac
  promotion : Frac
  campaign : ℕ
  user : Frac
  gamma : { g : ℚ // 0 < g }
  product : ℕ → ℤ
  thinkTime : ℕ → ℕ
  sale : Frac
  switch : Frac
  wait : Frac

/-- The variables of the loop over the journeys. -/
structure State (ω : Type) where
  cookies : Slots ω
  issued : ℕ
  ipAddresses : Slots Str
  productId : Option ℤ
  clicks : List (Click ω)
  sales : List (Sale ω)
  numMobileSwitches : ℕ

def State.initial : State ω := ⟨fun _ => none, 0, fun _ => none, none, [], [], 0⟩

def hour (t : Frac) : ℤ := ⌊t.1 * 1440 / 60⌋

def second (t : Frac) : ℤ := ⌊Int.fract (t.1 * 1440) * 60⌋

/-- The minutes are decoded last, from a variable that still holds the minutes of the day. -/
def minute (t : Frac) : ℤ := ⌊t.1 * 1440 - hour t * 60⌋

/-- `date_time.replace(..)` with the decoded time of day. What it returns is not used. -/
def replaceTime (t : Frac) : Except Error Unit :=
  if 0 ≤ hour t ∧ hour t < 24 ∧ 0 ≤ minute t ∧ minute t < 60 ∧ 0 ≤ second t ∧ second t < 60 then
    .ok ()
  else .error .valueError

def choosePlatform (num : Numeric) (d : JourneyDraws) : Platform :=
  let t := d.timeOffset.1
  let cdf := num.desktopCdf t
  let sum := cdf + num.mobileCdf₁ t / 4 + num.mobileCdf₂ t / 4
  if uniform 0 sum d.choice ≤ cdf then .desktop else .mobile

def chooseCampaign (campaigns : List Campaign) (d : JourneyDraws) :
    Except Error (Option Campaign) :=
  if d.promotion.1 < 1 / 4 then
    match choice campaigns d.campaign with
    | .ok c => .ok (some c)
    | .error e => .error e
  else .ok none

def userOffset (d : JourneyDraws) : ℤ := ⌊uniform 0 numUsers d.user⌋

/-- `int(random.gammavariate(..) + 1)` -/
def numPages (d : JourneyDraws) : ℕ := ⌊d.gamma.1 + 1⌋.toNat

/-- The variables of the loop over the pages, and the clicks it has appended. -/
structure Visit (ω : Type) where
  clickTime : ℤ
  originalProductId : Option ℤ
  productId : Option ℤ
  clicks : List (Click ω)

/-- One turn of the loop over the pages. `click` makes the row of a time and a product. -/
def page (d : JourneyDraws) (click : ℤ → ℤ → Click ω) (v : Visit ω) (j : ℕ) : Visit ω :=
  let productId := v.originalProductId.getD (d.product j)
  { clickTime := v.clickTime + seconds (d.thinkTime j)
    originalProductId := none
    productId := some productId
    clicks := v.clicks ++ [click v.clickTime productId] }

def hourOf (t : ℤ) : ℤ := t / hours 1 % 24

def minuteOf (t : ℤ) : ℤ := t / minutes 1 % 60

/-- The chance of a sale. A campaign changes it, depending on the sex of the user. -/
def saleChance (num : Numeric) (users : List User) (platform : Platform)
    (campaign : Option Campaign) (offset dateTime : ℤ) : Except Error ℚ := do
  let base := if platform = .desktop then baseDesktopSaleChance else baseMobileSaleChance
  match campaign with
  | none => pure base
  | some c =>
      let user ← item users offset
      let chance := if c.sexPreference = user.sex then base * (5 / 4) else base * (1 / 2)
      let chance :=
        if platform = .mobile then
          if c.mobileOptimized then chance * 4 else chance * (1 / 5)
        else chance
      let hourDelta := |(c.optimalHour : ℚ) - (hourOf dateTime + (minuteOf dateTime : ℚ) / 60)|
      let adjustment := num.gaussian hourDelta 0 1 * (6 / 10) / num.gaussian 0 0 1 + 9 / 10
      pure (chance * adjustment)

/-- What a journey knows when the pages are visited. -/
structure Visited (ω : Type) where
  clickTime : ℤ
  ipAddress : Str
  campaignId : ℤ
  cookieId : ω
  platform : Platform
  trackingId : ℤ
  userId : ℤ

/-- The sale, after a switch to the desktop if there is one. -/
def buy (uuid1 : Fresh.Supply ω) (d : JourneyDraws) (v : Visited ω) (s : State ω) :
    Except Error (State ω) :=
  match s.productId with
  | none => .error .nameError
  | some productId =>
      if v.platform = .mobile ∧ d.switch.1 < chanceSwitchMobileToDesktop then
        let assigned := assignCookie uuid1 s.cookies s.issued v.userId .desktop
        let waitTime := uniform 1 7 d.wait
        let clickTime := v.clickTime + (hours ⌊waitTime⌋ + minutes ⌊Int.fract waitTime * 60⌋)
        let click : Click ω := {
          clickTime, ipAddress := v.ipAddress, productId, campaignId := v.campaignId
          cookieId := assigned.2.2, platform := .desktop, trackingId := v.trackingId }
        let sale : Sale ω := {
          saleTime := clickTime, userId := v.userId, productId, campaignId := v.campaignId
          cookieId := assigned.2.2, trackingId := v.trackingId }
        .ok { s with
          cookies := assigned.1
          issued := assigned.2.1
          clicks := s.clicks ++ [click]
          sales := s.sales ++ [sale]
          numMobileSwitches := s.numMobileSwitches + 1 }
      else
        let sale : Sale ω := {
          saleTime := v.clickTime, userId := v.userId, productId, campaignId := v.campaignId
          cookieId := v.cookieId, trackingId := v.trackingId }
        .ok { s with sales := s.sales ++ [sale] }

/-- The visit of the pages: the state after it, and what is known then. -/
def visit (uuid1 : Fresh.Supply ω) (child : ℤ) (platform : Platform) (campaign : Option Campaign)
    (i : ℕ) (d : JourneyDraws) (s : State ω) : State ω × Visited ω :=
  let trackingId := i + numJournies * child
  let userId := userOffset d + numUsers * child
  let assigned := assignCookie uuid1 s.cookies s.issued userId platform
  let addressed := assignIpAddress s.ipAddresses userId platform
  let campaignId := campaign.elim 0 Campaign.id
  let click : ℤ → ℤ → Click ω := fun clickTime productId => {
    clickTime, ipAddress := addressed.2, productId, campaignId, cookieId := assigned.2.2
    platform, trackingId }
  let v := (List.range (numPages d)).foldl (page d click) {
    clickTime := d.dateTime
    originalProductId := campaign.map Campaign.promotedProduct
    productId := s.productId
    clicks := [] }
  ({ s with
      cookies := assigned.1
      issued := assigned.2.1
      ipAddresses := addressed.1
      productId := v.productId
      clicks := s.clicks ++ v.clicks },
    { clickTime := v.clickTime, ipAddress := addressed.2, campaignId, cookieId := assigned.2.2
      platform, trackingId, userId })

/-- One turn of the loop over the journeys. -/
def journey (num : Numeric) (uuid1 : Fresh.Supply ω) (campaigns : List Campaign)
    (users : List User) (child : ℤ) (draws : ℕ → JourneyDraws) (s : State ω) (i : ℕ) :
    Except Error (State ω) := do
  let d := draws i
  replaceTime d.timeOffset
  let platform := choosePlatform num d
  let campaign ← chooseCampaign campaigns d
  let visited := visit uuid1 child platform campaign i d s
  let chance ← saleChance num users platform campaign (userOffset d) d.dateTime
  if d.sale.1 < chance then buy uuid1 d visited.2 visited.1 else pure visited.1

/-! ## The run -/

/-- The draws of a run. -/
structure Draws where
  campaigns : ℕ → CampaignDraws
  users : ℕ → UserDraws
  journeys : ℕ → JourneyDraws

structure Output (ω : Type) where
  campaigns : List Campaign
  users : List User
  sales : List (Sale ω)
  clickstream : List (Click ω)

/-- `rows.sort(key=lambda x: x[0])`, where the first column is the text of the time. -/
def sortByTime (num : Numeric) (time : α → ℤ) (rows : List α) : List α :=
  rows.mergeSort fun a b => le (num.str (time a)) (num.str (time b))

def fakeMultidevice (num : Numeric) (uuid1 : Fresh.Supply ω) (draws : Draws) (child : ℤ) :
    Except Error (Output ω) := do
  let campaigns ← (List.range numCampaigns).mapM fun i => campaign (draws.campaigns i) i
  let users ← (List.range numUsers.toNat).mapM fun i => user child (draws.users i) i
  let s ← (List.range numJournies.toNat).foldlM
    (journey num uuid1 campaigns users child draws.journeys) State.initial
  pure {
    campaigns, users
    sales := sortByTime num Sale.saleTime s.sales
    clickstream := sortByTime num Click.clickTime s.clicks }

/-! ## Nothing raises -/

theorem replaceTime_eq_ok (t : Frac) : replaceTime t = .ok () := by
  have hlo := t.2.1
  have hhi := t.2.2
  have hour_le : (hour t : ℚ) ≤ t.1 * 1440 / 60 := Int.floor_le _
  have lt_hour : t.1 * 1440 / 60 < hour t + 1 := Int.lt_floor_add_one _
  have hfract := Int.fract_nonneg (t.1 * 1440)
  have hfract' := Int.fract_lt_one (t.1 * 1440)
  rw [replaceTime, if_pos]
  refine ⟨?_, ?_, ?_, ?_, ?_, ?_⟩
  · exact Int.floor_nonneg.mpr (by linarith)
  · exact Int.floor_lt.mpr (by push_cast; linarith)
  · exact Int.floor_nonneg.mpr (by linarith)
  · exact Int.floor_lt.mpr (by push_cast; linarith)
  · exact Int.floor_nonneg.mpr (by linarith)
  · exact Int.floor_lt.mpr (by push_cast; linarith)

theorem userOffset_nonneg (d : JourneyDraws) : 0 ≤ userOffset d := by
  have hlo := d.user.2.1
  exact Int.floor_nonneg.mpr (by rw [uniform, numUsers]; push_cast; linarith)

theorem userOffset_lt (d : JourneyDraws) : userOffset d < numUsers := by
  have hhi := d.user.2.2
  exact Int.floor_lt.mpr (by rw [uniform, numUsers]; push_cast; linarith)

theorem numPages_pos (d : JourneyDraws) : 0 < numPages d := by
  have hpos := d.gamma.2
  have hfloor : 1 ≤ ⌊d.gamma.1 + 1⌋ := Int.le_floor.mpr (by push_cast; linarith)
  rw [numPages]
  omega

theorem exists_chooseCampaign_ok {campaigns : List Campaign} (h : campaigns ≠ [])
    (d : JourneyDraws) : ∃ c, chooseCampaign campaigns d = .ok c := by
  obtain ⟨c, -, hc⟩ := exists_choice_ok h d.campaign
  rw [chooseCampaign]
  by_cases hpromotion : d.promotion.1 < 1 / 4
  · exact ⟨some c, by rw [if_pos hpromotion, hc]⟩
  · exact ⟨none, by rw [if_neg hpromotion]⟩

theorem exists_saleChance_ok (num : Numeric) {users : List User}
    (h : users.length = numUsers.toNat) (platform : Platform) (campaign : Option Campaign)
    (d : JourneyDraws) :
    ∃ chance, saleChance num users platform campaign (userOffset d) d.dateTime = .ok chance := by
  cases campaign with
  | none => exact ⟨_, rfl⟩
  | some c =>
      have hlt := userOffset_lt d
      obtain ⟨user, -, huser⟩ := exists_item_ok (l := users) (userOffset_nonneg d) (by
        rw [h]
        simp only [numUsers] at hlt ⊢
        omega)
      exact ⟨_, by rw [saleChance]; simp only [huser, bind, Except.bind]; rfl⟩

theorem isSome_creditCardWithDashes {x : Str} (h : 12 ≤ x.length ∧ x.length ≤ 16) :
    (creditCardWithDashes x).isSome = true := by
  have hcases : x.length = 12 ∨ x.length = 13 ∨ x.length = 14 ∨ x.length = 15 ∨ x.length = 16 := by
    omega
  rcases hcases with h | h | h | h | h <;> simp [creditCardWithDashes, h]

theorem exists_user_ok (child : ℤ) (d : UserDraws) (i : ℕ) :
    ∃ u, user child d i = .ok u ∧ u.userId = i + numUsers * child := by
  obtain ⟨sex, -, hsex⟩ := exists_choice_ok (l := sexes) (by simp [sexes]) d.sex
  obtain ⟨card, hcard⟩ :=
    Option.isSome_iff_exists.mp (isSome_creditCardWithDashes d.creditCard.2)
  refine ⟨_, by rw [user, hsex]; simp only [bind, Except.bind, hcard]; rfl, rfl⟩

theorem exists_campaign_ok (d : CampaignDraws) (i : ℕ) :
    ∃ c, campaign d i = .ok c ∧ c.id = i + 1 := by
  obtain ⟨sex, -, hsex⟩ := exists_choice_ok (l := sexes) (by simp [sexes]) d.sexPreference
  obtain ⟨mobile, -, hmobile⟩ := exists_choice_ok (l := [true, false]) (by simp) d.mobileOptimized
  exact ⟨_, by rw [campaign, hsex]; simp only [bind, Except.bind, hmobile]; rfl, rfl⟩

/-! ## The cookies -/

/-- The cookies as a cache of fresh values, by user and platform. -/
def cache (cookies : Slots ω) (issued : ℕ) : Fresh.Cache (ℤ × Platform) ω where
  table := fun k => (cookies k.1).bind (slot k.2)
  issued := issued

theorem slot_getD (platform : Platform) (row : Option (Option α × Option α)) :
    slot platform (row.getD (none, none)) = row.bind (slot platform) := by
  cases row with
  | none => cases platform <;> rfl
  | some row => rfl

theorem slot_setSlot (p q : Platform) (a : α) (row : Option α × Option α) :
    slot p (setSlot q a row) = if p = q then some a else slot p row := by
  cases p <;> cases q <;> rfl

/-- `assignCookie` asks the cache. -/
theorem cache_assignCookie (uuid1 : Fresh.Supply ω) (cookies : Slots ω) (issued : ℕ) (userId : ℤ)
    (platform : Platform) :
    (cache (assignCookie uuid1 cookies issued userId platform).1
        (assignCookie uuid1 cookies issued userId platform).2.1,
      (assignCookie uuid1 cookies issued userId platform).2.2) =
      (cache cookies issued).assign uuid1 (userId, platform) := by
  have htable : (cache cookies issued).table (userId, platform) =
      slot platform ((cookies userId).getD (none, none)) := (slot_getD platform _).symm
  have hrow : ∀ row k, (cache (Function.update cookies userId (some row)) issued).table k =
      if k.1 = userId then slot k.2 row else (cache cookies issued).table k := by
    intro row k
    by_cases hk : k.1 = userId <;> simp [cache, Function.update_apply, hk]
  cases hslot : slot platform ((cookies userId).getD (none, none)) with
  | some cookie =>
      rw [Fresh.Cache.assign_of_some (htable.trans hslot)]
      simp only [assignCookie, hslot, Prod.mk.injEq, and_true]
      have hsame : ∀ k, (cache (Function.update cookies userId
          (some ((cookies userId).getD (none, none)))) issued).table k =
            (cache cookies issued).table k := by
        intro k
        rw [hrow, slot_getD]
        by_cases hk : k.1 = userId <;> simp [cache, hk]
      exact congrArg (Fresh.Cache.mk · issued) (funext hsame)
  | none =>
      rw [Fresh.Cache.assign_of_none (htable.trans hslot)]
      simp only [assignCookie, hslot, Prod.mk.injEq]
      have hnew : ∀ k, (cache (Function.update cookies userId
          (some (setSlot platform (uuid1.next issued) ((cookies userId).getD (none, none)))))
            issued).table k =
          Function.update (cache cookies issued).table (userId, platform)
            (some (uuid1.next issued)) k := by
        intro k
        rw [hrow, slot_setSlot, slot_getD, Function.update_apply]
        by_cases hk : k.1 = userId <;> simp [cache, hk, Prod.ext_iff]
      exact ⟨congrArg (Fresh.Cache.mk · (issued + 1)) (funext hnew), rfl⟩

/-! ## One journey -/

/-- A click that a sale can be attributed to. -/
structure Attributes (c : Click ω) (x : Sale ω) : Prop where
  trackingId : c.trackingId = x.trackingId
  productId : c.productId = x.productId
  campaignId : c.campaignId = x.campaignId
  cookieId : c.cookieId = x.cookieId
  clickTime : c.clickTime ≤ x.saleTime

/-- The user of journey `i`. -/
def userOf (child : ℤ) (draws : ℕ → JourneyDraws) (i : ℕ) : ℤ :=
  userOffset (draws i) + numUsers * child

variable {uuid1 : Fresh.Supply ω} {child : ℤ} {draws : ℕ → JourneyDraws} {s : State ω}

/-- The cookies of a state, as a cache. -/
def State.cache (s : State ω) : Fresh.Cache (ℤ × Platform) ω :=
  Multidevice.cache s.cookies s.issued

/-- What holds after the first `n` journeys. -/
structure Good (uuid1 : Fresh.Supply ω) (child : ℤ) (draws : ℕ → JourneyDraws) (n : ℕ)
    (s : State ω) : Prop where
  sound : s.cache.Sound uuid1
  clicks : ∀ c ∈ s.clicks, ∃ i < n, c.trackingId = i + numJournies * child ∧
    s.cache.table (userOf child draws i, c.platform) = some c.cookieId
  attributed : ∀ x ∈ s.sales, ∃ c ∈ s.clicks, Attributes c x
  users : ∀ x ∈ s.sales, ∃ i < n, x.trackingId = i + numJournies * child ∧
    x.userId = userOf child draws i

/-- What is known of a journey after its pages. -/
structure Seen (child : ℤ) (draws : ℕ → JourneyDraws) (i : ℕ) (s : State ω) (v : Visited ω) :
    Prop where
  userId : v.userId = userOf child draws i
  trackingId : v.trackingId = i + numJournies * child
  page : ∃ p, s.productId = some p ∧ ∃ c ∈ s.clicks, c.trackingId = v.trackingId ∧
    c.productId = p ∧ c.campaignId = v.campaignId ∧ c.cookieId = v.cookieId ∧
      c.clickTime ≤ v.clickTime

theorem good_initial : Good uuid1 child draws 0 (State.initial : State ω) := by
  constructor
  · exact Fresh.Cache.sound_empty uuid1
  · intro c hc
    cases hc
  · intro x hx
    cases hx
  · intro x hx
    cases hx

/-- The pages append clicks of the same row but for the time and the product. -/
theorem mem_clicks_pages (d : JourneyDraws) (click : ℤ → ℤ → Click ω) (v : Visit ω) (n : ℕ)
    {c : Click ω} (hc : c ∈ ((List.range n).foldl (page d click) v).clicks) :
    c ∈ v.clicks ∨ ∃ t p, c = click t p := by
  induction n with
  | zero => exact .inl hc
  | succ n ih =>
      rw [List.range_succ, List.foldl_append, List.foldl_cons, List.foldl_nil, page] at hc
      rcases List.mem_append.mp hc with hc | hc
      · exact ih hc
      · exact .inr ⟨_, _, List.mem_singleton.mp hc⟩

/-- After at least one page the last click is of the product that is bought. -/
theorem exists_click_of_pages (d : JourneyDraws) (click : ℤ → ℤ → Click ω) (v : Visit ω) {n : ℕ}
    (hn : 0 < n) : ∃ t p, ((List.range n).foldl (page d click) v).productId = some p ∧
      click t p ∈ ((List.range n).foldl (page d click) v).clicks ∧
        t ≤ ((List.range n).foldl (page d click) v).clickTime := by
  obtain ⟨n, rfl⟩ := Nat.exists_eq_add_of_lt hn
  rw [Nat.zero_add, List.range_succ, List.foldl_append, List.foldl_cons, List.foldl_nil]
  refine ⟨_, _, rfl, List.mem_append_right _ (List.mem_singleton.mpr rfl), ?_⟩
  have hthink : 0 ≤ seconds (d.thinkTime n) := by
    rw [seconds]
    omega
  simp only [page]
  omega

/-- What an assignment of a cookie does to the cache. -/
theorem assignCookie_spec (hsound : s.cache.Sound uuid1) (userId : ℤ) (platform : Platform) :
    let assigned := assignCookie uuid1 s.cookies s.issued userId platform
    (cache assigned.1 assigned.2.1).Sound uuid1 ∧
      s.cache.Grows (cache assigned.1 assigned.2.1) ∧
        (cache assigned.1 assigned.2.1).table (userId, platform) = some assigned.2.2 := by
  have heq := cache_assignCookie uuid1 s.cookies s.issued userId platform
  have hcache := congrArg Prod.fst heq
  have hcookie := congrArg Prod.snd heq
  simp only at hcache hcookie
  refine ⟨?_, ?_, ?_⟩
  · rw [hcache]
    exact Fresh.Cache.sound_assign hsound _
  · rw [hcache]
    exact Fresh.Cache.grows_assign _ _ _
  · rw [hcache, hcookie]
    exact Fresh.Cache.table_assign _ _ _

theorem good_visit {i : ℕ} (h : Good uuid1 child draws i s) (platform : Platform)
    (campaign : Option Campaign) :
    Good uuid1 child draws (i + 1) (visit uuid1 child platform campaign i (draws i) s).1 ∧
      Seen child draws i (visit uuid1 child platform campaign i (draws i) s).1
        (visit uuid1 child platform campaign i (draws i) s).2 := by
  obtain ⟨hsound, hgrows, htable⟩ := assignCookie_spec h.sound (userOf child draws i) platform
  constructor
  · constructor
    · exact hsound
    · intro c hc
      rcases List.mem_append.mp hc with hc | hc
      · obtain ⟨j, hj, htracking, hcookie⟩ := h.clicks c hc
        exact ⟨j, Nat.lt_succ_of_lt hj, htracking, hgrows _ _ hcookie⟩
      · rcases mem_clicks_pages _ _ _ _ hc with hnil | ⟨t, p, rfl⟩
        · cases hnil
        · exact ⟨i, Nat.lt_succ_self i, rfl, htable⟩
    · intro x hx
      obtain ⟨c, hc, hattributes⟩ := h.attributed x hx
      exact ⟨c, List.mem_append_left _ hc, hattributes⟩
    · intro x hx
      obtain ⟨j, hj, hx⟩ := h.users x hx
      exact ⟨j, Nat.lt_succ_of_lt hj, hx⟩
  · refine ⟨rfl, rfl, ?_⟩
    obtain ⟨t, p, hp, hc, ht⟩ := exists_click_of_pages (draws i) _ _ (numPages_pos (draws i))
    exact ⟨p, hp, _, List.mem_append_right _ hc, rfl, rfl, rfl, rfl, ht⟩

theorem good_buy {i : ℕ} {v : Visited ω} (h : Good uuid1 child draws (i + 1) s)
    (hv : Seen child draws i s v) :
    ∃ s', buy uuid1 (draws i) v s = .ok s' ∧ Good uuid1 child draws (i + 1) s' := by
  obtain ⟨p, hp, c, hc, hcTracking, hcProduct, hcCampaign, hcCookie, hcTime⟩ := hv.page
  rw [buy, hp]
  simp only
  by_cases hswitch : v.platform = .mobile ∧ (draws i).switch.1 < chanceSwitchMobileToDesktop
  · -- The click on the desktop is the one the sale is attributed to.
    obtain ⟨hsound, hgrows, htable⟩ := assignCookie_spec h.sound v.userId .desktop
    rw [if_pos hswitch]
    refine ⟨_, rfl, hsound, ?_, ?_, ?_⟩
    · intro c' hc'
      rcases List.mem_append.mp hc' with hc' | hc'
      · obtain ⟨j, hj, htracking, hcookie⟩ := h.clicks c' hc'
        exact ⟨j, hj, htracking, hgrows _ _ hcookie⟩
      · obtain rfl := List.mem_singleton.mp hc'
        exact ⟨i, Nat.lt_succ_self i, hv.trackingId, hv.userId ▸ htable⟩
    · intro x hx
      rcases List.mem_append.mp hx with hx | hx
      · obtain ⟨c', hc', hattributes⟩ := h.attributed x hx
        exact ⟨c', List.mem_append_left _ hc', hattributes⟩
      · obtain rfl := List.mem_singleton.mp hx
        exact ⟨_, List.mem_append_right _ (List.mem_singleton.mpr rfl), rfl, rfl, rfl, rfl,
          Int.le_refl _⟩
    · intro x hx
      rcases List.mem_append.mp hx with hx | hx
      · exact h.users x hx
      · obtain rfl := List.mem_singleton.mp hx
        exact ⟨i, Nat.lt_succ_self i, hv.trackingId, hv.userId⟩
  · rw [if_neg hswitch]
    refine ⟨_, rfl, h.sound, h.clicks, ?_, ?_⟩
    · intro x hx
      rcases List.mem_append.mp hx with hx | hx
      · exact h.attributed x hx
      · obtain rfl := List.mem_singleton.mp hx
        exact ⟨c, hc, hcTracking, hcProduct, hcCampaign, hcCookie, hcTime⟩
    · intro x hx
      rcases List.mem_append.mp hx with hx | hx
      · exact h.users x hx
      · obtain rfl := List.mem_singleton.mp hx
        exact ⟨i, Nat.lt_succ_self i, hv.trackingId, hv.userId⟩

theorem good_journey (num : Numeric) {campaigns : List Campaign} {users : List User}
    (hcampaigns : campaigns ≠ []) (husers : users.length = numUsers.toNat) {i : ℕ}
    (h : Good uuid1 child draws i s) :
    ∃ s', journey num uuid1 campaigns users child draws s i = .ok s' ∧
      Good uuid1 child draws (i + 1) s' := by
  obtain ⟨campaign, hcampaign⟩ := exists_chooseCampaign_ok hcampaigns (draws i)
  obtain ⟨chance, hchance⟩ :=
    exists_saleChance_ok num husers (choosePlatform num (draws i)) campaign (draws i)
  obtain ⟨hgood, hseen⟩ := good_visit h (choosePlatform num (draws i)) campaign
  obtain ⟨s', hs', hgood'⟩ := good_buy hgood hseen
  simp only [journey, replaceTime_eq_ok, hcampaign, hchance, bind, Except.bind]
  by_cases hsale : (draws i).sale.1 < chance
  · exact ⟨s', by rw [if_pos hsale, hs'], hgood'⟩
  · exact ⟨_, by rw [if_neg hsale]; rfl, hgood⟩

/-! ## The run -/

theorem good_journeys (num : Numeric) {campaigns : List Campaign} {users : List User}
    (hcampaigns : campaigns ≠ []) (husers : users.length = numUsers.toNat) (n : ℕ) :
    ∃ s, (List.range n).foldlM (journey num uuid1 campaigns users child draws) State.initial =
      .ok s ∧ Good uuid1 child draws n s := by
  induction n with
  | zero => exact ⟨_, rfl, good_initial⟩
  | succ n ih =>
      obtain ⟨s, hs, hgood⟩ := ih
      obtain ⟨s', hs', hgood'⟩ := good_journey num hcampaigns husers hgood
      refine ⟨s', ?_, hgood'⟩
      rw [List.range_succ, List.foldlM_append, hs]
      simp only [bind, Except.bind, List.foldlM_cons, List.foldlM_nil, hs', pure, Except.pure]

theorem mem_sortByTime {num : Numeric} {time : α → ℤ} {rows : List α} {a : α} :
    a ∈ sortByTime num time rows ↔ a ∈ rows :=
  (List.mergeSort_perm rows _).mem_iff

/-- The output is the sorted rows of a state that is good. -/
theorem exists_good_of_fakeMultidevice (num : Numeric) (uuid1 : Fresh.Supply ω) (draws : Draws)
    (child : ℤ) : ∃ out s, fakeMultidevice num uuid1 draws child = .ok out ∧
      Good uuid1 child draws.journeys numJournies.toNat s ∧
        out.users.map User.userId = (List.range 1000).map (fun i : ℕ => i + numUsers * child) ∧
        (∀ x, x ∈ out.sales ↔ x ∈ s.sales) ∧ ∀ c, c ∈ out.clickstream ↔ c ∈ s.clicks := by
  obtain ⟨campaigns, hcampaigns, hids⟩ := exists_mapM_ok (List.range numCampaigns)
    fun i _ => exists_campaign_ok (draws.campaigns i) i
  obtain ⟨users, husers, huserIds⟩ := exists_mapM_ok (List.range numUsers.toNat)
    fun i _ => exists_user_ok child (draws.users i) i
  have hne : campaigns ≠ [] := by
    rintro rfl
    simp [numCampaigns] at hids
  have hlength : users.length = numUsers.toNat := by
    simpa using congrArg List.length huserIds
  obtain ⟨s, hs, hgood⟩ := good_journeys num hne hlength numJournies.toNat
  refine ⟨⟨campaigns, users, sortByTime num Sale.saleTime s.sales,
    sortByTime num Click.clickTime s.clicks⟩, s, ?_, hgood, huserIds, fun x => mem_sortByTime,
    fun c => mem_sortByTime⟩
  rw [fakeMultidevice, hcampaigns]
  simp only [bind, Except.bind, husers, hs]
  rfl

/-- The user who made a click, which is known by the number of the journey. -/
def clickUser (child : ℤ) (draws : ℕ → JourneyDraws) (c : Click ω) : ℤ :=
  userOf child draws (c.trackingId - numJournies * child).toNat

theorem Good.table_clickUser {n : ℕ} (h : Good uuid1 child draws n s) {c : Click ω}
    (hc : c ∈ s.clicks) :
    s.cache.table (clickUser child draws c, c.platform) = some c.cookieId := by
  obtain ⟨i, -, htracking, hcookie⟩ := h.clicks c hc
  have hi : (c.trackingId - numJournies * child).toNat = i := by
    rw [htracking, Int.add_sub_cancel, Int.toNat_natCast]
  rwa [clickUser, hi]

theorem Good.cookieId_eq_iff {n : ℕ} (h : Good uuid1 child draws n s) {c c' : Click ω}
    (hc : c ∈ s.clicks) (hc' : c' ∈ s.clicks) : c.cookieId = c'.cookieId ↔
      clickUser child draws c = clickUser child draws c' ∧ c.platform = c'.platform := by
  have htable := h.table_clickUser hc
  have htable' := h.table_clickUser hc'
  constructor
  · intro heq
    rw [← heq] at htable'
    exact Prod.mk.injEq .. ▸ h.sound.injective _ _ _ htable htable'
  · rintro ⟨huser, hplatform⟩
    rw [huser, hplatform, htable'] at htable
    exact (Option.some.inj htable).symm

/-- The run does not raise, every sale is attributed to a click that is not later, and two
clicks have the same cookie exactly if they are of the same user on the same platform. -/
theorem sales_attributable (num : Numeric) (uuid1 : Fresh.Supply ω) (draws : Draws) (child : ℤ) :
    ∃ out, fakeMultidevice num uuid1 draws child = .ok out ∧
      (∀ x ∈ out.sales, ∃ c ∈ out.clickstream, Attributes c x ∧
        x.userId = clickUser child draws.journeys c) ∧
      ∀ c ∈ out.clickstream, ∀ c' ∈ out.clickstream, c.cookieId = c'.cookieId ↔
        clickUser child draws.journeys c = clickUser child draws.journeys c' ∧
          c.platform = c'.platform := by
  obtain ⟨out, s, hout, hgood, -, hsales, hclicks⟩ :=
    exists_good_of_fakeMultidevice num uuid1 draws child
  refine ⟨out, hout, ?_, ?_⟩
  · intro x hx
    have hx := (hsales x).mp hx
    obtain ⟨c, hc, hattributes⟩ := hgood.attributed x hx
    obtain ⟨i, -, htracking, huser⟩ := hgood.users x hx
    have hi : (c.trackingId - numJournies * child).toNat = i := by
      rw [hattributes.trackingId, htracking, Int.add_sub_cancel, Int.toNat_natCast]
    exact ⟨c, (hclicks c).mpr hc, hattributes, by rw [huser, clickUser, hi]⟩
  · intro c hc c' hc'
    exact hgood.cookieId_eq_iff ((hclicks c).mp hc) ((hclicks c').mp hc')

end Structor.Multidevice
