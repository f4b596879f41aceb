import Structor.Generator.Multidevice

/-!
# When the journeys start

A time of day is sampled for every journey and decoded to hours, minutes and seconds. The
clicks of the journey start at the date that faker made up, and each is later than the one
before by the time that the user thinks.

## Main definitions

* `offsetSeconds` -- the offset that is sampled
* `StartsAtOffset` -- a journey starts at its offset
-/
namespace Structor.Multidevice
open Python
variable {ω : Type}

/-! ## The decoded offset -/

/-- The offset in whole seconds after midnight. -/
def offsetSeconds (t : Frac) : ℤ := ⌊86400 * t.1⌋

theorem offsetSeconds_mem (t : Frac) : 0 ≤ offsetSeconds t ∧ offsetSeconds t < 86400 := by
  have hlo := t.2.1
  have hhi := t.2.2
  constructor
  · exact Int.floor_nonneg.mpr (by linarith)
  · exact Int.floor_lt.mpr (by push_cast; linarith)

/-- The hours, minutes and seconds that `replace` gets are those of the offset. -/
theorem decoded_offset (t : Frac) :
    3600 * hour t + 60 * minute t + second t = offsetSeconds t := by
  have hminute : hour t * 60 + minute t = ⌊t.1 * 1440⌋ := by
    have hcast : t.1 * 1440 - hour t * 60 = t.1 * 1440 - ((hour t * 60 : ℤ) : ℚ) := by
      push_cast
      ring
    rw [minute, hcast, Int.floor_sub_intCast]
    ring
  have hday : 86400 * t.1 = ((60 * ⌊t.1 * 1440⌋ : ℤ) : ℚ) + Int.fract (t.1 * 1440) * 60 := by
    rw [Int.fract]
    push_cast
    ring
  rw [offsetSeconds, hday, Int.floor_intCast_add, ← hminute, second]
  ring

/-! ## Times of day -/

/-- The whole seconds after midnight. -/
def timeOfDay (t : ℤ) : ℤ := t / seconds 1 % 86400

theorem hourOf_eq (t : ℤ) : hourOf t = timeOfDay t / 3600 := by
  simp only [hourOf, timeOfDay, hours, minutes, seconds]
  omega

theorem minuteOf_eq (t : ℤ) : minuteOf t = timeOfDay t / 60 % 60 := by
  simp only [minuteOf, timeOfDay, minutes, seconds]
  omega

theorem timeOfDay_offset (t : Frac) : timeOfDay (seconds (offsetSeconds t)) = offsetSeconds t := by
  have hmem := offsetSeconds_mem t
  simp only [timeOfDay, seconds]
  omega

/-- Times of one time of day give a sale the same chance. -/
theorem saleChance_congr (num : Numeric) (users : List User) (platform : Platform)
    (campaign : Option Campaign) (offset : ℤ) {t t' : ℤ} (h : timeOfDay t = timeOfDay t') :
    saleChance num users platform campaign offset t =
      saleChance num users platform campaign offset t' := by
  simp only [saleChance, hourOf_eq, minuteOf_eq, h]

/-! ## The clicks of a journey -/

/-- A journey starts at its offset: its first click does, on the platform that is chosen for
the offset, no other click of the journey is earlier, and a campaign is judged by the offset. -/
structure StartsAtOffset (num : Numeric) (child : ℤ) (d : JourneyDraws) (i : ℕ)
    (out : Output ω) : Prop where
  first : ∃ c ∈ out.clickstream, c.trackingId = i + numJournies * child ∧
    timeOfDay c.clickTime = offsetSeconds d.timeOffset ∧ c.platform = choosePlatform num d ∧
      ∀ c' ∈ out.clickstream, c'.trackingId = c.trackingId → c.clickTime ≤ c'.clickTime
  chance : ∀ campaign, chooseCampaign out.campaigns d = .ok campaign →
    saleChance num out.users (choosePlatform num d) campaign (userOffset d) d.dateTime =
      saleChance num out.users (choosePlatform num d) campaign (userOffset d)
        (seconds (offsetSeconds d.timeOffset))

/-- A click of journey `i` that is not before its start. -/
structure Later (child : ℤ) (i : ℕ) (start : ℤ) (c : Click ω) : Prop where
  trackingId : c.trackingId = i + numJournies * child
  clickTime : start ≤ c.clickTime

/-- The pages append clicks, and the time of each is at least that of the one before. -/
theorem clicks_pages (d : JourneyDraws) (click : ℤ → ℤ → Click ω) (l : List ℕ) (v : Visit ω) :
    ∃ more, (l.foldl (page d click) v).clicks = v.clicks ++ more ∧
      (∀ c ∈ more, ∃ t p, c = click t p ∧ v.clickTime ≤ t) ∧
        v.clickTime ≤ (l.foldl (page d click) v).clickTime := by
  induction l generalizing v with
  | nil => exact ⟨[], (List.append_nil _).symm, by simp, Int.le_refl _⟩
  | cons j l ih =>
      obtain ⟨more, hmore, htimes, hend⟩ := ih (page d click v j)
      have hstep : v.clickTime ≤ (page d click v j).clickTime := by
        have hthink : 0 ≤ seconds (d.thinkTime j) := by
          rw [seconds]
          omega
        simp only [page]
        omega
      refine ⟨click v.clickTime (v.originalProductId.getD (d.product j)) :: more, ?_, ?_,
        Int.le_trans hstep hend⟩
      · rw [List.foldl_cons, hmore, page, List.append_assoc]
        rfl
      · intro c hc
        rcases List.mem_cons.mp hc with rfl | hc
        · exact ⟨_, _, rfl, Int.le_refl _⟩
        · obtain ⟨t, p, rfl, ht⟩ := htimes c hc
          exact ⟨t, p, rfl, Int.le_trans hstep ht⟩

/-- The first page is clicked at the time at which the visit starts. -/
theorem clicks_first_page (d : JourneyDraws) (click : ℤ → ℤ → Click ω) (v : Visit ω) {n : ℕ}
    (hn : 0 < n) : ∃ p more,
      ((List.range n).foldl (page d click) v).clicks = v.clicks ++ click v.clickTime p :: more ∧
        (∀ c ∈ more, ∃ t p, c = click t p ∧ v.clickTime ≤ t) ∧
          v.clickTime ≤ ((List.range n).foldl (page d click) v).clickTime := by
  obtain ⟨n, rfl⟩ := Nat.exists_eq_add_of_lt hn
  obtain ⟨more, hmore, htimes, hend⟩ :=
    clicks_pages d click ((List.range n).map Nat.succ) (page d click v 0)
  have hstep : v.clickTime ≤ (page d click v 0).clickTime := by
    have hthink : 0 ≤ seconds (d.thinkTime 0) := by
      rw [seconds]
      omega
    simp only [page]
    omega
  rw [Nat.zero_add, List.range_succ_eq_map, List.foldl_cons]
  refine ⟨v.originalProductId.getD (d.product 0), more, ?_, ?_, Int.le_trans hstep hend⟩
  · rw [hmore, page, List.append_assoc]
    rfl
  · intro c hc
    obtain ⟨t, p, rfl, ht⟩ := htimes c hc
    exact ⟨t, p, rfl, Int.le_trans hstep ht⟩

variable {uuid1 : Fresh.Supply ω} {child : ℤ} {draws : ℕ → JourneyDraws} {s s' : State ω} {i : ℕ}
  {num : Numeric}

/-- A visit begins with a click at faker's date. -/
theorem clicks_visit (uuid1 : Fresh.Supply ω) (child : ℤ) (platform : Platform)
    (campaign : Option Campaign) (i : ℕ) (d : JourneyDraws) (s : State ω) : ∃ first later,
      (visit uuid1 child platform campaign i d s).1.clicks = s.clicks ++ first :: later ∧
        first.trackingId = i + numJournies * child ∧ first.clickTime = d.dateTime ∧
          first.platform = platform ∧ (∀ c ∈ later, Later child i d.dateTime c) ∧
            d.dateTime ≤ (visit uuid1 child platform campaign i d s).2.clickTime := by
  simp only [visit]
  obtain ⟨p, more, hclicks, htimes, hend⟩ := clicks_first_page d (fun clickTime productId => {
      clickTime
      ipAddress := (assignIpAddress s.ipAddresses (userOffset d + numUsers * child) platform).2
      productId
      campaignId := campaign.elim 0 Campaign.id
      cookieId := (assignCookie uuid1 s.cookies s.issued (userOffset d + numUsers * child)
        platform).2.2
      platform
      trackingId := i + numJournies * child }) {
    clickTime := d.dateTime
    originalProductId := campaign.map Campaign.promotedProduct
    productId := s.productId
    clicks := [] } (numPages_pos d)
  refine ⟨_, more, congrArg (s.clicks ++ ·) hclicks, rfl, rfl, rfl, ?_, hend⟩
  intro c hc
  obtain ⟨t, p, rfl, ht⟩ := htimes c hc
  exact ⟨rfl, ht⟩

/-- A sale appends at most a click that is not earlier. -/
theorem clicks_buy {d : JourneyDraws} {v : Visited ω} (h : buy uuid1 d v s = .ok s')
    (htracking : v.trackingId = i + numJournies * child) :
    ∃ more, s'.clicks = s.clicks ++ more ∧ ∀ c ∈ more, Later child i v.clickTime c := by
  rw [buy] at h
  cases hproduct : s.productId with
  | none =>
      rw [hproduct] at h
      cases h
  | some productId =>
      rw [hproduct] at h
      simp only at h
      by_cases hswitch : v.platform = .mobile ∧ d.switch.1 < chanceSwitchMobileToDesktop
      · rw [if_pos hswitch] at h
        obtain rfl := Except.ok.inj h
        refine ⟨_, rfl, ?_⟩
        intro c hc
        obtain rfl := List.mem_singleton.mp hc
        refine ⟨htracking, ?_⟩
        have hlo := d.wait.2.1
        have hhours : 0 ≤ ⌊uniform 1 7 d.wait⌋ := by
          exact Int.floor_nonneg.mpr (by rw [uniform]; linarith)
        have hminutes : 0 ≤ ⌊Int.fract (uniform 1 7 d.wait) * 60⌋ := by
          have hfract := Int.fract_nonneg (uniform 1 7 d.wait)
          exact Int.floor_nonneg.mpr (by linarith)
        simp only [hours, minutes, seconds]
        omega
      · rw [if_neg hswitch] at h
        obtain rfl := Except.ok.inj h
        exact ⟨[], (List.append_nil _).symm, by simp⟩

/-- What one journey does to the clicks: it begins at faker's date. -/
theorem clicks_journey {campaigns : List Campaign} {users : List User}
    (h : journey num uuid1 campaigns users child draws s i = .ok s') : ∃ first later,
      s'.clicks = s.clicks ++ first :: later ∧ first.trackingId = i + numJournies * child ∧
        first.clickTime = (draws i).dateTime ∧ first.platform = choosePlatform num (draws i) ∧
          ∀ c ∈ later, Later child i (draws i).dateTime c := by
  rw [journey, replaceTime_eq_ok] at h
  obtain ⟨-, -, h⟩ := bind_eq_ok h
  obtain ⟨campaign, -, h⟩ := bind_eq_ok h
  obtain ⟨chance, -, h⟩ := bind_eq_ok h
  obtain ⟨first, later, hclicks, htracking, htime, hplatform, hlater, hend⟩ :=
    clicks_visit uuid1 child (choosePlatform num (draws i)) campaign i (draws i) s
  by_cases hsale : (draws i).sale.1 < chance
  · rw [if_pos hsale] at h
    obtain ⟨more, hmore, hmore'⟩ := clicks_buy h rfl
    refine ⟨first, later ++ more, by rw [hmore, hclicks]; simp, htracking, htime, hplatform, ?_⟩
    intro c hc
    rcases List.mem_append.mp hc with hc | hc
    · exact hlater c hc
    · exact ⟨(hmore' c hc).trackingId, Int.le_trans hend (hmore' c hc).clickTime⟩
  · rw [if_neg hsale] at h
    obtain rfl := Except.ok.inj h
    exact ⟨first, later, hclicks, htracking, htime, hplatform, hlater⟩

/-! ## The run -/

/-- What holds of the clicks after the first `n` journeys. -/
structure Started (num : Numeric) (child : ℤ) (draws : ℕ → JourneyDraws) (n : ℕ) (s : State ω) :
    Prop where
  first : ∀ i < n, ∃ c ∈ s.clicks, c.trackingId = i + numJournies * child ∧
    c.clickTime = (draws i).dateTime ∧ c.platform = choosePlatform num (draws i)
  later : ∀ c ∈ s.clicks, ∃ i < n, Later child i (draws i).dateTime c

theorem started_journeys {campaigns : List Campaign} {users : List User} {n : ℕ}
    (h : (List.range n).foldlM (journey num uuid1 campaigns users child draws) State.initial =
      .ok s) : Started num child draws n s := by
  induction n generalizing s with
  | zero =>
      obtain rfl := Except.ok.inj h
      constructor
      · intro i hi
        cases hi
      · intro c hc
        cases hc
  | succ n ih =>
      rw [List.range_succ, List.foldlM_append] at h
      obtain ⟨s₀, hs₀, h⟩ := bind_eq_ok h
      obtain ⟨s₁, hjourney, h⟩ := bind_eq_ok h
      obtain rfl := Except.ok.inj h
      obtain ⟨first, later, hclicks, htracking, htime, hplatform, hlater⟩ :=
        clicks_journey hjourney
      have hstarted := ih hs₀
      constructor
      · intro i hi
        rcases Nat.lt_succ_iff_lt_or_eq.mp hi with hi | rfl
        · obtain ⟨c, hc, hi⟩ := hstarted.first i hi
          exact ⟨c, hclicks ▸ List.mem_append_left _ hc, hi⟩
        · exact ⟨first, hclicks ▸ List.mem_append_right _ List.mem_cons_self, htracking, htime,
            hplatform⟩
      · intro c hc
        rw [hclicks] at hc
        rcases List.mem_append.mp hc with hc | hc
        · obtain ⟨i, hi, hc⟩ := hstarted.later c hc
          exact ⟨i, Nat.lt_succ_of_lt hi, hc⟩
        · rcases List.mem_cons.mp hc with rfl | hc
          · exact ⟨n, Nat.lt_succ_self n, htracking, Int.le_of_eq htime.symm⟩
          · exact ⟨n, Nat.lt_succ_self n, hlater c hc⟩

/-- The clicks of a journey are known by its number. -/
theorem Started.clickTime_le {n : ℕ} (h : Started num child draws n s) {c : Click ω}
    (hc : c ∈ s.clicks) (htracking : c.trackingId = i + numJournies * child) :
    (draws i).dateTime ≤ c.clickTime := by
  obtain ⟨j, -, hlater⟩ := h.later c hc
  have htracking' := hlater.trackingId
  have hj : j = i := by omega
  rw [← hj]
  exact hlater.clickTime

/-- The clickstream of a run is that of a state whose journeys have started. -/
theorem started_of_fakeMultidevice {draws : Draws} {out : Output ω}
    (h : fakeMultidevice num uuid1 draws child = .ok out) : ∃ s : State ω,
      Started num child draws.journeys numJournies.toNat s ∧
        ∀ c, c ∈ out.clickstream ↔ c ∈ s.clicks := by
  obtain ⟨campaigns, -, h⟩ := bind_eq_ok h
  obtain ⟨users, -, h⟩ := bind_eq_ok h
  obtain ⟨s, hs, h⟩ := bind_eq_ok h
  obtain rfl := Except.ok.inj h
  exact ⟨s, started_journeys hs, fun c => mem_sortByTime⟩

/-- The earliest click of a journey is at faker's date. -/
theorem StartsAtOffset.timeOfDay_eq {draws : Draws} {out : Output ω}
    (hout : fakeMultidevice num uuid1 draws child = .ok out) (hi : i < numJournies.toNat)
    (h : StartsAtOffset num child (draws.journeys i) i out) :
    timeOfDay (draws.journeys i).dateTime = offsetSeconds (draws.journeys i).timeOffset := by
  obtain ⟨s, hstarted, hclicks⟩ := started_of_fakeMultidevice hout
  obtain ⟨c, hc, htracking, htime, -, hle⟩ := h.first
  obtain ⟨first, hfirst, htracking', htime', -⟩ := hstarted.first i hi
  have hle₁ := hle first ((hclicks first).mpr hfirst) (htracking'.trans htracking.symm)
  have hle₂ := hstarted.clickTime_le ((hclicks c).mp hc) htracking
  have hsame : c.clickTime = (draws.journeys i).dateTime := by omega
  rwa [hsame] at htime

/-- The run does not raise, and a journey starts at its offset exactly if faker made up a date
with this time of day. -/
theorem startsAtOffset_iff (num : Numeric) (uuid1 : Fresh.Supply ω) (draws : Draws) (child : ℤ) :
    ∃ out, fakeMultidevice num uuid1 draws child = .ok out ∧
      ∀ i < numJournies.toNat, StartsAtOffset num child (draws.journeys i) i out ↔
        timeOfDay (draws.journeys i).dateTime = offsetSeconds (draws.journeys i).timeOffset := by
  obtain ⟨out, -, hout, -⟩ := exists_good_of_fakeMultidevice num uuid1 draws child
  obtain ⟨s, hstarted, hclicks⟩ := started_of_fakeMultidevice hout
  refine ⟨out, hout, fun i hi => ⟨StartsAtOffset.timeOfDay_eq hout hi, fun h => ?_⟩⟩
  constructor
  · obtain ⟨first, hfirst, htracking, htime, hplatform⟩ := hstarted.first i hi
    refine ⟨first, (hclicks first).mpr hfirst, htracking, by rw [htime, h], hplatform, ?_⟩
    intro c hc hc'
    rw [htime]
    exact hstarted.clickTime_le ((hclicks c).mp hc) (hc'.trans htracking)
  · intro campaign _
    exact saleChance_congr num _ _ _ _ (h.trans (timeOfDay_offset _).symm)

/-- Each journey is drawn noon for its offset and midnight for its date. -/
def midnightDraws : Draws where
  campaigns := fun _ => ⟨0, 0, ⟨0, by decide⟩, ⟨0, by decide⟩⟩
  users := fun _ => {
    sex := 0, maleNames := ("John", "Paul"), femaleNames := ("Anna", "Maria")
    creditCard := ⟨"411111111111", by decide⟩
    city := "Springfield", state := "IL", postalCode := "62701"
    email := "user@example.com", phone := "555-0100" }
  journeys := fun _ => {
    dateTime := 0, timeOffset := ⟨1 / 2, by norm_num⟩, choice := ⟨0, by decide⟩
    promotion := ⟨0, by decide⟩, campaign := 0, user := ⟨0, by decide⟩, gamma := ⟨1, by decide⟩
    product := fun _ => 0, thinkTime := fun _ => 0, sale := ⟨0, by decide⟩
    switch := ⟨0, by decide⟩, wait := ⟨0, by decide⟩ }

/-- The functions of the libraries do not matter here. -/
def constantNumeric : Numeric where
  str := decimal
  gaussian := fun _ _ _ => 1
  desktopCdf := fun _ => 1
  mobileCdf₁ := fun _ => 1
  mobileCdf₂ := fun _ => 1

theorem not_startsAtOffset_midnight :
    ¬ ∃ out, fakeMultidevice constantNumeric ⟨id, Function.injective_id⟩ midnightDraws 0 = .ok out ∧
      ∀ i < numJournies.toNat,
        StartsAtOffset constantNumeric 0 (midnightDraws.journeys i) i out := by
  rintro ⟨out, hout, hstarts⟩
  have hi : 0 < numJournies.toNat := by decide
  have htime := (hstarts 0 hi).timeOfDay_eq hout hi
  have hnoon : offsetSeconds (midnightDraws.journeys 0).timeOffset = 43200 := by
    simp only [offsetSeconds, midnightDraws]
    norm_num
  rw [hnoon] at htime
  exact absurd htime (by decide)

end Structor.Multidevice
