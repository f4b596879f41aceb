import Structor.Dbgen.Driver

/-!
# Tables in parallel

The rows that some processes make in steps are the rows that one process makes, in every
column that is drawn from a stream of `Aligned`. The other columns are drawn from streams that
the jumps forget.

## Main results

* `coupled_genRow` -- rows from states that agree on the streams of `Aligned`
* `forall₂_shareRows` -- the steps of a table together, and one process
* `stepTbl_repeats` -- what each step has in common with the first
-/
namespace Structor.Dbgen

open Structor.Python

/-! ## States that agree -/

/-- Both states are the same on some streams. -/
def Agree (G : Finset StreamId) (σ τ : Streams) : Prop := ∀ s ∈ G, σ s = τ s

section Pieces

variable {G : Finset StreamId}

theorem coupled_dssRandom {stream : ℕ} (h : streamOf stream ∈ G) (lower upper : ℤ) :
    Coupled (Agree G) Eq (dssRandom lower upper stream) (dssRandom lower upper stream) := by
  intro σ τ hστ
  rw [dssRandom_eq, dssRandom_eq, hστ _ h]
  refine ⟨rfl, fun s hs => ?_⟩
  change Stream.mk _ _ = Stream.mk _ _
  rw [hστ s hs]

/-- A draw from any stream. -/
theorem coupled_dssRandom_other (lower upper : ℤ) (stream : ℕ) :
    Coupled (Agree G) (fun _ _ => True) (dssRandom lower upper stream)
      (dssRandom lower upper stream) := by
  intro σ τ hστ
  rw [dssRandom_eq, dssRandom_eq]
  refine ⟨trivial, fun s hs => ?_⟩
  change Stream.mk _ _ = Stream.mk _ _
  rw [hστ s hs]

theorem coupled_aRndLoop {column : ℕ} (h : streamOf column ∈ G) (left i charInt : ℕ) :
    Coupled (Agree G) Eq (aRndLoop column left i charInt) (aRndLoop column left i charInt) := by
  induction left generalizing i charInt with
  | zero => exact Coupled.pure rfl
  | succ left ih =>
      have hbits : Coupled (Agree G) Eq (charBits column i charInt)
          (charBits column i charInt) := by
        unfold charBits
        split_ifs
        · exact (coupled_dssRandom h 0 maxLong).map fun a b hab => congrArg Int.toNat hab
        · exact Coupled.pure rfl
      refine hbits.bind_eq fun c => ?_
      exact (ih (i + 1) (c >>> 6)).bind_eq fun rest => Coupled.pure rfl

theorem coupled_vStr {sd : ℕ} (h : streamOf sd ∈ G) (avg : ℚ) :
    Coupled (Agree G) Eq (vStr avg sd) (vStr avg sd) :=
  (coupled_dssRandom h _ _).bind_eq fun len => coupled_aRndLoop h len.toNat 0 0

theorem coupled_genPhone {seed : ℕ} (h : streamOf seed ∈ G) (ind : ℕ) :
    Coupled (Agree G) Eq (genPhone ind seed) (genPhone ind seed) := by
  refine (coupled_dssRandom h _ _).bind_eq fun _ => ?_
  refine (coupled_dssRandom h _ _).bind_eq fun _ => ?_
  exact (coupled_dssRandom h _ _).bind_eq fun _ => Coupled.pure rfl

theorem coupled_pickNation {sd : ℕ} (h : streamOf sd ∈ G) (d : Dists) :
    Coupled (Agree G) Eq (pickNation d sd) (pickNation d sd) :=
  (coupled_dssRandom h _ _).bind_eq fun _ => Coupled.pure rfl

theorem coupled_pickStr {c : ℕ} (h : streamOf c ∈ G) (s : Distribution) :
    Coupled (Agree G) Eq (pickStr s c) (pickStr s c) :=
  (coupled_dssRandom h _ _).bind_eq fun _ => Coupled.pure rfl

theorem coupled_pickStr_other (s : Distribution) (c : ℕ) :
    Coupled (Agree G) (fun _ _ => True) (pickStr s c) (pickStr s c) :=
  (coupled_dssRandom_other _ _ c).bind fun _ _ _ => Coupled.pure trivial

theorem coupled_aggStr {col : ℕ} (h : streamOf col ∈ G) (set : Distribution) (count : ℕ) :
    Coupled (Agree G) Eq (aggStr set count col) (aggStr set count col) := by
  have hpermute : Coupled (Agree G) Eq (permute set.count.toNat col)
      (permute set.count.toNat col) := by
    refine Coupled.foldlM _ _ fun a i => ?_
    exact (coupled_dssRandom h _ _).bind_eq fun _ => Coupled.pure rfl
  exact hpermute.bind_eq fun _ => Coupled.pure rfl

/-- The name of the city is the same, not its digit. -/
theorem coupled_genCity (nationName : Str) :
    Coupled (Agree G) (fun c c' => c.take (cityFix - 1) = c'.take (cityFix - 1))
      (genCity nationName) (genCity nationName) := by
  refine (coupled_dssRandom_other 0 9 98).bind fun _ _ _ => Coupled.pure ?_
  have hlen :
      ((nationName.take (cityFix - 1)).rightpad (cityFix - 1) ' ').length = cityFix - 1 := by
    simp [List.rightpad]
  rw [List.take_left' hlen, List.take_left' hlen]

/-- The code of a country has two digits. -/
theorem length_country (ind : ℕ) : (zeroPadded 2 (10 + ind % nationsMax)).length = 2 := by
  refine length_zeroPadded (by norm_num) ?_
  have : ind % nationsMax < 90 := Nat.mod_lt _ (by decide)
  omega

/-- The code of the country is the same, whatever the stream is. -/
theorem coupled_genPhone_other (ind seed : ℕ) :
    Coupled (Agree G) (fun p p' => p.take 2 = p'.take 2) (genPhone ind seed)
      (genPhone ind seed) := by
  refine (coupled_dssRandom_other 100 999 seed).bind fun _ _ _ => ?_
  refine (coupled_dssRandom_other 100 999 seed).bind fun _ _ _ => ?_
  refine (coupled_dssRandom_other 1000 9999 seed).bind fun _ _ _ => Coupled.pure ?_
  simp only [List.append_assoc]
  rw [List.take_left' (length_country ind), List.take_left' (length_country ind)]

end Pieces

/-! ## Rows that are the same -/

/-- All but the customer and the priority. -/
def SameLine (l l' : Lineorder) : Prop :=
  { l' with custkey := l.custkey, opriority := l.opriority } = l

/-- Rows with the same columns, except for those of forgotten streams: the digit of a city, the
phone of a supplier behind the code of the country, the manufacturer and the category of a
part with the begin of its brand, the customer and the priority of an order. -/
def SameRow : Row → Row → Prop
  | .part p, .part p' =>
      { p' with mfgr := p.mfgr, category := p.category, brand := p.brand } = p ∧
        ∃ brnd, p.brand = p.category ++ brnd ∧ p'.brand = p'.category ++ brnd
  | .supp s, .supp s' =>
      { s' with city := s.city, phone := s.phone } = s ∧
        s.city.take (cityFix - 1) = s'.city.take (cityFix - 1) ∧ s.phone.take 2 = s'.phone.take 2
  | .cust c, .cust c' =>
      { c' with city := c.city } = c ∧ c.city.take (cityFix - 1) = c'.city.take (cityFix - 1)
  | .date d, .date d' => d' = d
  | .line o, .line o' =>
      { o' with custkey := o.custkey, opriority := o.opriority, lineorders := o.lineorders } = o ∧
        List.Forall₂ SameLine o.lineorders o'.lineorders
  | _, _ => False

theorem coupled_mkPart (e : Env) (index : ℕ) :
    Coupled (Agree (Aligned .part)) (fun p p' => SameRow (.part p) (.part p')) (mkPart e index)
      (mkPart e index) := by
  refine (coupled_aggStr (by decide) _ _).bind_eq fun name => ?_
  refine (coupled_dssRandom_other 1 5 pMfgSd).bind fun mfgr mfgr' _ => ?_
  refine (coupled_dssRandom_other 1 5 pCatSd).bind fun cat cat' _ => ?_
  refine (coupled_dssRandom (by decide) _ _).bind_eq fun brnd => ?_
  refine (coupled_pickStr (by decide) _).bind_eq fun type => ?_
  refine (coupled_dssRandom (by decide) _ _).bind_eq fun size => ?_
  refine (coupled_pickStr (by decide) _).bind_eq fun container => Coupled.pure ?_
  exact ⟨rfl, decimal brnd, rfl, rfl⟩

theorem coupled_mkSupp (e : Env) (index : ℕ) :
    Coupled (Agree (Aligned .supp)) (fun s s' => SameRow (.supp s) (.supp s')) (mkSupp e index)
      (mkSupp e index) := by
  refine (coupled_vStr (by decide) _).bind_eq fun address => ?_
  refine (coupled_pickNation (by decide) _).bind_eq fun nation => ?_
  refine (coupled_genCity nation.2.1).bind fun city city' hcity => ?_
  refine (coupled_genPhone_other nation.1 cPhneSd).bind fun phone phone' hphone => Coupled.pure ?_
  exact ⟨rfl, hcity, hphone⟩

theorem coupled_mkCust (e : Env) (index : ℕ) :
    Coupled (Agree (Aligned .cust)) (fun c c' => SameRow (.cust c) (.cust c')) (mkCust e index)
      (mkCust e index) := by
  refine (coupled_vStr (by decide) _).bind_eq fun address => ?_
  refine (coupled_pickNation (by decide) _).bind_eq fun nation => ?_
  refine (coupled_genCity nation.2.1).bind fun city city' hcity => ?_
  refine (coupled_genPhone (by decide) _).bind_eq fun phone => ?_
  refine (coupled_pickStr (by decide) _).bind_eq fun mktsegment => Coupled.pure ?_
  exact ⟨rfl, hcity⟩

/-- Orders that differ only in the customer, the priority and the lines. -/
structure SameHead (o o' : Order) : Prop where
  okey : o'.okey = o.okey
  totalprice : o'.totalprice = o.totalprice
  odate : o'.odate = o.odate
  spriority : o'.spriority = o.spriority

/-- The total is the sum of what the lines add, which is the same. -/
theorem SameHead.setLines {o o' : Order} (ho : SameHead o o') {drawn drawn' : List (Lineorder × ℤ)}
    (h : List.Forall₂ (fun l l' => SameLine l.1 l'.1 ∧ l.2 = l'.2) drawn drawn') :
    SameRow (.line (o.setLines drawn)) (.line (o'.setLines drawn')) := by
  have htotal : drawn'.map Prod.snd = drawn.map Prod.snd := by
    induction h with
    | nil => rfl
    | cons hl _ ih => rw [List.map_cons, List.map_cons, hl.2, ih]
  constructor
  · simp only [Order.setLines, htotal, ho.okey, ho.odate, ho.spriority]
  · simp only [Order.setLines, htotal, List.forall₂_map_left_iff, List.forall₂_map_right_iff]
    refine h.imp fun l l' hl => ?_
    have hsame : { l'.1 with custkey := l.1.custkey, opriority := l.1.opriority } = l.1 := hl.1
    rw [← hsame]
    rfl

theorem coupled_mkLine (e : Env) {o o' : Order} (ho : SameHead o o') (tmpDate : ℤ) (lcnt : ℕ) :
    Coupled (Agree (Aligned .line)) (fun l l' => SameLine l.1 l'.1 ∧ l.2 = l'.2)
      (mkLine e o tmpDate lcnt) (mkLine e o' tmpDate lcnt) := by
  refine (coupled_dssRandom (by decide) _ _).bind_eq fun partkey => ?_
  refine (coupled_dssRandom (by decide) _ _).bind_eq fun suppkey => ?_
  refine (coupled_dssRandom (by decide) _ _).bind_eq fun quantity => ?_
  refine (coupled_dssRandom (by decide) _ _).bind_eq fun discount => ?_
  refine (coupled_dssRandom (by decide) _ _).bind_eq fun tax => ?_
  refine (coupled_dssRandom (by decide) _ _).bind_eq fun cDate => ?_
  refine (coupled_pickStr (by decide) _).bind_eq fun shipmode => Coupled.pure ⟨?_, rfl⟩
  simp only [SameLine, ho.okey, ho.odate, ho.spriority]

theorem coupled_mkOrder (e : Env) (index updNum : ℕ) :
    Coupled (Agree (Aligned .line)) (fun o o' => SameRow (.line o) (.line o'))
      (mkOrder e index updNum) (mkOrder e index updNum) := by
  refine (coupled_dssRandom (by decide) _ _).bind_eq fun tmpDate => ?_
  refine (coupled_dssRandom_other 1 (oCkeyMax e) oCkeySd).bind fun custkey custkey' _ => ?_
  refine (coupled_pickStr_other e.dists.oPrioritySet oPrioSd).bind fun _ _ _ => ?_
  refine (coupled_dssRandom_other 1 (max (e.scale * 1000) 1000) oClrkSd).bind fun _ _ _ => ?_
  refine (coupled_dssRandom (by decide) _ _).bind_eq fun lines => ?_
  refine (Coupled.mapM_same _ fun lcnt => coupled_mkLine e ?_ tmpDate lcnt).bind
    fun drawn drawn' hdrawn => Coupled.pure (SameHead.setLines ?_ hdrawn)
  · constructor <;> dsimp only
  · constructor <;> dsimp only

/-- A row of a table in two states that agree. -/
theorem coupled_mkRow (e : Env) (updNum i : ℕ) (t : Table) :
    Coupled (Agree (Aligned t)) SameRow (mkRow e updNum i t) (mkRow e updNum i t) := by
  cases t with
  | part => exact (coupled_mkPart e i).map fun _ _ h => h
  | supp => exact (coupled_mkSupp e i).map fun _ _ h => h
  | cust => exact (coupled_mkCust e i).map fun _ _ h => h
  | date => exact Coupled.pure rfl
  | line => exact (coupled_mkOrder e i (updNum % 10000)).map fun _ _ h => h

/-- Between the rows only the values count. -/
def SameValues (G : Finset StreamId) (σ τ : Streams) : Prop :=
  ∀ s ∈ G, (σ s).value = (τ s).value

theorem rowStop_congr {σ τ : Streams} {s : StreamId} (t : ℤ) (h : σ s = τ s) :
    rowStop t σ s = rowStop t τ s := by
  rw [rowStop, rowStop, h]

/-- What holds of the pieces of two rows holds of their turns of the loop. -/
theorem coupled_genRow_of {G : Finset StreamId} {R : Row → Row → Prop} {e : Env} {t : Table}
    {updNum i j : ℕ} (h : Coupled (Agree G) R (mkRow e updNum i t) (mkRow e updNum j t)) :
    Coupled (SameValues G) R (genRow e t updNum i) (genRow e t updNum j) := by
  intro σ τ hστ
  have hstart : Agree G (rowStart σ) (rowStart τ) := by
    intro s hs
    rw [rowStart, rowStart, hστ s hs]
  obtain ⟨hrow, hstop⟩ := h _ _ hstart
  exact ⟨hrow, fun s hs => congrArg Stream.value (rowStop_congr t.number (hstop s hs))⟩

theorem coupled_genRow (e : Env) (t : Table) (updNum i : ℕ) :
    Coupled (SameValues (Aligned t)) SameRow (genRow e t updNum i) (genRow e t updNum i) :=
  coupled_genRow_of (coupled_mkRow e updNum i t)

/-! ## The steps of a table -/

/-- No jump has as many calls as the modulus. For parts this is not so from a share of about
117 times the base on. -/
theorem calls_lt {e : Env} {t : Table} {children : ℕ} (hchildren : 0 < children)
    (hscale : e.scale / children ≤ max32bScale)
    (hparts : t = .part → 92 * (t.base * e.scale / children) < nM) :
    maxCalls t * (stepRows t e.scale children).1 < nM := by
  have hM : nM = 2147483647 := rfl
  have hrows : t.base * e.scale / children ≤ t.base * 1001 := by
    refine Nat.div_le_of_le_mul ?_
    have hlt : e.scale < children * (e.scale / children + 1) := Nat.lt_mul_div_succ _ hchildren
    have hle : children * (e.scale / children + 1) ≤ children * 1001 :=
      Nat.mul_le_mul_left children (by unfold max32bScale at hscale; omega)
    calc t.base * e.scale ≤ t.base * (children * 1001) :=
          Nat.mul_le_mul_left t.base (by omega)
      _ = children * (t.base * 1001) := by ring
  rw [stepRows_eq t e.scale hchildren]
  by_cases ht : t = .part
  · subst ht
    exact hparts rfl
  · calc maxCalls t * (t.base * e.scale / children) ≤ maxCalls t * (t.base * 1001) :=
          Nat.mul_le_mul_left (maxCalls t) hrows
      _ < nM := by cases t <;> first | exact absurd rfl ht | decide

/-- The state in which step `k + 1` makes its rows. -/
def stepState (e : Env) (t : Table) (children k : ℕ) : Streams :=
  (advanceStreams (genSeed t (stepRows t e.scale children).1))^[k] initial

/-- The rows of step `k + 1`. -/
def shareRows (e : Env) (t : Table) (children updNum k : ℕ) : List Row :=
  ((stepRange t e.scale children k).mapM (genRow e t updNum) (stepState e t children k)).1

theorem stepTbl_eq {e : Env} (he : e.Drawable) (t : Table) {children : ℕ} (updNum k : ℕ)
    (hscale : e.scale / children ≤ max32bScale) :
    stepTbl e t children (k + 1) updNum = some (shareRows e t children updNum k) := by
  have hpos := he.scale_pos
  rw [stepTbl, setState, if_neg (by omega), if_neg (by omega)]
  rfl

/-- **The rows of the steps are those of one process**, one by one, but for the columns that are
drawn from forgotten streams. -/
theorem forall₂_shareRows {e : Env} (he : e.Drawable) (t : Table) {children : ℕ} (updNum : ℕ)
    (hchildren : 0 < children) (hscale : e.scale / children ≤ max32bScale)
    (hparts : t = .part → 92 * (t.base * e.scale / children) < nM) :
    List.Forall₂ SameRow ((List.range children).flatMap (shareRows e t children updNum))
      (genTbl e t 1 (t.base * e.scale) updNum initial).1 := by
  have hcalls := calls_lt hchildren hscale hparts
  let share (k : ℕ) : List ℕ × Streams := (stepRange t e.scale children k, stepState e t children k)
  have hrows : genTbl e t 1 (t.base * e.scale) updNum =
      (((List.range children).map share).flatMap Prod.fst).mapM (genRow e t updNum) := by
    rw [genTbl, ← flatMap_stepRange t e.scale hchildren, List.flatMap_map]
  have hshares : (List.range children).flatMap (shareRows e t children updNum) =
      ((List.range children).map share).flatMap fun share =>
        (share.1.mapM (genRow e t updNum) share.2).1 := by
    rw [List.flatMap_map]
    rfl
  rw [hrows, hshares]
  refine Coupled.shares (coupled_genRow e t updNum) _ fun before this after hsplit s hs => ?_
  -- the shares before step `k + 1` are those of the first `k` steps
  obtain ⟨ks, ls, hrange, hbefore, hls⟩ := List.map_eq_append_iff.mp hsplit
  obtain ⟨k, ls', hls', hthis, _⟩ := List.map_eq_cons_iff.mp hls
  rw [List.range_eq_range', hls', List.range'_eq_append_iff] at hrange
  obtain ⟨j, hj, rfl, hrest⟩ := hrange
  obtain ⟨rfl, hlt, _⟩ := List.range'_eq_cons_iff.mp hrest.symm
  rw [← hthis, ← hbefore, List.flatMap_map, zero_add, mul_one, ← List.range_eq_range']
  exact setState_value he updNum hcalls (by omega) hs initial

/-! ## What the steps repeat -/

/-- Streams that rows of a table are drawn from, but that no jump of the table moves. -/
def Forgotten : Table → Finset StreamId
  | .part => ∅
  | .supp => {0, 28}
  | .cust => {0}
  | .date => ∅
  | .line => {38, 40}

/-- The columns of these streams: the digit of a city, the phone of a supplier behind the code of
the country, the customer and the priority of an order. -/
def RepeatsRow : Row → Row → Prop
  | .supp s, .supp s' =>
      s'.city.drop (cityFix - 1) = s.city.drop (cityFix - 1) ∧ s'.phone.drop 2 = s.phone.drop 2
  | .cust c, .cust c' => c'.city.drop (cityFix - 1) = c.city.drop (cityFix - 1)
  | .line o, .line o' => o'.custkey = o.custkey ∧ o'.opriority = o.opriority
  | _, _ => True

/-- Draws that leave some streams alone. -/
def Silent (G : Finset StreamId) (n : Draws) : Prop :=
  ∀ s ∈ G, n (some s) = 0 ∧ n.uncounted s = 0

instance (G : Finset StreamId) (n : Draws) : Decidable (Silent G n) :=
  inferInstanceAs (Decidable (∀ s ∈ G, _ ∧ _))

theorem Silent.smul {G : Finset StreamId} {n : Draws} (h : Silent G n) (k : ℕ) :
    Silent G (k • n) := by
  intro s hs
  obtain ⟨hcount, huncounted⟩ := h s hs
  refine ⟨by rw [Draws.smul_apply, hcount, mul_zero], ?_⟩
  unfold Draws.uncounted at huncounted ⊢
  split_ifs at huncounted ⊢
  · rw [Draws.smul_apply, huncounted, mul_zero]
  · rfl

section Silent

variable {G : Finset StreamId} {α β : Type}

theorem Silent.value {n : Draws} (h : Silent G n) (σ : Streams) : Agree G (n +ᵥ σ) σ := by
  intro s hs
  obtain ⟨hcount, huncounted⟩ := h s hs
  change Stream.mk _ _ = _
  simp only [hcount, huncounted, Nat.cast_zero, add_zero, Function.iterate_zero_apply]

theorem coupled_of_silent {P : Draws → α → Prop} {Q : Draws → β → Prop} {p : StateM Streams α}
    {q : StateM Streams β} (hp : Metered P p) (hP : ∀ n a, P n a → Silent G n)
    (hq : Metered Q q) (hQ : ∀ n b, Q n b → Silent G n) :
    Coupled (Agree G) (fun _ _ => True) p q := by
  intro σ τ hστ
  obtain ⟨m, hm, hPm⟩ := hp σ
  obtain ⟨n, hn, hQn⟩ := hq τ
  refine ⟨trivial, fun s hs => ?_⟩
  rw [hm, hn, (hP m _ hPm).value σ s hs, (hQ n _ hQn).value τ s hs, hστ s hs]

theorem coupled_vStr_other {sd : ℕ} (h : Silent G (drawOf sd)) :
    Coupled (Agree G) (fun _ _ => True) (vStr addrLen sd) (vStr addrLen sd) := by
  have hsilent (n : Draws) (text : Str) (hn : (∃ k ≤ 24, n = (1 + k) • drawOf sd) ∧
      (6 ≤ text.length ∧ text.length ≤ 24) ∧ ∀ c ∈ text, c ∈ alphaNum) : Silent G n := by
    obtain ⟨⟨k, _, rfl⟩, _⟩ := hn
    exact h.smul _
  exact coupled_of_silent (metered_vStr sd) hsilent (metered_vStr sd) hsilent

theorem coupled_pickNation_other (d : Dists) (sd : ℕ) :
    Coupled (Agree G) (fun _ _ => True) (pickNation d sd) (pickNation d sd) :=
  (coupled_dssRandom_other _ _ sd).bind fun _ _ _ => Coupled.pure trivial

/-- The digit of two cities. -/
theorem coupled_genCity_digit (h : streamOf 98 ∈ G) (nationName nationName' : Str) :
    Coupled (Agree G) (fun c c' => c'.drop (cityFix - 1) = c.drop (cityFix - 1))
      (genCity nationName) (genCity nationName') := by
  refine (coupled_dssRandom h 0 9).bind_eq fun randomPick => Coupled.pure ?_
  have hlen (name : Str) :
      ((name.take (cityFix - 1)).rightpad (cityFix - 1) ' ').length = cityFix - 1 := by
    simp [List.rightpad]
  rw [List.drop_left' (hlen nationName), List.drop_left' (hlen nationName')]

/-- Two phones behind the codes of their countries. -/
theorem coupled_genPhone_digits {seed : ℕ} (h : streamOf seed ∈ G) (ind ind' : ℕ) :
    Coupled (Agree G) (fun p p' => p'.drop 2 = p.drop 2) (genPhone ind seed)
      (genPhone ind' seed) := by
  refine (coupled_dssRandom h _ _).bind_eq fun _ => ?_
  refine (coupled_dssRandom h _ _).bind_eq fun _ => ?_
  refine (coupled_dssRandom h _ _).bind_eq fun _ => Coupled.pure ?_
  simp only [List.append_assoc]
  rw [List.drop_left' (length_country ind), List.drop_left' (length_country ind')]

theorem coupled_genPhone_any (ind ind' seed : ℕ) :
    Coupled (Agree G) (fun _ _ => True) (genPhone ind seed) (genPhone ind' seed) := by
  refine (coupled_dssRandom_other _ _ seed).bind fun _ _ _ => ?_
  refine (coupled_dssRandom_other _ _ seed).bind fun _ _ _ => ?_
  exact (coupled_dssRandom_other _ _ seed).bind fun _ _ _ => Coupled.pure trivial

end Silent

theorem repeats_mkSupp (e : Env) (i j : ℕ) :
    Coupled (Agree (Forgotten .supp)) (fun s s' => RepeatsRow (.supp s) (.supp s')) (mkSupp e i)
      (mkSupp e j) := by
  refine (coupled_vStr_other (by decide)).bind fun _ _ _ => ?_
  refine (coupled_pickNation_other e.dists sNtrgSd).bind fun nation nation' _ => ?_
  refine (coupled_genCity_digit (by decide) nation.2.1 nation'.2.1).bind fun _ _ hcity => ?_
  refine (coupled_genPhone_digits (by decide) nation.1 nation'.1).bind fun _ _ hphone => ?_
  exact Coupled.pure ⟨hcity, hphone⟩

theorem repeats_mkCust (e : Env) (i j : ℕ) :
    Coupled (Agree (Forgotten .cust)) (fun c c' => RepeatsRow (.cust c) (.cust c')) (mkCust e i)
      (mkCust e j) := by
  refine (coupled_vStr_other (by decide)).bind fun _ _ _ => ?_
  refine (coupled_pickNation_other e.dists cNtrgSd).bind fun nation nation' _ => ?_
  refine (coupled_genCity_digit (by decide) nation.2.1 nation'.2.1).bind fun _ _ hcity => ?_
  refine (coupled_genPhone_any nation.1 nation'.1 cPhneSd).bind fun _ _ _ => ?_
  refine (coupled_pickStr_other e.dists.cMsegSet cMsegSd).bind fun _ _ _ => ?_
  exact Coupled.pure hcity

theorem repeats_mkOrder {e : Env} (he : e.Drawable) (i j updNum : ℕ) :
    Coupled (Agree (Forgotten .line)) (fun o o' => RepeatsRow (.line o) (.line o'))
      (mkOrder e i updNum) (mkOrder e j updNum) := by
  refine (coupled_dssRandom_other oOdateMin oOdateMax oOdateSd).bind fun tmpDate tmpDate' _ => ?_
  refine (coupled_dssRandom (by decide) _ _).bind_eq fun custkey => ?_
  refine (coupled_pickStr (by decide) _).bind_eq fun opriority => ?_
  refine (coupled_dssRandom_other 1 (max (e.scale * 1000) 1000) oClrkSd).bind fun _ _ _ => ?_
  refine (coupled_dssRandom_other 1 7 oLcntSd).bind fun lines lines' _ => ?_
  refine (coupled_of_silent (metered_lines he _ tmpDate _) ?_ (metered_lines he _ tmpDate' _)
    ?_).bind fun _ _ _ => Coupled.pure ⟨?_, ?_⟩
  · exact fun n drawn hn => hn.1 ▸ Silent.smul (by decide) drawn.length
  · exact fun n drawn hn => hn.1 ▸ Silent.smul (by decide) drawn.length
  · dsimp only [Order.setLines]
  · dsimp only [Order.setLines]

theorem repeats_mkRow {e : Env} (he : e.Drawable) (updNum i j : ℕ) (t : Table) :
    Coupled (Agree (Forgotten t)) RepeatsRow (mkRow e updNum i t) (mkRow e updNum j t) := by
  cases t with
  | part =>
      intro σ τ _
      exact ⟨trivial, fun s hs => absurd hs (Finset.notMem_empty s)⟩
  | supp => exact (repeats_mkSupp e i j).map fun _ _ h => h
  | cust => exact (repeats_mkCust e i j).map fun _ _ h => h
  | date => exact Coupled.pure trivial
  | line => exact (repeats_mkOrder he i j (updNum % 10000)).map fun _ _ h => h

theorem advanceStreams_of_ne {js : List Jump} {s : StreamId} (h : ∀ j ∈ js, j.1 ≠ s)
    (σ : Streams) : advanceStreams js σ s = σ s := by
  induction js generalizing σ with
  | nil => rfl
  | cons j js ih =>
      rw [advanceStreams, List.foldl_cons, ← advanceStreams,
        ih fun k hk => h k (List.mem_cons_of_mem j hk)]
      exact Function.update_of_ne (h j List.mem_cons_self).symm _ _

theorem not_jump_of_forgotten : ∀ t, ∀ j ∈ genSeed t 1, j.1 ∉ Forgotten t := by
  intro t
  cases t <;> decide

theorem stepState_of_forgotten (e : Env) (t : Table) (children k : ℕ) {s : StreamId}
    (hs : s ∈ Forgotten t) : stepState e t children k s = initial s := by
  induction k with
  | zero => rfl
  | succ k ih =>
      rw [stepState, Function.iterate_succ_apply', ← stepState, advanceStreams_of_ne, ih]
      intro j hj hjs
      rw [genSeed_eq] at hj
      obtain ⟨j', hj', rfl⟩ := List.mem_map.mp hj
      exact not_jump_of_forgotten t j' hj' (hjs ▸ hs)

/-- **What the steps repeat.** Each step but the last has the forgotten columns of the first step:
with steps the orders refer to the customers of the first share again and again. -/
theorem stepTbl_repeats {e : Env} (he : e.Drawable) (t : Table) {children k : ℕ} (updNum : ℕ)
    (hscale : e.scale / children ≤ max32bScale) (hk : k + 1 < children) :
    ∃ first rows, stepTbl e t children 1 updNum = some first ∧
      stepTbl e t children (k + 1) updNum = some rows ∧ List.Forall₂ RepeatsRow first rows := by
  refine ⟨_, _, stepTbl_eq he t updNum 0 hscale, stepTbl_eq he t updNum k hscale, ?_⟩
  have hrange : List.Forall₂ (fun _ _ => True) (stepRange t e.scale children 0)
      (stepRange t e.scale children k) := by
    rw [stepRange, stepRange, if_neg (by omega), if_neg (by omega), List.forall₂_iff_zip]
    exact ⟨by simp, fun _ => trivial⟩
  have hrows : Coupled (SameValues (Forgotten t)) (List.Forall₂ RepeatsRow)
      ((stepRange t e.scale children 0).mapM (genRow e t updNum))
      ((stepRange t e.scale children k).mapM (genRow e t updNum)) :=
    Coupled.mapM hrange fun i j _ => coupled_genRow_of (repeats_mkRow he updNum i j t)
  refine (hrows _ _ fun s hs => ?_).1
  rw [stepState_of_forgotten e t children 0 hs, stepState_of_forgotten e t children k hs]

theorem stepTbl_repeats_sample :
    ∃ first rows, stepTbl sampleEnv .line 3 1 0 = some first ∧
      stepTbl sampleEnv .line 3 2 0 = some rows ∧ List.Forall₂ RepeatsRow first rows :=
  stepTbl_repeats sampleEnv_drawable .line 0 (by decide) (by decide)

end Structor.Dbgen
