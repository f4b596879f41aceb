import Structor.Dbgen.DateTable
import Structor.Dbgen.Distribution
import Structor.Dbgen.SparseKeys

/-!
# The rows of the star schema

`build.c` makes a row of a table from draws out of the streams of its columns. What a row draws
decides how far the streams are taken, and what it reads decides which columns two runs agree
on.

## Main results

* `metered_mkCust`, `metered_mkPart`, `metered_mkSupp`, `metered_mkOrder` -- the draws of a row
* `fits_mkCust`, `fits_mkSupp`, `fits_mkPart`, `fits_mkLine`, `fits_mkOrder` -- the texts
  have room in the row
* `vStr_bounds` -- the lengths of the addresses, from their products in floating point
-/
namespace Structor.Dbgen

open Structor.Rounding Structor.Python

/-! ## The fields of a row -/

/-- A supplier has the same room for its nation and its region. -/
def cNationNameLen : ℕ := 15
def cRegionNameLen : ℕ := 12

def maxaggLen : ℕ := 10
def pTypeMax : ℕ := 25
def pCntrLen : ℕ := 10
def oShipModeLen : ℕ := 10
def pNameLen : ℕ := 22
def pColorMax : ℕ := 11

/-- Three colors may be longer than the field of the name, but the fields behind it are written
later. The first color and the two that are left fit their fields. -/
def colorLen : ℕ := 10

/-- A priority may reach into `ship_priority`, which is written later, but not further. -/
def opriorityLen : ℕ := maxaggLen + 8

/-- As many members as are counted, whose texts fit a field with room for `len` characters. -/
def Distribution.Fits (d : Distribution) (len : ℕ) : Prop :=
  d.list ≠ [] ∧ d.count = d.list.length ∧ ∀ m ∈ d.list, m.text.length ≤ len

instance (d : Distribution) (len : ℕ) : Decidable (d.Fits len) :=
  inferInstanceAs (Decidable (_ ∧ _))

/-- The distributions that the rows are made from. -/
structure DistSets where
  nations : Distribution
  regions : Distribution
  oPrioritySet : Distribution
  lSmodeSet : Distribution
  cMsegSet : Distribution
  colors : Distribution
  pTypesSet : Distribution
  pCntrSet : Distribution

def pNameScl : ℕ := 3

/-- The rows can be made without a text that is not there or that does not fit its field: a
nation has the place of its region, and a sum of weights can be drawn from. -/
def DistSets.Usable (d : DistSets) : Prop :=
  (d.nations.Fits cNationNameLen ∧
    ∀ m ∈ d.nations.list, 0 ≤ m.weight ∧ m.weight < d.regions.list.length) ∧
  d.regions.Fits cRegionNameLen ∧
  (d.oPrioritySet.Fits opriorityLen ∧ 0 < lastWeight d.oPrioritySet) ∧
  (d.lSmodeSet.Fits oShipModeLen ∧ 0 < lastWeight d.lSmodeSet) ∧
  (d.cMsegSet.Fits maxaggLen ∧ 0 < lastWeight d.cMsegSet) ∧
  (d.colors.Fits colorLen ∧ pNameScl ≤ d.colors.list.length ∧
    ∀ m ∈ d.colors.list, ' ' ∉ m.text) ∧
  (d.pTypesSet.Fits pTypeMax ∧ 0 < lastWeight d.pTypesSet) ∧
  (d.pCntrSet.Fits pCntrLen ∧ 0 < lastWeight d.pCntrSet)

instance (d : DistSets) : Decidable d.Usable := inferInstanceAs (Decidable (_ ∧ _))

/-- With others the rows are undefined. -/
structure Dists extends DistSets where
  usable : toDistSets.Usable

/-- What a run is started with. `floorLog` is `floor(log((double)scale))`, `floorLog2` is
`floor(log((double)scale)/log(2))`, and `zone` gives the seconds that the local time is ahead
at a time. `toUpperCase` is the method of Java in the locale of the job. -/
structure Env where
  scale : ℕ
  refresh : ℕ
  dists : Dists
  floorLog : ℕ
  floorLog2 : ℕ
  zone : ℤ → ℤ
  toUpperCase : Str → Str

/-! ## Texts -/

def alphaNum : Str := "0123456789abcdefghijklmnopqrstuvwxyz ABCDEFGHIJKLMNOPQRSTUVWXYZ,"

def maxLong : ℤ := 0x7FFFFFFF

/-- The bits of place `i`: a draw is for five places. -/
def charBits (column i charInt : ℕ) : StateM Streams ℕ :=
  if i % 5 = 0 then Int.toNat <$> dssRandom 0 maxLong column else pure charInt

/-- The loop of `a_rnd` over the places from `i` on. -/
def aRndLoop (column : ℕ) : ℕ → ℕ → ℕ → StateM Streams Str
  | 0, _, _ => pure []
  | left + 1, i, charInt => do
      let charInt ← charBits column i charInt
      let rest ← aRndLoop column left (i + 1) (charInt >>> 6)
      pure (alphaNum.getD (charInt &&& 0o77) '\x00' :: rest)

def aRnd (min max : ℤ) (column : ℕ) : StateM Streams Str := do
  let len ← dssRandom min max column
  aRndLoop column len.toNat 0 0

def vStrLow : ℚ := dbl (4 / 10)
def vStrHgh : ℚ := dbl (16 / 10)

/-- `V_STR`: the two products are cut to integers. -/
def vStr (avg : ℚ) (sd : ℕ) : StateM Streams Str :=
  aRnd ⌊dbl (avg * vStrLow)⌋ ⌊dbl (avg * vStrHgh)⌋ sd

def nationsMax : ℕ := 90

def genPhone (ind seed : ℕ) : StateM Streams Str := do
  let acode ← dssRandom 100 999 seed
  let exchg ← dssRandom 100 999 seed
  let number ← dssRandom 1000 9999 seed
  pure (zeroPadded 2 (10 + ind % nationsMax) ++ "-".toList ++ zeroPadded 3 acode.toNat ++
    "-".toList ++ zeroPadded 3 exchg.toNat ++ "-".toList ++ zeroPadded 4 number.toNat)

def cityFix : ℕ := 10

/-- The nation in nine characters and a digit. There is no stream 98. -/
def genCity (nationName : Str) : StateM Streams Str := do
  let randomPick ← dssRandom 0 9 98
  pure ((nationName.take (cityFix - 1)).rightpad (cityFix - 1) ' ' ++ decimal randomPick)

/-- The number, the name and the region of a nation. -/
def pickNation (d : Dists) (sd : ℕ) : StateM Streams (ℕ × Str × Str) := do
  let i ← dssRandom 0 (d.nations.count - 1) sd
  let region := (d.nations.list.map SetMember.weight).getD i.toNat 0
  pure (i.toNat, distMember d.nations i.toNat, distMember d.regions region.toNat)

/-! ## Customers, parts and suppliers -/

structure Customer where
  custkey : ℕ
  name : Str
  address : Str
  city : Str
  nationName : Str
  regionName : Str
  phone : Str
  mktsegment : Str

def addrLen : ℚ := 15
def cAddrSd : ℕ := 26
def cNtrgSd : ℕ := 27
def cPhneSd : ℕ := 28
def cMsegSd : ℕ := 30

def mkCust (e : Env) (nCust : ℕ) : StateM Streams Customer := do
  let address ← vStr addrLen cAddrSd
  let nation ← pickNation e.dists cNtrgSd
  let city ← genCity nation.2.1
  let phone ← genPhone nation.1 cPhneSd
  let mktsegment ← pickStr e.dists.cMsegSet cMsegSd
  pure
    { custkey := nCust
      name := "Customer#".toList ++ zeroPadded 9 nCust
      address := address
      city := city
      nationName := nation.2.1
      regionName := nation.2.2
      phone := phone
      mktsegment := mktsegment.2 }

structure Part where
  partkey : ℕ
  name : Str
  mfgr : Str
  category : Str
  brand : Str
  color : Str
  type : Str
  size : ℤ
  container : Str

def pMfgSd : ℕ := 0
def pBrndSd : ℕ := 1
def pTypeSd : ℕ := 2
def pSizeSd : ℕ := 3
def pCntrSd : ℕ := 4
def pNameSd : ℕ := 37
def pCatSd : ℕ := 97

/-- The category is drawn from a stream that there is not. -/
def mkPart (e : Env) (index : ℕ) : StateM Streams Part := do
  let name ← aggStr e.dists.colors pNameScl pNameSd
  let split := genColor name
  let mfgr ← dssRandom 1 5 pMfgSd
  let mfgrText := "MFGR#".toList ++ decimal mfgr
  let cat ← dssRandom 1 5 pCatSd
  let category := mfgrText ++ decimal cat
  let brnd ← dssRandom 1 40 pBrndSd
  let type ← pickStr e.dists.pTypesSet pTypeSd
  let size ← dssRandom 1 50 pSizeSd
  let container ← pickStr e.dists.pCntrSet pCntrSd
  pure
    { partkey := index
      name := split.2
      mfgr := mfgrText
      category := category
      brand := category ++ decimal brnd
      color := split.1
      type := type.2
      size := size
      container := container.2 }

structure Supplier where
  suppkey : ℕ
  name : Str
  address : Str
  city : Str
  nationName : Str
  regionName : Str
  phone : Str

def sAddrSd : ℕ := 32
def sNtrgSd : ℕ := 33

/-- The phone number is drawn from the stream of the customers. -/
def mkSupp (e : Env) (index : ℕ) : StateM Streams Supplier := do
  let address ← vStr addrLen sAddrSd
  let nation ← pickNation e.dists sNtrgSd
  let city ← genCity nation.2.1
  let phone ← genPhone nation.1 cPhneSd
  pure
    { suppkey := index
      name := "Supplier#".toList ++ zeroPadded 9 index
      address := address
      city := city
      nationName := nation.2.1
      regionName := nation.2.2
      phone := phone }

/-! ## Orders -/

structure Lineorder where
  okey : Huge
  linenumber : ℕ
  custkey : ℤ
  partkey : ℤ
  suppkey : ℤ
  orderdate : Str
  opriority : Str
  shipPriority : ℤ
  quantity : ℤ
  extendedPrice : ℤ
  orderTotalprice : ℤ
  discount : ℤ
  revenue : ℤ
  suppCost : ℤ
  tax : ℤ
  commitDate : Str
  shipmode : Str

structure Order where
  okey : Huge
  custkey : ℤ
  totalprice : ℤ
  odate : Str
  opriority : Str
  spriority : ℤ
  lineorders : List Lineorder

def rpbRoutine (p : ℤ) : ℤ := 90000 + p / 10 % 20001 + p % 1000 * 100

def custMortality : ℤ := 3
def pennies : ℤ := 100

def oOdateMin : ℤ := startDate
def oOdateMax : ℤ := startDate + totDate - (121 + 30) - 1
def oCkeyMax (e : Env) : ℤ := (tdefs cust).base * e.scale
def lPkeyMax (e : Env) : ℤ := (tdefs part).base * (e.floorLog + 1)
def lSkeyMax (e : Env) : ℤ := (tdefs supp).base * e.scale

def oClrkSd : ℕ := 11
def oOdateSd : ℕ := 13
def lQtySd : ℕ := 14
def lDcntSd : ℕ := 15
def lTaxSd : ℕ := 16
def lSmodeSd : ℕ := 18
def lPkeySd : ℕ := 19
def lSkeySd : ℕ := 20
def lCdteSd : ℕ := 22
def oPrioSd : ℕ := 38
def oCkeySd : ℕ := 40
def oLcntSd : ℕ := 43

/-- `while (o->custkey % CUST_MORTALITY == 0)`, so many turns at most. -/
def custkeyLoop (ckeyMax : ℤ) : ℕ → ℤ → ℤ → ℤ
  | 0, custkey, _ => custkey
  | turns + 1, custkey, delta =>
      if custkey % custMortality = 0 then
        custkeyLoop ckeyMax turns (min (custkey + delta) ckeyMax) (-delta)
      else custkey

/-- The text of a date by its number. -/
def ascDate (date : ℤ) : Str := mkAscdate.getD (date - startDate).toNat []

/-- A line, without the total of its order, and what it adds to the total. The priority has
room for eleven characters: what is behind them is written to the field after it, which is
then set to zero. -/
def mkLine (e : Env) (o : Order) (tmpDate : ℤ) (lcnt : ℕ) : StateM Streams (Lineorder × ℤ) := do
  let partkey ← dssRandom 1 (lPkeyMax e) lPkeySd
  let suppkey ← dssRandom 1 (lSkeyMax e) lSkeySd
  let quantity ← dssRandom 1 50 lQtySd
  let discount ← dssRandom 0 10 lDcntSd
  let tax ← dssRandom 0 8 lTaxSd
  let cDate ← dssRandom 30 90 lCdteSd
  let shipmode ← pickStr e.dists.lSmodeSet lSmodeSd
  let rprice := rpbRoutine partkey
  let extendedPrice := rprice * quantity
  pure (
    { okey := o.okey
      linenumber := lcnt + 1
      custkey := o.custkey
      partkey := partkey
      suppkey := suppkey
      orderdate := o.odate
      opriority := o.opriority.take 11
      shipPriority := o.spriority
      quantity := quantity
      extendedPrice := extendedPrice
      orderTotalprice := 0
      discount := discount
      revenue := extendedPrice * (100 - discount) / pennies
      suppCost := 6 * rprice / 10
      tax := tax
      commitDate := ascDate (cDate + tmpDate)
      shipmode := shipmode.2 },
    extendedPrice * (100 - discount) / pennies * (100 + tax) / pennies)

/-- The last loop of `mk_order`: every line is given the total of its order. -/
def Order.setLines (o : Order) (drawn : List (Lineorder × ℤ)) : Order :=
  let totalprice := (drawn.map Prod.snd).sum
  { o with
    totalprice := totalprice
    lineorders := drawn.map fun l => { l.1 with orderTotalprice := totalprice } }

def mkOrder (e : Env) (index updNum : ℕ) : StateM Streams Order := do
  let tmpDate ← dssRandom oOdateMin oOdateMax oOdateSd
  let custkey ← dssRandom 1 (oCkeyMax e) oCkeySd
  let opriority ← pickStr e.dists.oPrioritySet oPrioSd
  let _clkNum ← dssRandom 1 (max (e.scale * 1000) 1000) oClrkSd
  let lines ← dssRandom 1 7 oLcntSd
  let o : Order :=
    { okey := mkSparse e.scale index (orderSeq e.refresh updNum)
      custkey := custkeyLoop (oCkeyMax e) 3 custkey 1
      totalprice := 0
      odate := ascDate tmpDate
      opriority := opriority.2
      spriority := 0
      lineorders := [] }
  let drawn ← (List.range lines.toNat).mapM (mkLine e o tmpDate)
  pure (o.setLines drawn)

/-! ## What the pieces draw -/

/-- A draw takes one number, and is between its bounds. -/
theorem metered_dssRandom (lower upper : ℤ) (stream : ℕ) :
    Metered (fun (n : Draws) a => n = drawOf stream ∧
      (lower ≤ upper → upper - lower < 2 ^ 31 → lower ≤ a ∧ a ≤ upper))
      (dssRandom lower upper stream) := by
  intro σ
  rw [dssRandom_eq]
  exact ⟨drawOf stream, rfl, rfl, unif_mem _⟩

theorem metered_charBits (column i charInt : ℕ) :
    Metered (fun (n : Draws) (_ : ℕ) => ∃ k ≤ 1, n = k • drawOf column)
      (charBits column i charInt) := by
  unfold charBits
  split_ifs
  · intro σ
    obtain ⟨n, hn, rfl, _⟩ := metered_dssRandom 0 maxLong column σ
    exact ⟨drawOf column, hn, 1, le_rfl, (one_nsmul _).symm⟩
  · exact Metered.pure ⟨0, zero_le_one, (zero_nsmul _).symm⟩

/-- The loop draws at most once for each place. -/
theorem metered_aRndLoop (column left i charInt : ℕ) :
    Metered (fun (n : Draws) text => (∃ k ≤ left, n = k • drawOf column) ∧ text.length = left ∧
      ∀ c ∈ text, c ∈ alphaNum) (aRndLoop column left i charInt) := by
  induction left generalizing i charInt with
  | zero => exact Metered.pure ⟨⟨0, le_rfl, (zero_nsmul _).symm⟩, rfl, by simp⟩
  | succ left ih =>
      refine (metered_charBits column i charInt).bind fun m c hm => ?_
      refine (ih (i + 1) (c >>> 6)).bind fun n text hn => ?_
      obtain ⟨k, hk, rfl⟩ := hm
      obtain ⟨⟨l, hl, rfl⟩, hlen, hmem⟩ := hn
      refine Metered.pure ⟨⟨k + l, by omega, by rw [add_zero, add_nsmul]⟩, by simp [hlen], ?_⟩
      have hlow : c &&& 0o77 < alphaNum.length := by
        have hmod : c &&& 0o77 = c % 64 := Nat.and_two_pow_sub_one_eq_mod c 6
        have hlength : alphaNum.length = 64 := by decide
        rw [hmod, hlength]
        exact Nat.mod_lt c (by norm_num)
      intro ch hch
      rcases List.mem_cons.mp hch with rfl | hch
      · rw [List.getD_eq_getElem _ _ hlow]
        exact List.getElem_mem hlow
      · exact hmem ch hch

/-- The bounds of the length, `6` and `24`: no product is off by a unit. -/
theorem vStr_bounds :
    ⌊dbl (addrLen * vStrLow)⌋ = 6 ∧ ⌊dbl (addrLen * vStrHgh)⌋ = 24 := by
  have hlow : vStrLow = (7205759403792794 : ℤ) * 2 ^ (-54 : ℤ) := by
    refine rounded_eq_of_near ?_ ?_ ?_ <;> norm_num [abs_lt]
  have hhigh : vStrHgh = (7205759403792794 : ℤ) * 2 ^ (-52 : ℤ) := by
    refine rounded_eq_of_near ?_ ?_ ?_ <;> norm_num [abs_lt]
  have h₁ : dbl (addrLen * vStrLow) = (6755399441055744 : ℤ) * 2 ^ (-50 : ℤ) := by
    rw [hlow]
    refine rounded_eq_of_near ?_ ?_ ?_ <;> norm_num [abs_lt, addrLen]
  have h₂ : dbl (addrLen * vStrHgh) = (6755399441055744 : ℤ) * 2 ^ (-48 : ℤ) := by
    rw [hhigh]
    refine rounded_eq_of_near ?_ ?_ ?_ <;> norm_num [abs_lt, addrLen]
  rw [h₁, h₂]
  constructor <;> norm_num

theorem metered_vStr (sd : ℕ) :
    Metered (fun (n : Draws) text => (∃ k ≤ 24, n = (1 + k) • drawOf sd) ∧
      (6 ≤ text.length ∧ text.length ≤ 24) ∧ ∀ c ∈ text, c ∈ alphaNum) (vStr addrLen sd) := by
  rw [vStr, vStr_bounds.1, vStr_bounds.2]
  refine (metered_dssRandom 6 24 sd).bind fun m len hlen => ?_
  obtain ⟨rfl, hbounds⟩ := hlen
  have hlen := hbounds (by norm_num) (by norm_num)
  refine (metered_aRndLoop sd len.toNat 0 0).mono fun n text htext => ?_
  obtain ⟨⟨k, hk, rfl⟩, hlength, hmem⟩ := htext
  exact ⟨⟨k, by omega, by rw [add_nsmul, one_nsmul]⟩, by omega, hmem⟩

theorem metered_genPhone (ind seed : ℕ) :
    Metered (fun (n : Draws) (_ : Str) => n = 3 • drawOf seed) (genPhone ind seed) := by
  refine (metered_dssRandom 100 999 seed).bind fun _ _ h₁ => ?_
  refine (metered_dssRandom 100 999 seed).bind fun _ _ h₂ => ?_
  refine (metered_dssRandom 1000 9999 seed).bind fun _ _ h₃ => Metered.pure ?_
  rw [h₁.1, h₂.1, h₃.1, add_zero, succ_nsmul', two_nsmul]

theorem metered_genCity (nationName : Str) :
    Metered (fun (n : Draws) (_ : Str) => n = drawOf 98) (genCity nationName) := by
  refine (metered_dssRandom 0 9 98).bind fun _ _ h => Metered.pure ?_
  rw [h.1, add_zero]

theorem metered_pickNation (d : Dists) (sd : ℕ) :
    Metered (fun (n : Draws) (_ : ℕ × Str × Str) => n = drawOf sd) (pickNation d sd) := by
  refine (metered_dssRandom 0 (d.nations.count - 1) sd).bind fun _ _ h => Metered.pure ?_
  rw [h.1, add_zero]

theorem metered_pickStr (s : Distribution) (c : ℕ) :
    Metered (fun (n : Draws) (_ : ℕ × Str) => n = drawOf c) (pickStr s c) := by
  refine (metered_dssRandom 1 _ c).bind fun _ _ h => Metered.pure ?_
  rw [h.1, add_zero]

/-! ## What the rows draw -/

/-- The draws of a customer whose address has `k` draws for its characters. -/
def custDraws (k : ℕ) : Draws :=
  (1 + k) • drawOf cAddrSd + (drawOf cNtrgSd + (drawOf 98 + (3 • drawOf cPhneSd +
    drawOf cMsegSd)))

theorem metered_mkCust (e : Env) (nCust : ℕ) :
    Metered (fun (n : Draws) c => (∃ k ≤ 24, n = custDraws k) ∧ c.custkey = nCust ∧
      6 ≤ c.address.length ∧ c.address.length ≤ 24) (mkCust e nCust) := by
  refine (metered_vStr cAddrSd).bind fun _ address haddr => ?_
  refine (metered_pickNation e.dists cNtrgSd).bind fun _ nation h₂ => ?_
  refine (metered_genCity nation.2.1).bind fun _ _ h₃ => ?_
  refine (metered_genPhone nation.1 cPhneSd).bind fun _ _ h₄ => ?_
  refine (metered_pickStr e.dists.cMsegSet cMsegSd).bind fun _ _ h₅ => Metered.pure ?_
  obtain ⟨⟨k, hk, h₁⟩, hlen, _⟩ := haddr
  exact ⟨⟨k, hk, by rw [h₁, h₂, h₃, h₄, h₅, add_zero, custDraws]⟩, rfl, hlen⟩

/-- The draws of a part, with `colors` colors to shuffle. -/
def partDraws (colors : ℕ) : Draws :=
  colors • drawOf pNameSd + (drawOf pMfgSd + (drawOf pCatSd + (drawOf pBrndSd +
    (drawOf pTypeSd + (drawOf pSizeSd + drawOf pCntrSd)))))

/-- The texts of some members, joined by blanks. -/
def joinedNames (colors : Distribution) (is : List ℕ) : Str :=
  (is.flatMap fun i => distMember colors i ++ [' ']).dropLast

theorem metered_mkPart (e : Env) {colors : ℕ} (hcount : e.dists.colors.count = colors)
    (hcolors : colors ≤ 2 ^ 31) (hthree : pNameScl ≤ colors) (index : ℕ) :
    Metered (fun (n : Draws) p => n = partDraws colors ∧ p.partkey = index ∧
      ∃ is : List ℕ, is.length = pNameScl ∧ is.Nodup ∧ (∀ i ∈ is, i < colors) ∧
        (p.color, p.name) = genColor (joinedNames e.dists.colors is)) (mkPart e index) := by
  refine (aggStr_spec hcount hcolors hthree pNameSd).bind fun _ name hname => ?_
  refine (metered_dssRandom 1 5 pMfgSd).bind fun _ _ h₂ => ?_
  refine (metered_dssRandom 1 5 pCatSd).bind fun _ _ h₃ => ?_
  refine (metered_dssRandom 1 40 pBrndSd).bind fun _ _ h₄ => ?_
  refine (metered_pickStr e.dists.pTypesSet pTypeSd).bind fun _ _ h₅ => ?_
  refine (metered_dssRandom 1 50 pSizeSd).bind fun _ _ h₆ => ?_
  refine (metered_pickStr e.dists.pCntrSet pCntrSd).bind fun _ _ h₇ => Metered.pure ?_
  obtain ⟨h₁, is, hlen, hnodup, hlt, htext⟩ := hname
  refine ⟨?_, rfl, is, hlen, hnodup, hlt, by rw [htext, joinedNames]⟩
  rw [h₁, h₂.1, h₃.1, h₄.1, h₅, h₆.1, h₇, add_zero, partDraws]

/-- The draws of a supplier whose address has `k` draws for its characters. -/
def suppDraws (k : ℕ) : Draws :=
  (1 + k) • drawOf sAddrSd + (drawOf sNtrgSd + (drawOf 98 + 3 • drawOf cPhneSd))

theorem metered_mkSupp (e : Env) (index : ℕ) :
    Metered (fun (n : Draws) s => (∃ k ≤ 24, n = suppDraws k) ∧ s.suppkey = index ∧
      6 ≤ s.address.length ∧ s.address.length ≤ 24) (mkSupp e index) := by
  refine (metered_vStr sAddrSd).bind fun _ address haddr => ?_
  refine (metered_pickNation e.dists sNtrgSd).bind fun _ nation h₂ => ?_
  refine (metered_genCity nation.2.1).bind fun _ _ h₃ => ?_
  refine (metered_genPhone nation.1 cPhneSd).bind fun _ _ h₄ => Metered.pure ?_
  obtain ⟨⟨k, hk, h₁⟩, hlen, _⟩ := haddr
  exact ⟨⟨k, hk, by rw [h₁, h₂, h₃, h₄, add_zero, suppDraws]⟩, rfl, hlen⟩

/-! ## The texts of the rows fit their fields -/

theorem length_distMember_le {d : Distribution} {len : ℕ} (h : d.Fits len) (i : ℕ) :
    (distMember d i).length ≤ len :=
  forall_distMember (P := fun text => text.length ≤ len) (Nat.zero_le len) h.2.2 i

theorem fits_pickStr {d : Distribution} {len : ℕ} (h : d.Fits len) (c : ℕ) :
    Returns (fun r => r.2.length ≤ len) (pickStr d c) :=
  Returns.bind_any fun _ => Returns.pure (length_distMember_le h _)

theorem fits_pickNation (d : Dists) (sd : ℕ) :
    Returns (fun r => r.2.1.length ≤ cNationNameLen ∧ r.2.2.length ≤ cRegionNameLen)
      (pickNation d sd) :=
  Returns.bind_any fun _ => Returns.pure
    ⟨length_distMember_le d.usable.1.1 _, length_distMember_le d.usable.2.1 _⟩

/-- A word goes to the color, the rest stays the name. -/
theorem genColor_append {word : Str} (hword : ' ' ∉ word) (rest : Str) :
    genColor (word ++ ' ' :: rest) = (word, rest) := by
  have hall : ∀ c ∈ word, decide (c ≠ ' ') = true := by
    intro c hc
    rw [decide_eq_true_iff]
    exact ne_of_mem_of_not_mem hc hword
  rw [genColor, List.takeWhile_append_of_pos hall, List.dropWhile_append_of_pos hall]
  simp

/-- Three colors, of which the first one is split off. -/
theorem fits_aggStr (d : Dists) (col : ℕ) :
    Returns (fun name => (genColor name).1.length ≤ colorLen ∧
      (genColor name).2.length ≤ 2 * colorLen + 1) (aggStr d.colors pNameScl col) := by
  obtain ⟨_, _, _, _, _, ⟨hfits, _, hblank⟩, _⟩ := d.usable
  refine Returns.bind_any fun perm => Returns.pure ?_
  let word (i : ℕ) := distMember d.colors (permuteNext perm i)
  have hlen (i : ℕ) : (word i).length ≤ colorLen := length_distMember_le hfits _
  have hword (i : ℕ) : ' ' ∉ word i :=
    forall_distMember (P := fun text => ' ' ∉ text) List.not_mem_nil hblank _
  have htext : ((List.range pNameScl).flatMap fun i => word i ++ [' ']).dropLast =
      word 0 ++ ' ' :: (word 1 ++ ' ' :: word 2) := by
    have hthree : List.range pNameScl = [0, 1, 2] := rfl
    have hall : (List.range pNameScl).flatMap (fun i => word i ++ [' ']) =
        (word 0 ++ ' ' :: (word 1 ++ ' ' :: word 2)) ++ [' '] := by
      simp [hthree]
    rw [hall, List.dropLast_concat]
  rw [htext, genColor_append (hword 0)]
  have h₁ := hlen 1
  have h₂ := hlen 2
  simp only [List.length_append, List.length_cons]
  exact ⟨hlen 0, by omega⟩

theorem fits_mkCust (e : Env) (nCust : ℕ) :
    Returns (fun c => c.nationName.length ≤ cNationNameLen ∧
      c.regionName.length ≤ cRegionNameLen ∧ c.mktsegment.length ≤ maxaggLen)
      (mkCust e nCust) := by
  refine Returns.bind_any fun address => ?_
  refine (fits_pickNation e.dists cNtrgSd).bind fun nation hnation => ?_
  refine Returns.bind_any fun city => Returns.bind_any fun phone => ?_
  refine (fits_pickStr e.dists.usable.2.2.2.2.1.1 cMsegSd).bind fun segment hsegment => ?_
  exact Returns.pure ⟨hnation.1, hnation.2, hsegment⟩

theorem fits_mkSupp (e : Env) (index : ℕ) :
    Returns (fun s => s.nationName.length ≤ cNationNameLen ∧
      s.regionName.length ≤ cRegionNameLen) (mkSupp e index) := by
  refine Returns.bind_any fun address => ?_
  refine (fits_pickNation e.dists sNtrgSd).bind fun nation hnation => ?_
  exact Returns.bind_any fun city => Returns.bind_any fun phone => Returns.pure hnation

theorem fits_mkPart (e : Env) (index : ℕ) :
    Returns (fun p => p.name.length ≤ pNameLen ∧ p.color.length ≤ pColorMax ∧
      p.type.length ≤ pTypeMax ∧ p.container.length ≤ pCntrLen) (mkPart e index) := by
  obtain ⟨_, _, _, _, _, _, ⟨htypes, _⟩, hcntrs, _⟩ := e.dists.usable
  refine (fits_aggStr e.dists pNameSd).bind fun name hname => ?_
  refine Returns.bind_any fun mfgr => Returns.bind_any fun cat => Returns.bind_any fun brnd => ?_
  refine (fits_pickStr htypes pTypeSd).bind fun type htype => Returns.bind_any fun size => ?_
  refine (fits_pickStr hcntrs pCntrSd).bind fun container hcontainer => Returns.pure ?_
  have hroom : 2 * colorLen + 1 ≤ pNameLen ∧ colorLen ≤ pColorMax := by decide
  exact ⟨hname.2.trans hroom.1, hname.1.trans hroom.2, htype, hcontainer⟩

/-! ## What an order refers to -/

/-- The loop ends, at a customer that has orders. -/
theorem custkeyLoop_spec {ckeyMax custkey : ℤ} (hmax : ckeyMax % 3 = 0) (hpos : 1 ≤ custkey)
    (hle : custkey ≤ ckeyMax) :
    let key := custkeyLoop ckeyMax 3 custkey 1
    1 ≤ key ∧ key ≤ ckeyMax ∧ key % custMortality ≠ 0 := by
  unfold custMortality
  by_cases h₁ : custkey % 3 = 0
  · rcases hle.eq_or_lt with rfl | hlt
    · -- the last customer: up is no way out, the next turn goes down
      have h₂ : min (custkey + 1) custkey = custkey := by omega
      have h₃ : min (custkey + -1) custkey = custkey - 1 := by omega
      have h₄ : ¬ (custkey - 1) % 3 = 0 := by omega
      simp only [custkeyLoop, custMortality, h₁, h₂, h₃, h₄, if_true, if_false]
      omega
    · have h₂ : min (custkey + 1) ckeyMax = custkey + 1 := by omega
      have h₃ : ¬ (custkey + 1) % 3 = 0 := by omega
      simp only [custkeyLoop, custMortality, h₁, h₂, h₃, if_true, if_false]
      omega
  · simp only [custkeyLoop, custMortality, h₁, if_false]
    omega

/-- The draws of a line. -/
def lineDraws : Draws :=
  drawOf lPkeySd + (drawOf lSkeySd + (drawOf lQtySd + (drawOf lDcntSd + (drawOf lTaxSd +
    (drawOf lCdteSd + drawOf lSmodeSd)))))

/-- The ranges of the keys have at most `2 ^ 31` numbers, and there are colors for a name. -/
structure Env.Drawable (e : Env) : Prop where
  scale_pos : 0 < e.scale
  customers : oCkeyMax e ≤ 2 ^ 31
  parts : lPkeyMax e ≤ 2 ^ 31
  colors : pNameScl ≤ e.dists.colors.count ∧ e.dists.colors.count < nM

/-- What is promised of a line of an order whose date has the number `tmpDate`. -/
structure LineOk (e : Env) (o : Order) (tmpDate : ℤ) (l : Lineorder) : Prop where
  okey : l.okey = o.okey
  custkey : l.custkey = o.custkey
  partkey : 1 ≤ l.partkey ∧ l.partkey ≤ lPkeyMax e
  suppkey : 1 ≤ l.suppkey ∧ l.suppkey ≤ lSkeyMax e
  orderdate : l.orderdate = o.odate
  commitDate : ∃ days, 30 ≤ days ∧ days ≤ 90 ∧ l.commitDate = ascDate (days + tmpDate)
  prices : l.extendedPrice = rpbRoutine l.partkey * l.quantity ∧
    l.revenue = l.extendedPrice * (100 - l.discount) / pennies ∧
    0 ≤ l.revenue ∧ l.revenue ≤ l.extendedPrice

/-- The total is set at the end, of the order and of its lines. -/
theorem LineOk.setTotal {e : Env} {o o' : Order} {tmpDate : ℤ} {l : Lineorder}
    (h : LineOk e o tmpDate l) (hokey : o'.okey = o.okey) (hcustkey : o'.custkey = o.custkey)
    (hodate : o'.odate = o.odate) (total : ℤ) :
    LineOk e o' tmpDate { l with orderTotalprice := total } where
  okey := h.okey.trans hokey.symm
  custkey := h.custkey.trans hcustkey.symm
  partkey := h.partkey
  suppkey := h.suppkey
  orderdate := h.orderdate.trans hodate.symm
  commitDate := h.commitDate
  prices := h.prices

theorem fits_mkLine (e : Env) (o : Order) (tmpDate : ℤ) (lcnt : ℕ) :
    Returns (fun l => l.1.shipmode.length ≤ oShipModeLen) (mkLine e o tmpDate lcnt) := by
  obtain ⟨_, _, _, ⟨hmodes, _⟩, _⟩ := e.dists.usable
  refine Returns.bind_any fun partkey => Returns.bind_any fun suppkey => Returns.bind_any
    fun quantity => Returns.bind_any fun discount => Returns.bind_any fun tax =>
      Returns.bind_any fun cDate => ?_
  exact (fits_pickStr hmodes lSmodeSd).bind fun mode hmode => Returns.pure hmode

theorem fits_mkOrder (e : Env) (index updNum : ℕ) :
    Returns (fun o => o.opriority.length ≤ opriorityLen) (mkOrder e index updNum) := by
  obtain ⟨_, _, ⟨hpriorities, _⟩, _⟩ := e.dists.usable
  refine Returns.bind_any fun tmpDate => Returns.bind_any fun custkey => ?_
  refine (fits_pickStr hpriorities oPrioSd).bind fun prio hprio => ?_
  exact Returns.bind_any fun clerk => Returns.bind_any fun lines => Returns.bind_any
    fun drawn => Returns.pure hprio

/-- What a line adds to the total of its order. -/
def lineTotal (l : Lineorder) : ℤ :=
  l.extendedPrice * (100 - l.discount) / pennies * (100 + l.tax) / pennies

theorem metered_mkLine {e : Env} (he : e.Drawable) (o : Order) (tmpDate : ℤ) (lcnt : ℕ) :
    Metered (fun (n : Draws) l => n = lineDraws ∧ LineOk e o tmpDate l.1 ∧
      l.1.linenumber = lcnt + 1 ∧ l.2 = lineTotal l.1) (mkLine e o tmpDate lcnt) := by
  have hpos := he.scale_pos
  have hcust := he.customers
  have hbases : oCkeyMax e = 30000 * e.scale ∧ lSkeyMax e = 2000 * e.scale ∧
      lPkeyMax e = 200000 * (e.floorLog + 1) := ⟨rfl, rfl, rfl⟩
  refine (metered_dssRandom 1 (lPkeyMax e) lPkeySd).bind fun _ partkey hpart => ?_
  refine (metered_dssRandom 1 (lSkeyMax e) lSkeySd).bind fun _ suppkey hsupp => ?_
  refine (metered_dssRandom 1 50 lQtySd).bind fun _ quantity hqty => ?_
  refine (metered_dssRandom 0 10 lDcntSd).bind fun _ discount hdcnt => ?_
  refine (metered_dssRandom 0 8 lTaxSd).bind fun _ tax htax => ?_
  refine (metered_dssRandom 30 90 lCdteSd).bind fun _ cDate hdate => ?_
  refine (metered_pickStr e.dists.lSmodeSet lSmodeSd).bind fun _ mode hmode => Metered.pure ?_
  have hpartkey := hpart.2 (by omega) (by have := he.parts; omega)
  have hsuppkey := hsupp.2 (by omega) (by omega)
  have hquantity := hqty.2 (by norm_num) (by norm_num)
  have hdiscount := hdcnt.2 (by norm_num) (by norm_num)
  have hdays := hdate.2 (by norm_num) (by norm_num)
  have hprice : 0 ≤ rpbRoutine partkey * quantity := by
    have : 0 ≤ rpbRoutine partkey := by
      unfold rpbRoutine
      omega
    exact mul_nonneg this (by omega)
  refine ⟨?_, ⟨rfl, rfl, hpartkey, hsuppkey, rfl, ⟨cDate, hdays.1, hdays.2, by dsimp only⟩, rfl,
    rfl, ?_, ?_⟩, rfl, rfl⟩
  · rw [hpart.1, hsupp.1, hqty.1, hdcnt.1, htax.1, hdate.1, hmode, add_zero, lineDraws]
  · exact Int.ediv_nonneg (mul_nonneg hprice (by omega)) (by norm_num [pennies])
  · refine Int.ediv_le_of_le_mul (by norm_num [pennies]) ?_
    exact mul_le_mul_of_nonneg_left (by unfold pennies; omega) hprice

/-- The draws of an order with so many lines. -/
def orderDraws (lines : ℕ) : Draws :=
  drawOf oOdateSd + (drawOf oCkeySd + (drawOf oPrioSd + (drawOf oClrkSd + (drawOf oLcntSd +
    lines • lineDraws))))

/-- What is promised of an order. -/
structure OrderOk (e : Env) (o : Order) : Prop where
  custkey : 1 ≤ o.custkey ∧ o.custkey ≤ oCkeyMax e ∧ o.custkey % custMortality ≠ 0
  lines : 1 ≤ o.lineorders.length ∧ o.lineorders.length ≤ 7
  numbered : o.lineorders.map Lineorder.linenumber = (List.range o.lineorders.length).map (· + 1)
  total : o.totalprice = (o.lineorders.map lineTotal).sum ∧
    ∀ l ∈ o.lineorders, l.orderTotalprice = o.totalprice
  dated : ∃ tmpDate, oOdateMin ≤ tmpDate ∧ tmpDate ≤ oOdateMax ∧ o.odate = ascDate tmpDate ∧
    ∀ l ∈ o.lineorders, LineOk e o tmpDate l

/-- The lines of an order. -/
theorem metered_lines {e : Env} (he : e.Drawable) (o : Order) (tmpDate : ℤ) (ls : List ℕ) :
    Metered (fun (n : Draws) drawn => n = drawn.length • lineDraws ∧
      (∀ l ∈ drawn, LineOk e o tmpDate l.1 ∧ l.2 = lineTotal l.1) ∧
      drawn.map (fun l => l.1.linenumber) = ls.map (· + 1)) (ls.mapM (mkLine e o tmpDate)) := by
  induction ls with
  | nil => exact Metered.pure ⟨(zero_nsmul _).symm, by simp, rfl⟩
  | cons lcnt ls ih =>
      rw [List.mapM_cons]
      refine (metered_mkLine he o tmpDate lcnt).bind fun _ l hl => ?_
      refine ih.bind fun _ drawn hdrawn => Metered.pure ?_
      obtain ⟨rfl, hok, hnumber, htotal⟩ := hl
      obtain ⟨rfl, hoks, hnumbers⟩ := hdrawn
      refine ⟨?_, ?_, by rw [List.map_cons, List.map_cons, hnumber, hnumbers]⟩
      · rw [add_zero, List.length_cons, succ_nsmul']
      · intro l' hl'
        rcases List.mem_cons.mp hl' with rfl | hl'
        · exact ⟨hok, htotal⟩
        · exact hoks l' hl'

/-- An order of which only the lines are left to set. -/
theorem OrderOk.of_setLines {e : Env} {o : Order} {tmpDate : ℤ} {drawn : List (Lineorder × ℤ)}
    (hkey : 1 ≤ o.custkey ∧ o.custkey ≤ oCkeyMax e ∧ o.custkey % custMortality ≠ 0)
    (hlines : 1 ≤ drawn.length ∧ drawn.length ≤ 7)
    (hnumbers : drawn.map (fun l => l.1.linenumber) = (List.range drawn.length).map (· + 1))
    (hdate : oOdateMin ≤ tmpDate ∧ tmpDate ≤ oOdateMax) (hodate : o.odate = ascDate tmpDate)
    (hoks : ∀ l ∈ drawn, LineOk e o tmpDate l.1 ∧ l.2 = lineTotal l.1) :
    OrderOk e (o.setLines drawn) where
  custkey := hkey
  lines := by simpa only [Order.setLines, List.length_map] using hlines
  numbered := by
    simp only [Order.setLines, List.map_map, List.length_map]
    exact hnumbers
  total := by
    constructor
    · simp only [Order.setLines, List.map_map]
      congr 1
      exact List.map_congr_left fun l hl => (hoks l hl).2
    · intro l hl
      obtain ⟨l', _, rfl⟩ := List.mem_map.mp hl
      rfl
  dated := by
    refine ⟨tmpDate, hdate.1, hdate.2, hodate, ?_⟩
    intro l hl
    obtain ⟨l', hl', rfl⟩ := List.mem_map.mp hl
    have hokey : (o.setLines drawn).okey = o.okey := rfl
    have hcustkey : (o.setLines drawn).custkey = o.custkey := rfl
    have hodate : (o.setLines drawn).odate = o.odate := rfl
    exact (hoks l' hl').1.setTotal hokey hcustkey hodate _

theorem metered_mkOrder {e : Env} (he : e.Drawable) (index updNum : ℕ) :
    Metered (fun (n : Draws) o => (∃ l ≤ 7, n = orderDraws l) ∧ OrderOk e o ∧
      o.okey = mkSparse e.scale index (orderSeq e.refresh updNum)) (mkOrder e index updNum) := by
  have hpos := he.scale_pos
  have hbase : oCkeyMax e = 30000 * e.scale := rfl
  refine (metered_dssRandom oOdateMin oOdateMax oOdateSd).bind fun _ tmpDate hdate => ?_
  refine (metered_dssRandom 1 (oCkeyMax e) oCkeySd).bind fun _ custkey hcust => ?_
  refine (metered_pickStr e.dists.oPrioritySet oPrioSd).bind fun _ opriority hprio => ?_
  refine (metered_dssRandom 1 (max (e.scale * 1000) 1000) oClrkSd).bind fun _ _ hclrk => ?_
  refine (metered_dssRandom 1 7 oLcntSd).bind fun _ lines hlines => ?_
  refine (metered_lines he _ tmpDate (List.range lines.toNat)).bind fun _ drawn hdrawn =>
    Metered.pure ?_
  have hdrawable := hcust.2 (by omega) (by have := he.customers; omega)
  have hcount := hlines.2 (by norm_num) (by norm_num)
  obtain ⟨hn, hoks, hnumbers⟩ := hdrawn
  have hlength : drawn.length = lines.toNat := by
    simpa using congrArg List.length hnumbers
  refine ⟨⟨drawn.length, by omega, ?_⟩, ?_, rfl⟩
  · rw [hdate.1, hcust.1, hprio, hclrk.1, hlines.1, hn, add_zero, orderDraws]
  · refine OrderOk.of_setLines ?_ (by omega) ?_ (hdate.2 (by decide) (by decide)) ?_ hoks
    · exact custkeyLoop_spec (by omega) hdrawable.1 hdrawable.2
    · rw [hnumbers, hlength]
    · dsimp only

/-! ## A small run -/

/-- Some members of the distributions. -/
def sampleDists : Dists where
  nations := distOf [("ALGERIA", 0), ("ARGENTINA", 1)]
  regions := distOf [("AFRICA", 1), ("AMERICA", 1)]
  oPrioritySet := distOf [("1-URGENT", 1)]
  lSmodeSet := distOf [("AIR", 1)]
  cMsegSet := distOf [("BUILDING", 1)]
  colors := distOf [("almond", 1), ("antique", 1), ("aquamarine", 1)]
  pTypesSet := distOf [("STANDARD ANODIZED TIN", 1)]
  pCntrSet := distOf [("SM CASE", 1)]
  usable := by decide

def sampleEnv : Env where
  scale := 2
  refresh := 10
  dists := sampleDists
  floorLog := 0
  floorLog2 := 1
  zone := fun _ => 0
  toUpperCase := List.map Char.toUpper

theorem sampleEnv_drawable : sampleEnv.Drawable where
  scale_pos := by decide
  customers := by decide
  parts := by decide
  colors := by decide

theorem sampleEnv_fromFirst : FromFirst sampleEnv.zone := .const (by decide) (by decide)

end Structor.Dbgen
