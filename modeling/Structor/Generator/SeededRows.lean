import Structor.Lists
import Structor.Range
import Structor.Seeding
import Structor.Text

/-!
# The phoenix and the all-types tables

Both generators write one row for each index of the child's range. All columns are drawn
from `random` and `faker`, which are seeded again with the index at every hundredth row.

## Main definitions

* `Sources` -- `random` and `faker`, as far as the rows draw from them
* `fakePhoenix`, `fakeAllTypes` -- the file of a child
* `unsplit` -- the same loop over the indexes of all children in one process
-/
namespace Structor.SeededRows
variable {ρ φ ν : Type}

/-- The two sources as state machines. Seeding forgets the state, and every draw depends on
the state only. `ν` are the floating point numbers, `fixed n` is the format `%0.nf`. -/
structure Sources (ρ φ ν : Type) where
  fixed : ℕ → ν → Str
  seed : ℤ → ρ
  randint : ℤ → ℤ → ρ → ℤ × ρ
  uniform : ℤ → ℤ → ρ → ν × ρ
  gammavariate : ℤ → ℤ → ρ → ν × ρ
  seedFaker : ℤ → φ
  paragraph : ℤ → φ → Str × φ
  name : φ → Str × φ
  zipcode : φ → Str × φ
  stateAbbr : φ → Str × φ
  ssn : φ → Str × φ
  boolean : φ → Bool × φ
  dateBetween : Str → Str → φ → Str × φ

/-- A draw from `random`. -/
def random {α : Type} (draw : ρ → α × ρ) : StateM (ρ × φ) α := fun s =>
  ((draw s.1).1, (draw s.1).2, s.2)

/-- A draw from `faker`. -/
def faker {α : Type} (draw : φ → α × φ) : StateM (ρ × φ) α := fun s =>
  ((draw s.2).1, s.1, (draw s.2).2)

/-- `str` of a truth value. -/
def strBool (b : Bool) : Str := if b then "True" else "False"

def reseedSplit : ℤ := 100

variable (src : Sources ρ φ ν)

/-- `random.seed(i)` and `faker.seed(i)` at every hundredth row. -/
def reseed (i : ℤ) : Option (ρ × φ) :=
  if i % reseedSplit = 0 then some (src.seed i, src.seedFaker i) else none

/-- The columns of row `i` of the phoenix table. -/
def phoenixRecord (i : ℤ) : StateM (ρ × φ) (List Str) := do
  let i₁ ← random (src.randint (-2147483648) 2147483647)
  let i₂ ← random (src.randint (-147483648) 147483647)
  let i₃ ← random (src.randint (-47483648) 47483647)
  let i₄ ← random (src.randint (-7483648) 7483647)
  let i₅ ← random (src.randint (-483648) 483647)
  let i₆ ← random (src.randint (-83648) 83647)
  let i₇ ← random (src.randint (-3648) 3647)
  let i₈ ← random (src.randint (-648) 647)
  let d₁ ← random (src.uniform (-100000) 100000)
  let d₂ ← random (src.uniform (-100000) 100000)
  let g₁ ← random (src.gammavariate 5 50)
  let g₂ ← random (src.gammavariate 5 50)
  let sentences ← random (src.randint 1 3)
  let text ← faker (src.paragraph sentences)
  let name ← faker src.name
  let b₁ ← faker src.boolean
  let b₂ ← faker src.boolean
  pure [decimal i, decimal i₁, decimal i₂, decimal i₃, decimal i₄, decimal i₅, decimal i₆,
    decimal i₇, decimal i₈, src.fixed 8 d₁, src.fixed 8 d₂, src.fixed 4 g₁, src.fixed 4 g₂,
    text, name, strBool b₁, strBool b₂]

def earliestDate : Str := "2014-01-01"
def latestDate : Str := "2015-12-31"

/-- The columns of a row of the table of all types. They do not mention the index. -/
def allTypesRecord (_ : ℤ) : StateM (ρ × φ) (List Str) := do
  let randomTinyint ← random (src.randint (-128) 127)
  let randomSmallint ← random (src.randint (-32768) 32767)
  let randomInt ← random (src.randint (-2147483648) 2147483647)
  let randomBigint ← random (src.randint (-9223372036854775808) 9223372036854775807)
  let randomFloat ← random (src.uniform (-1000) 1000)
  let randomDouble ← random (src.uniform (-100000) 100000)
  let randomDecimal18 ← random (src.gammavariate 5 50)
  let randomDecimal36 ← random (src.gammavariate 3 30)
  let sentences ← random (src.randint 1 7)
  let randomString ← faker (src.paragraph sentences)
  let randomVarchar5 ← faker src.zipcode
  let randomVarchar80 ← faker src.name
  let randomChar2 ← faker src.stateAbbr
  let randomChar11 ← faker src.ssn
  let randomBoolean ← faker src.boolean
  let randomDate ← faker (src.dateBetween earliestDate latestDate)
  let randomTimestamp := randomDate ++ (" 00:00:00" : Str)
  pure [decimal randomTinyint, decimal randomSmallint, decimal randomInt, decimal randomBigint,
    src.fixed 4 randomFloat, src.fixed 8 randomDouble, src.fixed 2 randomDecimal18,
    src.fixed 6 randomDecimal36, randomString, randomVarchar5, randomVarchar80, randomChar2,
    randomChar11, strBool randomBoolean, randomDate, randomTimestamp]

/-- The indexes of a child. -/
def rowRange (scale child : ℤ) : List ℤ :=
  if scale > 1 then xrange (child * 1024 * 100) ((child + 1) * 1024 * 100) else xrange 0 100

/-- The rows of a child whose sources start in the state `s`, or an argument mismatch. -/
def splitRows (record : ℤ → StateM (ρ × φ) (List Str)) (scale child : ℤ) (s : ρ × φ) :
    Option (List (List Str)) :=
  if child ≥ scale then none
  else some (Seeding.rowLoop (reseed src) record (rowRange scale child) s)

def fakePhoenix (scale child : ℤ) (s : ρ × φ) : Option (List (List Str)) :=
  splitRows src (phoenixRecord src) scale child s

def fakeAllTypes (scale child : ℤ) (s : ρ × φ) : Option (List (List Str)) :=
  splitRows src (allTypesRecord src) scale child s

/-- The row loop over the indexes of all children, in one process. -/
def unsplit (record : ℤ → StateM (ρ × φ) (List Str)) (scale : ℤ) (s : ρ × φ) : List (List Str) :=
  Seeding.rowLoop (reseed src) record (xrange 0 (scale * 102400)) s

/-! ## Splitting -/

/-- The rows of all children, in order. The sources of child `c` start in the state `init c`. -/
def concatenated (file : ℤ → ρ × φ → Option (List (List Str))) (scale : ℤ) (init : ℕ → ρ × φ) :
    Option (List (List Str)) :=
  ((List.range scale.toNat).mapM fun (child : ℕ) => file child (init child)).map List.flatten

/-- The range of a child begins where the sources are seeded. -/
theorem fresh_rowRange (scale child : ℤ) :
    Seeding.Fresh (reseed src) (rowRange scale child) := by
  have hhead : ∀ a b : ℤ, a % reseedSplit = 0 → Seeding.Fresh (reseed src) (xrange a b) := by
    intro a b ha i hi
    rcases Int.lt_or_le a b with hlt | hle
    · rw [xrange_of_lt hlt, List.head?_cons, Option.mem_some] at hi
      rw [← hi, reseed, if_pos ha]
      rfl
    · rw [xrange_of_le hle] at hi
      cases hi
  rw [rowRange]
  split_ifs
  · exact hhead _ _ (by rw [reseedSplit]; omega)
  · exact hhead _ _ rfl

theorem flatMap_rowRange {scale : ℤ} (h : 1 < scale) :
    ((List.range scale.toNat).flatMap fun (child : ℕ) => rowRange scale child) =
      xrange 0 (scale * 102400) := by
  have hblocks := flatMap_xrange_blocks (k := 102400) (by decide) scale.toNat
  rw [Int.toNat_of_nonneg (by omega)] at hblocks
  rw [← hblocks]
  refine List.flatMap_congr fun child _ => ?_
  rw [rowRange, if_pos h, Int.mul_assoc, Int.mul_assoc]
  rfl

theorem concatenated_splitRows (record : ℤ → StateM (ρ × φ) (List Str)) {scale : ℤ}
    (h : 1 < scale) (init : ℕ → ρ × φ) (s : ρ × φ) :
    concatenated (splitRows src record scale) scale init = some (unsplit src record scale s) := by
  have hfile : ∀ child ∈ List.range scale.toNat,
      splitRows src record scale child (init child) =
        some (Seeding.rowLoop (reseed src) record (rowRange scale child) (init child)) := by
    intro child hchild
    rw [List.mem_range] at hchild
    rw [splitRows, if_neg (by omega)]
  rw [concatenated, mapM_eq_some hfile, Option.map_some, unsplit, ← flatMap_rowRange h,
    Seeding.rowLoop_flatMap (fun child : ℕ => rowRange scale child) _
      (fun child _ => fresh_rowRange src scale child) init]
  rfl

/-- Whatever state the sources of the children start in, their files together are the rows of
one process that does not split the range. -/
theorem split_eq_unsplit {scale : ℤ} (h : 1 < scale) (init : ℕ → ρ × φ) (s : ρ × φ) :
    concatenated (fakePhoenix src scale) scale init =
      some (unsplit src (phoenixRecord src) scale s) ∧
      concatenated (fakeAllTypes src scale) scale init =
        some (unsplit src (allTypesRecord src) scale s) :=
  ⟨concatenated_splitRows src (phoenixRecord src) h init s,
    concatenated_splitRows src (allTypesRecord src) h init s⟩

/-- Sources whose state is a counter of the draws. -/
def counters : Sources ℤ ℤ ℤ where
  fixed := fun _ x => decimal x
  seed := fun i => i
  randint := fun a b s => (a + s % (b - a + 1), s + 1)
  uniform := fun a b s => (a + s % (b - a), s + 1)
  gammavariate := fun a _ s => (a + s % 10, s + 1)
  seedFaker := fun i => i
  paragraph := fun n s => (decimal (n + s), s + 1)
  name := fun s => (decimal s, s + 1)
  zipcode := fun s => (decimal s, s + 1)
  stateAbbr := fun s => (decimal s, s + 1)
  ssn := fun s => (decimal s, s + 1)
  boolean := fun s => (decide (s % 2 = 0), s + 1)
  dateBetween := fun start _ s => (start, s + 1)

/-- Two children with counters, against one process. -/
theorem split_counters :
    concatenated (fakePhoenix counters 2) 2 (fun child => (child, 7)) =
        some (unsplit counters (phoenixRecord counters) 2 (0, 0)) ∧
      concatenated (fakeAllTypes counters 2) 2 (fun child => (child, 7)) =
        some (unsplit counters (allTypesRecord counters) 2 (0, 0)) :=
  split_eq_unsplit counters (by decide) (fun child => (child, 7)) (0, 0)

end Structor.SeededRows
