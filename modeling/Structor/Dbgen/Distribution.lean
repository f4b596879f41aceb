import Mathlib.Data.List.Perm.Basic
import Mathlib.Data.List.TakeWhile
import Mathlib.Order.Interval.Finset.Nat
import Structor.Dbgen.Seeds
import Structor.Text

/-!
# The distributions of the star schema data generator

`dists.dss` holds lists of texts with weights, each between `BEGIN` and `END` lines.
`read_dist` finds one by its name and adds the weights up; `pick_str` draws a text by them,
and `agg_str` joins the first texts of a shuffled distribution. A character stands for a byte.

## Main results

* `readDist_distText` -- a distribution is found among others and read back
* `pickStr_spec` -- a text is picked by as many numbers as its weight says
* `permute_perm` -- whatever is drawn, the shuffle gives a permutation
* `aggStr_spec` -- an aggregated text has no member twice
-/
namespace Structor.Dbgen

/-! ## Reading -/

structure SetMember where
  weight : ℤ
  text : Str
deriving DecidableEq

/-- `count` and `max` have the type `int`. -/
structure Distribution where
  count : ℤ
  max : ℤ
  list : List SetMember
deriving DecidableEq

/-- A value that is stored in an `int`. -/
def toInt (z : ℤ) : ℤ := z.bmod (2 ^ 32)

theorem toInt_eq {z : ℤ} (hlow : -2 ^ 31 ≤ z) (hhigh : z < 2 ^ 31) : toInt z = z :=
  Int.bmod_eq_of_le (by omega) (by omega)

/-- `undefined` is where the source follows a null pointer, writes behind the list of the
members or a field of a row, leaves some of it unset, or has a list whose size is no `size_t`. -/
inductive ReadError
  | undefined
  | readError
deriving DecidableEq

/-- `fgets` with room for so many characters: the line with its newline, and the rest. -/
def fgets : ℕ → Str → Str × Str
  | 0, s => ([], s)
  | _ + 1, [] => ([], [])
  | room + 1, c :: s =>
      if c = '\n' then (['\n'], s) else (c :: (fgets room s).1, (fgets room s).2)

theorem fgets_append (room : ℕ) (s : Str) : (fgets room s).1 ++ (fgets room s).2 = s := by
  induction room generalizing s with
  | zero => rfl
  | succ room ih =>
      cases s with
      | nil => rfl
      | cons c s =>
          rw [fgets]
          split_ifs with h
          · simp [h]
          · simp [ih]

/-- The lines that the buffer is filled with, one after the other. -/
def lines (s : Str) : List Str :=
  if _h : (fgets 255 s).1 = [] then [] else (fgets 255 s).1 :: lines (fgets 255 s).2
termination_by s.length
decreasing_by
  have hlen := congrArg List.length (fgets_append 255 s)
  have hpos := List.length_pos_of_ne_nil _h
  rw [List.length_append] at hlen
  omega

/-- The line up to its end or a comment. -/
def cutLine (line : Str) : Str :=
  (line.takeWhile fun c => c ≠ '\n' ∧ c ≠ '\x00').takeWhile (· ≠ '#')

/-- What `strtok` gives for a line, one after the other. -/
def tokens (line : Str) : List Str :=
  (line.splitOnP fun c => c = '\n' || c = '\t' || c = ' ').filter (· ≠ [])

/-- `dsscasecmp` is zero. -/
def sameCase (s t : Str) : Bool := s.map Char.toLower = t.map Char.toLower

def isSpace (c : Char) : Bool := c ∈ [' ', '\t', '\n', '\x0b', '\x0c', '\r']

/-- The `long` next to a number. -/
def toLong (z : ℤ) : ℤ := Max.max (-2 ^ 63) (Min.min (2 ^ 63 - 1) z)

/-- `%ld`: blanks, a sign and digits. -/
def scanLong (s : Str) : Option ℤ :=
  let s := s.dropWhile isSpace
  let sign := s.head? = some '-'
  let s := if s.head? = some '-' ∨ s.head? = some '+' then s.tail else s
  let digits := s.takeWhile Char.isDigit
  if digits = [] then none
  else some (toLong (if sign then -Nat.ofDigitChars 10 digits 0 else Nat.ofDigitChars 10 digits 0))

/-- `sscanf(line, "%[^|]|%ld", token, &weight) == 2`. -/
def scanMember (line : Str) : Option (Str × ℤ) :=
  let token := line.takeWhile (· ≠ '|')
  if token = [] then none
  else if (line.dropWhile (· ≠ '|')) = [] then none
  else (scanLong (line.dropWhile (· ≠ '|')).tail).map fun weight => (token, weight)

/-- The loop before the name is found: the lines after it, if it is found. -/
def findName (name : Str) : List Str → Except ReadError (Option (List Str))
  | [] => .ok none
  | l :: rest =>
      let line := cutLine l
      if line = [] then findName name rest
      else
        match tokens line with
        | [] => .error .undefined
        | first :: more =>
            if sameCase first "BEGIN" then
              match more with
              | [] => .error .undefined
              | second :: _ => if sameCase second name then .ok (some rest) else findName name rest
            else findName name rest

/-- The loop over the members. `target` has no list before a `count` line, and there is room for
so many members in the list. -/
def readMembers (room : ℤ) :
    List Str → Option Distribution → Except ReadError (Option Distribution × Bool)
  | [], target => .ok (target, false)
  | l :: rest, target =>
      let line := cutLine l
      if line = [] then readMembers room rest target
      else if sameCase (line.take 3) "END" then .ok (target, true)
      else
        match scanMember line with
        | none => readMembers room rest target
        | some (token, weight) =>
            if sameCase token "count" then
              match target with
              | some ⟨_, _, _ :: _⟩ => .error .undefined
              | _ =>
                  if 0 ≤ weight ∧ 16 * weight < 2 ^ 64 then
                    readMembers weight rest (some ⟨toInt weight, 0, []⟩)
                  else .error .undefined
            else
              match target with
              | none => .error .undefined
              | some d =>
                  if d.list.length < room then
                    let max := toInt (d.max + weight)
                    readMembers room rest (some ⟨d.count, max, d.list ++ [⟨max, token⟩]⟩)
                  else .error .undefined

/-- Only at the end of the file the number of the members is compared with `count`. -/
def readDist (file name : Str) : Except ReadError Distribution := do
  let found ← findName name (lines file)
  let (target, ended) ← readMembers 0 (found.getD []) none
  let d := target.getD ⟨0, 0, []⟩
  if ended ∨ d.list.length = d.count then .ok d else .error .readError

/-! ## Drawing -/

/-- `while (s->list[i].weight < j) i++`. -/
def pickIndex (s : Distribution) (j : ℤ) : ℕ := s.list.findIdx fun m => j ≤ m.weight

def distMember (d : Distribution) (i : ℕ) : Str := (d.list.map SetMember.text).getD i []

/-- What the texts of the members have in common. -/
theorem forall_distMember {d : Distribution} {P : Str → Prop} (hnil : P [])
    (h : ∀ m ∈ d.list, P m.text) (i : ℕ) : P (distMember d i) := by
  rw [distMember, List.getD_eq_getElem?_getD]
  cases hi : (d.list.map SetMember.text)[i]? with
  | none => exact hnil
  | some text =>
      obtain ⟨m, hm, rfl⟩ := List.mem_map.mp (List.mem_of_getElem? hi)
      exact h m hm

/-- `s->list[s->count - 1].weight` -/
def lastWeight (s : Distribution) : ℤ := (s.list.map SetMember.weight).getD (s.count - 1).toNat 0

/-- The member that a number stands for. -/
def picked (s : Distribution) (j : ℤ) : ℕ × Str := (pickIndex s j, distMember s (pickIndex s j))

def pickStr (s : Distribution) (c : ℕ) : StateM Streams (ℕ × Str) := do
  let j ← dssRandom 1 (lastWeight s) c
  pure (picked s j)

theorem pickStr_eq (s : Distribution) (c : ℕ) (σ : Streams) : pickStr s c σ =
    (picked s (dssRandom 1 (lastWeight s) c σ).1, (dssRandom 1 (lastWeight s) c σ).2) := rfl

/-- The exchange of `*(a + source)` and `*(a + i)`. -/
def exchange (a : List ℕ) (source i : ℕ) : List ℕ :=
  (a.set source (a.getD i 0)).set i (a.getD source 0)

/-- `permute` with an array: the numbers below `c`, shuffled. -/
def permute (c s : ℕ) : StateM Streams (List ℕ) :=
  (List.range c).foldlM (fun a i => do
    let source ← dssRandom 0 ((c : ℤ) - 1) s
    pure (exchange a source.toNat i)) (List.range c)

/-- The call of `permute` number `i` after a shuffle, without an array: the next place, from the
end back to the start. -/
def permuteNext (perm : List ℕ) (i : ℕ) : ℕ := perm.getD (i % perm.length) 0

/-- Each text with a blank behind it, except for the last blank. -/
def aggStr (set : Distribution) (count col : ℕ) : StateM Streams Str := do
  let perm ← permute set.count.toNat col
  pure ((List.range count).flatMap fun i => distMember set (permuteNext perm i) ++ [' ']).dropLast

/-- The first word of a name goes to the color: color and name. -/
def genColor (source : Str) : Str × Str :=
  (source.takeWhile (· ≠ ' '), (source.dropWhile (· ≠ ' ')).tail)

/-! ## Lines -/

theorem fgets_line {l : Str} (hl : '\n' ∉ l) {room : ℕ} (h : l.length < room) (s : Str) :
    fgets room (l ++ '\n' :: s) = (l ++ ['\n'], s) := by
  induction l generalizing room with
  | nil =>
      obtain ⟨room, rfl⟩ : ∃ k, room = k + 1 := ⟨room - 1, by simp at h; omega⟩
      simp [fgets]
  | cons c l ih =>
      obtain ⟨room, rfl⟩ : ∃ k, room = k + 1 := ⟨room - 1, by simp at h; omega⟩
      simp only [List.mem_cons, not_or] at hl
      rw [List.cons_append, fgets, if_neg (Ne.symm hl.1), ih hl.2 (by simpa using h)]
      rfl

/-- Lines, each with its end. -/
def joinLines (ls : List Str) : Str := ls.flatMap (· ++ ['\n'])

/-- The lines fit the buffer. -/
def Fitting (ls : List Str) : Prop := ∀ l ∈ ls, '\n' ∉ l ∧ l.length < 255

theorem lines_joinLines {ls : List Str} (h : Fitting ls) :
    lines (joinLines ls) = ls.map (· ++ ['\n']) := by
  induction ls with
  | nil =>
      rw [lines]
      simp [joinLines, fgets]
  | cons l ls ih =>
      obtain ⟨hl, hlen⟩ := h l List.mem_cons_self
      have hfirst : fgets 255 (joinLines (l :: ls)) = (l ++ ['\n'], joinLines ls) := by
        rw [joinLines, List.flatMap_cons, List.append_assoc]
        exact fgets_line hl hlen _
      rw [lines, dif_neg (by simp [hfirst]), hfirst, List.map_cons,
        ih fun l' hl' => h l' (List.mem_cons_of_mem l hl')]

@[simp] theorem cutLine_append (l : Str) : cutLine (l ++ ['\n']) = cutLine l := by
  rw [cutLine, cutLine]
  congr 1
  induction l with
  | nil => rfl
  | cons c l ih =>
      rw [List.cons_append, List.takeWhile_cons, List.takeWhile_cons, ih]

/-- A line without a comment. -/
structure Plain (l : Str) : Prop where
  ne_nil : l ≠ []
  plain : ∀ c ∈ l, c ≠ '\n' ∧ c ≠ '\x00' ∧ c ≠ '#'

theorem cutLine_of_plain {l : Str} (h : Plain l) : cutLine (l ++ ['\n']) = l := by
  have htext : (l.takeWhile fun c => c ≠ '\n' ∧ c ≠ '\x00') = l :=
    List.takeWhile_eq_self_iff.mpr fun c hc =>
      decide_eq_true ⟨(h.plain c hc).1, (h.plain c hc).2.1⟩
  rw [cutLine_append, cutLine, htext]
  exact List.takeWhile_eq_self_iff.mpr fun c hc => decide_eq_true (h.plain c hc).2.2

theorem Plain.append {l l' : Str} (h : Plain l) (h' : ∀ c ∈ l', c ≠ '\n' ∧ c ≠ '\x00' ∧ c ≠ '#') :
    Plain (l ++ l') where
  ne_nil := List.append_ne_nil_of_left_ne_nil h.ne_nil l'
  plain := List.forall_mem_append.mpr ⟨h.plain, h'⟩

theorem plain_decimal (z : ℤ) : ∀ c ∈ decimal z, c ≠ '\n' ∧ c ≠ '\x00' ∧ c ≠ '#' := by
  intro c hc
  refine ⟨?_, ?_, ?_⟩
  · rintro rfl
    exact not_mem_decimal (by decide) (by decide) hc
  · rintro rfl
    exact not_mem_decimal (by decide) (by decide) hc
  · rintro rfl
    exact not_mem_decimal (by decide) (by decide) hc

/-! ## Numbers in a text -/

/-- The digits of a number, with or without a sign before them. -/
theorem scanLong_digits {ds : Str} (hne : ds ≠ []) (hds : ∀ c ∈ ds, c.isDigit = true) :
    scanLong ds = some (toLong (Nat.ofDigitChars 10 ds 0 : ℤ)) ∧
      scanLong ('-' :: ds) = some (toLong (-(Nat.ofDigitChars 10 ds 0 : ℤ))) := by
  have htake : ds.takeWhile Char.isDigit = ds := List.takeWhile_eq_self_iff.mpr hds
  have hdrop : ds.dropWhile isSpace = ds ∧ ds.head? ≠ some '-' ∧ ds.head? ≠ some '+' := by
    cases ds with
    | nil => exact absurd rfl hne
    | cons c ds =>
        have hc := hds c List.mem_cons_self
        have hspace : isSpace c = false := by
          by_contra h
          simp only [Bool.not_eq_false, isSpace, decide_eq_true_eq, List.mem_cons,
            List.not_mem_nil, or_false] at h
          rcases h with rfl | rfl | rfl | rfl | rfl | rfl <;> exact absurd hc (by decide)
        refine ⟨by simp [hspace], ?_, ?_⟩ <;>
        · intro h
          obtain rfl := Option.some.inj h
          exact absurd hc (by decide)
  obtain ⟨hspace, hminus, hplus⟩ := hdrop
  refine ⟨?_, ?_⟩
  · simp [scanLong, hspace, hminus, hplus, htake, hne]
  · have hdash : isSpace '-' = false := by decide
    simp [scanLong, hdash, htake, hne]

theorem scanLong_decimal (z : ℤ) : scanLong (decimal z) = some (toLong z) := by
  have hdigits : ∀ n : ℕ, ∀ c ∈ Nat.toDigits 10 n, c.isDigit = true := fun n c hc =>
    Nat.isDigit_of_mem_toDigits (by norm_num) (by norm_num) hc
  cases z with
  | ofNat n =>
      have h : decimal (Int.ofNat n) = Nat.toDigits 10 n := by simp [decimal, Int.repr, Nat.repr]
      rw [h, (scanLong_digits Nat.toDigits_ne_nil (hdigits n)).1, Nat.ofDigitChars_ten_toDigits]
      rfl
  | negSucc n =>
      have h : decimal (Int.negSucc n) = '-' :: Nat.toDigits 10 (n + 1) := by
        simp [decimal, Int.repr, Nat.repr]
      rw [h, (scanLong_digits Nat.toDigits_ne_nil (hdigits (n + 1))).2,
        Nat.ofDigitChars_ten_toDigits]
      rfl

/-- A line with the text before the separator. -/
theorem scanMember_append {text : Str} (hne : text ≠ []) (htext : '|' ∉ text) (z : ℤ) :
    scanMember (text ++ "|".toList ++ decimal z) = some (text, toLong z) := by
  have hall : ∀ c ∈ text, decide (c ≠ '|') = true := fun c hc => by
    simp only [ne_eq, decide_eq_true_eq]
    rintro rfl
    exact htext hc
  have hbar : "|".toList ++ decimal z = '|' :: decimal z := rfl
  have htake : (text ++ "|".toList ++ decimal z).takeWhile (· ≠ '|') = text := by
    rw [List.append_assoc, hbar, List.takeWhile_append_of_pos hall]
    simp
  have hdrop : (text ++ "|".toList ++ decimal z).dropWhile (· ≠ '|') = '|' :: decimal z := by
    rw [List.append_assoc, hbar, List.dropWhile_append_of_pos hall]
    simp
  rw [scanMember, htake, hdrop, if_neg hne, if_neg (List.cons_ne_nil _ _), List.tail_cons,
    scanLong_decimal, Option.map_some]

/-! ## A distribution is read back -/

/-- The lines of a distribution with its members and their own weights. -/
def distText (name : Str) (members : List (Str × ℤ)) : List Str :=
  ["BEGIN ".toList ++ name, "COUNT".toList ++ "|".toList ++ decimal members.length] ++
    members.map (fun m => m.1 ++ "|".toList ++ decimal m.2) ++ ["END ".toList ++ name]

/-- The weights added up, from a sum on. -/
def cumulate : ℤ → List (Str × ℤ) → List SetMember
  | _, [] => []
  | sum, m :: members => ⟨sum + m.2, m.1⟩ :: cumulate (sum + m.2) members

def sumWeights (members : List (Str × ℤ)) : ℤ := (members.map Prod.snd).sum

variable {sum : ℤ} {m : Str × ℤ} {members : List (Str × ℤ)}

/-- What is read for some members. -/
def distOf (members : List (Str × ℤ)) : Distribution :=
  ⟨members.length, sumWeights members, cumulate 0 members⟩

@[simp] theorem length_cumulate (sum : ℤ) (members : List (Str × ℤ)) :
    (cumulate sum members).length = members.length := by
  induction members generalizing sum with
  | nil => rfl
  | cons m members ih => simp [cumulate, ih]

/-- The number of the members and every sum that is added up have the type `int`, from a sum
on. -/
structure Bounded (sum : ℤ) (members : List (Str × ℤ)) : Prop where
  length_lt : members.length < 2 ^ 31
  sum_mem : ∀ i, -2 ^ 31 ≤ sum + sumWeights (members.take i) ∧
    sum + sumWeights (members.take i) < 2 ^ 31

theorem Bounded.mem (h : Bounded sum members) : -2 ^ 31 ≤ sum ∧ sum < 2 ^ 31 := by
  simpa [sumWeights] using h.sum_mem 0

theorem Bounded.tail (h : Bounded sum (m :: members)) : Bounded (sum + m.2) members where
  length_lt := by
    have hlen := h.length_lt
    rw [List.length_cons] at hlen
    omega
  sum_mem i := by
    have hsum := h.sum_mem (i + 1)
    rwa [List.take_succ_cons, sumWeights, List.map_cons, List.sum_cons, ← sumWeights,
      ← add_assoc] at hsum

theorem sumWeights_nonneg (h : ∀ m ∈ members, 0 ≤ m.2) :
    0 ≤ sumWeights members := by
  refine List.sum_nonneg fun w hw => ?_
  obtain ⟨m, hm, rfl⟩ := List.mem_map.mp hw
  exact h m hm

theorem sumWeights_take_le (hw : ∀ m ∈ members, 0 ≤ m.2) (i : ℕ) :
    sumWeights (members.take i) ≤ sumWeights members := by
  have hsplit : sumWeights members = sumWeights (members.take i) + sumWeights (members.drop i) := by
    conv_lhs => rw [← List.take_append_drop i members]
    simp [sumWeights]
  have : 0 ≤ sumWeights (members.drop i) :=
    sumWeights_nonneg fun m hm => hw m (List.mem_of_mem_drop hm)
  omega

theorem bounded_of_nonneg (hlen : members.length < 2 ^ 31) (hw : ∀ m ∈ members, 0 ≤ m.2)
    (hsum : sumWeights members < 2 ^ 31) : Bounded 0 members where
  length_lt := hlen
  sum_mem i := by
    have hnonneg : 0 ≤ sumWeights (members.take i) :=
      sumWeights_nonneg fun m hm => hw m (List.mem_of_mem_take hm)
    have hle := sumWeights_take_le hw i
    omega

/-- A name that is one token. -/
structure NameText (name : Str) : Prop where
  ne_nil : name ≠ []
  plain : ∀ c ∈ name, c ≠ '\n' ∧ c ≠ '\x00' ∧ c ≠ '#' ∧ c ≠ '\t' ∧ c ≠ ' '

/-- The text of a member that is read as one. -/
structure MemberText (text : Str) : Prop where
  ne_nil : text ≠ []
  plain : ∀ c ∈ text, c ≠ '\n' ∧ c ≠ '\x00' ∧ c ≠ '#' ∧ c ≠ '|'
  not_end : ∀ z, sameCase ((text ++ "|".toList ++ decimal z).take 3) "END" = false
  not_count : sameCase text "count" = false

/-- A line before the distribution: nothing of it begins a distribution of the name. -/
def Other (name l : Str) : Prop :=
  cutLine l = [] ∨ ∃ first more, tokens (cutLine l) = first :: more ∧
    (sameCase first "BEGIN" = true → ∃ second rest, more = second :: rest ∧
      sameCase second name = false)

theorem findName_other {name : Str} {before rest : List Str} (h : ∀ l ∈ before, Other name l) :
    findName name (before.map (· ++ ['\n']) ++ rest) = findName name rest := by
  induction before with
  | nil => rfl
  | cons l before ih =>
      have hrest := ih fun l' hl' => h l' (List.mem_cons_of_mem l hl')
      rw [List.map_cons, List.cons_append, findName, cutLine_append]
      rcases h l List.mem_cons_self with hempty | ⟨first, more, htokens, hbegin⟩
      · rw [if_pos hempty, hrest]
      · split_ifs
        · exact hrest
        · simp only [htokens]
          split_ifs with hfirst
          · obtain ⟨second, rest', rfl, hsecond⟩ := hbegin hfirst
            simp [hsecond, hrest]
          · exact hrest

/-- A line with the name behind a word. -/
theorem NameText.plain_append {name : Str} (h : NameText name) {word : Str} (hword : Plain word) :
    Plain (word ++ name) :=
  hword.append fun c hc => ⟨(h.plain c hc).1, (h.plain c hc).2.1, (h.plain c hc).2.2.1⟩

theorem tokens_begin {name : Str} (h : NameText name) :
    tokens ("BEGIN ".toList ++ name) = ["BEGIN".toList, name] := by
  have hsplit : "BEGIN ".toList ++ name = "BEGIN".toList ++ ' ' :: name := by simp
  have hname : ∀ c ∈ name, (c = '\n' || c = '\t' || c = ' ' : Bool) = false := fun c hc => by
    obtain ⟨h₁, _, _, h₂, h₃⟩ := h.plain c hc
    simp [h₁, h₂, h₃]
  rw [tokens, hsplit, List.splitOnP_append_cons_of_forall_mem (by simp) ' ' (by decide),
    List.splitOnP_eq_singleton hname]
  simp [h.ne_nil]

theorem findName_begin {name : Str} (h : NameText name) (rest : List Str) :
    findName name (("BEGIN ".toList ++ name ++ ['\n']) :: rest) = .ok (some rest) := by
  have hplain : Plain ("BEGIN ".toList ++ name) := h.plain_append ⟨by simp, by simp⟩
  have hbegin : sameCase "BEGIN" "BEGIN" = true := by decide
  have hsame : sameCase name name = true := decide_eq_true rfl
  rw [findName, cutLine_of_plain hplain, if_neg hplain.ne_nil, tokens_begin h]
  simp only [if_pos hbegin, if_pos hsame]

theorem plain_member {m : Str × ℤ} (h : MemberText m.1) :
    Plain (m.1 ++ "|".toList ++ decimal m.2) := by
  have htext : Plain m.1 :=
    ⟨h.ne_nil, fun c hc => ⟨(h.plain c hc).1, (h.plain c hc).2.1, (h.plain c hc).2.2.1⟩⟩
  exact (htext.append (by simp)).append (plain_decimal m.2)

/-- One member is added, with the weights up to it. -/
theorem readMembers_member (h : MemberText m.1) {d : Distribution}
    (hbounded : Bounded d.max (m :: members)) {room : ℤ} (hroom : d.list.length < room)
    (rest : List Str) :
    readMembers room ((m.1 ++ "|".toList ++ decimal m.2 ++ ['\n']) :: rest) (some d) =
      readMembers room rest
        (some ⟨d.count, d.max + m.2, d.list ++ [⟨d.max + m.2, m.1⟩]⟩) := by
  obtain ⟨hlow, hhigh⟩ := hbounded.mem
  obtain ⟨hlow', hhigh'⟩ := hbounded.tail.mem
  have hlong : toLong m.2 = m.2 := by
    rw [toLong]
    omega
  have hplain := plain_member h
  have hscan := scanMember_append h.ne_nil (fun hc => (h.plain _ hc).2.2.2 rfl) m.2
  rw [hlong] at hscan
  rw [readMembers, cutLine_of_plain hplain, if_neg hplain.ne_nil,
    if_neg (by rw [h.not_end m.2]; exact Bool.false_ne_true), hscan]
  simp only [h.not_count, Bool.false_eq_true, if_false, if_pos hroom, toInt_eq hlow' hhigh']

theorem readMembers_members (h : ∀ m ∈ members, MemberText m.1) {d : Distribution}
    (hbounded : Bounded d.max members) (room : ℤ)
    (hroom : (d.list.length : ℤ) + members.length ≤ room) (rest : List Str) :
    readMembers room ((members.map fun m => m.1 ++ "|".toList ++ decimal m.2 ++ ['\n']) ++ rest)
        (some d) =
      readMembers room rest (some ⟨d.count, d.max + sumWeights members,
        d.list ++ cumulate d.max members⟩) := by
  induction members generalizing d with
  | nil => simp [sumWeights, cumulate]
  | cons m members ih =>
      simp only [List.length_cons, Nat.cast_add, Nat.cast_one] at hroom
      rw [List.map_cons, List.cons_append,
        readMembers_member (h m List.mem_cons_self) hbounded (by omega),
        ih (fun m' hm' => h m' (List.mem_cons_of_mem m hm')) hbounded.tail (by simp; omega)]
      simp [sumWeights, cumulate, add_assoc]

theorem readMembers_count {n : ℕ} (hn : n < 2 ^ 31) (room : ℤ) (rest : List Str) :
    readMembers room (("COUNT".toList ++ "|".toList ++ decimal n ++ ['\n']) :: rest) none =
      readMembers n rest (some ⟨n, 0, []⟩) := by
  have hlong : toLong n = n := by
    rw [toLong]
    omega
  have hcount : Plain "COUNT".toList := ⟨by simp, by simp⟩
  have hplain : Plain ("COUNT".toList ++ "|".toList ++ decimal n) :=
    (hcount.append (by simp)).append (plain_decimal n)
  have hend : sameCase (("COUNT".toList ++ "|".toList ++ decimal n).take 3) "END" = false := rfl
  have hscan := scanMember_append (show "COUNT".toList ≠ [] by decide) (by decide) (n : ℤ)
  have hsame : sameCase "COUNT".toList "count" = true := by decide
  have hsize : (0 : ℤ) ≤ n ∧ 16 * (n : ℤ) < 2 ^ 64 := by omega
  rw [hlong] at hscan
  rw [readMembers, cutLine_of_plain hplain, if_neg hplain.ne_nil,
    if_neg (by rw [hend]; exact Bool.false_ne_true), hscan]
  simp only [if_pos hsame, if_pos hsize, toInt_eq (show -2 ^ 31 ≤ (n : ℤ) by omega)
    (show (n : ℤ) < 2 ^ 31 by omega)]

theorem readMembers_end {name : Str} (h : NameText name) (room : ℤ) (rest : List Str)
    (target : Option Distribution) :
    readMembers room (("END ".toList ++ name ++ ['\n']) :: rest) target = .ok (target, true) := by
  have hplain : Plain ("END ".toList ++ name) := h.plain_append ⟨by simp, by simp⟩
  have hend : sameCase (("END ".toList ++ name).take 3) "END" = true := rfl
  rw [readMembers, cutLine_of_plain hplain, if_neg hplain.ne_nil, if_pos hend]

/-- **A distribution is read back**, with the weights added up, wherever it stands among lines
that do not begin one of its name. -/
theorem readDist_distText {name : Str} {before after : List Str}
    (hname : NameText name) (hmembers : ∀ m ∈ members, MemberText m.1)
    (hbounded : Bounded 0 members) (hbefore : ∀ l ∈ before, Other name l)
    (hfit : Fitting (before ++ distText name members ++ after)) :
    readDist (joinLines (before ++ distText name members ++ after)) name =
      .ok (distOf members) := by
  have hlines : lines (joinLines (before ++ distText name members ++ after)) =
      before.map (· ++ ['\n']) ++ (("BEGIN ".toList ++ name ++ ['\n']) ::
        ("COUNT".toList ++ "|".toList ++ decimal members.length ++ ['\n']) ::
        ((members.map fun m => m.1 ++ "|".toList ++ decimal m.2 ++ ['\n']) ++
          (("END ".toList ++ name ++ ['\n']) :: after.map (· ++ ['\n'])))) := by
    rw [lines_joinLines hfit]
    simp [distText, Function.comp_def]
  have hmembers' := readMembers_members hmembers (d := ⟨members.length, 0, []⟩) hbounded
    members.length (by simp)
    (("END ".toList ++ name ++ ['\n']) :: after.map (· ++ ['\n']))
  rw [readDist, hlines, findName_other hbefore, findName_begin hname]
  simp only [bind, Except.bind, Option.getD_some]
  rw [readMembers_count hbounded.length_lt, hmembers', readMembers_end hname]
  simp only [zero_add, List.nil_append]
  rfl

theorem readDist_distText_colors :
    readDist (joinLines ([] ++ distText "colors" [("almond", 1), ("antique", 1)] ++ [])) "colors" =
      .ok ⟨2, 2, [⟨1, "almond"⟩, ⟨2, "antique"⟩]⟩ := by
  have hone : decimal 1 = "1".toList := by decide
  have htwo : decimal 2 = "2".toList := by decide
  have hmembers : ∀ m ∈ [("almond".toList, (1 : ℤ)), ("antique".toList, 1)], MemberText m.1 :=
    List.forall_mem_cons.mpr ⟨⟨by decide, by simp, fun _ => rfl, by decide⟩,
      List.forall_mem_singleton.mpr ⟨by decide, by simp, fun _ => rfl, by decide⟩⟩
  have hbounded : Bounded 0 [("almond".toList, (1 : ℤ)), ("antique".toList, 1)] :=
    bounded_of_nonneg (by decide) (by simp) (by decide)
  exact readDist_distText ⟨by decide, by simp⟩ hmembers hbounded (by simp)
    (by simp [Fitting, distText, hone, htwo])

/-! ## Picking a text -/

/-- The loop stops at the member whose part of the sum a number is in. -/
theorem findIdx_cumulate {members : List (Str × ℤ)} (hw : ∀ m ∈ members, 0 ≤ m.2) {sum j : ℤ}
    (hj : sum < j) {i : ℕ} (hi : i < members.length) :
    (cumulate sum members).findIdx (fun m => j ≤ m.weight) = i ↔
      sum + sumWeights (members.take i) < j ∧ j ≤ sum + sumWeights (members.take (i + 1)) := by
  induction members generalizing sum i with
  | nil => exact absurd hi (Nat.not_lt_zero i)
  | cons m members ih =>
      have hrest : ∀ m' ∈ members, 0 ≤ m'.2 := fun m' hm' => hw m' (List.mem_cons_of_mem m hm')
      have hsum : ∀ k, sumWeights ((m :: members).take (k + 1)) =
          m.2 + sumWeights (members.take k) := fun k => by simp [sumWeights]
      have hzero : sumWeights ([] : List (Str × ℤ)) = 0 := rfl
      rw [cumulate, List.findIdx_cons, hsum]
      cases i with
      | zero =>
          have hrest' : sumWeights (members.take 0) = 0 := rfl
          by_cases h : j ≤ sum + m.2
          · simp [h, hj, hzero]
          · simp [h, hzero]
      | succ i =>
          have hnonneg : 0 ≤ sumWeights (members.take i) :=
            sumWeights_nonneg fun m' hm' => hrest m' (List.mem_of_mem_take hm')
          rw [hsum]
          by_cases h : j ≤ sum + m.2
          · simp [h]
            omega
          · have hnext := ih hrest (not_le.mp h) (by simpa using hi)
            simp only [h, decide_false, cond_false, Nat.add_right_cancel_iff, hnext, add_assoc]

theorem map_text_cumulate (sum : ℤ) (members : List (Str × ℤ)) :
    (cumulate sum members).map SetMember.text = members.map Prod.fst := by
  induction members generalizing sum with
  | nil => rfl
  | cons m members ih => rw [cumulate, List.map_cons, List.map_cons, ih]

theorem getD_weight_cumulate (sum : ℤ) {i : ℕ} (hi : i < members.length) :
    ((cumulate sum members).map SetMember.weight).getD i 0 =
      sum + sumWeights (members.take (i + 1)) := by
  induction members generalizing sum i with
  | nil => exact absurd hi (Nat.not_lt_zero i)
  | cons m members ih =>
      cases i with
      | zero => simp [cumulate, sumWeights]
      | succ i =>
          rw [cumulate, List.map_cons, List.getD_cons_succ, ih _ (by simpa using hi),
            List.take_succ_cons, sumWeights, sumWeights, List.map_cons, List.sum_cons, add_assoc]

/-- The last weight is the sum of all. -/
theorem lastWeight_distOf (hpos : 0 < sumWeights members) :
    lastWeight (distOf members) = sumWeights members := by
  have hlen : 0 < members.length := by
    refine List.length_pos_iff.mpr ?_
    rintro rfl
    exact absurd hpos (by decide)
  have hlast : ((members.length : ℤ) - 1).toNat = members.length - 1 := by omega
  have hall : members.length - 1 + 1 = members.length := by omega
  rw [lastWeight, distOf, hlast, getD_weight_cumulate 0 (by omega), hall, List.take_length,
    zero_add]

/-- A member is picked by the numbers of its part of the sum. -/
theorem picked_distOf (hw : ∀ m ∈ members, 0 ≤ m.2) {i : ℕ} (hi : i < members.length) {j : ℤ}
    (hj : 0 < j) : picked (distOf members) j = (i, (members.get ⟨i, hi⟩).1) ↔
      sumWeights (members.take i) < j ∧ j ≤ sumWeights (members.take (i + 1)) := by
  have hindex := findIdx_cumulate hw hj hi
  rw [zero_add, zero_add] at hindex
  rw [← hindex, picked, Prod.mk.injEq]
  refine and_iff_left_of_imp fun hpick => ?_
  rw [hpick, distMember, distOf, map_text_cumulate, List.getD_eq_getElem _ _ (by simpa using hi),
    List.getElem_map]
  rfl

theorem card_picked (hw : ∀ m ∈ members, 0 ≤ m.2) {i : ℕ} (hi : i < members.length) :
    ((Finset.Icc 1 (sumWeights members)).filter fun j =>
      picked (distOf members) j = (i, (members.get ⟨i, hi⟩).1)).card =
        (members.get ⟨i, hi⟩).2 := by
  have hnext : sumWeights (members.take (i + 1)) =
      sumWeights (members.take i) + (members.get ⟨i, hi⟩).2 := by
    rw [List.take_succ_eq_append_getElem hi]
    simp only [sumWeights, List.map_append, List.sum_append, List.map_cons, List.map_nil,
      List.sum_cons, List.sum_nil, add_zero, List.get_eq_getElem]
  have hnonneg : 0 ≤ sumWeights (members.take i) :=
    sumWeights_nonneg fun m hm => hw m (List.mem_of_mem_take hm)
  have hle := sumWeights_take_le hw (i + 1)
  have hset : (Finset.Icc 1 (sumWeights members)).filter
      (fun j => picked (distOf members) j = (i, (members.get ⟨i, hi⟩).1)) =
        Finset.Ioc (sumWeights (members.take i)) (sumWeights (members.take (i + 1))) := by
    ext j
    simp only [Finset.mem_filter, Finset.mem_Icc, Finset.mem_Ioc]
    constructor
    · rintro ⟨⟨hlow, hhigh⟩, hpick⟩
      exact (picked_distOf hw hi (by omega)).mp hpick
    · intro h
      exact ⟨by omega, (picked_distOf hw hi (by omega)).mpr h⟩
  have := hw _ (members.get_mem ⟨i, hi⟩)
  rw [hset, Int.card_Ioc]
  omega

/-- **A text is picked by as many numbers as its weight says.** One number is drawn, from 1 to
the sum of the weights. -/
theorem pickStr_spec (hw : ∀ m ∈ members, 0 ≤ m.2) (hpos : 0 < sumWeights members)
    (hsum : sumWeights members < 2 ^ 31) (c : ℕ) :
    (∀ σ, ∃ j, 1 ≤ j ∧ j ≤ sumWeights members ∧
      dssRandom 1 (sumWeights members) c σ = (j, drawOf c +ᵥ σ) ∧
        pickStr (distOf members) c σ = (picked (distOf members) j, drawOf c +ᵥ σ)) ∧
    ∀ i (hi : i < members.length), ((Finset.Icc 1 (sumWeights members)).filter fun j =>
      picked (distOf members) j = (i, (members.get ⟨i, hi⟩).1)).card =
        (members.get ⟨i, hi⟩).2 := by
  refine ⟨fun σ => ?_, fun i hi => card_picked hw hi⟩
  obtain ⟨hlow, hhigh⟩ := unif_mem (σ (streamOf c)).value.next
    (show (1 : ℤ) ≤ sumWeights members by omega) (by omega)
  have hdraw := dssRandom_eq 1 (sumWeights members) c σ
  refine ⟨_, hlow, hhigh, hdraw, ?_⟩
  rw [pickStr_eq, lastWeight_distOf hpos, hdraw]

/-- Of the numbers from 1 to 4, three stand for the second text. -/
theorem pickStr_spec_rail :
    (((Finset.Icc 1 (sumWeights [("AIR", 1), ("RAIL", 3)])).filter fun j =>
      picked (distOf [("AIR", 1), ("RAIL", 3)]) j = (1, "RAIL".toList)).card : ℤ) = 3 :=
  (@pickStr_spec [("AIR", 1), ("RAIL", 3)] (by simp) (by decide) (by decide) 0).2 1 (by decide)

/-! ## Shuffling -/

theorem exchange_perm {a : List ℕ} {source i : ℕ} (hsource : source < a.length)
    (hi : i < a.length) : (exchange a source i).Perm a := by
  have h := List.set_set_perm hsource hi
  rw [exchange, List.getD_eq_getElem _ _ hi, List.getD_eq_getElem _ _ hsource]
  exact h

/-- **A shuffle is a permutation**, whatever is drawn, and draws once for each number. -/
theorem permute_perm {c : ℕ} (hc : c ≤ 2 ^ 31) (s : ℕ) :
    Metered (fun (n : Draws) a => n = c • drawOf s ∧ a.Perm (List.range c)) (permute c s) := by
  have hloop := Metered.foldlM (M := Draws)
    (Q := fun k n (a : List ℕ) => n = k • drawOf s ∧ a.Perm (List.range c))
    (f := fun a i => (do
      let source ← dssRandom 0 ((c : ℤ) - 1) s
      pure (exchange a source.toNat i) : StateM Streams (List ℕ))) (List.range c) (k := 0)
    (m := 0) (b := List.range c)
    ⟨(zero_nsmul _).symm, .refl _⟩ ?_
  · exact hloop.mono fun n a h => by simpa using h
  · rintro k m a ⟨rfl, ha⟩ i hi σ
    have hi' : i < c := List.mem_range.mp hi
    have hlen : a.length = c := by simpa using ha.length_eq
    have hdraw := unif_mem (σ (streamOf s)).value.next (show (0 : ℤ) ≤ (c : ℤ) - 1 by omega)
      (by omega)
    refine ⟨drawOf s, ?_, ?_, ?_⟩
    · exact congrArg Prod.snd (dssRandom_eq 0 ((c : ℤ) - 1) s σ)
    · rw [succ_nsmul]
    · have hresult : (dssRandom 0 ((c : ℤ) - 1) s σ).1 = _ :=
        congrArg Prod.fst (dssRandom_eq 0 ((c : ℤ) - 1) s σ)
      change (exchange a (dssRandom 0 ((c : ℤ) - 1) s σ).1.toNat i).Perm _
      rw [hresult]
      exact (exchange_perm (by omega) (by omega)).trans ha

/-- Texts without a member twice, joined by blanks. -/
theorem aggStr_spec {set : Distribution} {c count : ℕ} (hcount : set.count = c)
    (hc : c ≤ 2 ^ 31) (hle : count ≤ c) (col : ℕ) :
    Metered (fun (n : Draws) text => n = c • drawOf col ∧ ∃ is : List ℕ, is.length = count ∧
      is.Nodup ∧ (∀ i ∈ is, i < c) ∧
      text = (is.flatMap fun i => distMember set i ++ [' ']).dropLast) (aggStr set count col) := by
  have htoNat : set.count.toNat = c := by omega
  rw [aggStr, htoNat]
  refine (permute_perm hc col).bind fun m perm hperm => Metered.pure ?_
  obtain ⟨rfl, hperm⟩ := hperm
  have hlen : perm.length = c := by simpa using hperm.length_eq
  refine ⟨add_zero _, perm.take count, by simp [hlen, hle],
    (hperm.nodup_iff.mpr List.nodup_range).sublist (List.take_sublist count perm), ?_, ?_⟩
  · exact fun i hi => List.mem_range.mp (hperm.mem_iff.mp (List.mem_of_mem_take hi))
  · -- the calls without an array go through the permutation from its start
    have htake : perm.take count = (List.range count).map (permuteNext perm) := by
      refine List.ext_getElem (by simp [hlen, hle]) fun i h₁ h₂ => ?_
      have hi : i < perm.length := by
        simp only [List.length_take] at h₁
        omega
      simp only [List.getElem_take, List.getElem_map, List.getElem_range, permuteNext,
        Nat.mod_eq_of_lt hi]
      exact (List.getD_eq_getElem _ _ hi).symm
    rw [htake, List.flatMap_map]

end Structor.Dbgen
