import Mathlib.Algebra.Group.Int.Defs
import Mathlib.Data.Char
import Mathlib.Data.List.Lex
import Mathlib.Data.List.Sort
import Structor.Python

/-!
# JSON values and their texts

A JSON value, the text that `json.dumps` makes of it, and the text that
`pprint.PrettyPrinter(indent=2)` makes of the Python object that it is loaded as.

## Main definitions

* `Json` -- a value, floats as their text
* `dumps` -- the text of `json.dumps`
* `repr`, `pformat` -- the representation of the object on one line, and printed pretty
* `Json.sorted` -- a value up to the order of the items of its dictionaries
* `scan` -- where the strings of a JSON text are

## Main results

* `pformat_congr` -- what is printed does not depend on the order of the items
* `balanced_dumps` -- outside of its strings a JSON text has no dash before a space
-/
namespace Structor.Python

/-- The text of a finite float, which JSON and `repr` share. -/
structure FloatText where
  text : Str
  nonempty : text ≠ []
  plain : ∀ c ∈ text, c.isDigit = true ∨ c = '.' ∨ c = 'e' ∨ c = '+' ∨ c = '-'

/-- A JSON value. The items of an object are in the order of the dictionary. -/
inductive Json where
  | null
  | bool (b : Bool)
  | int (n : ℤ)
  | float (x : FloatText)
  | str (s : Str)
  | arr (elements : List Json)
  | obj (items : List (Str × Json))

def commaSep : Str := [',', ' ']

/-- A hexadecimal numeral, padded with zeros. -/
def hex (width n : ℕ) : Str := (Nat.toDigits 16 n).leftpad width '0'

/-! ## The text of a value -/

/-- A character in a JSON string. Beyond the basic plane it is a surrogate pair. -/
def escapeChar (c : Char) : Str :=
  if c = '"' then ['\\', '"']
  else if c = '\\' then ['\\', '\\']
  else if c = '\n' then ['\\', 'n']
  else if c = '\r' then ['\\', 'r']
  else if c = '\t' then ['\\', 't']
  else if c = '\x0c' then ['\\', 'f']
  else if c = '\x08' then ['\\', 'b']
  else if ' ' ≤ c ∧ c ≤ '~' then [c]
  else if c.toNat < 0x10000 then '\\' :: 'u' :: hex 4 c.toNat
  else
    let n := c.toNat - 0x10000
    '\\' :: 'u' :: hex 4 (0xd800 + n / 0x400) ++ '\\' :: 'u' :: hex 4 (0xdc00 + n % 0x400)

def quoted (s : Str) : Str := '"' :: s.flatMap escapeChar ++ ['"']

mutual
/-- `json.dumps`. -/
def dumps : Json → Str
  | .null => "null"
  | .bool true => "true"
  | .bool false => "false"
  | .int n => decimal n
  | .float x => x.text
  | .str s => quoted s
  | .arr elements => '[' :: commaSep.intercalate (dumpsElements elements) ++ [']']
  | .obj items => '\x7b' :: commaSep.intercalate (dumpsItems items) ++ ['\x7d']
def dumpsElements : List Json → List Str
  | [] => []
  | element :: rest => dumps element :: dumpsElements rest
def dumpsItems : List (Str × Json) → List Str
  | [] => []
  | (key, value) :: rest => (quoted key ++ ':' :: ' ' :: dumps value) :: dumpsItems rest
end

/-- A character of a numeral is neither a space nor a brace. -/
theorem numeral_char {c : Char}
    (hc : c.isDigit = true ∨ c = '.' ∨ c = 'e' ∨ c = '+' ∨ c = '-') :
    isSpace c = false ∧ c ≠ '\x7b' := by
  refine ⟨?_, ?_⟩
  · by_contra hspace
    simp only [isSpace, Bool.not_eq_false, Bool.or_eq_true, decide_eq_true_eq] at hspace
    rcases hspace with ((((rfl | rfl) | rfl) | rfl) | rfl) | rfl <;> revert hc <;> decide
  · rintro rfl
    revert hc
    decide

/-- The text of a value starts with no space, and a brace is not followed by one. -/
theorem dumps_start (value : Json) : ∃ c rest, dumps value = c :: rest ∧ isSpace c = false ∧
    (c = '\x7b' → ∃ d rest', rest = d :: rest' ∧ d ≠ ' ') := by
  cases value with
  | null => exact ⟨'n', "ull".toList, rfl, by decide, fun h => absurd h (by decide)⟩
  | bool b =>
      cases b with
      | true => exact ⟨'t', "rue".toList, rfl, by decide, fun h => absurd h (by decide)⟩
      | false => exact ⟨'f', "alse".toList, rfl, by decide, fun h => absurd h (by decide)⟩
  | int n =>
      obtain ⟨c, rest, hrest⟩ := List.exists_cons_of_ne_nil (decimal_ne_nil n)
      have hmem : c ∈ decimal n := by simp [hrest]
      have hc := numeral_char ((mem_decimal hmem).imp_right fun h => by simp [h])
      exact ⟨c, rest, hrest, hc.1, fun h => absurd h hc.2⟩
  | float x =>
      obtain ⟨c, rest, hrest⟩ := List.exists_cons_of_ne_nil x.nonempty
      have hc := numeral_char (x.plain c (by simp [hrest]))
      exact ⟨c, rest, hrest, hc.1, fun h => absurd h hc.2⟩
  | str s => exact ⟨'"', _, rfl, by decide, fun h => absurd h (by decide)⟩
  | arr elements => exact ⟨'[', _, rfl, by decide, fun h => absurd h (by decide)⟩
  | obj items =>
      refine ⟨'\x7b', _, rfl, by decide, fun _ => ?_⟩
      cases items with
      | nil => exact ⟨'\x7d', [], rfl, by decide⟩
      | cons first items =>
          obtain ⟨key, value⟩ := first
          cases items with
          | nil => exact ⟨'"', _, rfl, by decide⟩
          | cons second items =>
              obtain ⟨key', value'⟩ := second
              rw [dumpsItems, dumpsItems, List.intercalate_cons_cons]
              exact ⟨'"', _, rfl, by decide⟩

/-! ## Where the strings are -/

/-- Where a reader of JSON is, as far as strings are concerned. -/
inductive StringState where
  | outside
  | inside
  | escaped
deriving DecidableEq

def StringState.next : StringState → Char → StringState
  | .outside, c => if c = '"' then .inside else .outside
  | .inside, c => if c = '"' then .outside else if c = '\\' then .escaped else .inside
  | .escaped, _ => .inside

def scan (m : StringState) (s : Str) : StringState := s.foldl StringState.next m

/-- Outside of the strings no dash is before a space. -/
def Undashed : StringState → Str → Prop
  | _, [] => True
  | m, c :: s => (m = .outside → c = '-' → s.head? ≠ some ' ') ∧ Undashed (m.next c) s

theorem undashed_append {m : StringState} {s t : Str} (hs : Undashed m s)
    (ht : Undashed (scan m s) t) (hhead : t.head? ≠ some ' ') : Undashed m (s ++ t) := by
  induction s generalizing m with
  | nil => exact ht
  | cons c s ih =>
      refine ⟨fun hm hc => ?_, ih hs.2 ht⟩
      cases s with
      | nil => exact hhead
      | cons d s => exact hs.1 hm hc

/-- The text begins and ends outside of the strings. -/
structure Balanced (s : Str) : Prop where
  scan : scan .outside s = .outside
  undashed : Undashed .outside s
  head : s.head? ≠ some ' '

theorem Balanced.append {s t : Str} (hs : Balanced s) (ht : Balanced t) : Balanced (s ++ t) where
  scan := by
    have hscan : Python.scan .outside (s ++ t) = Python.scan (Python.scan .outside s) t :=
      List.foldl_append
    rw [hscan, hs.scan, ht.scan]
  undashed := by
    refine undashed_append hs.undashed ?_ ht.head
    rw [hs.scan]
    exact ht.undashed
  head := by
    cases s with
    | nil => exact ht.head
    | cons c s => exact hs.head

/-- A text without quotes and spaces. -/
theorem balanced_plain {s : Str} (h : ∀ c ∈ s, c ≠ '"' ∧ c ≠ ' ') : Balanced s := by
  have hhead {s : Str} (h : ∀ c ∈ s, c ≠ '"' ∧ c ≠ ' ') : s.head? ≠ some ' ' := by
    intro hs
    exact (h ' ' (List.mem_of_head? hs)).2 rfl
  induction s with
  | nil => exact ⟨rfl, trivial, by decide⟩
  | cons c s ih =>
      have hhead' := hhead h
      rw [List.forall_mem_cons] at h
      have hnext : StringState.next .outside c = .outside := if_neg h.1.1
      obtain ⟨hscan, hundashed, -⟩ := ih h.2
      refine ⟨?_, ⟨fun _ _ => hhead h.2, ?_⟩, hhead'⟩
      · rw [scan, List.foldl_cons, hnext]
        exact hscan
      · rw [hnext]
        exact hundashed

theorem balanced_numeral {s : Str}
    (h : ∀ c ∈ s, c.isDigit = true ∨ c = '.' ∨ c = 'e' ∨ c = '+' ∨ c = '-') : Balanced s := by
  refine balanced_plain fun c hc => ?_
  constructor
  · rintro rfl
    exact absurd (h _ hc) (by decide)
  · rintro rfl
    exact absurd (h _ hc) (by decide)

theorem exists_digitChar {b : ℕ} (hb : 1 < b) {n : ℕ} {c : Char} (hc : c ∈ Nat.toDigits b n) :
    ∃ k, c = Nat.digitChar k := by
  induction n using Nat.strong_induction_on with
  | h n ih =>
      by_cases hn : n < b
      · rw [Nat.toDigits_of_lt_base hn, List.mem_singleton] at hc
        exact ⟨n, hc⟩
      · have hpos : 0 < n / b := Nat.div_pos (by omega) (by omega)
        have hlt : n / b < n := Nat.div_lt_self (by omega) hb
        have hmod : n % b < b := Nat.mod_lt n (by omega)
        rw [← Nat.div_add_mod n b, ← Nat.toDigits_append_toDigits hb hpos hmod, List.mem_append,
          Nat.toDigits_of_lt_base hmod, List.mem_singleton] at hc
        exact hc.elim (ih _ hlt) fun h => ⟨_, h⟩

theorem digitChar_lt (k : ℕ) :
    (Nat.digitChar k).toNat < 128 ∧ Nat.digitChar k ≠ '"' ∧ Nat.digitChar k ≠ '\\' := by
  match k with
  | 0 | 1 | 2 | 3 | 4 | 5 | 6 | 7 | 8 | 9 | 10 | 11 | 12 | 13 | 14 | 15 => decide
  | k + 16 =>
      have hstar : Nat.digitChar (k + 16) = '*' := by simp
      rw [hstar]
      decide

/-- A hexadecimal numeral is ASCII, and it is taken for nothing else in a string. -/
theorem of_mem_hex {width n : ℕ} {c : Char} (hc : c ∈ hex width n) :
    c.toNat < 128 ∧ c ≠ '"' ∧ c ≠ '\\' := by
  rw [hex, List.leftpad, List.mem_append, List.mem_replicate] at hc
  rcases hc with ⟨-, rfl⟩ | hc
  · decide
  · obtain ⟨k, rfl⟩ := exists_digitChar (by decide) hc
    exact digitChar_lt k

/-- A text that is read inside of a string, up to its end. -/
structure Within (s : Str) : Prop where
  scan : scan .inside s = .inside
  undashed : ∀ t, Undashed .inside t → Undashed .inside (s ++ t)

theorem Within.append {s t : Str} (hs : Within s) (ht : Within t) : Within (s ++ t) where
  scan := by
    have hscan : Python.scan .inside (s ++ t) = Python.scan (Python.scan .inside s) t :=
      List.foldl_append
    rw [hscan, hs.scan, ht.scan]
  undashed u hu := by
    rw [List.append_assoc]
    exact hs.undashed _ (ht.undashed u hu)

theorem within_plain {s : Str} (h : ∀ c ∈ s, c ≠ '"' ∧ c ≠ '\\') : Within s := by
  induction s with
  | nil => exact ⟨rfl, fun t ht => ht⟩
  | cons c s ih =>
      rw [List.forall_mem_cons] at h
      have hnext : StringState.next .inside c = .inside := by
        rw [StringState.next, if_neg h.1.1, if_neg h.1.2]
      obtain ⟨hscan, hundashed⟩ := ih h.2
      constructor
      · rw [scan, List.foldl_cons, hnext]
        exact hscan
      · intro t ht
        refine ⟨nofun, ?_⟩
        rw [hnext]
        exact hundashed t ht

/-- A backslash and the character after it. -/
theorem within_escaped (c : Char) : Within ['\\', c] :=
  ⟨rfl, fun _ ht => ⟨nofun, nofun, ht⟩⟩

theorem within_escapeChar (c : Char) : Within (escapeChar c) := by
  have hhex (width n : ℕ) : Within ('\\' :: 'u' :: hex width n) :=
    (within_escaped 'u').append (within_plain fun d hd => (of_mem_hex hd).2)
  unfold escapeChar
  split
  · exact within_escaped _
  split
  · exact within_escaped _
  split
  · exact within_escaped _
  split
  · exact within_escaped _
  split
  · exact within_escaped _
  split
  · exact within_escaped _
  split
  · exact within_escaped _
  split
  · refine within_plain fun d hd => ?_
    rw [List.mem_singleton.mp hd]
    exact ⟨‹¬c = '"'›, ‹¬c = '\\'›⟩
  split
  · exact hhex _ _
  · exact (hhex _ _).append (hhex _ _)

theorem balanced_quoted (s : Str) : Balanced (quoted s) := by
  have hwithin : Within (s.flatMap escapeChar) := by
    induction s with
    | nil => exact within_plain (List.forall_mem_nil _)
    | cons c s ih => exact (within_escapeChar c).append ih
  have hend : Undashed .inside ['"'] := ⟨nofun, trivial⟩
  refine ⟨?_, ⟨fun _ h => absurd h (by decide), hwithin.undashed _ hend⟩, nofun⟩
  have hscan : scan .outside (quoted s) = scan (scan .inside (s.flatMap escapeChar)) ['"'] :=
    List.foldl_append
  rw [hscan, hwithin.scan]
  rfl

theorem balanced_intercalate {pieces : List Str} (h : ∀ p ∈ pieces, Balanced p) :
    Balanced (commaSep.intercalate pieces) := by
  have hcomma : Balanced commaSep :=
    ⟨rfl, ⟨fun _ h => absurd h (by decide), fun _ h => absurd h (by decide), trivial⟩, by decide⟩
  induction pieces with
  | nil => exact balanced_plain (List.forall_mem_nil _)
  | cons p pieces ih =>
      rw [List.forall_mem_cons] at h
      cases pieces with
      | nil =>
          rw [List.intercalate_singleton]
          exact h.1
      | cons p' pieces =>
          rw [List.intercalate_cons_cons]
          exact (h.1.append hcomma).append (ih h.2)

theorem balanced_enclosed {first last : Char} (hfirst : first ≠ '"' ∧ first ≠ ' ')
    (hlast : last ≠ '"' ∧ last ≠ ' ') {s : Str} (hs : Balanced s) :
    Balanced (first :: s ++ [last]) := by
  have hfront : Balanced [first] := balanced_plain (by simpa using hfirst)
  have hback : Balanced [last] := balanced_plain (by simpa using hlast)
  exact (hfront.append hs).append hback

mutual
/-- Outside of its strings a JSON text has no dash before a space. -/
theorem balanced_dumps (value : Json) : Balanced (dumps value) := by
  cases value with
  | null => exact balanced_plain (by simp [dumps])
  | bool b => cases b <;> exact balanced_plain (by simp [dumps])
  | int n => exact balanced_numeral fun c hc => (mem_decimal hc).imp_right fun h => by simp [h]
  | float x => exact balanced_numeral x.plain
  | str s => exact balanced_quoted s
  | arr elements =>
      exact balanced_enclosed (by decide) (by decide)
        (balanced_intercalate (balanced_dumpsElements elements))
  | obj items =>
      exact balanced_enclosed (by decide) (by decide)
        (balanced_intercalate (balanced_dumpsItems items))
theorem balanced_dumpsElements (elements : List Json) :
    ∀ p ∈ dumpsElements elements, Balanced p := by
  cases elements with
  | nil => exact List.forall_mem_nil _
  | cons element rest =>
      rw [dumpsElements, List.forall_mem_cons]
      exact ⟨balanced_dumps element, balanced_dumpsElements rest⟩
theorem balanced_dumpsItems (items : List (Str × Json)) :
    ∀ p ∈ dumpsItems items, Balanced p := by
  cases items with
  | nil => exact List.forall_mem_nil _
  | cons item rest =>
      have hcolon : Balanced [':', ' '] :=
        ⟨rfl, ⟨fun _ h => absurd h (by decide), fun _ h => absurd h (by decide), trivial⟩,
          by decide⟩
      have hitem := (balanced_quoted item.1).append (hcolon.append (balanced_dumps item.2))
      rw [dumpsItems, List.forall_mem_cons]
      exact ⟨hitem, balanced_dumpsItems rest⟩
end

/-- What starts with a dash and a space after it, or with two dashes, is in a string. -/
theorem Undashed.scan_ne {before rest : Str}
    (h : Undashed .outside (before ++ '-' :: '-' :: ' ' :: rest)) :
    scan .outside before ≠ .outside := by
  have hrest {m : StringState} {s t : Str} (h : Undashed m (s ++ t)) : Undashed (scan m s) t := by
    induction s generalizing m with
    | nil => exact h
    | cons c s ih => exact ih h.2
  intro hscan
  have hdashes := hrest h
  rw [hscan] at hdashes
  exact hdashes.2.1 rfl rfl rfl

/-! ## The text of the loaded object -/

/-- A character in a unicode literal. -/
def reprChar (quote c : Char) : Str :=
  if c = quote ∨ c = '\\' then ['\\', c]
  else if c = '\t' then ['\\', 't']
  else if c = '\n' then ['\\', 'n']
  else if c = '\r' then ['\\', 'r']
  else if ' ' ≤ c ∧ c ≤ '~' then [c]
  else if c.toNat < 0x100 then '\\' :: 'x' :: hex 2 c.toNat
  else if c.toNat < 0x10000 then '\\' :: 'u' :: hex 4 c.toNat
  else '\\' :: 'U' :: hex 8 c.toNat

/-- A unicode literal. Double quotes serve for a text with single quotes only. -/
def reprStr (s : Str) : Str :=
  let quote := if '\'' ∈ s ∧ '"' ∉ s then '"' else '\''
  'u' :: quote :: s.flatMap (reprChar quote) ++ [quote]

theorem lt_of_mem_reprChar {quote c d : Char} (hquote : quote.toNat < 128)
    (hd : d ∈ reprChar quote c) : d.toNat < 128 := by
  have hpair {e : Char} (he : e.toNat < 128) (hd : d ∈ ['\\', e]) : d.toNat < 128 := by
    rcases List.mem_cons.mp hd with rfl | hd
    · decide
    · rwa [List.mem_singleton.mp hd]
  have hescape {e : Char} {width : ℕ} (he : e.toNat < 128)
      (hd : d ∈ '\\' :: e :: hex width c.toNat) : d.toNat < 128 := by
    rcases List.mem_cons.mp hd with rfl | hd
    · decide
    · rcases List.mem_cons.mp hd with rfl | hd
      · exact he
      · exact (of_mem_hex hd).1
  unfold reprChar at hd
  split at hd
  · rename_i hc
    refine hpair ?_ hd
    rcases hc with rfl | rfl
    · exact hquote
    · decide
  split at hd
  · exact hpair (by decide) hd
  split at hd
  · exact hpair (by decide) hd
  split at hd
  · exact hpair (by decide) hd
  split at hd
  · rename_i hc
    have hle : c.toNat ≤ 126 := hc.2
    rw [List.mem_singleton.mp hd]
    omega
  split at hd
  · exact hescape (by decide) hd
  split at hd
  · exact hescape (by decide) hd
  · exact hescape (by decide) hd

/-- A literal is ASCII. -/
theorem lt_of_mem_reprStr {s : Str} {c : Char} (hc : c ∈ reprStr s) : c.toNat < 128 := by
  unfold reprStr at hc
  have hquote : (if '\'' ∈ s ∧ '"' ∉ s then '"' else '\'').toNat < 128 := by
    split <;> decide
  revert hc hquote
  generalize (if '\'' ∈ s ∧ '"' ∉ s then '"' else '\'') = quote
  intro hc hquote
  simp only [List.cons_append, List.mem_cons, List.mem_append, List.mem_flatMap, List.not_mem_nil,
    or_false] at hc
  rcases hc with rfl | rfl | ⟨d, -, hd⟩ | rfl
  · decide
  · exact hquote
  · exact lt_of_mem_reprChar hquote hd
  · exact hquote

/-- An integer of more than 64 bits is a long, whose literal ends in `L`. -/
def reprInt (n : ℤ) : Str :=
  if -2 ^ 63 ≤ n ∧ n < 2 ^ 63 then decimal n else decimal n ++ ['L']

/-- The texts of the items of a dictionary, in the order of their keys. -/
def sortItems (items : List (Str × Str)) : List (Str × Str) :=
  items.insertionSort fun a b => a.1 ≤ b.1

mutual
/-- `repr`, with the items of a dictionary sorted. -/
def repr : Json → Str
  | .null => "None"
  | .bool true => "True"
  | .bool false => "False"
  | .int n => reprInt n
  | .float x => x.text
  | .str s => reprStr s
  | .arr elements => '[' :: commaSep.intercalate (reprElements elements) ++ [']']
  | .obj items =>
      let sorted := sortItems (reprItems items)
      '\x7b' :: commaSep.intercalate (sorted.map fun item => reprStr item.1 ++ ':' :: ' ' :: item.2)
        ++ ['\x7d']
def reprElements : List Json → List Str
  | [] => []
  | element :: rest => repr element :: reprElements rest
def reprItems : List (Str × Json) → List (Str × Str)
  | [] => []
  | (key, value) :: rest => (key, repr value) :: reprItems rest
end

/-- The separator between parts that do or do not fit on a line. -/
def separator (sepLines : Bool) (indent : ℕ) : Str :=
  if sepLines then ',' :: '\n' :: List.replicate indent ' ' else commaSep

mutual
/-- `PrettyPrinter._format` for an indent of two and a width of 80. -/
def format (indent allowance : ℕ) : Json → Str
  | .null => repr .null
  | .bool b => repr (.bool b)
  | .int n => repr (.int n)
  | .float x => repr (.float x)
  | .str s => repr (.str s)
  | .arr elements =>
      let sepLines := decide ((repr (.arr elements)).length + indent + allowance > 79)
      '[' :: (if sepLines then [' '] else []) ++ (separator sepLines (indent + 2)).intercalate
        (formatElements (indent + 2) (allowance + 1) elements) ++ [']']
  | .obj items =>
      let sepLines := decide ((repr (.obj items)).length + indent + allowance > 79)
      let sorted := sortItems (formatItems (indent + 2) (allowance + 1) items)
      '\x7b' :: ' ' :: (separator sepLines (indent + 2)).intercalate
        (sorted.map fun item => reprStr item.1 ++ ':' :: ' ' :: item.2) ++ ['\x7d']
def formatElements (indent allowance : ℕ) : List Json → List Str
  | [] => []
  | element :: rest => format indent allowance element :: formatElements indent allowance rest
def formatItems (indent allowance : ℕ) : List (Str × Json) → List (Str × Str)
  | [] => []
  | (key, value) :: rest =>
      (key, format (indent + (reprStr key).length + 2) allowance value) ::
        formatItems indent allowance rest
end

/-- What `pprint` writes for an object, up to the line break at its end. -/
def pformat (value : Json) : Str := format 0 0 value

/-- A dictionary is printed with a space after the brace. -/
theorem strip_pformat_obj (items : List (Str × Json)) :
    ∃ rest, strip (pformat (.obj items)) = '\x7b' :: ' ' :: rest := by
  obtain ⟨inner, hinner⟩ : ∃ inner, pformat (.obj items) =
      ('\x7b' :: ' ' :: inner) ++ ['\x7d'] := ⟨_, rfl⟩
  have hfront : lstrip (('\x7b' :: ' ' :: inner) ++ ['\x7d']) =
      ('\x7b' :: ' ' :: inner) ++ ['\x7d'] := rfl
  have hend : rstrip [] = [] := rfl
  rw [hinner, strip, hfront, rstrip_append_cons (by decide), hend]
  exact ⟨_, rfl⟩

/-! ## Dictionaries as maps -/

mutual
/-- The value with the items of each dictionary in the order of their keys. Values are
equal for Python, where a dictionary is a map, if their sorted forms are. -/
def Json.sorted : Json → Json
  | .null => .null
  | .bool b => .bool b
  | .int n => .int n
  | .float x => .float x
  | .str s => .str s
  | .arr elements => .arr (Json.sortedElements elements)
  | .obj items => .obj ((Json.sortedItems items).insertionSort fun a b => a.1 ≤ b.1)
def Json.sortedElements : List Json → List Json
  | [] => []
  | element :: rest => element.sorted :: Json.sortedElements rest
def Json.sortedItems : List (Str × Json) → List (Str × Json)
  | [] => []
  | (key, value) :: rest => (key, value.sorted) :: Json.sortedItems rest
end

theorem sortItems_map_insertionSort {α : Type} (text : Str × α → Str) (items : List (Str × α)) :
    sortItems ((items.insertionSort fun a b => a.1 ≤ b.1).map fun i => (i.1, text i)) =
      sortItems (items.map fun i => (i.1, text i)) := by
  have hmap := List.map_insertionSort (r := fun a b : Str × α => a.1 ≤ b.1)
    (s := fun a b : Str × Str => a.1 ≤ b.1) (fun i => (i.1, text i)) items
    fun _ _ _ _ => Iff.rfl
  rw [hmap]
  exact (List.pairwise_insertionSort _ _).insertionSort_eq

theorem reprItems_eq_map (items : List (Str × Json)) :
    reprItems items = items.map fun i => (i.1, repr i.2) := by
  induction items with
  | nil => simp [reprItems]
  | cons item items ih => simp [reprItems, ih]

theorem formatItems_eq_map (indent allowance : ℕ) (items : List (Str × Json)) :
    formatItems indent allowance items =
      items.map fun i => (i.1, format (indent + (reprStr i.1).length + 2) allowance i.2) := by
  induction items with
  | nil => simp [formatItems]
  | cons item items ih => simp [formatItems, ih]

mutual
theorem repr_sorted (value : Json) : repr value.sorted = repr value := by
  cases value with
  | null | bool | int | float | str => rfl
  | arr elements => simp only [Json.sorted, repr, reprElements_sorted elements]
  | obj items =>
      simp only [Json.sorted, repr]
      rw [reprItems_eq_map, sortItems_map_insertionSort, ← reprItems_eq_map, reprItems_sorted items]
theorem reprElements_sorted (elements : List Json) :
    reprElements (Json.sortedElements elements) = reprElements elements := by
  cases elements with
  | nil => rfl
  | cons element rest =>
      simp only [Json.sortedElements, reprElements, repr_sorted element, reprElements_sorted rest]
theorem reprItems_sorted (items : List (Str × Json)) :
    reprItems (Json.sortedItems items) = reprItems items := by
  cases items with
  | nil => rfl
  | cons item rest =>
      simp only [Json.sortedItems, reprItems, repr_sorted item.2, reprItems_sorted rest]
end

mutual
theorem format_sorted (indent allowance : ℕ) (value : Json) :
    format indent allowance value.sorted = format indent allowance value := by
  have hrepr := repr_sorted value
  cases value with
  | null | bool | int | float | str => rfl
  | arr elements =>
      simp only [Json.sorted] at hrepr
      simp only [Json.sorted, format, hrepr, formatElements_sorted _ _ elements]
  | obj items =>
      simp only [Json.sorted] at hrepr
      simp only [Json.sorted, format, hrepr]
      rw [formatItems_eq_map, sortItems_map_insertionSort, ← formatItems_eq_map,
        formatItems_sorted _ _ items]
theorem formatElements_sorted (indent allowance : ℕ) (elements : List Json) :
    formatElements indent allowance (Json.sortedElements elements) =
      formatElements indent allowance elements := by
  cases elements with
  | nil => rfl
  | cons element rest =>
      simp only [Json.sortedElements, formatElements, format_sorted _ _ element,
        formatElements_sorted _ _ rest]
theorem formatItems_sorted (indent allowance : ℕ) (items : List (Str × Json)) :
    formatItems indent allowance (Json.sortedItems items) = formatItems indent allowance items := by
  cases items with
  | nil => rfl
  | cons item rest =>
      simp only [Json.sortedItems, formatItems, format_sorted _ _ item.2,
        formatItems_sorted _ _ rest]
end

/-- Values that differ in the order of the items only are printed alike. -/
theorem pformat_congr {value value' : Json} (h : value.sorted = value'.sorted) :
    pformat value = pformat value' := by
  rw [pformat, ← format_sorted, h, format_sorted, pformat]

example : dumps (.obj [("a", .arr [.int 1, .null]), ("b", .str "é\n")]) =
    "\x7b\"a\": [1, null], \"b\": \"\\u00e9\\n\"\x7d".toList := by decide

example : pformat (.obj [("b", .int (2 ^ 63)), ("a", .str "it's")]) =
    "\x7b u'a': u\"it's\", u'b': 9223372036854775808L\x7d".toList := by decide

end Structor.Python
