import Mathlib.Data.List.DropRight
import Structor.Lists
import Structor.Text

/-!
# Python strings and lists

The methods of strings, lists and files that the scripts use, and their exceptions.

## Main definitions

* `Error` -- the exceptions
* `lstrip`, `rstrip`, `strip`, `split`, `rfind`, `sliceTo`, `pop` -- the methods
* `int` -- the number of a numeral
* `Word` -- the texts that `split` leaves whole
* `fileLines` -- the lines that a loop over a file sees
* `replace` -- a text with all occurrences of another one replaced
-/
namespace Structor.Python
variable {α ε σ : Type}

inductive Error where
  | valueError
  | indexError
  | keyError
  | typeError
  | zeroDivisionError
  | unicodeEncodeError
  | nameError
  | ioError
  | attributeError
  | stopIteration
  | overflowError
deriving DecidableEq

def isSpace (c : Char) : Bool :=
  c = ' ' || c = '\t' || c = '\n' || c = '\r' || c = '\x0b' || c = '\x0c'

def lstrip (s : Str) : Str := s.dropWhile isSpace

def rstrip (s : Str) : Str := s.rdropWhile isSpace

def strip (s : Str) : Str := rstrip (lstrip s)

/-- The words of a text, `s.split()`. -/
def split (s : Str) : List Str := (s.splitOnP isSpace).filter (· ≠ [])

def intOfDigits (digits : Str) : Except Error ℤ :=
  if digits ≠ [] ∧ digits.all Char.isDigit then
    .ok (digits.foldl (fun n c => 10 * n + (c.toNat - '0'.toNat)) 0)
  else .error .valueError

/-- `int(s)`, with white space and a sign allowed. -/
def int (s : Str) : Except Error ℤ :=
  match strip s with
  | '-' :: digits => (intOfDigits digits).map (- ·)
  | '+' :: digits => intOfDigits digits
  | digits => intOfDigits digits

/-- The text is not empty and has no white space. -/
def isWord (s : Str) : Bool := !s.isEmpty && s.all fun c => !isSpace c

abbrev Word : Type := { s : Str // isWord s = true }

/-- The last position of a character, or -1. -/
def rfind (s : Str) (c : Char) : ℤ :=
  match s.reverse.findIdx? (· = c) with
  | some k => s.length - 1 - k
  | none => -1

/-- The slice `s[:stop]`. A negative stop counts from the end. -/
def sliceTo (s : Str) (stop : ℤ) : Str :=
  s.take (if stop < 0 then stop + s.length else stop).toNat

/-- `l[k]`. A negative index counts from the end. -/
def item (l : List α) (k : ℤ) : Except Error α :=
  let k := if k < 0 then k + l.length else k
  if k < 0 then .error .indexError
  else
    match l[k.toNat]? with
    | some a => .ok a
    | none => .error .indexError

/-- The order of strings, by the code points of their characters. -/
def le : Str → Str → Bool
  | [], _ => true
  | _ :: _, [] => false
  | a :: as, b :: bs => a.toNat < b.toNat || (a == b && le as bs)

/-- The list without its last element, and the last element. -/
def pop (l : List α) : Except Error (List α × α) :=
  match l.getLast? with
  | some last => .ok (l.dropLast, last)
  | none => .error .indexError

/-- `random.choice`, with the random bits `r`. -/
def choice (l : List α) (r : ℕ) : Except Error α :=
  match l[r % l.length]? with
  | some a => .ok a
  | none => .error .indexError

/-- The lines of a text, each with its line break. -/
def fileLines : Str → List Str
  | [] => []
  | c :: cs =>
      if c = '\n' then [c] :: fileLines cs
      else
        match fileLines cs with
        | [] => [[c]]
        | line :: lines => (c :: line) :: lines

theorem ok_bind {β : Type} (a : α) (f : α → Except ε β) : (Except.ok a >>= f) = f a := rfl

theorem error_bind {β : Type} (e : ε) (f : α → Except ε β) :
    (Except.error e >>= f) = Except.error e := rfl

theorem exists_item_ok {l : List α} {k : ℤ} (h : 0 ≤ k) (h' : k < l.length) :
    ∃ a ∈ l, item l k = .ok a := by
  have hlt : k.toNat < l.length := by omega
  have hneg : ¬ k < 0 := by omega
  refine ⟨l[k.toNat], List.getElem_mem hlt, ?_⟩
  simp only [item, if_neg hneg, List.getElem?_eq_getElem hlt]

theorem item_natCast {l : List α} {k : ℕ} (h : k < l.length) : item l k = .ok l[k] := by
  have hneg : ¬ (k : ℤ) < 0 := by omega
  simp only [item, if_neg hneg, Int.toNat_natCast, List.getElem?_eq_getElem h]

theorem mem_of_item {l : List α} {k : ℤ} {a : α} (h : item l k = .ok a) : a ∈ l := by
  unfold item at h
  generalize (if k < 0 then k + l.length else k) = i at h
  by_cases hi : i < 0
  · rw [if_pos hi] at h
    cases h
  · rw [if_neg hi] at h
    cases hget : l[i.toNat]? with
    | none =>
        rw [hget] at h
        cases h
    | some b =>
        rw [hget] at h
        exact Except.ok.inj h ▸ List.mem_of_getElem? hget

/-- The index -1 is that of the last element. -/
theorem getLast?_of_item {l : List α} {a : α} (h : item l (-1) = .ok a) :
    l.getLast? = some a := by
  rcases List.eq_nil_or_concat' l with rfl | ⟨front, last, rfl⟩
  · cases h
  · have hindex : -1 + ((front ++ [last]).length : ℤ) = front.length := by
      rw [List.length_append, List.length_singleton]
      omega
    have hneg : ¬ (front.length : ℤ) < 0 := by omega
    have hlast : (-1 : ℤ) < 0 := by decide
    simp only [item, if_pos hlast, hindex, if_neg hneg, Int.toNat_natCast,
      List.getElem?_concat_length] at h
    rw [List.getLast?_concat, Except.ok.inj h]

theorem exists_choice_ok {l : List α} (h : l ≠ []) (r : ℕ) :
    ∃ a ∈ l, choice l r = .ok a := by
  have hlt : r % l.length < l.length := Nat.mod_lt r (List.length_pos_iff.mpr h)
  refine ⟨l[r % l.length], List.getElem_mem hlt, ?_⟩
  rw [choice, List.getElem?_eq_getElem hlt]

theorem pop_concat (l : List α) (last : α) : pop (l ++ [last]) = .ok (l, last) := by
  simp [pop]

/-- A slice up to the last occurrence of a character. -/
theorem sliceTo_rfind {c : Char} (before : Str) {after : Str} (h : c ∉ after) :
    sliceTo (before ++ c :: after) (rfind (before ++ c :: after) c) = before := by
  have hidx : (before ++ c :: after).reverse.findIdx? (· = c) = some after.length := by
    have hreverse : (before ++ c :: after).reverse = after.reverse ++ c :: before.reverse := by simp
    have hafter : after.reverse.findIdx? (fun d => decide (d = c)) = none := by
      rw [List.findIdx?_eq_none_iff]
      intro d hd
      simp only [decide_eq_false_iff_not]
      rintro rfl
      exact h (List.mem_reverse.mp hd)
    rw [hreverse, List.findIdx?_append, hafter]
    simp [List.findIdx?_cons]
  have hstop : rfind (before ++ c :: after) c = before.length := by
    simp only [rfind, hidx, List.length_append, List.length_cons]
    omega
  have hnonneg : ¬ (before.length : ℤ) < 0 := by omega
  rw [hstop, sliceTo, if_neg hnonneg, Int.toNat_natCast, List.take_left]

/-- Only what follows the last character that is no space is stripped. -/
theorem rstrip_append_cons {c : Char} (hc : isSpace c = false) (before after : Str) :
    rstrip (before ++ c :: after) = before ++ c :: rstrip after := by
  induction after using List.reverseRecOn with
  | nil => exact List.rdropWhile_concat_neg isSpace before c (by simp [hc])
  | append_singleton after d ih =>
      rw [← List.cons_append, ← List.append_assoc]
      by_cases hd : isSpace d = true
      · have hwhole : rstrip (before ++ c :: after ++ [d]) = rstrip (before ++ c :: after) :=
          List.rdropWhile_concat_pos isSpace _ d hd
        have hafter : rstrip (after ++ [d]) = rstrip after :=
          List.rdropWhile_concat_pos isSpace _ d hd
        rw [hwhole, hafter, ih]
      · have hwhole : rstrip (before ++ c :: after ++ [d]) = before ++ c :: after ++ [d] :=
          List.rdropWhile_concat_neg isSpace _ d hd
        have hafter : rstrip (after ++ [d]) = after ++ [d] :=
          List.rdropWhile_concat_neg isSpace _ d hd
        rw [hwhole, hafter, List.append_assoc, List.cons_append]

theorem lstrip_append_cons {c : Char} (hc : isSpace c = false) (before after : Str) :
    lstrip (before ++ c :: after) = lstrip before ++ c :: after := by
  have hstop : lstrip (c :: after) = c :: after := by
    simp [lstrip, hc]
  rw [lstrip, List.dropWhile_append, ← lstrip, ← lstrip, hstop]
  by_cases hbefore : (lstrip before).isEmpty = true
  · rw [if_pos hbefore, List.isEmpty_iff.mp hbefore, List.nil_append]
  · rw [if_neg hbefore]

/-- A text that goes on with a character that is no space is longer when stripped. -/
theorem strip_ne_strip_append {c : Char} (hc : isSpace c = false) (before after : Str) :
    strip before ≠ strip (before ++ c :: after) := by
  intro h
  have hle : (strip before).length ≤ (lstrip before).length :=
    (List.rdropWhile_prefix isSpace (lstrip before)).length_le
  rw [h, strip, lstrip_append_cons hc, rstrip_append_cons hc, List.length_append,
    List.length_cons] at hle
  omega

theorem strip_cons_space {c : Char} (hc : isSpace c = true) (s : Str) :
    strip (c :: s) = strip s := by
  rw [strip, lstrip, List.dropWhile_cons_of_pos hc]
  rfl

theorem strip_concat_space {c : Char} (hc : isSpace c = true) (s : Str) :
    strip (s ++ [c]) = strip s := by
  have hend : lstrip [c] = [] := by
    simp [lstrip, hc]
  rw [strip, strip, lstrip, List.dropWhile_append, ← lstrip, ← lstrip, hend]
  by_cases hs : (lstrip s).isEmpty = true
  · rw [if_pos hs, List.isEmpty_iff.mp hs]
  · rw [if_neg hs]
    exact List.rdropWhile_concat_pos isSpace _ c hc

/-- What a text starts with when stripped, any longer text starts with that too. -/
theorem lstrip_append_of_strip {c : Char} {front s : Str} (rest : Str)
    (h : strip s = c :: front) : c :: front <+: lstrip (s ++ rest) := by
  have hpre : c :: front <+: lstrip s := h ▸ List.rdropWhile_prefix isSpace (lstrip s)
  have hne : ¬ (lstrip s).isEmpty = true := by
    rw [List.isEmpty_iff]
    intro hnil
    rw [hnil, List.prefix_nil] at hpre
    cases hpre
  rw [lstrip, List.dropWhile_append, ← lstrip, ← lstrip, if_neg hne]
  exact hpre.trans (List.prefix_append _ _)

@[simp] theorem split_nil : split [] = [] := by
  simp [split, List.splitOnP_nil]

/-- A space ends a word. -/
theorem split_append_cons {c : Char} (hc : isSpace c = true) (s rest : Str) :
    split (s ++ c :: rest) = split s ++ split rest := by
  rw [split, List.splitOnP_append_cons s rest hc, List.filter_append]
  rfl

theorem isWord_iff {s : Str} : isWord s = true ↔ s ≠ [] ∧ ∀ c ∈ s, isSpace c = false := by
  simp [isWord]

theorem Word.isSpace_eq_false (w : Word) {c : Char} (hc : c ∈ (w : Str)) : isSpace c = false :=
  (isWord_iff.mp w.property).2 c hc

theorem Word.not_mem (w : Word) {c : Char} (hc : isSpace c = true) : c ∉ (w : Str) := by
  intro hmem
  simp [w.isSpace_eq_false hmem] at hc

@[simp] theorem split_word (w : Word) : split w = [(w : Str)] := by
  rw [split, List.splitOnP_eq_singleton (isWord_iff.mp w.property).2]
  simpa using (isWord_iff.mp w.property).1

/-- Splitting at the last occurrence of the separator. -/
theorem splitOn_append_cons {c : Char} (before : Str) {last : Str} (h : c ∉ last) :
    (before ++ c :: last).splitOn c = before.splitOn c ++ [last] := by
  rw [List.splitOn_append_cons_self, List.splitOn_eq_singleton h]

/-- The last occurrence of a character. -/
theorem exists_last_mem {c : Char} {s : Str} (h : c ∈ s) :
    ∃ before last, s = before ++ c :: last ∧ c ∉ last := by
  obtain ⟨as, bs, hs, has⟩ := List.eq_append_cons_of_mem (List.mem_reverse.mpr h)
  refine ⟨bs.reverse, as.reverse, ?_, by simpa using has⟩
  rw [← List.reverse_reverse s, hs]
  simp

/-- There is one piece more than separators. -/
theorem length_splitOn (c : Char) (s : Str) : (s.splitOn c).length = s.count c + 1 := by
  induction s with
  | nil => rfl
  | cons d s ih =>
      rw [List.splitOn_cons_eq_if_modifyHead, List.count_cons]
      by_cases hd : (d == c) = true
      · simp [hd, ih]
      · simp [hd, ih]

/-- A piece is a part of the text. -/
theorem subset_of_mem_splitOn {a : Char} {s piece : Str} (h : piece ∈ s.splitOn a) : piece ⊆ s := by
  induction s generalizing piece with
  | nil =>
      rw [List.splitOn_nil, List.mem_singleton] at h
      rw [h]
      exact List.Subset.refl _
  | cons c s ih =>
      rw [List.splitOn_cons_eq_if_modifyHead] at h
      split at h
      · rcases List.mem_cons.mp h with rfl | h
        · exact List.nil_subset _
        · exact List.subset_cons_of_subset c (ih h)
      · cases hsplit : s.splitOn a with
        | nil => 
            rw [hsplit] at h
            cases h
        | cons first rest =>
            rw [hsplit] at h ih
            rcases List.mem_cons.mp h with rfl | h
            · exact List.cons_subset_cons c (ih List.mem_cons_self)
            · exact List.subset_cons_of_subset c (ih (List.mem_cons_of_mem _ h))

theorem takeWhile_concat {p : Char → Bool} {c : Char} (hc : p c = false) (s : Str) :
    (s ++ [c]).takeWhile p = s.takeWhile p := by
  rw [List.takeWhile_append]
  split
  · rename_i hlen
    have hwhole : s.takeWhile p = s := (List.takeWhile_prefix p).eq_of_length hlen
    rw [hwhole, List.takeWhile_cons_of_neg (by simp [hc]), List.append_nil]
  · rfl

theorem fileLines_line {s : Str} (h : '\n' ∉ s) : fileLines (s ++ ['\n']) = [s ++ ['\n']] := by
  induction s with
  | nil => rfl
  | cons c s ih =>
      rw [List.mem_cons, not_or] at h
      have hc : ¬ c = '\n' := fun hc => h.1 hc.symm
      rw [List.cons_append, fileLines, if_neg hc, ih h.2]

@[simp] theorem fileLines_flatten (s : Str) : (fileLines s).flatten = s := by
  induction s with
  | nil => rfl
  | cons c s ih =>
      rw [fileLines]
      split
      · simp [ih]
      · cases hlines : fileLines s with
        | nil =>
            rw [hlines, List.flatten_nil] at ih
            simp [← ih]
        | cons line lines =>
            rw [hlines, List.flatten_cons] at ih
            simp [ih]

/-- A line break ends a line. -/
theorem fileLines_append_break (s rest : Str) :
    fileLines (s ++ '\n' :: rest) = fileLines (s ++ ['\n']) ++ fileLines rest := by
  induction s with
  | nil => rfl
  | cons c s ih =>
      simp only [List.cons_append, fileLines, ih]
      split
      · rfl
      · cases hlines : fileLines (s ++ ['\n']) with
        | nil =>
            have hflatten := fileLines_flatten (s ++ ['\n'])
            simp [hlines] at hflatten
        | cons line lines => rfl

/-- A text without line breaks belongs to the line that follows. -/
theorem fileLines_append_of_not_mem {s rest line : Str} {lines : List Str} (h : '\n' ∉ s)
    (hrest : fileLines rest = line :: lines) : fileLines (s ++ rest) = (s ++ line) :: lines := by
  induction s with
  | nil => exact hrest
  | cons c s ih =>
      rw [List.mem_cons, not_or] at h
      rw [List.cons_append, fileLines, if_neg (Ne.symm h.1), ih h.2]
      rfl

theorem fileLines_of_not_mem {c : Char} {s : Str} (h : '\n' ∉ c :: s) :
    fileLines (c :: s) = [c :: s] := by
  induction s generalizing c with
  | nil => simp_all [fileLines, eq_comm]
  | cons d s ih =>
      rw [List.mem_cons, not_or] at h
      rw [fileLines, if_neg (Ne.symm h.1), ih h.2]

/-- A text that ends with a line break has as many lines as line breaks. -/
theorem length_fileLines (s : Str) : (fileLines (s ++ ['\n'])).length = s.count '\n' + 1 := by
  induction s with
  | nil => rfl
  | cons c s ih =>
      by_cases hc : c = '\n'
      · subst hc
        rw [List.cons_append, fileLines, if_pos rfl, List.length_cons, ih, List.count_cons_self]
      · have hcount : (c :: s).count '\n' = s.count '\n' := List.count_cons_of_ne hc
        rw [List.cons_append, fileLines, if_neg hc, hcount, ← ih]
        cases hlines : fileLines (s ++ ['\n']) with
        | nil => simp [hlines] at ih
        | cons line lines => rfl

/-! ## Replacing -/

/-- `s.replace(old, new)` after the first characters, which a match has taken. -/
def replaceFrom (old new : Str) : ℕ → Str → Str
  | _, [] => []
  | skip + 1, _ :: s => replaceFrom old new skip s
  | 0, c :: s =>
      if old <+: c :: s then new ++ replaceFrom old new (old.length - 1) s
      else c :: replaceFrom old new 0 s

/-- `s.replace(old, new)` for a text `old` that is not empty. -/
def replace (old new s : Str) : Str := replaceFrom old new 0 s

theorem replaceFrom_of_length_le {old new : Str} {skip : ℕ} {s : Str} (h : s.length ≤ skip) :
    replaceFrom old new skip s = [] := by
  induction s generalizing skip with
  | nil => cases skip <;> rfl
  | cons c s ih =>
      cases skip with
      | zero => cases h
      | succ skip =>
          rw [replaceFrom]
          exact ih (Nat.le_of_succ_le_succ h)

/-- A character that is not replaced cuts the text. -/
theorem replaceFrom_append_cons {old : Str} {c : Char} (hold : old ≠ []) (hc : c ∉ old)
    (new s rest : Str) {skip : ℕ} (hskip : skip ≤ s.length) :
    replaceFrom old new skip (s ++ c :: rest) =
      replaceFrom old new skip s ++ c :: replace old new rest := by
  induction s generalizing skip with
  | nil =>
      obtain rfl : skip = 0 := by simpa using hskip
      have hnot : ¬ old <+: c :: rest := by
        intro hpre
        obtain ⟨d, old', rfl⟩ := List.exists_cons_of_ne_nil hold
        rw [(List.cons_prefix_cons.mp hpre).1] at hc
        exact hc List.mem_cons_self
      have hstep : replaceFrom old new 0 (c :: rest) = c :: replaceFrom old new 0 rest :=
        if_neg hnot
      exact hstep
  | cons d s ih =>
      cases skip with
      | zero =>
          rw [List.cons_append, replaceFrom, replaceFrom, ← List.cons_append]
          simp only [prefix_append_cons_iff hc]
          split
          · rename_i hpre
            have hlen : old.length - 1 ≤ s.length := by
              have hlen := hpre.length_le
              rw [List.length_cons] at hlen
              omega
            rw [ih hlen, List.append_assoc]
          · rw [ih (Nat.zero_le _), List.cons_append]
      | succ skip =>
          rw [List.cons_append, replaceFrom, replaceFrom]
          exact ih (Nat.le_of_succ_le_succ hskip)

theorem replace_append_cons {old : Str} {c : Char} (hold : old ≠ []) (hc : c ∉ old)
    (new s rest : Str) :
    replace old new (s ++ c :: rest) = replace old new s ++ c :: replace old new rest :=
  replaceFrom_append_cons hold hc new s rest (Nat.zero_le _)

/-- The pieces are replaced one by one. -/
theorem replace_intercalate {old : Str} {c : Char} (hold : old ≠ []) (hc : c ∉ old) (new : Str)
    (pieces : List Str) :
    replace old new ([c].intercalate pieces) = [c].intercalate (pieces.map (replace old new)) := by
  induction pieces with
  | nil => rfl
  | cons s pieces ih =>
      cases pieces with
      | nil => simp [List.intercalate]
      | cons t pieces =>
          rw [List.map_cons, List.map_cons, List.intercalate_cons_cons, List.intercalate_cons_cons,
            List.append_assoc, List.append_assoc, List.singleton_append, List.singleton_append,
            replace_append_cons hold hc, ih, List.map_cons]

/-- The end of a text is cut off if it does not start earlier. -/
theorem replace_end {old : Str} (hold : old ≠ []) {s : Str}
    (h : ∀ t, t ≠ [] → t <:+ s → ¬ old <+: t ++ old) : replace old [] (s ++ old) = s := by
  induction s with
  | nil =>
      obtain ⟨c, rest, rfl⟩ := List.exists_cons_of_ne_nil hold
      rw [List.nil_append, replace, replaceFrom, if_pos (List.prefix_refl _), List.nil_append]
      exact replaceFrom_of_length_le (by simp)
  | cons c s ih =>
      rw [List.cons_append, replace, replaceFrom, ← List.cons_append,
        if_neg (h _ (List.cons_ne_nil c s) (List.suffix_refl _)), ← replace]
      rw [ih fun t ht hsuffix => h t ht (hsuffix.trans (List.suffix_cons c s))]

theorem replace_singleton (c : Char) (s : Str) : replace [c] [] s = s.filter (· ≠ c) := by
  induction s with
  | nil => rfl
  | cons d s ih =>
      have hpre : [c] <+: d :: s ↔ d = c := by
        simp [List.cons_prefix_cons, eq_comm]
      rw [replace, replaceFrom, List.filter_cons]
      by_cases hd : d = c
      · rw [if_pos (hpre.mpr hd), if_neg (by simp [hd])]
        exact ih
      · rw [if_neg (hd ∘ hpre.mp), if_pos (by simp [hd])]
        exact congrArg (d :: ·) ih

/-! ## Loops that may raise -/

theorem bind_eq_ok {β : Type} {first : Except ε α} {rest : α → Except ε β} {b : β}
    (h : first >>= rest = .ok b) : ∃ a, first = .ok a ∧ rest a = .ok b := by
  cases first with
  | error e => cases h
  | ok a => exact ⟨a, rfl, h⟩

/-- A loop over inputs whose steps raise or not whatever the state. -/
theorem exists_foldlM_ok {step : σ → α → Except ε σ} {Fine : α → Prop} (l : List α)
    (h : ∀ a ∈ l, ∀ s, (∃ s', step s a = .ok s') ↔ Fine a) (s : σ) :
    (∃ s', l.foldlM step s = .ok s') ↔ ∀ a ∈ l, Fine a := by
  induction l generalizing s with
  | nil => simp [pure, Except.pure]
  | cons a l ih =>
      have hrest : ∀ b ∈ l, ∀ s, (∃ s', step s b = .ok s') ↔ Fine b :=
        fun b hb => h b (List.mem_cons_of_mem a hb)
      have ha := h a List.mem_cons_self s
      rw [List.forall_mem_cons, ← ha, List.foldlM_cons]
      cases hstep : step s a with
      | error e => simp [bind, Except.bind]
      | ok s₁ => simpa [bind, Except.bind] using ih hrest s₁

/-- A loop whose steps do not raise. -/
theorem foldlM_eq_ok {step : σ → α → Except ε σ} {next : σ → α → σ} (l : List α)
    (h : ∀ a ∈ l, ∀ s, step s a = .ok (next s a)) (s : σ) :
    l.foldlM step s = .ok (l.foldl next s) := by
  induction l generalizing s with
  | nil => rfl
  | cons a l ih =>
      rw [List.foldlM_cons, h a List.mem_cons_self s, List.foldl_cons]
      exact ih (fun b hb => h b (List.mem_cons_of_mem a hb)) (next s a)

/-- A loop that ends has met inputs only on which its step does not raise. -/
theorem forall_of_foldlM_ok {step : σ → α → Except ε σ} {Fine : α → Prop} {l : List α} {s s' : σ}
    (hfine : ∀ a s s', step s a = .ok s' → Fine a) (h : l.foldlM step s = .ok s') :
    ∀ a ∈ l, Fine a := by
  induction l generalizing s with
  | nil => simp
  | cons a l ih =>
      rw [List.foldlM_cons] at h
      obtain ⟨s₁, hs₁, hrest⟩ := bind_eq_ok h
      exact List.forall_mem_cons.mpr ⟨hfine a s s₁ hs₁, ih hrest⟩

/-- A loop whose steps raise on inputs that are not fine, whatever the state. -/
theorem foldlM_eq_ok_iff {step : σ → α → Except ε σ} {f : σ → α → σ} {Fine : α → Prop}
    (hfine : ∀ a s, Fine a → step s a = .ok (f s a))
    (hnot : ∀ a s s', step s a = .ok s' → Fine a) {l : List α} {s s' : σ} :
    l.foldlM step s = .ok s' ↔ (∀ a ∈ l, Fine a) ∧ s' = l.foldl f s := by
  induction l generalizing s with
  | nil => simp [pure, Except.pure, eq_comm]
  | cons a l ih =>
      rw [List.foldlM_cons, List.forall_mem_cons, List.foldl_cons]
      constructor
      · intro h
        obtain ⟨s₁, hs₁, hrest⟩ := bind_eq_ok h
        have ha := hnot a s s₁ hs₁
        rw [hfine a s ha] at hs₁
        obtain rfl := Except.ok.inj hs₁
        exact ⟨⟨ha, (ih.mp hrest).1⟩, (ih.mp hrest).2⟩
      · rintro ⟨⟨ha, hl⟩, hs'⟩
        rw [hfine a s ha]
        exact ih.mpr ⟨hl, hs'⟩

/-- A loop whose steps do not raise as long as an invariant holds. The invariant tells of the
inputs already met and of the state. -/
theorem foldlM_invariant {step : σ → α → Except ε σ} {l : List α} {s : σ}
    (Good : List α → σ → Prop) (hstart : Good [] s)
    (hstep : ∀ done a s, a ∈ l → Good done s → ∃ s', step s a = .ok s' ∧ Good (done ++ [a]) s') :
    ∃ s', l.foldlM step s = .ok s' ∧ Good l s' := by
  induction l using List.reverseRecOn with
  | nil => exact ⟨s, rfl, hstart⟩
  | append_singleton l a ih =>
      obtain ⟨s₁, hs₁, hgood⟩ := ih fun done b s hb => hstep done b s (List.mem_append_left _ hb)
      obtain ⟨s₂, hs₂, hgood'⟩ :=
        hstep l a s₁ (List.mem_append_right _ (List.mem_singleton_self a)) hgood
      refine ⟨s₂, ?_, hgood'⟩
      rw [List.foldlM_append, hs₁, ok_bind, List.foldlM_cons, hs₂]
      rfl

/-- A comprehension whose rows do not raise, as far as `p` tells of the rows. -/
theorem exists_mapM_ok {β γ : Type} {f : α → Except ε β} {p : β → γ} {q : α → γ} (l : List α)
    (h : ∀ a ∈ l, ∃ b, f a = .ok b ∧ p b = q a) :
    ∃ bs, l.mapM f = .ok bs ∧ bs.map p = l.map q := by
  induction l with
  | nil => exact ⟨[], rfl, rfl⟩
  | cons a l ih =>
      obtain ⟨b, hb, hp⟩ := h a List.mem_cons_self
      obtain ⟨bs, hbs, hmap⟩ := ih fun c hc => h c (List.mem_cons_of_mem a hc)
      refine ⟨b :: bs, ?_, by rw [List.map_cons, List.map_cons, hp, hmap]⟩
      rw [List.mapM_cons, hb, hbs]
      rfl

/-- Results that are mapped one by one. -/
theorem mapM_map {β γ : Type} {f : α → Except ε β} {f' : α → Except ε γ} {e : β → γ} {l : List α}
    (h : ∀ a ∈ l, f' a = (f a).map e) : l.mapM f' = (l.mapM f).map (List.map e) := by
  induction l with
  | nil => rfl
  | cons a l ih =>
      rw [List.mapM_cons, List.mapM_cons, h a List.mem_cons_self,
        ih fun b hb => h b (List.mem_cons_of_mem a hb)]
      cases f a with
      | error e => rfl
      | ok b =>
          cases l.mapM f with
          | error e => rfl
          | ok bs => rfl

end Structor.Python
