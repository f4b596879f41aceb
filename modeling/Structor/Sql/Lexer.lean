import Structor.Python

/-!
# Tokens of SQL (library)

A text is read character by character. White space ends a word, a comment runs from two dashes
to the end of its line or from `/*` to the next `*/`, and a literal to its closing quote. A number
and a qualified name are one word, with their dots, and so is an operator such as `<=`.

## Main definitions

* `Token` -- words, symbols and literals
* `Mode` -- where the reader is
* `run` -- the tokens of a text, and where the reader is after it
* `tokens` -- the tokens of a whole text
-/
namespace Structor.Sql
open Python

inductive Token where
  | word (s : Str)
  | symbol (c : Char)
  | literal (s : Str)
deriving DecidableEq

def isQuote (c : Char) : Bool := c = '\'' || c = '"' || c = '`'

abbrev Quote : Type := { c : Char // isQuote c = true }

def isNameChar (c : Char) : Bool := c.isAlphanum || c = '_' || c = '.' || decide (128 ≤ c.toNat)

def isOperatorChar (c : Char) : Bool :=
  c = '<' || c = '>' || c = '=' || c = '!' || c = '|' || c = '&'

/-- The character goes on with the word. -/
def joins (word : Str) (c : Char) : Bool :=
  word.all isNameChar && isNameChar c || word.all isOperatorChar && isOperatorChar c

/-- Where the reader is. The word or the literal that it is in comes with what it has read of
it. A dash or a slash may be the first character of a comment, a star in a block comment the
first one of its end. -/
inductive Mode where
  | code (word : Str)
  | dash (word : Str)
  | slash (word : Str)
  | quoted (quote : Quote) (text : Str)
  | escaped (quote : Quote) (text : Str)
  | comment
  | block
  | star
deriving DecidableEq

def wordTokens (word : Str) : List Token := if word = [] then [] else [.word word]

/-- The token that ends with the text. -/
def flush : Mode → List Token
  | .code word => wordTokens word
  | .dash word => wordTokens word ++ [.symbol '-']
  | .slash word => wordTokens word ++ [.symbol '/']
  | .quoted _ text => [.literal text]
  | .escaped _ text => [.literal text]
  | .comment => []
  | .block => []
  | .star => []

def stepCode (word : Str) (c : Char) : List Token × Mode :=
  if c = '-' then ([], .dash word)
  else if c = '/' then ([], .slash word)
  else if isSpace c then (wordTokens word, .code [])
  else if h : isQuote c = true then (wordTokens word, .quoted ⟨c, h⟩ [c])
  else if joins word c then ([], .code (word ++ [c]))
  else if joins [] c then (wordTokens word, .code [c])
  else (wordTokens word ++ [.symbol c], .code [])

/-- The tokens that a character ends. -/
def step : Mode → Char → List Token × Mode
  | .code word, c => stepCode word c
  | .dash word, c =>
      if c = '-' then (wordTokens word, .comment)
      else (wordTokens word ++ .symbol '-' :: (stepCode [] c).1, (stepCode [] c).2)
  | .slash word, c =>
      if c = '*' then (wordTokens word, .block)
      else (wordTokens word ++ .symbol '/' :: (stepCode [] c).1, (stepCode [] c).2)
  | .quoted quote text, c =>
      if c = quote then ([.literal (text ++ [c])], .code [])
      else if c = '\\' then ([], .escaped quote (text ++ [c]))
      else ([], .quoted quote (text ++ [c]))
  | .escaped quote text, c => ([], .quoted quote (text ++ [c]))
  | .comment, c => ([], if c = '\n' then .code [] else .comment)
  | .block, c => ([], if c = '*' then .star else .block)
  | .star, c => ([], if c = '/' then .code [] else if c = '*' then .star else .block)

def run (m : Mode) : Str → List Token × Mode
  | [] => ([], m)
  | c :: s => ((step m c).1 ++ (run (step m c).2 s).1, (run (step m c).2 s).2)

def tokens (s : Str) : List Token := (run (.code []) s).1 ++ flush (run (.code []) s).2

/-- The reader is in neither a literal nor a comment. -/
def Mode.plain : Mode → Bool
  | .code _ | .dash _ | .slash _ => true
  | _ => false

/-- The reader is in neither a literal nor a block comment: the text may end. -/
def Mode.closed : Mode → Bool
  | .code _ | .dash _ | .slash _ | .comment => true
  | _ => false

def Mode.inBlock : Mode → Bool
  | .block | .star => true
  | _ => false

/-- A line starts between tokens or in a block comment, if no literal is open. -/
def Mode.lineStart : Mode → Bool
  | .code [] | .block => true
  | _ => false

example : tokens "a/* -- 'x' **/b /c" =
    [.word "a", .word "b", .symbol '/', .word "c"] := by decide

variable {m : Mode} {c : Char} {s t : Str} {word : Str}

@[simp] theorem run_nil (m : Mode) : run m [] = ([], m) := rfl

theorem run_append (m : Mode) (s t : Str) : run m (s ++ t) =
    ((run m s).1 ++ (run (run m s).2 t).1, (run (run m s).2 t).2) := by
  induction s generalizing m with
  | nil => rfl
  | cons c s ih =>
      rw [List.cons_append, run, run, ih, List.append_assoc]

theorem run_singleton (m : Mode) (c : Char) : run m [c] = step m c := by
  rw [run, run_nil, List.append_nil]

/-! ## White space -/

theorem isSpace_ne {d : Char} (hc : isSpace c = true) (hd : isSpace d = false) : c ≠ d := by
  intro h
  rw [h, hd] at hc
  cases hc

theorem stepCode_space (word : Str) (hc : isSpace c = true) :
    stepCode word c = (wordTokens word, .code []) := by
  rw [stepCode, if_neg (isSpace_ne hc (by decide)), if_neg (isSpace_ne hc (by decide)), if_pos hc]

/-- White space ends the word. -/
theorem step_space (hm : m.plain = true) (hc : isSpace c = true) :
    step m c = (flush m, .code []) := by
  cases m with
  | code word => exact stepCode_space word hc
  | dash word =>
      rw [step, if_neg (isSpace_ne hc (by decide)), stepCode_space [] hc]
      rfl
  | slash word =>
      rw [step, if_neg (isSpace_ne hc (by decide)), stepCode_space [] hc]
      rfl
  | quoted | escaped | comment | block | star => cases hm

/-- A block comment goes on over white space. -/
theorem step_inBlock_space (hm : m.inBlock = true) (hc : isSpace c = true) :
    step m c = ([], .block) := by
  have hstar : c ≠ '*' := isSpace_ne hc (by decide)
  have hslash : c ≠ '/' := isSpace_ne hc (by decide)
  cases m with
  | block => rw [step, if_neg hstar]
  | star => rw [step, if_neg hslash, if_neg hstar]
  | code | dash | slash | quoted | escaped | comment => cases hm

theorem lineStart_cases (hm : m.lineStart = true) : m = .code [] ∨ m = .block := by
  cases m with
  | code word =>
      cases word with
      | nil => exact .inl rfl
      | cons c word => cases hm
  | block => exact .inr rfl
  | dash | slash | quoted | escaped | comment | star => cases hm

theorem step_lineStart_space (hm : m.lineStart = true) (hc : isSpace c = true) :
    step m c = ([], m) := by
  rcases lineStart_cases hm with rfl | rfl
  · exact step_space rfl hc
  · exact step_inBlock_space rfl hc

theorem run_lineStart_spaces (hm : m.lineStart = true) (hs : ∀ c ∈ s, isSpace c = true) :
    run m s = ([], m) := by
  induction s with
  | nil => rfl
  | cons c s ih =>
      rw [List.forall_mem_cons] at hs
      rw [run, step_lineStart_space hm hs.1, ih hs.2]
      rfl

/-- White space before a line break counts for nothing, except in a literal. -/
theorem run_spaces_break (hm : (step m '\n').2.lineStart = true)
    (hs : ∀ c ∈ s, isSpace c = true) : run m (s ++ ['\n']) = run m ['\n'] := by
  induction s generalizing m with
  | nil => rfl
  | cons c s ih =>
      rw [List.forall_mem_cons] at hs
      have hspaces : ∀ d ∈ s ++ ['\n'], isSpace d = true := by
        rw [List.forall_mem_append, List.forall_mem_singleton]
        exact ⟨hs.2, by decide⟩
      rw [List.cons_append, run, run_singleton]
      by_cases hplain : m.plain = true
      · rw [step_space hplain hs.1, step_space hplain (by decide),
          run_lineStart_spaces rfl hspaces, List.append_nil]
      · by_cases hblock : m.inBlock = true
        · rw [step_inBlock_space hblock hs.1, step_inBlock_space hblock (by decide),
            run_lineStart_spaces rfl hspaces, List.append_nil]
        · cases m with
          | comment =>
              by_cases hc : c = '\n'
              · rw [hc, step, if_pos rfl, run_lineStart_spaces rfl hspaces, List.append_nil]
              · rw [step, if_neg hc, ih hm hs.2, run_singleton, List.nil_append]
          | quoted quote text =>
              rw [step] at hm
              split at hm
              · rename_i hquote
                obtain ⟨quote, hisQuote⟩ := quote
                obtain rfl : '\n' = quote := hquote
                cases hisQuote
              · split at hm <;> cases hm
          | escaped quote text => cases hm
          | code | dash | slash => exact absurd rfl hplain
          | block | star => exact absurd rfl hblock

theorem run_strip (hm : m.lineStart = true)
    (hs : (run m (strip s ++ ['\n'])).2.lineStart = true) :
    run m (s ++ ['\n']) = run m (strip s ++ ['\n']) := by
  have hfront : s.takeWhile isSpace ++ lstrip s = s := List.takeWhile_append_dropWhile
  have hback : strip s ++ (lstrip s).rtakeWhile isSpace = lstrip s :=
    List.rdropWhile_append_rtakeWhile
  have hlead : run m (s.takeWhile isSpace) = ([], m) :=
    run_lineStart_spaces hm fun c hc => List.mem_takeWhile_imp hc
  have htrail : ∀ c ∈ (lstrip s).rtakeWhile isSpace, isSpace c = true :=
    fun c hc => List.mem_rtakeWhile_imp hc
  rw [run_append, run_singleton] at hs
  calc run m (s ++ ['\n'])
      = run m (s.takeWhile isSpace ++ (strip s ++
          ((lstrip s).rtakeWhile isSpace ++ ['\n']))) := by
        rw [← List.append_assoc (strip s), hback, ← List.append_assoc, hfront]
    _ = run m (strip s ++ ((lstrip s).rtakeWhile isSpace ++ ['\n'])) := by
        rw [run_append, hlead]
        rfl
    _ = run m (strip s ++ ['\n']) := by
        rw [run_append, run_spaces_break hs htrail, ← run_append]

theorem closed_of_plain (hm : m.plain = true) : m.closed = true := by
  cases m with
  | code | dash | slash => rfl
  | quoted | escaped | comment | block | star => cases hm

/-- A line break ends the token and the comment. -/
theorem step_break (hm : m.closed = true) : step m '\n' = (flush m, .code []) := by
  cases m with
  | code | dash | slash => exact step_space rfl (by decide)
  | comment => rfl
  | quoted | escaped | block | star => cases hm

/-- The tokens of a text that may end there. -/
theorem run_break (hs : (run (.code []) s).2.closed = true) :
    run (.code []) (s ++ ['\n']) = (tokens s, .code []) := by
  rw [run_append, run_singleton, step_break hs]
  rfl

/-! ## Literals -/

/-- A literal has a token in the end, or it goes on with what is read. -/
theorem run_quoted (quote : Quote) (text s : Str) : (run (.quoted quote text) s).1 ≠ [] ∨
    run (.quoted quote text) s = ([], .quoted quote (text ++ s)) ∨
    run (.quoted quote text) s = ([], .escaped quote (text ++ s)) := by
  induction s using List.reverseRecOn with
  | nil => simp
  | append_singleton s c ih =>
      rw [run_append, run_singleton]
      rcases ih with h | h | h
      · exact .inl (List.append_ne_nil_of_left_ne_nil h _)
      · rw [h, ← List.append_assoc, step]
        split
        · exact .inl (List.cons_ne_nil _ _)
        · split
          · exact .inr (.inr rfl)
          · exact .inr (.inl rfl)
      · rw [h, ← List.append_assoc]
        exact .inr (.inl rfl)

theorem run_escaped (quote : Quote) (text s : Str) : (run (.escaped quote text) s).1 ≠ [] ∨
    run (.escaped quote text) s = ([], .quoted quote (text ++ s)) ∨
    run (.escaped quote text) s = ([], .escaped quote (text ++ s)) := by
  cases s with
  | nil => simp
  | cons c s =>
      have hstep : run (.escaped quote text) (c :: s) = run (.quoted quote (text ++ [c])) s := rfl
      rw [hstep, List.append_cons text c s]
      exact run_quoted quote (text ++ [c]) s

theorem step_quoted {quote : Quote} (text : Str) (hc : c ≠ quote) (hescape : c ≠ '\\') :
    step (.quoted quote text) c = ([], .quoted quote (text ++ [c])) := by
  rw [step, if_neg hc, if_neg hescape]

/-! ## Comments -/

theorem run_comment (hs : '\n' ∉ s) : run .comment s = ([], .comment) := by
  induction s with
  | nil => rfl
  | cons c s ih =>
      rw [List.mem_cons, not_or] at hs
      rw [run, step, if_neg (Ne.symm hs.1), ih hs.2]
      rfl

/-- Two dashes start a comment, unless a dash is before them. -/
theorem run_dashes (hm : m.plain = true) (hdash : ∀ word, m ≠ .dash word) (t : Str) :
    run m ('-' :: '-' :: t) = (flush m ++ (run .comment t).1, (run .comment t).2) := by
  have hcode (word : Str) : run (.code word) ('-' :: '-' :: t) =
      (wordTokens word ++ (run .comment t).1, (run .comment t).2) := rfl
  cases m with
  | code word => exact hcode word
  | dash word => exact absurd rfl (hdash word)
  | slash word =>
      have hstep : step (.slash word) '-' = (wordTokens word ++ [.symbol '/'], .dash []) := rfl
      have hrest : run (.dash []) ('-' :: t) = ((run .comment t).1, (run .comment t).2) := rfl
      rw [run, hstep, hrest]
      rfl
  | quoted | escaped | comment | block | star => cases hm

theorem run_slash_star (hm : m.plain = true) (t : Str) :
    run m ('/' :: '*' :: t) = (flush m ++ (run .block t).1, (run .block t).2) := by
  have hcode (word : Str) : run (.code word) ('/' :: '*' :: t) =
      (wordTokens word ++ (run .block t).1, (run .block t).2) := rfl
  have hrest : run (.slash []) ('*' :: t) = ((run .block t).1, (run .block t).2) := rfl
  cases m with
  | code word => exact hcode word
  | dash word =>
      have hstep : step (.dash word) '/' = (wordTokens word ++ [.symbol '-'], .slash []) := rfl
      rw [run, hstep, hrest]
      rfl
  | slash word =>
      have hstep : step (.slash word) '/' = (wordTokens word ++ [.symbol '/'], .slash []) := rfl
      rw [run, hstep, hrest]
      rfl
  | quoted | escaped | comment | block | star => cases hm

/-- The end of a block comment needs both of its characters. -/
theorem step_star (hc : c ≠ '/') : step .star c = step .block c := by
  rw [step, step, if_neg hc]

/-! ## Texts without tokens -/

theorem step_symbol (hm : m.plain = true) (hdash : c ≠ '-') (hslash : c ≠ '/') (hstar : c ≠ '*')
    (hspace : isSpace c = false) (hquote : isQuote c = false) (hname : isNameChar c = false)
    (hoperator : isOperatorChar c = false) :
    step m c = (flush m ++ [.symbol c], .code []) := by
  have hcode (word : Str) : stepCode word c = (wordTokens word ++ [.symbol c], .code []) := by
    simp [stepCode, joins, hdash, hslash, hspace, hquote, hname, hoperator]
  cases m with
  | code word => exact hcode word
  | dash word =>
      rw [step, if_neg hdash, hcode, flush, List.append_assoc]
      rfl
  | slash word =>
      rw [step, if_neg hstar, hcode, flush, List.append_assoc]
      rfl
  | quoted | escaped | comment | block | star => cases hm

/-- The reader is in a word or a literal. -/
def Mode.busy : Mode → Bool
  | .code word => !word.isEmpty
  | .dash word => !word.isEmpty
  | .slash word => !word.isEmpty
  | .quoted _ _ => true
  | .escaped _ _ => true
  | _ => false

theorem wordTokens_ne_nil (h : (!word.isEmpty) = true) : wordTokens word ≠ [] := by
  unfold wordTokens
  split
  · rename_i hnil
    rw [hnil] at h
    cases h
  · exact List.cons_ne_nil _ _

theorem step_busy (hm : m.busy = true) (c : Char) :
    (step m c).1 ≠ [] ∨ (step m c).2.busy = true := by
  cases m with
  | code word =>
      have hword := wordTokens_ne_nil hm
      rw [step, stepCode]
      split
      · exact .inr hm
      split
      · exact .inr hm
      split
      · exact .inl hword
      split
      · exact .inl hword
      split
      · exact .inr (by simp [Mode.busy])
      split
      · exact .inl hword
      · exact .inl (by simp)
  | dash word | slash word =>
      have hword := wordTokens_ne_nil hm
      rw [step]
      split
      · exact .inl hword
      · exact .inl (by simp)
  | quoted quote text =>
      rw [step]
      split
      · exact .inl (List.cons_ne_nil _ _)
      · split <;> exact .inr rfl
  | escaped quote text => exact .inr rfl
  | comment | block | star => cases hm

/-- A word or a literal is a token in the end. -/
theorem run_busy (hm : m.busy = true) (s : Str) : (run m s).1 ++ flush (run m s).2 ≠ [] := by
  induction s generalizing m with
  | nil =>
      cases m with
      | code word => exact wordTokens_ne_nil hm
      | dash word | slash word => simp [run, flush]
      | quoted quote text | escaped quote text => exact List.cons_ne_nil _ _
      | comment | block | star => cases hm
  | cons c s ih =>
      rw [run, List.append_assoc]
      rcases step_busy hm c with hstep | hstep
      · exact List.append_ne_nil_of_left_ne_nil hstep _
      · exact List.append_ne_nil_of_right_ne_nil _ (ih hstep)

/-- A dash is a symbol, unless it begins a comment. -/
theorem exists_of_dash (h : (run (.dash []) s).1 ++ flush (run (.dash []) s).2 = []) :
    ∃ t, s = '-' :: t := by
  cases s with
  | nil => cases h
  | cons d t =>
      by_cases hd : d = '-'
      · exact ⟨t, by rw [hd]⟩
      · rw [run, step, if_neg hd] at h
        simp at h

/-- And so is a slash. -/
theorem exists_of_slash (h : (run (.slash []) s).1 ++ flush (run (.slash []) s).2 = []) :
    ∃ t, s = '*' :: t := by
  cases s with
  | nil => cases h
  | cons d t =>
      by_cases hd : d = '*'
      · exact ⟨t, by rw [hd]⟩
      · rw [run, step, if_neg hd] at h
        simp at h

/-- A text without tokens starts with white space or a comment. -/
theorem tokens_cons_eq_nil (h : tokens (c :: s) = []) : isSpace c = true ∨
    (c = '-' ∧ ∃ t, s = '-' :: t) ∨ c = '/' ∧ ∃ t, s = '*' :: t := by
  have hrun : tokens (c :: s) = (step (.code []) c).1 ++
      ((run (step (.code []) c).2 s).1 ++ flush (run (step (.code []) c).2 s).2) := by
    rw [tokens, run, List.append_assoc]
  rw [hrun, List.append_eq_nil_iff] at h
  obtain ⟨hstep, hrest⟩ := h
  rw [step, stepCode] at hstep hrest
  by_cases hdash : c = '-'
  · rw [if_pos hdash] at hrest
    exact .inr (.inl ⟨hdash, exists_of_dash hrest⟩)
  by_cases hslash : c = '/'
  · rw [if_neg hdash, if_pos hslash] at hrest
    exact .inr (.inr ⟨hslash, exists_of_slash hrest⟩)
  by_cases hspace : isSpace c = true
  · exact .inl hspace
  · exfalso
    rw [if_neg hdash, if_neg hslash, if_neg hspace] at hstep hrest
    split at hrest
    · exact run_busy rfl s hrest
    · rename_i hquote
      split at hrest
      · exact run_busy rfl s hrest
      · rename_i hword
        simp [hquote, hword] at hstep

/-- A text without tokens ends the token of the code before it and adds none, unless its first
dash is the second one of a comment. -/
theorem run_append_of_nil (hs : (run (.code []) s).2.plain = true) (ht : tokens t = [])
    (hne : t ≠ [])
    (hdash : (∃ word, (run (.code []) s).2 = .dash word) → t.head? ≠ some '-') :
    (run (.code []) (s ++ t)).1 ++ flush (run (.code []) (s ++ t)).2 = tokens s ∧
      (run (.code []) (s ++ t)).2 = (run (.code []) t).2 := by
  obtain ⟨c, t, rfl⟩ := List.exists_cons_of_ne_nil hne
  have hsplit : (run (run (.code []) s).2 (c :: t)) =
      (flush (run (.code []) s).2 ++ (run (.code []) (c :: t)).1, (run (.code []) (c :: t)).2) := by
    rcases tokens_cons_eq_nil ht with hspace | ⟨rfl, t, rfl⟩ | ⟨rfl, t, rfl⟩
    · rw [run, run, step_space hs hspace, step_space rfl hspace]
      rfl
    · have hword : ∀ word, (run (.code []) s).2 ≠ .dash word :=
        fun word hmode => hdash ⟨word, hmode⟩ rfl
      rw [run_dashes hs hword, run_dashes rfl (fun word => Mode.noConfusion)]
      rfl
    · rw [run_slash_star hs, run_slash_star rfl]
      rfl
  rw [tokens] at ht
  rw [run_append, hsplit, List.append_assoc, List.append_assoc, ht, List.append_nil]
  exact ⟨rfl, rfl⟩

end Structor.Sql
