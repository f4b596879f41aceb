import Structor.Ats.StatsPlan

/-!
# The records in the printed counters

The report cuts the text of the counters at the commas, and looks in each piece for a vertex and
its number of records.

## Main definitions

* `searchRecord` -- the first match of the pattern
* `recordsIn` -- the vertices and counts that are found in a text
* `readRecords` -- the entries with the counts
* `counterRecords` -- what is found in the single counters
-/
namespace Structor.Ats
open Python

/-! ## The records in a text -/

def recordsOut : Str := "RECORDS_OUT_INTERMEDIATE"

/-- The number of a match of `': (\d+)`. -/
def countAfter (s : Str) : Option Str :=
  if "': ".toList <+: s ∧ (s.drop 3).takeWhile Char.isDigit ≠ [] then
    some ((s.drop 3).takeWhile Char.isDigit)
  else none

/-- The groups of a match of `([^']+)': (\d+)`. -/
def vertexAndCount (s : Str) : Option (Str × Str) :=
  if s.takeWhile (· ≠ '\'') = [] then none
  else (countAfter (s.dropWhile (· ≠ '\''))).map fun count => (s.takeWhile (· ≠ '\''), count)

/-- A match at the start of a text. -/
def matchRecord (s : Str) : Option (Str × Str) :=
  if recordsOut ++ ['_'] <+: s then vertexAndCount (s.drop (recordsOut.length + 1)) else none

/-- The groups of the first match of `RECORDS_OUT_INTERMEDIATE_([^']+)': (\d+)`. -/
def searchRecord (s : Str) : Option (Str × Str) := s.tails.findSome? matchRecord

/-- `s.replace("_", " ")` -/
def spaced (s : Str) : Str := s.map fun c => if c = '_' then ' ' else c

/-- A vertex must have an entry of its own to get its number. -/
def setActual (queryCounters : List QueryCounter) (vertex count : Str) :
    Except Error (List QueryCounter) :=
  match Keyed.get QueryCounter.vertex vertex queryCounters with
  | some _ => .ok (queryCounters.map fun q =>
      if q.vertex = vertex then { q with actual := some count } else q)
  | none => .error .keyError

def readRecord (queryCounters : List QueryCounter) (r : Str) : Except Error (List QueryCounter) :=
  if recordsOut <:+: r then
    match searchRecord r with
    | some (vertex, count) => setActual queryCounters (spaced vertex) count
    | none => .error .attributeError
  else .ok queryCounters

def readRecords (queryCounters : List QueryCounter) (counters : Str) :
    Except Error (List QueryCounter) :=
  ((counters.splitOn ',').map strip).foldlM readRecord queryCounters

/-- What a record with the word in it tells, if the pattern matches. -/
def recordOf (r : Str) : Option (Option (Str × Str)) :=
  if recordsOut <:+: r then some ((searchRecord r).map fun m => (spaced m.1, m.2)) else none

/-- What the records of a text tell. -/
def recordsIn (text : Str) : List (Option (Str × Str)) := (text.splitOn ',').filterMap recordOf

theorem matchRecord_cons {c : Char} (hc : c ≠ 'R') (s : Str) : matchRecord (c :: s) = none := by
  refine if_neg fun h => hc ?_
  exact (List.cons_prefix_cons.mp h).1.symm

theorem searchRecord_cons {c : Char} (hc : c ≠ 'R') (s : Str) :
    searchRecord (c :: s) = searchRecord s := by
  rw [searchRecord, List.tails, List.findSome?_cons, matchRecord_cons hc]
  rfl

theorem infix_cons_iff {c : Char} (hc : c ≠ 'R') (s : Str) :
    recordsOut <:+: c :: s ↔ recordsOut <:+: s := by
  rw [List.infix_cons_iff, or_iff_right]
  intro h
  exact hc (List.cons_prefix_cons.mp h).1.symm

/-- A record starts with the letter of its pattern. -/
theorem recordOf_cons {c : Char} (hc : c ≠ 'R') (s : Str) : recordOf (c :: s) = recordOf s := by
  rw [recordOf, recordOf, searchRecord_cons hc]
  simp only [infix_cons_iff hc]

theorem countAfter_concat {c : Char} (hc : c.isDigit = false) (s : Str) :
    countAfter (s ++ [c]) = countAfter s := by
  by_cases hquote : "': ".toList <+: s
  · have hlen : 3 ≤ s.length := hquote.length_le
    rw [countAfter, countAfter, List.drop_append_of_le_length hlen, takeWhile_concat hc]
    simp only [hquote, hquote.trans (List.prefix_append s [c]), true_and]
  · have hs : countAfter s = none := if_neg fun h => hquote h.1
    rw [hs]
    refine if_neg fun h => ?_
    rcases List.prefix_concat_iff.mp h.1 with heq | hpre
    · refine h.2 ?_
      rw [← heq]
      rfl
    · exact hquote hpre

/-- The vertex ends at the first quote. -/
theorem vertexAndCount_append {vertex : Str} (hvertex : '\'' ∉ vertex) (rest : Str) :
    vertexAndCount (vertex ++ '\'' :: rest) =
      if vertex = [] then none
      else (countAfter ('\'' :: rest)).map fun count => (vertex, count) := by
  have hplain : ∀ a ∈ vertex, decide (a ≠ '\'') = true := by
    intro a ha
    rw [decide_eq_true_iff]
    rintro rfl
    exact hvertex ha
  have htake : (vertex ++ '\'' :: rest).takeWhile (fun a => decide (a ≠ '\'')) = vertex := by
    rw [List.takeWhile_append_of_pos hplain, List.takeWhile_cons_of_neg (by decide),
      List.append_nil]
  have hdrop : (vertex ++ '\'' :: rest).dropWhile (fun a => decide (a ≠ '\'')) = '\'' :: rest := by
    rw [List.dropWhile_append_of_pos hplain, List.dropWhile_cons_of_neg (by decide)]
  rw [vertexAndCount, htake, hdrop]

theorem vertexAndCount_of_not_mem {s : Str} (hs : '\'' ∉ s) : vertexAndCount s = none := by
  have hdrop : s.dropWhile (fun a => decide (a ≠ '\'')) = [] := by
    rw [List.dropWhile_eq_nil_iff]
    intro a ha
    rw [decide_eq_true_iff]
    rintro rfl
    exact hs ha
  have hcount : countAfter [] = none := rfl
  rw [vertexAndCount, hdrop, hcount, Option.map_none, ite_self]

theorem vertexAndCount_concat {c : Char} (hc : c.isDigit = false) (s : Str) :
    vertexAndCount (s ++ [c]) = vertexAndCount s := by
  by_cases hs : '\'' ∈ s
  · obtain ⟨vertex, rest, rfl, hvertex⟩ := List.eq_append_cons_of_mem hs
    rw [List.append_assoc, List.cons_append, vertexAndCount_append hvertex,
      vertexAndCount_append hvertex, ← List.cons_append, countAfter_concat hc]
  · rw [vertexAndCount_of_not_mem hs]
    by_cases hquote : c = '\''
    · have hcount : countAfter ['\''] = none := rfl
      rw [hquote, vertexAndCount_append hs, hcount, Option.map_none, ite_self]
    · refine vertexAndCount_of_not_mem ?_
      rw [List.mem_append, List.mem_singleton, not_or]
      exact ⟨hs, Ne.symm hquote⟩

theorem matchRecord_concat {c : Char} (hc : c.isDigit = false) (s : Str) :
    matchRecord (s ++ [c]) = matchRecord s := by
  by_cases hpre : recordsOut ++ ['_'] <+: s
  · have hlen : recordsOut.length + 1 ≤ s.length := hpre.length_le
    rw [matchRecord, matchRecord, if_pos hpre, if_pos (hpre.trans (List.prefix_append s [c])),
      List.drop_append_of_le_length hlen, vertexAndCount_concat hc]
  · have hs : matchRecord s = none := if_neg hpre
    rw [hs]
    by_cases hwhole : recordsOut ++ ['_'] <+: s ++ [c]
    · obtain hwhole := (List.prefix_concat_iff.mp hwhole).resolve_right hpre
      rw [← hwhole]
      rfl
    · exact if_neg hwhole

theorem searchRecord_concat {c : Char} (hc : c.isDigit = false) (s : Str) :
    searchRecord (s ++ [c]) = searchRecord s := by
  induction s with
  | nil =>
      have hnone : matchRecord [] = none := rfl
      have hsingle : matchRecord [c] = none := matchRecord_concat hc []
      simp [searchRecord, List.tails, hnone, hsingle]
  | cons d s ih =>
      rw [searchRecord, searchRecord] at ih ⊢
      rw [List.cons_append, List.tails, List.findSome?_cons, ← List.cons_append,
        matchRecord_concat hc, ih]
      rfl

theorem infix_concat_iff {c : Char} (hc : c ≠ 'E') (s : Str) :
    recordsOut <:+: s ++ [c] ↔ recordsOut <:+: s := by
  rw [List.infix_concat_iff, or_iff_right]
  rintro ⟨t, ht⟩
  have hlast := congrArg List.getLast? ht
  rw [List.getLast?_append] at hlast
  have hE : recordsOut.getLast? = some 'E' := by decide
  rw [hE, List.getLast?_concat] at hlast
  exact hc (Option.some.inj hlast).symm

/-- A record ends with a digit. -/
theorem recordOf_concat {c : Char} (hdigit : c.isDigit = false) (hc : c ≠ 'E') (s : Str) :
    recordOf (s ++ [c]) = recordOf s := by
  rw [recordOf, recordOf, searchRecord_concat hdigit]
  simp only [infix_concat_iff hc]

theorem isSpace_cases {c : Char} (hc : isSpace c = true) :
    c ≠ 'R' ∧ c ≠ 'E' ∧ c.isDigit = false := by
  simp only [isSpace, Bool.or_eq_true, decide_eq_true_eq] at hc
  rcases hc with ((((rfl | rfl) | rfl) | rfl) | rfl) | rfl <;> decide

theorem recordOf_strip (s : Str) : recordOf (strip s) = recordOf s := by
  have hleft (s : Str) : recordOf (lstrip s) = recordOf s := by
    induction s with
    | nil => rfl
    | cons c s ih =>
        rw [lstrip, List.dropWhile_cons]
        split
        · rename_i hc
          rw [recordOf_cons (isSpace_cases hc).1]
          exact ih
        · rfl
  have hright (s : Str) : recordOf (rstrip s) = recordOf s := by
    induction s using List.reverseRecOn with
    | nil => rfl
    | append_singleton s c ih =>
        rw [rstrip, List.rdropWhile_concat]
        split
        · rename_i hc
          rw [recordOf_concat (isSpace_cases hc).2.2 (isSpace_cases hc).2.1]
          exact ih
        · rfl
  rw [strip, hright, hleft]

/-! ## Texts of several records -/

theorem recordsIn_append (x y : Str) : recordsIn (x ++ ',' :: y) = recordsIn x ++ recordsIn y := by
  rw [recordsIn, List.splitOn_append_cons_self, List.filterMap_append]
  rfl

theorem recordsIn_of_not_mem {s : Str} (hs : ',' ∉ s) : recordsIn s = (recordOf s).toList := by
  rw [recordsIn, List.splitOn_eq_singleton hs]
  cases hrecord : recordOf s <;> simp [hrecord]

theorem recordsIn_cons {c : Char} (hc : c ≠ 'R') (hcomma : c ≠ ',') (s : Str) :
    recordsIn (c :: s) = recordsIn s := by
  by_cases hs : ',' ∈ s
  · obtain ⟨front, rest, rfl, hfront⟩ := List.eq_append_cons_of_mem hs
    have hmem : ',' ∉ c :: front := by
      rw [List.mem_cons, not_or]
      exact ⟨Ne.symm hcomma, hfront⟩
    rw [← List.cons_append, recordsIn_append, recordsIn_append, recordsIn_of_not_mem hmem,
      recordsIn_of_not_mem hfront, recordOf_cons hc]
  · have hmem : ',' ∉ c :: s := by
      rw [List.mem_cons, not_or]
      exact ⟨Ne.symm hcomma, hs⟩
    rw [recordsIn_of_not_mem hmem, recordsIn_of_not_mem hs, recordOf_cons hc]

theorem recordsIn_concat {c : Char} (hdigit : c.isDigit = false) (hc : c ≠ 'E') (hcomma : c ≠ ',')
    (s : Str) : recordsIn (s ++ [c]) = recordsIn s := by
  have hplain (s : Str) (hs : ',' ∉ s) : recordsIn (s ++ [c]) = recordsIn s := by
    have hmem : ',' ∉ s ++ [c] := by
      rw [List.mem_append, List.mem_singleton, not_or]
      exact ⟨hs, Ne.symm hcomma⟩
    rw [recordsIn_of_not_mem hmem, recordsIn_of_not_mem hs, recordOf_concat hdigit hc]
  by_cases hs : ',' ∈ s
  · obtain ⟨before, last, rfl, hlast⟩ := exists_last_mem hs
    rw [List.append_assoc, List.cons_append, recordsIn_append, recordsIn_append, hplain last hlast]
  · exact hplain s hs

theorem recordsIn_replicate (n : ℕ) (s : Str) :
    recordsIn (List.replicate n ' ' ++ s) = recordsIn s := by
  induction n with
  | zero => rfl
  | succ n ih =>
      rw [List.replicate_succ, List.cons_append, recordsIn_cons (by decide) (by decide), ih]

/-- The separators of the printer end a record. -/
theorem recordsIn_separator (sepLines : Bool) (indent : ℕ) (x y : Str) :
    recordsIn (x ++ (separator sepLines indent ++ y)) = recordsIn x ++ recordsIn y := by
  cases sepLines
  · have hsep : separator false indent ++ y = ',' :: ' ' :: y := rfl
    rw [hsep, recordsIn_append, recordsIn_cons (by decide) (by decide)]
  · have hsep : separator true indent ++ y = ',' :: '\n' :: (List.replicate indent ' ' ++ y) := rfl
    rw [hsep, recordsIn_append, recordsIn_cons (by decide) (by decide), recordsIn_replicate]

theorem recordsIn_intercalate (sepLines : Bool) (indent : ℕ) (texts : List Str) :
    recordsIn ((separator sepLines indent).intercalate texts) = texts.flatMap recordsIn := by
  induction texts with
  | nil => rfl
  | cons x texts ih =>
      cases texts with
      | nil => simp [List.intercalate]
      | cons y texts =>
          rw [List.intercalate_cons_cons, List.append_assoc, recordsIn_separator, ih]
          rfl

/-- The printed counters, in the order of their names. -/
def printedCounters (counters : List (Str × ℕ)) : List Str :=
  (sortItems (counters.map fun c => (c.1, reprInt c.2))).map fun item =>
    Python.reprStr item.1 ++ ':' :: ' ' :: item.2

/-- What the printed counters tell one by one. -/
def counterRecords (counters : List (Str × ℕ)) : List (Option (Str × Str)) :=
  (printedCounters counters).flatMap recordsIn

/-- The dictionary that is printed. -/
def counterItems (counters : List (Str × ℕ)) : List (Str × Json) :=
  counters.map fun c => (c.1, .int c.2)

theorem formatItems_counterItems (indent allowance : ℕ) (counters : List (Str × ℕ)) :
    formatItems indent allowance (counterItems counters) =
      counters.map fun c => (c.1, reprInt c.2) := by
  induction counters with
  | nil => rfl
  | cons c counters ih =>
      rw [counterItems, List.map_cons, formatItems, ← counterItems, ih]
      rfl

theorem pformat_counterItems (counters : List (Str × ℕ)) : ∃ sepLines,
    pformat (.obj (counterItems counters)) = '\x7b' :: ' ' ::
      (separator sepLines 2).intercalate (printedCounters counters) ++ ['\x7d'] := by
  rw [pformat, format, formatItems_counterItems]
  exact ⟨_, rfl⟩

/-- The printed dictionary has the records of the single counters. -/
theorem recordsIn_pformat (counters : List (Str × ℕ)) :
    recordsIn (pformat (.obj (counterItems counters))) = counterRecords counters := by
  obtain ⟨sepLines, htext⟩ := pformat_counterItems counters
  rw [htext, List.cons_append, List.cons_append, recordsIn_cons (by decide) (by decide),
    recordsIn_cons (by decide) (by decide), recordsIn_concat (by decide) (by decide) (by decide),
    recordsIn_intercalate]
  rfl

/-! ## Reading the records -/

variable {queryCounters result : List QueryCounter}

/-- What a record with the word in it does. -/
def tell (queryCounters : List QueryCounter) : Option (Str × Str) →
    Except Error (List QueryCounter)
  | some (vertex, count) => setActual queryCounters vertex count
  | none => .error .attributeError

theorem readRecord_strip (queryCounters : List QueryCounter) (r : Str) :
    readRecord queryCounters (strip r) =
      (recordOf r).elim (.ok queryCounters) (tell queryCounters) := by
  rw [← recordOf_strip, readRecord, recordOf]
  by_cases hword : recordsOut <:+: strip r
  · rw [if_pos hword, if_pos hword, Option.elim_some]
    cases searchRecord (strip r) <;> rfl
  · rw [if_neg hword, if_neg hword, Option.elim_none]

theorem readRecords_eq (queryCounters : List QueryCounter) (counters : Str) :
    readRecords queryCounters counters = (recordsIn counters).foldlM tell queryCounters := by
  rw [readRecords, recordsIn]
  induction counters.splitOn ',' generalizing queryCounters with
  | nil => rfl
  | cons r rs ih =>
      rw [List.map_cons, List.foldlM_cons, readRecord_strip]
      cases hrecord : recordOf r with
      | none =>
          rw [Option.elim_none, ok_bind, ih, List.filterMap_cons_none hrecord]
      | some record =>
          rw [List.filterMap_cons_some hrecord, List.foldlM_cons, Option.elim_some]
          exact bind_congr fun queryCounters => ih queryCounters

/-- The last count that the records tell for a vertex. -/
def lastCount (records : List (Option (Str × Str))) (vertex : Str) : Option Str :=
  writeAll (records.filterMap id) vertex

theorem lastCount_append (records records' : List (Option (Str × Str))) (vertex : Str) :
    lastCount (records ++ records') vertex =
      (lastCount records' vertex).or (lastCount records vertex) := by
  rw [lastCount, List.filterMap_append, writeAll_append]
  rfl

/-- The entries with the counts of the records. -/
def counted (queryCounters : List QueryCounter) (records : List (Option (Str × Str))) :
    List QueryCounter :=
  queryCounters.map fun q => { q with actual := (lastCount records q.vertex).or q.actual }

@[simp] theorem map_vertex_counted (queryCounters : List QueryCounter)
    (records : List (Option (Str × Str))) :
    (counted queryCounters records).map QueryCounter.vertex =
      queryCounters.map QueryCounter.vertex := by
  rw [counted, List.map_map]
  rfl

theorem counted_append (queryCounters : List QueryCounter)
    (records records' : List (Option (Str × Str))) :
    counted (counted queryCounters records) records' =
      counted queryCounters (records ++ records') := by
  rw [counted, counted, counted, List.map_map]
  refine List.map_congr_left fun q _ => ?_
  simp only [Function.comp_apply, lastCount_append, Option.or_assoc]

theorem setActual_eq_ok_iff {vertex count : Str} :
    setActual queryCounters vertex count = .ok result ↔
      vertex ∈ queryCounters.map QueryCounter.vertex ∧
        result = counted queryCounters [some (vertex, count)] := by
  have hcounted : counted queryCounters [some (vertex, count)] = queryCounters.map fun q =>
      if q.vertex = vertex then { q with actual := some count } else q := by
    refine List.map_congr_left fun q _ => ?_
    have hlast : lastCount [some (vertex, count)] q.vertex =
        Function.update (fun _ => none) vertex (some count) q.vertex := rfl
    rw [hlast]
    by_cases hq : q.vertex = vertex
    · rw [if_pos hq, hq, Function.update_self, Option.some_or]
    · rw [if_neg hq, Function.update_of_ne hq, Option.none_or]
  rw [setActual, hcounted, ← Keyed.get_isSome_iff]
  cases Keyed.get QueryCounter.vertex vertex queryCounters with
  | none => exact iff_of_false (fun h => by cases h) fun h => by cases h.1
  | some q => rw [Except.ok.injEq, Option.isSome_some, and_iff_right rfl, eq_comm]

/-- A record that is read names an entry. -/
def Known (queryCounters : List QueryCounter) (record : Option (Str × Str)) : Prop :=
  ∃ m, record = some m ∧ m.1 ∈ queryCounters.map QueryCounter.vertex

theorem tell_eq_ok_iff {record : Option (Str × Str)} : tell queryCounters record = .ok result ↔
    Known queryCounters record ∧ result = counted queryCounters [record] := by
  cases record with
  | none => exact iff_of_false (fun h => by cases h) fun ⟨⟨_, h, _⟩, _⟩ => by cases h
  | some m =>
      have hknown : Known queryCounters (some m) ↔ m.1 ∈ queryCounters.map QueryCounter.vertex := by
        simp [Known]
      rw [hknown]
      exact setActual_eq_ok_iff

/-- The loop over the records ends if each of them names an entry. -/
theorem foldlM_tell_iff {records : List (Option (Str × Str))} :
    records.foldlM tell queryCounters = .ok result ↔
      (∀ r ∈ records, Known queryCounters r) ∧ result = counted queryCounters records := by
  have hknown (records : List (Option (Str × Str))) (r : Option (Str × Str)) :
      Known (counted queryCounters records) r ↔ Known queryCounters r := by
    rw [Known, Known, map_vertex_counted]
  induction records using List.reverseRecOn generalizing result with
  | nil =>
      have hnil : counted queryCounters [] = queryCounters := List.map_id queryCounters
      rw [hnil, List.foldlM_nil]
      simp [pure, Except.pure, eq_comm]
  | append_singleton records r ih =>
      have hstep : (records ++ [r]).foldlM tell queryCounters =
          records.foldlM tell queryCounters >>= fun before => tell before r := by
        simp
      rw [hstep, ← counted_append, List.forall_mem_append, List.forall_mem_singleton]
      constructor
      · intro h
        obtain ⟨before, hbefore, hafter⟩ := bind_eq_ok h
        obtain ⟨hrecords, rfl⟩ := ih.mp hbefore
        obtain ⟨hr, rfl⟩ := tell_eq_ok_iff.mp hafter
        exact ⟨⟨hrecords, (hknown records r).mp hr⟩, rfl⟩
      · rintro ⟨⟨hrecords, hr⟩, rfl⟩
        rw [ih.mpr ⟨hrecords, rfl⟩, ok_bind]
        exact tell_eq_ok_iff.mpr ⟨(hknown records r).mpr hr, rfl⟩

/-! ## The texts of the printed counters -/

theorem lt_of_mem_printed {name : Str} {z : ℤ} {c : Char}
    (hc : c ∈ Python.reprStr name ++ ':' :: ' ' :: reprInt z) : c.toNat < 128 := by
  rcases List.mem_append.mp hc with hc | hc
  · exact lt_of_mem_reprStr hc
  rcases List.mem_cons.mp hc with rfl | hc
  · decide
  rcases List.mem_cons.mp hc with rfl | hc
  · decide
  unfold reprInt at hc
  split at hc
  · exact lt_of_mem_decimal hc
  · rcases List.mem_append.mp hc with hc | hc
    · exact lt_of_mem_decimal hc
    · rw [List.mem_singleton.mp hc]
      decide

theorem subset_of_matchRecord {s : Str} {m : Str × Str} (h : matchRecord s = some m) : m.1 ⊆ s := by
  unfold matchRecord vertexAndCount at h
  split at h
  · split at h
    · cases h
    · obtain ⟨count, -, rfl⟩ := Option.map_eq_some_iff.mp h
      exact List.Subset.trans (List.takeWhile_subset _) (List.drop_subset _ _)
  · cases h

theorem subset_of_searchRecord {s : Str} {m : Str × Str} (h : searchRecord s = some m) :
    m.1 ⊆ s := by
  obtain ⟨t, ht, hm⟩ := List.exists_of_findSome?_eq_some h
  exact List.Subset.trans (subset_of_matchRecord hm) ((List.mem_tails t s).mp ht).subset

theorem mem_of_recordOf {r vertex count : Str} (h : recordOf r = some (some (vertex, count)))
    {c : Char} (hc : c ∈ vertex) : c = ' ' ∨ c ∈ r := by
  unfold recordOf at h
  split at h
  · obtain ⟨m, hm, heq⟩ := Option.map_eq_some_iff.mp (Option.some.inj h)
    obtain ⟨rfl, -⟩ := Prod.mk.inj heq
    obtain ⟨d, hd, rfl⟩ := List.mem_map.mp hc
    by_cases hspace : d = '_'
    · exact .inl (if_pos hspace)
    · rw [if_neg hspace]
      exact .inr (subset_of_searchRecord hm hd)
  · cases h

theorem lt_of_mem_printedCounters {counters : List (Str × ℕ)} {text : Str} {c : Char}
    (htext : text ∈ printedCounters counters) (hc : c ∈ text) : c.toNat < 128 := by
  obtain ⟨item, hitem, rfl⟩ := List.mem_map.mp htext
  obtain ⟨counter, -, hcounter⟩ := List.mem_map.mp ((List.mem_insertionSort _).mp hitem)
  rw [← hcounter] at hc
  dsimp only at hc
  exact lt_of_mem_printed hc

theorem lt_of_mem_pformat {counters : List (Str × ℕ)} :
    ∀ c ∈ pformat (.obj (counterItems counters)), c.toNat < 128 := by
  obtain ⟨sepLines, htext⟩ := pformat_counterItems counters
  have hsep : ∀ c ∈ separator sepLines 2, c.toNat < 128 := by
    cases sepLines <;> simp [separator, commaSep]
  have hprinted : ∀ text ∈ printedCounters counters, ∀ c ∈ text, c.toNat < 128 :=
    fun text htext c hc => lt_of_mem_printedCounters htext hc
  have hinner := forall_mem_intercalate hsep hprinted
  rw [htext, List.forall_mem_append, List.forall_mem_cons, List.forall_mem_cons]
  exact ⟨⟨by decide, by decide, hinner⟩, by simp⟩

/-- The vertices of the records in an ASCII text are ASCII. -/
theorem encodable_of_lastCount {text vertex count : Str} (htext : ∀ c ∈ text, c.toNat < 128)
    (h : lastCount (recordsIn text) vertex = some count) : Encodable (.str vertex) := by
  obtain ⟨earlier, later, hrecords, -⟩ := writeAll_eq_some_iff.mp h
  have hmem : (vertex, count) ∈ (recordsIn text).filterMap id := by
    rw [hrecords]
    exact List.mem_append_right _ List.mem_cons_self
  obtain ⟨record, hrecord, rfl⟩ := List.mem_filterMap.mp hmem
  obtain ⟨r, hr, hrecord⟩ := List.mem_filterMap.mp hrecord
  rw [Encodable, List.all_eq_true]
  intro c hc
  rw [decide_eq_true_iff]
  rcases mem_of_recordOf hrecord hc with rfl | hc
  · decide
  · exact htext c (subset_of_mem_splitOn hr hc)

end Structor.Ats
