import Mathlib.Data.List.Forall2
import Structor.Benchmetrics.Jmeter

/-!
# Columns of the JMeter converters

A row keeps the columns when its fields are, under the printed heading, the attributes of
its own line and the columns computed from them. The converters omit a query that they do
not find, and keep times and labels of earlier lines.

## Main definitions

* `Computes` -- the computed columns of a line, from its own attributes
* `Aligned` -- the fields of a row under those of the heading
* `KeepsColumns` -- all rows of a run are aligned, and nothing is raised
* `Fits` -- a line whose row is aligned
-/
namespace Structor.Jmeter

open Python

variable {k : Converter} {seconds : ℤ → Except Error FloatText} {x : Sample} {v : Vars}

/-! ## Values of a line -/

/-- The last value of an attribute. -/
def Sample.value (x : Sample) (name : Str) : Option Str :=
  x.attributes.foldl (fun old a => if a.1 = name then some a.2 else old) none

theorem foldl_value (name : Str) (attributes : List Attribute) (old : Option Str) :
    attributes.foldl (fun old a => if a.1 = name then some a.2 else old) old =
      (attributes.foldl (fun old a => if a.1 = name then some a.2 else old) none).or old := by
  induction attributes generalizing old with
  | nil => rfl
  | cons a attributes ih =>
      rw [List.foldl_cons, List.foldl_cons]
      by_cases ha : a.1 = name
      · rw [if_pos ha, if_pos ha, ih (some a.2), Option.or_assoc]
        rfl
      · rw [if_neg ha, if_neg ha, ih]

theorem mem_of_foldl_value {name value : Str} {attributes : List Attribute} {old : Option Str}
    (h : attributes.foldl (fun old a => if a.1 = name then some a.2 else old) old = some value) :
    old = some value ∨ value ∈ attributes.map Prod.snd := by
  induction attributes generalizing old with
  | nil => exact .inl h
  | cons a attributes ih =>
      rw [List.foldl_cons] at h
      rw [List.map_cons, List.mem_cons]
      by_cases ha : a.1 = name
      · rw [if_pos ha] at h
        rcases ih h with hold | hmem
        · exact .inr (.inl (Option.some.inj hold).symm)
        · exact .inr (.inr hmem)
      · rw [if_neg ha] at h
        exact (ih h).imp_right .inr

theorem Sample.value_mem {name value : Str} (h : x.value name = some value) :
    value ∈ x.attributes.map Prod.snd := by
  rcases mem_of_foldl_value h with hnone | hmem
  · cases hnone
  · exact hmem

/-- A variable has the value of its line, where the line has one. -/
theorem Vars.apply_next {field : Vars → Option Str} {name : Str}
    (hassign : ∀ v a, field (Vars.assign v a) = if a.1 = name then some a.2 else field v)
    (hprinted : ∀ (v : Vars) b, field { v with printedHeadings := b } = field v)
    (v : Vars) (x : Sample) : field (v.next x) = (x.value name).or (field v) := by
  rw [Vars.next, hprinted, Sample.value, ← foldl_value]
  exact (List.foldl_hom field fun v a => (hassign v a).symm).symm

theorem Vars.theTime_next (v : Vars) (x : Sample) :
    (v.next x).theTime = (x.value "t").or v.theTime := by
  apply Vars.apply_next _ fun v b => rfl
  intro v a
  have hts : "ts".toList ≠ "t".toList := by decide
  have hlb : "lb".toList ≠ "t".toList := by decide
  rw [Vars.assign]
  split_ifs <;> simp_all

theorem Vars.theStart_next (v : Vars) (x : Sample) :
    (v.next x).theStart = (x.value "ts").or v.theStart := by
  apply Vars.apply_next _ fun v b => rfl
  intro v a
  have ht : "t".toList ≠ "ts".toList := by decide
  have hlb : "lb".toList ≠ "ts".toList := by decide
  rw [Vars.assign]
  split_ifs <;> simp_all

theorem Vars.label_next (v : Vars) (x : Sample) :
    (v.next x).label = (x.value "lb").or v.label := by
  apply Vars.apply_next _ fun v b => rfl
  intro v a
  have ht : "t".toList ≠ "lb".toList := by decide
  have hts : "ts".toList ≠ "lb".toList := by decide
  rw [Vars.assign]
  split_ifs <;> simp_all

/-! ## Rows of a line's own values -/

variable (k seconds x)

/-- The computed columns of a line, from its own attributes. -/
structure Computed where
  query : Str
  theEnd : ℤ
  elapsed : FloatText

/-- What the last columns of the line's row should be. -/
def Computes (c : Computed) : Prop :=
  ∃ label theStart theTime start time,
    x.value "lb" = some label ∧ search k.literal k.inClass label = some c.query ∧
    x.value "ts" = some theStart ∧ int theStart = .ok start ∧
    x.value "t" = some theTime ∧ int theTime = .ok time ∧
    c.theEnd = start + time ∧ seconds time = .ok c.elapsed

/-- The fields of a row that has all the columns of its heading. -/
def fullRow (c : Computed) : List Str :=
  k.stuff x ++ [c.query, decimal c.theEnd, c.elapsed.text]

/-- The fields of the heading and of the row are the names and values of the line, and then
the computed columns. -/
def Aligned (heading row : List Str) : Prop :=
  heading = x.headings ∧ ∃ c, Computes k seconds x c ∧ row = fullRow k x c

variable {k seconds x}

theorem Aligned.length_eq {heading row : List Str} (h : Aligned k seconds x heading row) :
    heading.length = row.length := by
  obtain ⟨rfl, c, -, rfl⟩ := h
  simp [Sample.headings, computedHeadings, fullRow, Converter.stuff]

/-- The converter makes the full row of a line that has the attributes. -/
theorem row_eq_fullRow {c : Computed} (h : Computes k seconds x c) (v : Vars) :
    k.row seconds x (v.next x) = .ok (fullRow k x c) := by
  obtain ⟨label, theStart, theTime, start, time, hlabel, hquery, hstart, hintStart, htime,
    hintTime, hend, helapsed⟩ := h
  rw [Converter.row, v.label_next, v.theStart_next, v.theTime_next, hlabel, hstart, htime]
  simp [bound, hquery, hintStart, hintTime, helapsed, hend, fullRow, bind, Except.bind, pure,
    Except.pure]

/-! ## The rows of a run -/

def Line.row? : Line → Option Str
  | .heading _ => none
  | .row text => some text

def Printed.rows (p : Printed) : List Str := p.lines.filterMap Line.row?

variable (k seconds)

/-- Nothing is raised, and every row has its fields under those of a printed heading. `read`
takes the fields of a row from its text; a heading is split at its commas. -/
def KeepsColumns (read : Str → Option (List Str)) (xs : List Sample) (p : Printed) : Prop :=
  p.raised = none ∧
    List.Forall₂ (fun x row => ∃ heading fields, .heading heading ∈ p.lines ∧
      read row = some fields ∧ Aligned k seconds x (heading.splitOn ',') fields)
      (xs.filter k.Emits) p.rows

/-- The line's full row has its fields under those of a heading. -/
def FitsUnder (read : Str → Option (List Str)) (x : Sample) (heading : Str) : Prop :=
  heading.splitOn ',' = x.headings ∧
    ∃ c, Computes k seconds x c ∧ read (k.writerow (fullRow k x c)) = some (fullRow k x c)

variable {k seconds} {read : Str → Option (List Str)} {xs : List Sample}

/-- One row is aligned when its line has all that the row needs. -/
theorem row_aligned_iff (v : Vars) (heading : Str) :
    (∃ row fields, k.row seconds x (v.next x) = .ok row ∧ read (k.writerow row) = some fields ∧
      Aligned k seconds x (heading.splitOn ',') fields) ↔ FitsUnder k seconds read x heading := by
  constructor
  · rintro ⟨row, fields, hrow, hread, hheading, c, hc, rfl⟩
    refine ⟨hheading, c, hc, ?_⟩
    rw [row_eq_fullRow hc] at hrow
    cases hrow
    exact hread
  · rintro ⟨hheading, c, hc, hread⟩
    exact ⟨_, _, row_eq_fullRow hc v, hread, hheading, c, hc, rfl⟩

theorem rows_headingLines (v : Vars) (x : Sample) :
    (headingLines v x).filterMap Line.row? = [] := by
  rw [headingLines]
  split_ifs <;> rfl

/-- The rows of a run under some headings. -/
theorem convert_aligned_iff (Heading : Str → Prop) (v : Vars) :
    ((convert k seconds xs v).raised = none ∧
      List.Forall₂ (fun x row => ∃ heading fields, Heading heading ∧ read row = some fields ∧
        Aligned k seconds x (heading.splitOn ',') fields) (xs.filter k.Emits)
        (convert k seconds xs v).rows) ↔
      ∀ x ∈ xs, k.Emits x → ∃ heading, Heading heading ∧ FitsUnder k seconds read x heading := by
  induction xs generalizing v with
  | nil => simp [convert, Printed.rows]
  | cons x xs ih =>
      rw [List.forall_mem_cons, ← ih (v.next x), convert]
      by_cases hx : k.Emits x
      · rw [if_pos hx, List.filter_cons_of_pos (by simpa using hx)]
        cases hrow : k.row seconds x (v.next x) with
        | error e =>
            have hraise : ¬ ∃ heading, Heading heading ∧ FitsUnder k seconds read x heading := by
              rintro ⟨heading, -, -, c, hc, -⟩
              rw [row_eq_fullRow hc] at hrow
              cases hrow
            simp [hx, hraise]
        | ok row =>
            have hrow_iff : (∃ heading fields, Heading heading ∧
                read (k.writerow row) = some fields ∧
                Aligned k seconds x (heading.splitOn ',') fields) ↔
                ∃ heading, Heading heading ∧ FitsUnder k seconds read x heading := by
              constructor
              · rintro ⟨heading, fields, hheading, hread, haligned⟩
                refine ⟨heading, hheading, ?_⟩
                exact (row_aligned_iff v heading).mp ⟨row, fields, hrow, hread, haligned⟩
              · rintro ⟨heading, hheading, hfits⟩
                obtain ⟨row', fields, hrow', hread, haligned⟩ :=
                  (row_aligned_iff v heading).mpr hfits
                rw [hrow] at hrow'
                cases hrow'
                exact ⟨heading, fields, hheading, hread, haligned⟩
            have hrows : (Printed.after (headingLines v x ++ [.row (k.writerow row)])
                (convert k seconds xs (v.next x))).rows =
                k.writerow row :: (convert k seconds xs (v.next x)).rows := by
              simp [Printed.after, Printed.rows, rows_headingLines, Line.row?]
            rw [hrows, List.forall₂_cons, hrow_iff, forall_prop_of_true hx]
            exact and_left_comm
      · rw [if_neg hx, List.filter_cons_of_neg (by simpa using hx)]
        simp [hx, Printed.after, Printed.rows, rows_headingLines]

theorem heading_mem_headingLines_iff (v : Vars) (x : Sample) (heading : Str) :
    .heading heading ∈ headingLines v x ↔
      v.printedHeadings = false ∧ x.long = true ∧ heading = Csv.join x.headings := by
  rw [headingLines]
  cases v.printedHeadings <;> cases x.long <;> simp

/-- A line that raises nothing prints a heading or not, then a row or not. -/
theorem exists_convert_cons (v : Vars) (h : (convert k seconds (x :: xs) v).raised = none) :
    ∃ rows : List Str, convert k seconds (x :: xs) v =
      .after (headingLines v x ++ rows.map .row) (convert k seconds xs (v.next x)) := by
  rw [convert] at h ⊢
  by_cases hx : k.Emits x
  · rw [if_pos hx] at h ⊢
    cases hrow : k.row seconds x (v.next x) with
    | error e => simp [hrow] at h
    | ok row => exact ⟨[k.writerow row], rfl⟩
  · rw [if_neg hx] at h ⊢
    exact ⟨[], by simp⟩

/-- The heading of a run is that of the first long line. -/
theorem heading_mem_convert_iff (v : Vars) (h : (convert k seconds xs v).raised = none)
    (heading : Str) : .heading heading ∈ (convert k seconds xs v).lines ↔
      v.printedHeadings = false ∧
        ∃ x, xs.find? Sample.long = some x ∧ heading = Csv.join x.headings := by
  induction xs generalizing v with
  | nil => simp [convert]
  | cons x xs ih =>
      obtain ⟨rows, hcons⟩ := exists_convert_cons v h
      rw [hcons] at h ⊢
      have hprinted : (v.next x).printedHeadings = (v.printedHeadings || x.long) := rfl
      rw [Printed.after, List.mem_append, List.mem_append, heading_mem_headingLines_iff,
        ih (v.next x) h, hprinted, List.find?_cons]
      cases v.printedHeadings <;> cases x.long <;> simp

theorem exists_of_mem_right {α β : Type} {R : α → β → Prop} {l : List α} {l' : List β}
    (h : List.Forall₂ R l l') {b : β} (hb : b ∈ l') : ∃ a, R a b := by
  induction h with
  | nil => cases hb
  | cons hab _ ih =>
      rcases List.mem_cons.mp hb with rfl | hb
      · exact ⟨_, hab⟩
      · exact ih hb

/-- A row has as many fields as its heading. -/
theorem KeepsColumns.length_eq {p : Printed} (h : KeepsColumns k seconds read xs p) {row : Str}
    (hrow : row ∈ p.rows) : ∃ heading fields, .heading heading ∈ p.lines ∧
      read row = some fields ∧ (heading.splitOn ',').length = fields.length := by
  obtain ⟨x, heading, fields, hheading, hread, haligned⟩ := exists_of_mem_right h.2 hrow
  exact ⟨heading, fields, hheading, hread, haligned.length_eq⟩

/-- A single row that is too short or too long. -/
theorem not_keepsColumns_of_length {heading row : Str}
    (h : (read row).map List.length ≠ some (heading.splitOn ',').length) :
    ¬ KeepsColumns k seconds read xs ⟨[.heading heading, .row row], none⟩ := by
  intro hkeeps
  have hrow : row ∈ (⟨[.heading heading, .row row], none⟩ : Printed).rows := by
    simp [Printed.rows, Line.row?]
  obtain ⟨heading', fields, hmem, hread, hlength⟩ := hkeeps.length_eq hrow
  have hheading : heading' = heading := by simpa using hmem
  apply h
  rw [hread, Option.map_some, ← hheading, hlength]

/-! ## The converters -/

/-- What a line needs for its row to keep the columns under the heading of the first long
line. -/
structure Fits (k : Converter) (seconds : ℤ → Except Error FloatText) (first : Option Sample)
    (x : Sample) : Prop where
  heading : ∃ y, first = some y ∧ Csv.join y.headings = Csv.join x.headings
  names : ∀ name ∈ x.attributes.map Prod.fst, ',' ∉ name
  computes : ∃ c, Computes k seconds x c

theorem splitOn_heading_iff (x y : Sample) :
    (Csv.join y.headings).splitOn ',' = x.headings ↔
      Csv.join y.headings = Csv.join x.headings ∧
        ∀ name ∈ x.attributes.map Prod.fst, ',' ∉ name := by
  have hne : x.headings ≠ [] := by
    simp [Sample.headings, computedHeadings]
  have hcomputed : ∀ name ∈ computedHeadings, ',' ∉ name := by
    simp [computedHeadings]
  have hnames : (∀ name ∈ x.headings, ',' ∉ name) ↔
      ∀ name ∈ x.attributes.map Prod.fst, ',' ∉ name := by
    rw [Sample.headings, List.forall_mem_append, and_iff_left hcomputed]
  rw [Csv.splitOn_join_eq_iff hne, hnames]

/-- A run keeps the columns when every line that gives a row fits. -/
theorem keepsColumns_convert_iff {v : Vars} (hv : v.printedHeadings = false) :
    KeepsColumns k seconds read xs (convert k seconds xs v) ↔
      ∀ x ∈ xs, k.Emits x → ∃ y, xs.find? Sample.long = some y ∧
        FitsUnder k seconds read x (Csv.join y.headings) := by
  have hheading : ∀ x : Sample,
      (∃ heading, (∃ y, xs.find? Sample.long = some y ∧ heading = Csv.join y.headings) ∧
        FitsUnder k seconds read x heading) ↔
      ∃ y, xs.find? Sample.long = some y ∧ FitsUnder k seconds read x (Csv.join y.headings) := by
    intro x
    constructor
    · rintro ⟨_, ⟨y, hy, rfl⟩, hfits⟩
      exact ⟨y, hy, hfits⟩
    · rintro ⟨y, hy, hfits⟩
      exact ⟨_, ⟨y, hy, rfl⟩, hfits⟩
  simp only [← hheading]
  rw [← convert_aligned_iff (fun heading => ∃ y, xs.find? Sample.long = some y ∧
    heading = Csv.join y.headings) v, KeepsColumns]
  apply and_congr_right
  intro hraised
  simp only [heading_mem_convert_iff v hraised, hv, true_and]

/-- The group of a match is a part of the text. -/
theorem search_spec {literal s group : Str} {inClass : Char → Bool}
    (h : search literal inClass s = some group) :
    (∀ c ∈ group, inClass c = true) ∧ ∀ c ∈ group, c ∈ s := by
  induction s with
  | nil => simp [search] at h
  | cons d s ih =>
      simp only [search] at h
      split_ifs at h
      · cases h
        refine ⟨fun c hc => List.mem_takeWhile_imp hc, fun c hc => ?_⟩
        exact List.mem_of_mem_drop ((List.takeWhile_prefix inClass).subset hc)
      · exact ⟨(ih h).1, fun c hc => List.mem_cons_of_mem d ((ih h).2 c hc)⟩

/-- A user count has no comma. -/
theorem not_mem_users {files : List ResultFile} (hx : x ∈ samples files) : ',' ∉ x.users := by
  obtain ⟨f, -, hline⟩ := List.mem_flatMap.mp hx
  obtain ⟨line, -, rfl⟩ := List.mem_map.mp hline
  intro hcomma
  have hdigit := (search_spec f.counted).1 ',' hcomma
  simp at hdigit

theorem not_mem_float (t : FloatText) : ',' ∉ t.text := by
  intro hcomma
  have hplain := t.plain ',' hcomma
  simp at hplain

/-- The joined row has a comma inside a field only where an attribute has one. -/
theorem not_mem_fullRow_iff {c : Computed} (hc : Computes jmeterXmlConverter seconds x c)
    (husers : ',' ∉ x.users) :
    (∀ field ∈ fullRow jmeterXmlConverter x c, ',' ∉ field) ↔
      ∀ value ∈ x.attributes.map Prod.snd, ',' ∉ value := by
  constructor
  · intro h value hvalue
    apply h value
    simp only [fullRow, Converter.stuff, List.append_assoc, List.mem_append]
    exact .inl hvalue
  · intro h
    obtain ⟨label, _, _, _, _, hlabel, hquery, -⟩ := hc
    have hq : ',' ∉ c.query := by
      intro hcomma
      exact h label (Sample.value_mem hlabel) ((search_spec hquery).2 ',' hcomma)
    have hend : ',' ∉ decimal c.theEnd := not_mem_decimal (by decide) (by decide)
    have hfixed : ',' ∉ "3".toList ∧ ',' ∉ "8".toList := by decide
    rw [fullRow, Converter.stuff, List.forall_mem_append, List.forall_mem_append]
    refine ⟨⟨h, ?_⟩, ?_⟩
    · simp [jmeterXmlConverter, husers]
    · simp [hq, hend, not_mem_float]

/-- The fields of a row that is not quoted. -/
def splitRow (row : Str) : Option (List Str) := some (row.splitOn ',')

theorem fitsUnder_csvify_iff (options : Options) (x y : Sample) :
    FitsUnder (csvifyConverter options) seconds Csv.readRow x (Csv.join y.headings) ↔
      (Csv.join y.headings = Csv.join x.headings ∧
        ∀ name ∈ x.attributes.map Prod.fst, ',' ∉ name) ∧
      ∃ c, Computes (csvifyConverter options) seconds x c := by
  have hread : ∀ row, Csv.readRow ((csvifyConverter options).writerow row) = some row :=
    Csv.readRow_writerow
  simp only [FitsUnder, splitOn_heading_iff, hread, and_true]

theorem fitsUnder_jmeterXml_iff {x : Sample} (y : Sample) (husers : ',' ∉ x.users) :
    FitsUnder jmeterXmlConverter seconds splitRow x (Csv.join y.headings) ↔
      (Csv.join y.headings = Csv.join x.headings ∧
        ∀ name ∈ x.attributes.map Prod.fst, ',' ∉ name) ∧
      (∃ c, Computes jmeterXmlConverter seconds x c) ∧
      ∀ value ∈ x.attributes.map Prod.snd, ',' ∉ value := by
  have hread : ∀ c, Computes jmeterXmlConverter seconds x c →
      (splitRow (jmeterXmlConverter.writerow (fullRow jmeterXmlConverter x c)) =
        some (fullRow jmeterXmlConverter x c) ↔
        ∀ value ∈ x.attributes.map Prod.snd, ',' ∉ value) := by
    intro c hc
    have hne : fullRow jmeterXmlConverter x c ≠ [] := by
      simp [fullRow]
    rw [splitRow, Option.some_inj, ← not_mem_fullRow_iff hc husers]
    exact (Csv.splitOn_join_eq_iff hne).trans (and_iff_right rfl)
  rw [FitsUnder, splitOn_heading_iff]
  apply and_congr_right
  intro _
  constructor
  · rintro ⟨c, hc, hrow⟩
    exact ⟨⟨c, hc⟩, (hread c hc).mp hrow⟩
  · rintro ⟨⟨c, hc⟩, hvalues⟩
    exact ⟨c, hc, (hread c hc).mpr hvalues⟩

/-- The converters keep the columns exactly when every line that gives a row fits, and, where
rows are not quoted, has no comma in an attribute. -/
theorem keepsColumns_iff (seconds : ℤ → Except Error FloatText) :
    (∀ options file,
      KeepsColumns (csvifyConverter options) seconds Csv.readRow (samples [file])
          (csvify seconds options file) ↔
        ∀ x ∈ samples [file], (csvifyConverter options).Emits x →
          Fits (csvifyConverter options) seconds ((samples [file]).find? Sample.long) x) ∧
    (∀ files,
      KeepsColumns jmeterXmlConverter seconds splitRow (samples files)
          (jmeterXmlToCsv seconds files) ↔
        ∀ x ∈ samples files, jmeterXmlConverter.Emits x →
          Fits jmeterXmlConverter seconds ((samples files).find? Sample.long) x ∧
            ∀ value ∈ x.attributes.map Prod.snd, ',' ∉ value) := by
  refine ⟨fun options file => ?_, fun files => ?_⟩
  · rw [csvify, keepsColumns_convert_iff rfl]
    apply forall₃_congr
    intro x _ _
    simp only [fitsUnder_csvify_iff]
    constructor
    · rintro ⟨y, hy, ⟨hheading, hnames⟩, hc⟩
      exact ⟨⟨y, hy, hheading⟩, hnames, hc⟩
    · rintro ⟨⟨y, hy, hheading⟩, hnames, hc⟩
      exact ⟨y, hy, ⟨hheading, hnames⟩, hc⟩
  · rw [jmeterXmlToCsv, keepsColumns_convert_iff rfl]
    apply forall₃_congr
    intro x hx _
    simp only [fitsUnder_jmeterXml_iff _ (not_mem_users hx)]
    constructor
    · rintro ⟨y, hy, ⟨hheading, hnames⟩, hc, hvalues⟩
      exact ⟨⟨⟨y, hy, hheading⟩, hnames, hc⟩, hvalues⟩
    · rintro ⟨⟨⟨y, hy, hheading⟩, hnames, hc⟩, hvalues⟩
      exact ⟨y, hy, ⟨hheading, hnames⟩, hc, hvalues⟩

/-! ## A label without a query -/

/-- The elapsed seconds of 120 milliseconds. -/
def elapsed120 : ℤ → Except Error FloatText :=
  fun _ => .ok ⟨"0.12", by decide, by simp⟩

def loginFile : ResultFile where
  name := "raw_x16.xml"
  users := "16"
  counted := by decide
  text := "<httpSample t=\"120\" lt=\"119\" ts=\"1500000000000\" s=\"true\" lb=\"login\" " ++
    "rc=\"200\" rm=\"OK\" tn=\"Users-1\" dt=\"text\" by=\"64\"/>\n"

def loginHeading : Str :=
  "t,lt,ts,s,lb,rc,rm,tn,dt,by,nuser,scale,runid,nodes,query,end,time"

def loginOptions : Options := ⟨"200", "1", "8"⟩

def csvifyRow : Str :=
  "120,119,1500000000000,true,login,200,OK,Users-1,text,64,16,200,1,8,1500000000120,0.12"

def jmeterXmlRow : Str :=
  "120,119,1500000000000,true,login,200,OK,Users-1,text,64,16,3,3,8,1500000000120,0.12"

def loginSample : Sample where
  users := "16"
  attributes := [("t", "120"), ("lt", "119"), ("ts", "1500000000000"), ("s", "true"),
    ("lb", "login"), ("rc", "200"), ("rm", "OK"), ("tn", "Users-1"), ("dt", "text"), ("by", "64")]

theorem samples_login : samples [loginFile] = [loginSample] := by
  decide +kernel

theorem csvify_login : csvify elapsed120 loginOptions loginFile =
    ⟨[.heading loginHeading, .row csvifyRow], none⟩ := by
  rw [csvify, samples_login]
  decide +kernel

theorem jmeterXmlToCsv_login : jmeterXmlToCsv elapsed120 [loginFile] =
    ⟨[.heading loginHeading, .row jmeterXmlRow], none⟩ := by
  rw [jmeterXmlToCsv, samples_login]
  decide +kernel

/-- The rows of both converters lack the query column. -/
theorem login_not_keepsColumns :
    ¬ KeepsColumns (csvifyConverter loginOptions) elapsed120 Csv.readRow (samples [loginFile])
        (csvify elapsed120 loginOptions loginFile) ∧
      ¬ KeepsColumns jmeterXmlConverter elapsed120 splitRow (samples [loginFile])
        (jmeterXmlToCsv elapsed120 [loginFile]) := by
  rw [csvify_login, jmeterXmlToCsv_login]
  exact ⟨not_keepsColumns_of_length (by decide +kernel),
    not_keepsColumns_of_length (by decide +kernel)⟩

end Structor.Jmeter
