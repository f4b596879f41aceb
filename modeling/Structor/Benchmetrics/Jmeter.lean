import Structor.Csv
import Structor.Python.Json

/-!
# The JMeter converters

Two scripts turn the lines of JMeter result files into comma-separated rows. A line's
attributes are found by a regular expression, seven columns are added to them, and the
first long list of names is printed as the heading.

## Main definitions

* `search`, `attributes` -- the regular expressions
* `Converter` -- what the scripts differ in
* `convert` -- the loop over the lines
* `csvify`, `jmeterXmlToCsv` -- the scripts
-/
namespace Structor.Jmeter

open Python

/-! ## The regular expressions -/

/-- `re.search(literal + "(class+)", s).group(1)`, where there is a match. -/
def search (literal : Str) (inClass : Char → Bool) : Str → Option Str
  | [] => none
  | c :: cs =>
      let group := ((c :: cs).drop literal.length).takeWhile inClass
      if literal <+: c :: cs ∧ group ≠ [] then some group else search literal inClass cs

/-- An attribute with its name and value. -/
abbrev Attribute : Type := Str × Str

/-- A match of `(\S+)="([^"]+)"` at the start of a text, whose name has `n` characters, and
the length of the match. -/
def attributeOfLength (s : Str) (n : ℕ) : Option (Attribute × ℕ) :=
  let value := (s.drop (n + 2)).takeWhile (· ≠ '"')
  if (s.drop n).take 2 = ['=', '"'] ∧ value ≠ [] ∧
      (s.drop (n + 2 + value.length)).head? = some '"' then
    some ((s.take n, value), n + 2 + value.length + 1)
  else none

/-- The match whose name is the longest. -/
def attributeAt (s : Str) : Option (Attribute × ℕ) :=
  let run := s.takeWhile fun c => !isSpace c
  (List.range run.length).reverse.findSome? fun i => attributeOfLength s (i + 1)

/-- The matches after the next `skip` characters. -/
def attributesFrom : ℕ → Str → List Attribute
  | _, [] => []
  | skip + 1, _ :: cs => attributesFrom skip cs
  | 0, c :: cs =>
      match attributeAt (c :: cs) with
      | some (x, length) => x :: attributesFrom (length - 1) cs
      | none => attributesFrom 0 cs

/-- The matches of `re.finditer`. -/
def attributes (line : Str) : List Attribute := attributesFrom 0 line

/-! ## The loop over the lines -/

/-- A line of a result file, with the user count in the name of the file. -/
structure Sample where
  users : Str
  attributes : List Attribute
deriving DecidableEq

/-- A result file with a user count in its name. -/
structure ResultFile where
  name : Str
  users : Str
  counted : search "x" Char.isDigit name = some users
  text : Str

def samples (files : List ResultFile) : List Sample :=
  files.flatMap fun f => (fileLines f.text).map fun line => ⟨f.users, attributes line⟩

/-- The variables that keep their values from line to line. -/
structure Vars where
  printedHeadings : Bool
  theTime : Option Str
  theStart : Option Str
  label : Option Str

def Vars.assign (v : Vars) (x : Attribute) : Vars :=
  if x.1 = "t" then { v with theTime := some x.2 }
  else if x.1 = "ts" then { v with theStart := some x.2 }
  else if x.1 = "lb" then { v with label := some x.2 }
  else v

/-- A variable that is used. -/
def bound : Option Str → Except Error Str
  | some value => .ok value
  | none => .error .nameError

/-- What the scripts differ in: the regular expression of the query, the fixed columns and
how a row is printed. -/
structure Converter where
  literal : Str
  inClass : Char → Bool
  scale : Str
  runid : Str
  nodes : Str
  writerow : List Str → Str

def computedHeadings : List Str := ["nuser", "scale", "runid", "nodes", "query", "end", "time"]

def Sample.headings (x : Sample) : List Str := x.attributes.map Prod.fst ++ computedHeadings

variable (k : Converter) (seconds : ℤ → Except Error FloatText)

def Converter.stuff (x : Sample) : List Str :=
  x.attributes.map Prod.snd ++ [x.users, k.scale, k.runid, k.nodes]

/-- The fields of a row. The query is appended where the label has one. `seconds` is
`str(theTime * 1.0 / 1000)`. -/
def Converter.row (x : Sample) (v : Vars) : Except Error (List Str) := do
  let label ← bound v.label
  let query := search k.literal k.inClass label
  let theStart ← bound v.theStart >>= int
  let theTime ← bound v.theTime >>= int
  let elapsed ← seconds theTime
  return k.stuff x ++ query.toList ++ [decimal (theStart + theTime), elapsed.text]

inductive Line where
  | heading (text : Str)
  | row (text : Str)
deriving DecidableEq

/-- The lines printed before the end, or before an exception. -/
structure Printed where
  lines : List Line
  raised : Option Error
deriving DecidableEq

def Printed.after (lines : List Line) (rest : Printed) : Printed :=
  { rest with lines := lines ++ rest.lines }

def Sample.long (x : Sample) : Bool := 15 < x.headings.length

/-- The heading is printed once. -/
def headingLines (v : Vars) (x : Sample) : List Line :=
  if !v.printedHeadings && x.long then [.heading (Csv.join x.headings)] else []

/-- A row is printed for the line. -/
def Converter.Emits (x : Sample) : Prop := 30 < (Csv.join (k.stuff x)).length

instance (x : Sample) : Decidable (k.Emits x) := inferInstanceAs (Decidable (_ < _))

def Vars.next (v : Vars) (x : Sample) : Vars :=
  { x.attributes.foldl Vars.assign v with printedHeadings := v.printedHeadings || x.long }

def convert : List Sample → Vars → Printed
  | [], _ => ⟨[], none⟩
  | x :: rest, v =>
      if k.Emits x then
        match k.row seconds x (v.next x) with
        | .error e => ⟨headingLines v x, some e⟩
        | .ok row =>
            .after (headingLines v x ++ [.row (k.writerow row)]) (convert rest (v.next x))
      else .after (headingLines v x) (convert rest (v.next x))

/-! ## The scripts -/

structure Options where
  scale : Str
  runid : Str
  nodes : Str

/-- The rows of `csvify_jmeter_output.py` are written by the module csv. -/
def csvifyConverter (options : Options) : Converter where
  literal := "jpmc-"
  inClass := Char.isDigit
  scale := options.scale
  runid := options.runid
  nodes := options.nodes
  writerow := Csv.writerow

/-- The rows of `jmeter_xml_to_csv.py` are joined. -/
def jmeterXmlConverter : Converter where
  literal := "hive-"
  inClass := (· ≠ '"')
  scale := "3"
  runid := "3"
  nodes := "8"
  writerow := Csv.join

def start : Vars := ⟨false, none, none, none⟩

def csvify (options : Options) (file : ResultFile) : Printed :=
  convert (csvifyConverter options) seconds (samples [file]) start

def jmeterXmlToCsv (files : List ResultFile) : Printed :=
  convert jmeterXmlConverter seconds (samples files) start

end Structor.Jmeter
