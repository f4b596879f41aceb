import Mathlib.Data.List.Infix
import Structor.Ats.DumpQueries

/-!
# The estimates in a query plan

The report takes the plan of a query apart and looks for the estimated number of rows in the
text of each vertex.

## Main definitions

* `str` -- the text of a loaded value
* `possibles` -- the numbers of rows in a text, after the first reduce output operator
* `readPlan` -- the estimates of a plan
* `ReadablePlan` -- the plans that do not make the report raise
-/
namespace Structor.Ats
open Python

/-! ## The text of a value -/

mutual
/-- `repr` of a loaded value, with the items of a dictionary in its own order. -/
def plainRepr : Json → Str
  | .null => repr .null
  | .bool b => repr (.bool b)
  | .int n => repr (.int n)
  | .float x => repr (.float x)
  | .str s => repr (.str s)
  | .arr elements => '[' :: commaSep.intercalate (plainReprElements elements) ++ [']']
  | .obj items => '\x7b' :: commaSep.intercalate (plainReprItems items) ++ ['\x7d']
def plainReprElements : List Json → List Str
  | [] => []
  | element :: rest => plainRepr element :: plainReprElements rest
def plainReprItems : List (Str × Json) → List Str
  | [] => []
  | (key, value) :: rest =>
      (Python.reprStr key ++ ':' :: ' ' :: plainRepr value) :: plainReprItems rest
end

/-- The text of a value. A unicode string is its own text. -/
def textOf : Json → Str
  | .str s => s
  | value => plainRepr value

/-- A unicode string has a text if it is ASCII. -/
def Encodable : Json → Prop
  | .str s => (s.all fun c => decide (c.toNat < 128)) = true
  | _ => True

instance (value : Json) : Decidable (Encodable value) := by
  cases value <;> unfold Encodable <;> infer_instance

/-- `str(v)` -/
def str (value : Json) : Except Error Str :=
  if Encodable value then .ok (textOf value) else .error .unicodeEncodeError

/-! ## The numbers of rows in a text -/

def reduceOutput : Str := "Reduce Output Operator"

/-- The rest of the line from the first operator that something follows on its line. This is
the match of `(Reduce Output Operator.+)`, or nothing. -/
def reduceString : Str → Str
  | [] => []
  | c :: cs =>
      if reduceOutput <+: c :: cs ∧
          ((c :: cs).takeWhile (· ≠ '\n')).length ≠ reduceOutput.length then
        (c :: cs).takeWhile (· ≠ '\n')
      else reduceString cs

def numRows : Str := "Num rows: "

/-- The numbers of the matches of `Num rows: (\d+)`, which cannot overlap. -/
def possibles : Str → List ℕ
  | [] => []
  | c :: cs =>
      let digits := ((c :: cs).drop numRows.length).takeWhile Char.isDigit
      if numRows <+: c :: cs ∧ digits ≠ [] then Nat.ofDigitChars 10 digits 0 :: possibles cs
      else possibles cs

/-- The smallest of the numbers, if there is one. -/
def estimateOf (value : Json) : Option ℕ := (possibles (reduceString (textOf value))).min?

/-! ## The estimates of a plan -/

/-- A vertex, its estimate, and the actual number once it is known. -/
structure QueryCounter where
  vertex : Str
  estimate : ℕ
  actual : Option Str

/-- `x[i]` for a list, where a boolean is a number. -/
def subscript (elements : List Json) : Json → Except Error Json
  | .int n => Python.item elements n
  | .bool b => Python.item elements (if b then 1 else 0)
  | _ => .error .typeError

/-- What `stages[stage]` gives for the stages that a loop over `stages` meets. -/
def stageValues : Json → Except Error (List (Except Error Json))
  | .obj items => .ok (items.map fun i => .ok i.2)
  | .arr elements => .ok (elements.map (subscript elements))
  | .str s => .ok (s.map fun _ => .error .typeError)
  | _ => .error .typeError

def tez : Str := "Tez"

/-- `"Tez" in x` -/
def hasTez : Json → Except Error Bool
  | .obj items => .ok (Keyed.get Prod.fst tez items).isSome
  | .arr elements => .ok (elements.any fun e =>
      match e with
      | .str s => s == tez
      | _ => false)
  | .str s => .ok (decide (tez <:+: s))
  | _ => .error .typeError

def iteritems : Json → Except Error (List (Str × Json))
  | .obj items => .ok items
  | _ => .error .attributeError

/-- A vertex with numbers of rows gets their minimum for its estimate. -/
def readVertex (queryCounters : List QueryCounter) (kv : Str × Json) :
    Except Error (List QueryCounter) := do
  let vertexString ← str kv.2
  match (possibles (reduceString vertexString)).min? with
  | some minRows =>
      pure (Keyed.put QueryCounter.vertex ⟨kv.1, minRows, none⟩ queryCounters)
  | none => pure queryCounters

def readStage (queryCounters : List QueryCounter) (stage : Except Error Json) :
    Except Error (List QueryCounter) := do
  let stage ← stage
  if ← hasTez stage then
    let tezWork ← item tez stage
    let vertices ← item "Vertices:" tezWork
    let items ← iteritems vertices
    items.foldlM readVertex queryCounters
  else pure queryCounters

def readPlan (plan : Json) : Except Error (List QueryCounter) := do
  let stages ← item "STAGE PLANS" plan
  let _dependencies ← item "STAGE DEPENDENCIES" plan
  let values ← stageValues stages
  values.foldlM readStage []

/-! ## The plans that are read -/

/-- A value under a key of a dictionary. -/
def getKey (key : Str) : Json → Option Json
  | .obj items => (Keyed.get Prod.fst key items).map Prod.snd
  | _ => none

/-- The vertices of a stage. -/
def verticesOf (stage : Json) : List (Str × Json) :=
  match (getKey tez stage).bind (getKey "Vertices:") with
  | some (.obj items) => items
  | _ => []

/-- A stage has no part for Tez, or one with a table of vertices whose texts exist. -/
def ReadableStage : Json → Prop
  | .obj items => getKey tez (.obj items) = none ∨
      ∃ tezWork vertices, getKey tez (.obj items) = some tezWork ∧
        getKey "Vertices:" tezWork = some (.obj vertices) ∧ ∀ v ∈ vertices, Encodable v.2
  | .arr elements => (elements.any fun e =>
      match e with
      | .str s => s == tez
      | _ => false) = false
  | .str s => ¬ tez <:+: s
  | _ => False

/-- The stages are a table, or there are none. -/
def ReadableStages : Json → Prop
  | .obj items => ∀ i ∈ items, ReadableStage i.2
  | .arr elements => elements = []
  | .str s => s = []
  | _ => False

/-- The plan has the two sections that the report takes, and its stages can be read. -/
def ReadablePlan (plan : Json) : Prop :=
  ∃ stages, getKey "STAGE PLANS" plan = some stages ∧ (getKey "STAGE DEPENDENCIES" plan).isSome ∧
    ReadableStages stages

/-- The stages of a plan. -/
def stagesOf (plan : Json) : List Json :=
  match getKey "STAGE PLANS" plan with
  | some (.obj items) => items.map Prod.snd
  | _ => []

def addVertex (queryCounters : List QueryCounter) (kv : Str × Json) : List QueryCounter :=
  match estimateOf kv.2 with
  | some minRows => Keyed.put QueryCounter.vertex ⟨kv.1, minRows, none⟩ queryCounters
  | none => queryCounters

/-- The vertices with an estimate in the plan. Of vertices of one name the last one counts. -/
def estimated (plan : Json) : List QueryCounter :=
  ((stagesOf plan).flatMap verticesOf).foldl addVertex []

theorem item_eq (key : Str) (items : List (Str × Json)) :
    item key (.obj items) = field (getKey key (.obj items)) := rfl

theorem item_eq_ok_iff {key : Str} {value x : Json} :
    item key value = .ok x ↔ getKey key value = some x := by
  cases value with
  | obj items =>
      rw [item_eq]
      cases getKey key (.obj items) <;> simp [field]
  | _ => simp [item, getKey]

theorem readVertex_of_encodable {kv : Str × Json} (queryCounters : List QueryCounter)
    (h : Encodable kv.2) : readVertex queryCounters kv = .ok (addVertex queryCounters kv) := by
  rw [readVertex, str, if_pos h, ok_bind, addVertex, estimateOf]
  cases (possibles (reduceString (textOf kv.2))).min? with
  | none => rfl
  | some n => rfl

theorem encodable_of_readVertex {kv : Str × Json} {queryCounters queryCounters' : List QueryCounter}
    (h : readVertex queryCounters kv = .ok queryCounters') : Encodable kv.2 := by
  by_contra hnot
  rw [readVertex, str, if_neg hnot, error_bind] at h
  cases h

theorem readVertices_iff {items : List (Str × Json)} {queryCounters result : List QueryCounter} :
    items.foldlM readVertex queryCounters = .ok result ↔
      (∀ v ∈ items, Encodable v.2) ∧ result = items.foldl addVertex queryCounters := by
  have hfine (kv : Str × Json) (queryCounters : List QueryCounter) (h : Encodable kv.2) :
      readVertex queryCounters kv = .ok (addVertex queryCounters kv) :=
    readVertex_of_encodable queryCounters h
  exact foldlM_eq_ok_iff hfine fun _ _ _ h => encodable_of_readVertex h

/-- The part of a stage for Tez. -/
theorem readTez_iff {stage : Json} {queryCounters result : List QueryCounter} :
    (item tez stage >>= fun tezWork => item "Vertices:" tezWork >>= fun vertices =>
        iteritems vertices >>= fun items => items.foldlM readVertex queryCounters) = .ok result ↔
      (∃ tezWork vertices, getKey tez stage = some tezWork ∧
        getKey "Vertices:" tezWork = some (.obj vertices) ∧ ∀ v ∈ vertices, Encodable v.2) ∧
        result = (verticesOf stage).foldl addVertex queryCounters := by
  constructor
  · intro h
    obtain ⟨tezWork, htez, h⟩ := bind_eq_ok h
    obtain ⟨vertices, hvertices, h⟩ := bind_eq_ok h
    obtain ⟨items, hitems, h⟩ := bind_eq_ok h
    obtain ⟨hencodable, hresult⟩ := readVertices_iff.mp h
    rw [item_eq_ok_iff] at htez hvertices
    cases vertices with
    | obj vs =>
        obtain rfl := Except.ok.inj hitems
        refine ⟨⟨tezWork, vs, htez, hvertices, hencodable⟩, ?_⟩
        rw [hresult, verticesOf, htez, Option.bind_some, hvertices]
    | _ => cases hitems
  · rintro ⟨⟨tezWork, vs, htez, hvertices, hencodable⟩, hresult⟩
    rw [item_eq_ok_iff.mpr htez, ok_bind, item_eq_ok_iff.mpr hvertices, ok_bind, iteritems, ok_bind,
      readVertices_iff]
    refine ⟨hencodable, ?_⟩
    rw [hresult, verticesOf, htez, Option.bind_some, hvertices]

/-- A stage without a part for Tez changes nothing. -/
theorem pure_eq_ok_iff {stage : Json} {queryCounters result : List QueryCounter}
    (h : getKey tez stage = none) :
    (pure queryCounters : Except Error (List QueryCounter)) = .ok result ↔
      result = (verticesOf stage).foldl addVertex queryCounters := by
  have hplain : (verticesOf stage).foldl addVertex queryCounters = queryCounters := by
    rw [verticesOf, h]
    rfl
  rw [hplain]
  constructor
  · intro heq
    exact (Except.ok.inj heq).symm
  · intro heq
    rw [heq]
    rfl

/-- A list or a text may have the word in it, but not under it. -/
theorem readStage_of_not_obj {stage : Json} {queryCounters result : List QueryCounter}
    {found : Bool}
    (hget : ∀ key, item key stage = .error .typeError) (hfound : hasTez stage = .ok found)
    (hnone : getKey tez stage = none) (hreadable : ReadableStage stage ↔ found = false) :
    readStage queryCounters (.ok stage) = .ok result ↔
      ReadableStage stage ∧ result = (verticesOf stage).foldl addVertex queryCounters := by
  rw [readStage, ok_bind, hfound, ok_bind, hreadable]
  cases found
  · rw [if_neg (by decide), pure_eq_ok_iff hnone]
    simp
  · rw [if_pos rfl, hget, error_bind]
    simp

/-- A stage that can be read adds its vertices, and any other one raises. -/
theorem readStage_iff {stage : Json} {queryCounters result : List QueryCounter} :
    readStage queryCounters (.ok stage) = .ok result ↔
      ReadableStage stage ∧ result = (verticesOf stage).foldl addVertex queryCounters := by
  have hraise (h : hasTez stage = .error .typeError) (h' : ¬ ReadableStage stage) :
      readStage queryCounters (.ok stage) = .ok result ↔
        ReadableStage stage ∧ result = (verticesOf stage).foldl addVertex queryCounters := by
    rw [readStage, ok_bind, h, error_bind]
    simp [h']
  cases stage with
  | obj items =>
      have htez : (Keyed.get Prod.fst tez items).isSome = (getKey tez (.obj items)).isSome := by
        rw [getKey, Option.isSome_map]
      rw [readStage, ok_bind, hasTez, ok_bind, htez, ReadableStage]
      by_cases hget : getKey tez (.obj items) = none
      · rw [hget, Option.isSome_none, if_neg (by decide), pure_eq_ok_iff hget]
        simp
      · rw [Option.isSome_iff_ne_none.mpr hget, if_pos rfl, readTez_iff]
        simp only [hget, false_or]
  | arr elements => exact readStage_of_not_obj (fun _ => rfl) rfl rfl Iff.rfl
  | str s =>
      refine readStage_of_not_obj (fun _ => rfl) rfl rfl ?_
      rw [ReadableStage, decide_eq_false_iff_not]
  | null => exact hraise rfl id
  | bool b => exact hraise rfl id
  | int n => exact hraise rfl id
  | float x => exact hraise rfl id

/-- The values of a stage that a loop meets. -/
def FineStage (stage : Except Error Json) : Prop := ∃ value, stage = .ok value ∧ ReadableStage value

def addStage (queryCounters : List QueryCounter) (stage : Except Error Json) :
    List QueryCounter :=
  match stage with
  | .ok value => (verticesOf value).foldl addVertex queryCounters
  | .error _ => queryCounters

theorem readStages_iff {values : List (Except Error Json)} {result : List QueryCounter} :
    values.foldlM readStage [] = .ok result ↔
      (∀ v ∈ values, FineStage v) ∧ result = values.foldl addStage [] := by
  have hfine (stage : Except Error Json) (queryCounters : List QueryCounter)
      (h : FineStage stage) :
      readStage queryCounters stage = .ok (addStage queryCounters stage) := by
    obtain ⟨value, rfl, hvalue⟩ := h
    exact readStage_iff.mpr ⟨hvalue, rfl⟩
  have hnot (stage : Except Error Json) (queryCounters result : List QueryCounter)
      (h : readStage queryCounters stage = .ok result) : FineStage stage := by
    obtain ⟨value, rfl, -⟩ := bind_eq_ok h
    exact ⟨value, rfl, (readStage_iff.mp h).1⟩
  exact foldlM_eq_ok_iff hfine hnot

/-- An element that is an index of the list is a number, in which nothing can be found. -/
theorem not_fineStage_of_mem {elements : List Json} (h : elements ≠ []) :
    ¬ ∀ v ∈ elements.map (subscript elements), FineStage v := by
  intro hfine
  have hnumber : ∀ e ∈ elements, ¬ ReadableStage e := by
    intro e he
    obtain ⟨value, hvalue, -⟩ := hfine _ (List.mem_map_of_mem he)
    cases e with
    | int n => exact id
    | bool b => exact id
    | _ => cases hvalue
  obtain ⟨e, he⟩ := List.exists_mem_of_ne_nil _ h
  obtain ⟨value, hvalue, hreadable⟩ := hfine _ (List.mem_map_of_mem he)
  have hmem : value ∈ elements := by
    cases e with
    | int n => exact mem_of_item hvalue
    | bool b => exact mem_of_item hvalue
    | _ => cases hvalue
  exact hnumber value hmem hreadable

theorem fineStage_ok {value : Json} : FineStage (.ok value) ↔ ReadableStage value := by
  constructor
  · rintro ⟨value', heq, hvalue⟩
    rwa [Except.ok.inj heq]
  · intro hvalue
    exact ⟨value, rfl, hvalue⟩

theorem foldl_addStage (stages : List Json) (queryCounters : List QueryCounter) :
    (stages.map Except.ok).foldl addStage queryCounters =
      (stages.flatMap verticesOf).foldl addVertex queryCounters := by
  rw [List.foldl_map, List.foldl_flatMap]
  rfl

/-- The loop over the stages of a table. -/
theorem readTable_iff {items : List (Str × Json)} {result : List QueryCounter} :
    (items.map fun i => Except.ok i.2).foldlM readStage [] = .ok result ↔
      (∀ i ∈ items, ReadableStage i.2) ∧
        result = ((items.map Prod.snd).flatMap verticesOf).foldl addVertex [] := by
  have hmap : (items.map fun i => Except.ok i.2) =
      (items.map Prod.snd).map (Except.ok : Json → Except Error Json) := by
    rw [List.map_map]
    rfl
  rw [readStages_iff, hmap, foldl_addStage, List.forall_mem_map, List.forall_mem_map]
  simp only [fineStage_ok]

/-- The loop over the stages. A value other than a table has none, or the loop raises. -/
theorem readStageValues_iff {plan stages : Json} (hstages : getKey "STAGE PLANS" plan = some stages)
    {queryCounters : List QueryCounter} :
    (stageValues stages >>= fun values => values.foldlM readStage []) = .ok queryCounters ↔
      ReadableStages stages ∧ queryCounters = estimated plan := by
  have hestimated : estimated plan = ((match stages with
      | .obj items => items.map Prod.snd
      | _ => []).flatMap verticesOf).foldl addVertex [] := by
    rw [estimated, stagesOf, hstages]
    cases stages <;> rfl
  have hraise (h : stageValues stages = .error .typeError) (h' : ¬ ReadableStages stages) :
      (stageValues stages >>= fun values => values.foldlM readStage []) = .ok queryCounters ↔
        ReadableStages stages ∧ queryCounters = estimated plan := by
    rw [h, error_bind]
    exact iff_of_false (fun h => by cases h) fun h => h' h.1
  rw [hestimated] at hraise ⊢
  have hnone (values : Except Error (List (Except Error Json))) (h : values = .ok []) :
      (values >>= fun values => values.foldlM readStage []) = .ok queryCounters ↔
        queryCounters = [] := by
    rw [h, ok_bind, List.foldlM_nil]
    exact ⟨fun h => (Except.ok.inj h).symm, fun h => congrArg Except.ok h.symm⟩
  cases stages with
  | obj items => exact readTable_iff
  | arr elements =>
      by_cases hnil : elements = []
      · have hvalues : stageValues (.arr elements) = .ok [] := by
          rw [hnil]
          rfl
        exact (hnone _ hvalues).trans (and_iff_right hnil).symm
      · rw [stageValues, ok_bind, readStages_iff]
        exact iff_of_false (fun h => not_fineStage_of_mem hnil h.1) fun h => hnil h.1
  | str s =>
      cases s with
      | nil => exact (hnone _ rfl).trans (and_iff_right rfl).symm
      | cons c s =>
          refine iff_of_false (fun h => ?_) fun h => List.cons_ne_nil _ _ h.1
          rw [stageValues, ok_bind, List.map_cons, List.foldlM_cons, readStage, error_bind,
            error_bind] at h
          cases h
  | null => exact hraise rfl id
  | bool b => exact hraise rfl id
  | int n => exact hraise rfl id
  | float x => exact hraise rfl id

/-- A plan that can be read gives its estimates, and any other one raises. -/
theorem readPlan_iff {plan : Json} {queryCounters : List QueryCounter} :
    readPlan plan = .ok queryCounters ↔ ReadablePlan plan ∧ queryCounters = estimated plan := by
  constructor
  · intro h
    obtain ⟨stages, hstages, h⟩ := bind_eq_ok h
    obtain ⟨dependencies, hdependencies, h⟩ := bind_eq_ok h
    rw [item_eq_ok_iff] at hstages hdependencies
    obtain ⟨hreadable, hresult⟩ := (readStageValues_iff hstages).mp h
    exact ⟨⟨stages, hstages, Option.isSome_iff_exists.mpr ⟨_, hdependencies⟩, hreadable⟩, hresult⟩
  · rintro ⟨⟨stages, hstages, hdependencies, hreadable⟩, hresult⟩
    obtain ⟨dependencies, hdependencies⟩ := Option.isSome_iff_exists.mp hdependencies
    rw [readPlan, item_eq_ok_iff.mpr hstages, ok_bind, item_eq_ok_iff.mpr hdependencies, ok_bind]
    exact (readStageValues_iff hstages).mpr ⟨hreadable, hresult⟩

/-- Each vertex has one estimate. -/
theorem nodup_estimated (plan : Json) : ((estimated plan).map QueryCounter.vertex).Nodup := by
  have hstep (vertices : List (Str × Json)) : ∀ queryCounters : List QueryCounter,
      (queryCounters.map QueryCounter.vertex).Nodup →
        ((vertices.foldl addVertex queryCounters).map QueryCounter.vertex).Nodup := by
    induction vertices with
    | nil => exact fun _ h => h
    | cons kv vertices ih =>
        intro queryCounters h
        refine ih _ ?_
        rw [addVertex]
        cases estimateOf kv.2 with
        | none => exact h
        | some minRows => exact Keyed.nodup_put h
  exact hstep _ [] List.nodup_nil

end Structor.Ats
