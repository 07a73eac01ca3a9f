import N8n.TypeValidation

/-!
# Matching items by fields

The nodes that merge and compare items look for the items of the second input whose fields have the
values that an item of the first has in others. They do so with an object from the fields of the
second input to the values.
-/

/-!
## Fuzzy comparison

`fuzzyCompare` gives the function by which the nodes that match items compare the values of fields:
`isEqual` of a library, or one that tolerates small differences of type.
-/

namespace N8n

open Doubles

namespace ParameterValue

def isUndefined : JsValue → Bool
  | .undefined => true
  | _ => false

def isNull : JsValue → Bool
  | .null => true
  | _ => false

/-- `typeof` -/
def typeOf (value : JsValue) : CodeUnits := (Operand.json value).typeOf

/-- `isFalsy` -/
def isEmptyValue : JsValue → Bool
  | .null | .string [] | .array [] => true
  | _ => false

/-- It is `null`, `0` or `'0'`. -/
def isNullOrZero : JsValue → Bool
  | .null => true
  | .number value => value.same (.ofNat 0)
  | .string value => value = units "0"
  | _ => false

end ParameterValue

variable (rt : ValidationRuntime)

def parseStringAndCompareToObject (str : CodeUnits) (arr : JsValue) : Bool :=
  match rt.parseJson str with
  | some parsedArray => rt.isEqual parsedArray arr
  | none => false

/-- A boolean and a text: its name in any case, or its digit. -/
def isTextOfBoolean (value : Bool) (text : CodeUnits) : Bool :=
  rt.toLocaleLowerCase text = units (if value then "true" else "false") ||
    text = units (if value then "1" else "0")

/-- The comparison of values whose types differ, where none is missing. -/
def compareTypes (item1 item2 : JsValue) : Bool :=
  match item1, item2 with
  | .number _, .string text => rt.toText item1 = text
  | .string text, .number _ => text = rt.toText item2
  | .array _, .string text => parseStringAndCompareToObject rt text item1
  | .object _, .string text => parseStringAndCompareToObject rt text item1
  | .string text, .array _ => parseStringAndCompareToObject rt text item2
  | .string text, .object _ => parseStringAndCompareToObject rt text item2
  | .boolean value, .string text => isTextOfBoolean rt value text || rt.isEqual item1 item2
  | .string text, .boolean value => isTextOfBoolean rt value text || rt.isEqual item1 item2
  | .boolean value, .number number =>
    number.same (.ofNat value.toNat) || rt.isEqual item1 item2
  | .number number, .boolean value =>
    number.same (.ofNat value.toNat) || rt.isEqual item1 item2
  | _, _ => rt.isEqual item1 item2

def fuzzyCompare (useFuzzyCompare : Bool) (compareVersion : ℚ) (item1 item2 : JsValue) : Bool :=
  if !useFuzzyCompare then rt.isEqual item1 item2
  else if !item1.isNull && !item2.isNull && item1.typeOf = item2.typeOf then rt.isEqual item1 item2
  else if compareVersion ≥ 2 &&
      (item1.isNull && item2.isNullOrZero || item2.isNull && item1.isNullOrZero) then true
  else if item1.isEmptyValue && item2.isEmptyValue then true
  else if item1.isEmptyValue && item2.isUndefined then true
  else if item1.isUndefined && item2.isEmptyValue then true
  else compareTypes rt item1 item2

end N8n

/-! ## Items and their fields -/

namespace N8n

/-- What the matching of items takes from elsewhere. What objects inherit is read like what they
have. -/
structure ItemRuntime extends ValidationRuntime where
  inherited : CodeUnits → JsValue

/-- The properties of an object. -/
abbrev Json := List (CodeUnits × JsValue)

/-- `INodeExecutionData`; `δ` is all of it but the `json`. -/
structure DataItem (δ : Type) where
  json : Json
  rest : δ

/-- The name of a property as the library takes it. -/
def fieldName (key : CodeUnits) : String := String.ofList (key.map Char.ofNat)

structure PairToMatch where
  field1 : String
  field2 : String
  deriving DecidableEq

inductive MultipleMatches
  | all
  | first
  deriving DecidableEq

namespace FieldMatching

variable (rt : ItemRuntime)

/-- `json[key]` -/
def readKey (json : Json) (key : CodeUnits) : JsValue :=
  (json.lookup key).getD (rt.inherited key)

/-- `json[key] = value` -/
def assign (json : Json) (key : CodeUnits) (value : JsValue) : Json :=
  if key = protoName then json else Dict.setEntry key value json

/-- The value of a field. -/
def readField (disableDotNotation : Bool) (json : Json) (field : String) : JsValue :=
  if disableDotNotation then readKey rt json (units field) else rt.get (.object json) field

/-- `lookup`. To assign to `__proto__` sets no property. -/
def lookupOf (disableDotNotation : Bool) (fieldsToMatch : List PairToMatch) (json : Json) :
    Dict String JsValue :=
  fieldsToMatch.foldl (fun lookup matchCase =>
      if matchCase.field2 = "__proto__" then lookup
      else lookup.set matchCase.field2 (readField rt disableDotNotation json matchCase.field1))
    .empty

section

variable {α : Type} (json : α → Json) (data : List α) (lookup : Dict String JsValue)
  (disableDotNotation : Bool) (isEntriesEqual : JsValue → JsValue → Bool)

/-- The fields are compared in some order, up to one that is not equal. -/
def fitsLookup (entry2 : α) : Bool :=
  lookup.entries.all fun (key, expectedValue) =>
    isEntriesEqual expectedValue (readField rt disableDotNotation (json entry2) key)

/-- The matches, each with its index. -/
def findAllMatches : List (α × ℕ) :=
  data.zipIdx.filter fun (entry2, _) =>
    fitsLookup rt json lookup disableDotNotation isEntriesEqual entry2

def findFirstMatch : List (α × ℕ) :=
  (data.zipIdx.find? fun (entry2, _) =>
    fitsLookup rt json lookup disableDotNotation isEntriesEqual entry2).toList

/-- `foundedMatches`. An item with a value that is `undefined` is not looked for. -/
def foundedMatches (multipleMatches : MultipleMatches) : List (α × ℕ) :=
  if lookup.entries.any (·.2.isUndefined) then []
  else
    match multipleMatches with
    | .all => findAllMatches rt json data lookup disableDotNotation isEntriesEqual
    | .first => findFirstMatch rt json data lookup disableDotNotation isEntriesEqual

end

/-! ## What it is for -/

section

variable (disableDotNotation : Bool) (isEntriesEqual : JsValue → JsValue → Bool)

/-- The first item has a value in the first field, and it is that of the second item in the second. -/
def AgreeOn (json1 json2 : Json) (pair : PairToMatch) : Prop :=
  (readField rt disableDotNotation json1 pair.field1).isUndefined = false ∧
    isEntriesEqual (readField rt disableDotNotation json1 pair.field1)
      (readField rt disableDotNotation json2 pair.field2) = true

instance (json1 json2 : Json) :
    DecidablePred (AgreeOn rt disableDotNotation isEntriesEqual json1 json2) :=
  fun _ => inferInstanceAs (Decidable (_ ∧ _))

/-- The pairs whose values are looked for: the last one of each second field. -/
def decisive : List PairToMatch → List PairToMatch
  | [] => []
  | pair :: pairs =>
    if pair.field2 = "__proto__" ∨ pair.field2 ∈ pairs.map PairToMatch.field2 then decisive pairs
    else pair :: decisive pairs

/-- The items agree on all the given pairs. -/
def Agree (pairs : List PairToMatch) (json1 json2 : Json) : Prop :=
  ∀ pair ∈ pairs, AgreeOn rt disableDotNotation isEntriesEqual json1 json2 pair

instance (pairs : List PairToMatch) (json1 json2 : Json) :
    Decidable (Agree rt disableDotNotation isEntriesEqual pairs json1 json2) :=
  inferInstanceAs (Decidable (∀ pair ∈ pairs, _))

end

end FieldMatching

end N8n

/-!
# Merge by fields

`findMatches` of the merge node pairs the items of its inputs whose fields match, and says which of
them have no match.
-/

namespace N8n

namespace MergeByFields

open FieldMatching

inductive OutputDataFrom
  | both | input1 | input2
  deriving DecidableEq

inductive JoinMode
  | keepMatches | keepNonMatches | keepEverything | enrichInput1 | enrichInput2
  deriving DecidableEq

structure MatchFieldsOptions where
  fuzzyCompare : Bool
  disableDotNotation : Bool
  multipleMatches : MultipleMatches
  outputDataFrom : OutputDataFrom
  joinMode : JoinMode

structure EntryMatches (δ : Type) where
  entry : DataItem δ
  «matches» : List (DataItem δ)

/-- `filteredData` -/
structure FilteredData (δ : Type) where
  matched : List (EntryMatches δ)
  matched2 : List (DataItem δ)
  unmatched1 : List (DataItem δ)
  unmatched2 : List (DataItem δ)

variable (rt : ItemRuntime) {δ : Type} (input1 input2 : List (DataItem δ))
  (fieldsToMatch : List PairToMatch) (options : MatchFieldsOptions)

def isEntriesEqual : JsValue → JsValue → Bool :=
  N8n.fuzzyCompare rt.toValidationRuntime options.fuzzyCompare 1

/-- Each match has an entry of its own. -/
def MatchFieldsOptions.separate : Bool :=
  options.outputDataFrom = .both || options.joinMode = .enrichInput1 ||
    options.joinMode = .enrichInput2

/-- What is pushed to `matched` for an entry. -/
def entriesOf (entry1 : DataItem δ) (found : List (DataItem δ)) : List (EntryMatches δ) :=
  if options.separate then found.map fun match2 => ⟨entry1, [match2]⟩ else [⟨entry1, found⟩]

/-- The state of the loop over the entries of the first input. -/
structure MatchesLoop (δ : Type) where
  matched : List (EntryMatches δ) := []
  unmatched1 : List (DataItem δ) := []
  matchedInInput2 : List ℕ := []

def matchesTurn (loop : MatchesLoop δ) (entry1 : DataItem δ) : MatchesLoop δ :=
  let found := foundedMatches rt DataItem.json input2
    (lookupOf rt options.disableDotNotation fieldsToMatch entry1.json) options.disableDotNotation
    (isEntriesEqual rt options) options.multipleMatches
  if found = [] then { loop with unmatched1 := loop.unmatched1 ++ [entry1] }
  else
    { loop with
      matched := loop.matched ++ entriesOf options entry1 (found.map Prod.fst)
      matchedInInput2 := loop.matchedInInput2 ++ found.map Prod.snd }

def findMatches : FilteredData δ :=
  let loop := input1.foldl (matchesTurn rt input2 fieldsToMatch options) {}
  { matched := loop.matched
    matched2 := (input2.zipIdx.filter fun (_, i) => i ∈ loop.matchedInInput2).map Prod.fst
    unmatched1 := loop.unmatched1
    unmatched2 := (input2.zipIdx.filter fun (_, i) => i ∉ loop.matchedInInput2).map Prod.fst }

/-! ## What it is for -/

/-- The matched items are those for which the other input has one that agrees, each with all of
these; and the others are unmatched. All are in the order of their inputs. -/
structure IsJoin (agrees : DataItem δ → DataItem δ → Prop)
    [∀ entry1, DecidablePred (agrees entry1)] (found : FilteredData δ) : Prop where
  matched : found.matched =
    (input1.filter fun entry1 => ∃ entry2 ∈ input2, agrees entry1 entry2).flatMap
      fun entry1 => entriesOf options entry1 (input2.filter (agrees entry1 ·))
  unmatched1 : found.unmatched1 =
    input1.filter fun entry1 => ¬ ∃ entry2 ∈ input2, agrees entry1 entry2
  matched2 : found.matched2 = input2.filter fun entry2 => ∃ entry1 ∈ input1, agrees entry1 entry2
  unmatched2 : found.unmatched2 =
    input2.filter fun entry2 => ¬ ∃ entry1 ∈ input1, agrees entry1 entry2

/-- Two items are paired if they agree on each pair of fields. -/
def ExactJoin (found : FilteredData δ) : Prop :=
  IsJoin input1 input2 options
    (fun entry1 entry2 => FieldMatching.Agree rt options.disableDotNotation
      (isEntriesEqual rt options) fieldsToMatch entry1.json entry2.json) found

end MergeByFields

end N8n
