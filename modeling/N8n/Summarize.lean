import N8n.FieldMatching
import N8n.Library.Grouping

/-!
# Summarize

Items are grouped by one split field after another, in maps of maps, and their fields are aggregated
in the groups of the last one. Then the maps are flattened, and the values that lead to a group are
written back to it.
-/

namespace N8n

open Doubles

namespace Summarize

/-! ## Settings -/

/-- `AggregationType` -/
inductive AggregationType
  | append | average | concatenate | count | countUnique | max | min | sum
  deriving DecidableEq

/-- `AggregationDisplayNames` -/
def AggregationType.displayName : AggregationType → String
  | .append => "appended_"
  | .average => "average_"
  | .concatenate => "concatenated_"
  | .count => "count_"
  | .countUnique => "unique_count_"
  | .max => "max_"
  | .min => "min_"
  | .sum => "sum_"

structure Aggregation where
  aggregation : AggregationType
  field : String
  includeEmpty : Bool
  separateBy : Option String
  customSeparator : Option String

inductive OutputFormat
  | separateItems
  | singleItem
  deriving DecidableEq

structure SummarizeOptions where
  disableDotNotation : Bool
  outputFormat : OutputFormat
  skipEmptySplitFields : Bool

/-- Brackets and quotes are left out, and blanks and dots are replaced. -/
def normalizeFieldName (fieldName : String) : CodeUnits :=
  ((units fieldName).filter (· ∉ units "[]\"")).map fun unit =>
    if unit ∈ units " ." then 0x5f else unit

def aggregationKey (aggregation : Aggregation) : CodeUnits :=
  normalizeFieldName (aggregation.aggregation.displayName ++ aggregation.field)

/-! ## Aggregating -/

def isEmpty : JsValue → Bool
  | .undefined | .null | .string [] => true
  | _ => false

variable (rt : ItemRuntime)

def sum (numbers : List Number) : Number := numbers.foldl Number.add (.ofNat 0)

/-- The last value that was better than the ones before. -/
def best (better : JsValue → JsValue → Bool) (values : List JsValue) : Option JsValue :=
  values.foldl (fun found value =>
      if isEmpty value then found
      else
        match found with
        | none => some value
        | some other => if better value other then some value else found)
    none

/-- The values of a `Set`. -/
def distinct (values : List JsValue) : List JsValue :=
  values.foldl (fun found value => if found.any (·.same value) then found else found ++ [value]) []

def concatenatedText : JsValue → CodeUnits
  | .undefined => units "undefined"
  | .null => rt.stringify (.json .null)
  | .array values => rt.stringify (.json (.array values))
  | .object properties => rt.stringify (.json (.object properties))
  | value => Operand.toText rt.toValidationRuntime (.json value)

def separator (entry : Aggregation) : CodeUnits :=
  units ((if entry.separateBy = some "other" then entry.customSeparator
    else entry.separateBy).getD ",")

/-- An item with its index, which its object has too. -/
structure IndexedItem where
  json : Json
  itemIndex : ℕ

variable (options : SummarizeOptions)

def getValue (item : IndexedItem) (field : String) : JsValue :=
  FieldMatching.readField rt options.disableDotNotation item.json field

def aggregate (items : List IndexedItem) (entry : Aggregation) : JsValue :=
  let values := items.map (getValue rt options · entry.field)
  let data := if entry.includeEmpty then values else values.filter (!isEmpty ·)
  let numbers := values.filterMap fun
    | .number value => some value
    | _ => none
  match entry.aggregation with
  | .append => .array data
  | .concatenate => .string (List.intercalate (separator entry) (data.map (concatenatedText rt)))
  | .average => .number ((sum numbers).div (.ofNat numbers.length))
  | .sum => .number (sum numbers)
  | .min => (best (fun value min => value.lt rt.toRuntime min) values).getD .null
  | .max => (best (fun value max => max.lt rt.toRuntime value) values).getD .null
  | .countUnique => .number (.ofNat (distinct data).length)
  | .count => .number (.ofNat data.length)

structure AggregationResult where
  returnData : Json
  pairedItems : Option (List ℕ)

variable (fieldsToSummarize : List Aggregation)

def aggregateData (data : List IndexedItem) : AggregationResult where
  returnData := fieldsToSummarize.foldl (fun returnData aggregation =>
      Dict.setEntry (aggregationKey aggregation) (aggregate rt options data aggregation) returnData)
    []
  pairedItems :=
    match options.outputFormat with
    | .singleItem => none
    | .separateItems => some (data.map IndexedItem.itemIndex)

/-! ## Splitting -/

/-- What a group is found under. It is never an object. -/
inductive SplitValue
  | undefined
  | null
  | boolean (value : Bool)
  | number (value : Number)
  | string (value : CodeUnits)
  deriving DecidableEq

namespace SplitValue

def value : SplitValue → JsValue
  | .undefined => .undefined
  | .null => .null
  | .boolean value => .boolean value
  | .number value => .number value
  | .string value => .string value

/-- It is no number, and false. -/
def isEmpty : SplitValue → Bool
  | .undefined | .null | .boolean false | .string [] => true
  | _ => false

end SplitValue

def stringifyObjects : JsValue → SplitValue
  | .undefined => .undefined
  | .null => .null
  | .boolean value => .boolean value
  | .number value => .number value
  | .string value => .string value
  | value => .string (rt.stringify (.json value))

variable (convertKeysToString : Bool)

/-- `splitValue` of an item -/
def splitValue (item : IndexedItem) (splitKey : String) : SplitValue :=
  let splitValue := stringifyObjects rt (getValue rt options item splitKey)
  if convertKeysToString then
    .string (Operand.toText rt.toValidationRuntime (.json splitValue.value))
  else splitValue

def groupedItems (firstSplitKey : String) (inputItems : List IndexedItem) :
    Dict SplitValue (List IndexedItem) :=
  inputItems.foldl (fun groupedItems item =>
      let splitValue := splitValue rt options convertKeysToString item firstSplitKey
      if options.skipEmptySplitFields && splitValue.isEmpty then groupedItems
      else groupedItems.set splitValue ((groupedItems.get? splitValue).getD [] ++ [item]))
    .empty

inductive NestedAggregationResult
  | result (result : AggregationResult)
  | splits (fieldName : String) (splits : List (SplitValue × NestedAggregationResult))

def aggregateAndSplitData : List String → List IndexedItem → NestedAggregationResult
  | [], inputItems => .result (aggregateData rt options fieldsToSummarize inputItems)
  | firstSplitKey :: restSplitKeys, inputItems =>
    .splits firstSplitKey
      ((groupedItems rt options convertKeysToString firstSplitKey inputItems).entries.map
        fun (groupKey, items) => (groupKey, aggregateAndSplitData restSplitKeys items))

/-! ## Flattening -/

/-- The value of a split field is written back. -/
def writeSplitValue (fieldName : String) (value : SplitValue) (v : AggregationResult) :
    AggregationResult :=
  { v with
    returnData := FieldMatching.assign v.returnData (normalizeFieldName fieldName) value.value }

mutual

def flattenAggregationResultToArray : NestedAggregationResult → List AggregationResult
  | .result result => [result]
  | .splits fieldName splits => flattenSplits fieldName splits

def flattenSplits (fieldName : String) :
    List (SplitValue × NestedAggregationResult) → List AggregationResult
  | [] => []
  | (value, innerResult) :: splits =>
    (flattenAggregationResultToArray innerResult).map (writeSplitValue fieldName value) ++
      flattenSplits fieldName splits

end

/-! ## What it is for -/

variable (splitKeys : List String)

/-- The values of the split fields. -/
def splitTuple (item : IndexedItem) : List SplitValue :=
  splitKeys.map (splitValue rt options convertKeysToString item)

/-- No value of a split field has the item skipped. -/
def IsKept (item : IndexedItem) : Prop :=
  ∀ value ∈ splitTuple rt options convertKeysToString splitKeys item,
    (options.skipEmptySplitFields && value.isEmpty) = false

instance : DecidablePred (IsKept rt options convertKeysToString splitKeys) :=
  fun _ => inferInstanceAs (Decidable (∀ value ∈ _, _))

def keptItems (items : List IndexedItem) : List IndexedItem :=
  items.filter (IsKept rt options convertKeysToString splitKeys ·)

def itemsOf (items : List IndexedItem) (tuple : List SplitValue) : List IndexedItem :=
  (keptItems rt options convertKeysToString splitKeys items).filter
    (splitTuple rt options convertKeysToString splitKeys · = tuple)

/-- The entry is what is made of the items of one tuple. Of aggregations with one name the last
counts. -/
structure IsGroup (items : List IndexedItem) (tuple : List SplitValue) (entry : AggregationResult) :
    Prop where
  pairedItems : entry.pairedItems = some
    ((itemsOf rt options convertKeysToString splitKeys items tuple).map IndexedItem.itemIndex)
  aggregates : ∀ before aggregation after, fieldsToSummarize = before ++ aggregation :: after →
    aggregationKey aggregation ∉ after.map aggregationKey →
      entry.returnData.lookup (aggregationKey aggregation) = some
        (aggregate rt options (itemsOf rt options convertKeysToString splitKeys items tuple)
          aggregation)
  splitValues : ∀ split ∈ splitKeys.zip tuple, normalizeFieldName split.1 ≠ protoName →
    entry.returnData.lookup (normalizeFieldName split.1) = some split.2.value

def IsTuple (items : List IndexedItem) (tuple : List SplitValue) : Prop :=
  ∃ item ∈ keptItems rt options convertKeysToString splitKeys items,
    splitTuple rt options convertKeysToString splitKeys item = tuple

/-- There is one entry for each of the tuples, and the entries part the kept items. -/
def Partitions (isTuple : List SplitValue → Prop) (items : List IndexedItem)
    (entries : List AggregationResult) : Prop :=
  ∃ tuples : List (List SplitValue), tuples.Nodup ∧ (∀ tuple, tuple ∈ tuples ↔ isTuple tuple) ∧
    List.Forall₂ (IsGroup rt options fieldsToSummarize convertKeysToString splitKeys items)
      tuples entries ∧
    (entries.flatMap (·.pairedItems.getD [])).Perm
      ((keptItems rt options convertKeysToString splitKeys items).map IndexedItem.itemIndex)

end Summarize

end N8n
