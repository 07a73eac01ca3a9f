import N8n.FieldMatching
import N8n.Library.StableSort

/-!
# Remove duplicates

Items are sorted by the compared fields, so that duplicates are next to each other, and of these all
but the first are removed from the input. The comparator asks if one value is less than the other
wherever they differ.
-/

namespace N8n

namespace RemoveDuplicates

open Doubles

/-! ## Names of nested fields -/

/-- The `length` by which a library takes an object for an array. -/
def arrayLength (properties : Json) : Option ℕ :=
  match properties.lookup (units "length") with
  | some (.number (.finite value _)) =>
    if value.den = 1 ∧ 0 ≤ value then some value.num.toNat else none
  | _ => none

mutual

/-- The paths to the values in a value that are no objects. -/
def fieldPaths : JsValue → List (List CodeUnits)
  | .array values => elementPaths 0 values
  | .object properties =>
    let paths := propertyPaths properties
    match arrayLength properties with
    | some length => (List.range length).flatMap fun i =>
        ((paths.lookup (units (toString i))).getD [[]]).map (units (toString i) :: ·)
    | none => paths.flatMap fun (key, rest) => rest.map (key :: ·)
  | _ => [[]]

def elementPaths (i : ℕ) : List JsValue → List (List CodeUnits)
  | [] => []
  | value :: values =>
    (fieldPaths value).map (units (toString i) :: ·) ++ elementPaths (i + 1) values

def propertyPaths : List (CodeUnits × JsValue) → List (CodeUnits × List (List CodeUnits))
  | [] => []
  | (key, value) :: properties => (key, fieldPaths value) :: propertyPaths properties

end

/-- The names that are not there yet come behind the others. -/
def addKeys (keys more : List String) : List String :=
  more.foldl (fun keys key => if key ∈ keys then keys else keys ++ [key]) keys

/-- `Object.keys(flattenKeys(json))` -/
def flattenKeys (json : Json) : List String :=
  objectKeys (addKeys [] ((fieldPaths (.object json)).map fun path =>
    fieldName (List.intercalate [0x2e] path)))

/-! ## Settings -/

structure DedupRuntime extends ItemRuntime where
  /-- `pick` of a library -/
  pick : Json → List String → Json

/-- `compare` with its fields, trimmed. -/
inductive Compare
  | allFields
  | allFieldsExcept (fieldsToExclude : List String)
  | selectedFields (fieldsToCompare : List String)

structure Settings where
  compare : Compare
  disableDotNotation : Bool
  removeOtherFields : Bool
  typeVersion : ℚ

inductive DedupError
  /-- `No fields specified. ...` -/
  | noFields
  /-- There is no first item. -/
  | noItems
  /-- `Name of field to compare is blank` -/
  | blank
  /-- `'...' field is missing from some input items`, which may be due to its dots. -/
  | missing (key : String) (nested : Bool)
  /-- `'...' isn't always the same type`, but in an item and the one before it of these types. -/
  | notSameType (key : String) (item : ℕ) (previousType type : CodeUnits)

variable (rt : DedupRuntime) {δ : Type} (settings : Settings)

/-- The names of the fields of an item. -/
def itemKeys (item : DataItem δ) : List String :=
  if settings.disableDotNotation then item.json.map fun property => fieldName property.1
  else flattenKeys item.json

/-- The fields to compare. -/
def keysToCompare (items : List (DataItem δ)) : Except DedupError (List String) :=
  match items with
  | [] => .error .noItems
  | first :: _ =>
    let keys := addKeys (itemKeys settings first) (items.flatMap (itemKeys settings))
    match settings.compare with
    | .allFields => .ok keys
    | .allFieldsExcept fieldsToExclude =>
      if fieldsToExclude = [] then .error .noFields
      else
        let keys := if settings.disableDotNotation then keys else flattenKeys first.json
        .ok (keys.filter (· ∉ fieldsToExclude))
    | .selectedFields fieldsToCompare =>
      if fieldsToCompare = [] then .error .noFields else .ok fieldsToCompare

/-! ## Sorting -/

def indexKey : CodeUnits := units "__INDEX"

/-- An item with its index, which its object has too. -/
structure NewItem where
  json : Json
  index : ℕ

/-- `{ ...json, __INDEX: index }` -/
def withIndex (json : Json) (index : ℕ) : Json :=
  Dict.setEntry indexKey (.number (.ofNat index)) json

def newItems (items : List (DataItem δ)) : List NewItem :=
  items.zipIdx.map fun (item, index) => ⟨withIndex item.json index, index⟩

/-- The number for a value, as the library of `lt` converts it. -/
def toNumber : JsValue → Number
  | .string value => rt.stringToNumber value
  | .number value => value
  | .boolean value => .ofNat value.toNat
  | .null => .ofNat 0
  | .undefined => .nan
  | value => rt.stringToNumber (rt.toText value)

/-- `lt` -/
def lt (value other : JsValue) : Bool :=
  match value, other with
  | .string value, .string other => value < other
  | value, other => (toNumber rt value).lt (toNumber rt other)

def read (json : Json) (key : String) : JsValue :=
  FieldMatching.readField rt.toItemRuntime settings.disableDotNotation json key

variable (keys : List String)

/-- The result of the comparator. -/
def comparator (json1 json2 : Json) : ℤ :=
  match keys.find? fun key =>
      !rt.isEqual (read rt settings json1 key) (read rt settings json2 key) with
  | none => 0
  | some key => if lt rt (read rt settings json1 key) (read rt settings json2 key) then -1 else 1

def sortItems (method : StableSort.Method) (items : List NewItem) : List NewItem :=
  StableSort.sort method
    (fun item item' => !decide (comparator rt settings keys item'.json item.json < 0)) items

/-! ## Validating -/

/-- The rest of the items is looked at, with the type of those before. -/
def validateKey (key : String) : List NewItem → ℕ → Option CodeUnits → Except DedupError Unit
  | [], _, _ => .ok ()
  | item :: items, i, type =>
    if key = "" then .error .blank
    else
      let value := read rt settings item.json key
      if value.isNull && decide (settings.typeVersion > 1) then validateKey key items (i + 1) type
      else if value.isUndefined then
        .error (.missing key (settings.disableDotNotation && decide ('.' ∈ key.toList)))
      else if type ≠ none ∧ type ≠ some value.typeOf then
        .error (.notSameType key i (type.getD []) value.typeOf)
      else validateKey key items (i + 1) (some value.typeOf)

def validateInputData (items : List NewItem) : Except DedupError Unit :=
  keys.forM fun key => validateKey rt settings key items 0 none

/-! ## Removing -/

def compareItems (json1 json2 : Json) : Bool :=
  keys.all fun key => rt.isEqual (read rt settings json1 key) (read rt settings json2 key)

/-- The indexes of the items that are equal to the last one that was not. -/
def removedIndexes (temp : NewItem) : List NewItem → List ℕ
  | [] => []
  | item :: items =>
    if compareItems rt settings keys item.json temp.json then
      item.index :: removedIndexes temp items
    else removedIndexes item items

/-- An item that is left, or its compared fields only. -/
inductive OutputItem (δ : Type)
  | item (item : DataItem δ)
  | picked (json : Json) (pairedItem : ℕ)

def output (updatedItems : List (DataItem δ)) : List (OutputItem δ) :=
  if settings.removeOtherFields then
    updatedItems.mapIdx fun index item => .picked (rt.pick item.json keys) index
  else updatedItems.map .item

/-- The duplicates by the given fields are removed. -/
def removeDuplicatesBy (method : StableSort.Method) (items : List (DataItem δ)) :
    Except DedupError (List (OutputItem δ)) :=
  let sorted := sortItems rt settings keys method (newItems items)
  (validateInputData rt settings keys sorted).map fun _ =>
    let removed :=
      match sorted with
      | [] => []
      | temp :: rest => removedIndexes rt settings keys temp rest
    output rt settings keys
      ((items.zipIdx.filter fun (_, index) => index ∉ removed).map Prod.fst)

def removeDuplicateInputItems (method : StableSort.Method) (items : List (DataItem δ)) :
    Except DedupError (List (OutputItem δ)) :=
  keysToCompare settings items >>= fun keys => removeDuplicatesBy rt settings keys method items

/-! ## What it is for -/

/-- Two items have equal values in all compared fields. -/
def Same (item1 item2 : DataItem δ) : Prop :=
  ∀ key ∈ keys, rt.isEqual (read rt settings item1.json key) (read rt settings item2.json key) = true

instance : DecidableRel (Same (δ := δ) rt settings keys) :=
  fun _ _ => inferInstanceAs (Decidable (∀ key ∈ keys, _))

/-- The items that no earlier one is the same as. -/
def firstItems (items : List (DataItem δ)) : List (DataItem δ) :=
  (items.zipIdx.filter fun (item, index) =>
    ∀ earlier ∈ items.take index, ¬ Same rt settings keys earlier item).map Prod.fst

/-- Where the items are accepted, the first of each group is left. -/
def KeepsFirsts (method : StableSort.Method) (items : List (DataItem δ)) : Prop :=
  ∀ keys left, keysToCompare settings items = .ok keys →
    removeDuplicateInputItems rt settings method items = .ok left →
      left = output rt settings keys (firstItems rt settings keys items)

/-- The comparator puts an item before another. -/
def Before (item1 item2 : DataItem δ) : Prop :=
  comparator rt settings keys item1.json item2.json < 0

instance : DecidableRel (Before (δ := δ) rt settings keys) :=
  fun _ _ => inferInstanceAs (Decidable (_ < _))

/-- Of items that are not the same one comes before the other, and never three in a circle. -/
structure Ordered (items : List (DataItem δ)) : Prop where
  total : ∀ a ∈ items, ∀ b ∈ items,
    Same rt settings keys a b ∨ Before rt settings keys a b ∨ Before rt settings keys b a
  acyclic : ∀ a ∈ items, ∀ b ∈ items, ∀ c ∈ items,
    Before rt settings keys a b → Before rt settings keys b c → ¬ Before rt settings keys c a

/-- The values of the compared fields are also those of the object with the index. -/
def IndexUnseen (items : List (DataItem δ)) : Prop :=
  ∀ item ∈ items, ∀ key ∈ keys, ∀ index,
    read rt settings (withIndex item.json index) key = read rt settings item.json key

end RemoveDuplicates

end N8n
