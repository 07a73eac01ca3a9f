import N8n.FieldMatching

/-!
# Compare datasets

`findMatches` of the node that compares two lists of items. It finds the matches of each item, sorts
the matched pairs into those that are the same and those that differ, and may mix the latter. The
items are shared with the nodes before, so their objects are in a store here.
-/

namespace N8n

namespace CompareDatasets

open FieldMatching

/-! ## Objects -/

/-- `set` and `unset` are those of a library, on values that nobody else has. -/
structure CompareRuntime extends ItemRuntime where
  set : JsValue → String → JsValue → JsValue
  unset : JsValue → String → JsValue

def keysOf : JsValue → List CodeUnits
  | .object properties => properties.map Prod.fst
  | _ => []

variable (rt : CompareRuntime)

/-- `value[key]` -/
def readValue (value : JsValue) (key : CodeUnits) : JsValue :=
  match value with
  | .object properties => readKey rt.toItemRuntime properties key
  | _ => .undefined

/-- The keys that `set` of the library refuses. -/
def unsafeKeys : List CodeUnits := [protoName, units "constructor", units "prototype"]

/-- The objects of the items, and for each write so far what it was before and after it. -/
structure Store where
  json : ℕ → Json
  writes : List (Json × Json) := []

def Store.write (s : Store) (ref : ℕ) (json : Json) : Store where
  json := Function.update s.json ref json
  writes := s.writes ++ [(s.json ref, json)]

/-- An item; `json` is the reference of its object. -/
structure ItemRef (δ : Type) where
  json : ℕ
  rest : δ

/-! ## Options -/

inductive Resolve
  | includeBoth | mix | preferInput1 | preferInput2
  deriving DecidableEq

/-- The lists of fields are the trimmed parts of texts with commas. -/
structure CompareOptions where
  fuzzyCompare : Bool
  nodeVersion : ℚ
  disableDotNotation : Bool
  multipleMatches : MultipleMatches
  skipFields : List String
  resolve : Resolve
  /-- `preferWhenMix` is `input1`. -/
  preferInput1 : Bool
  exceptFields : List String

/-- The messages of the errors, with what is put into them. -/
inductive CompareError
  /-- `Dot notation is disabled, but field to skip comparing '...' contains dot` -/
  | dotNotation (fieldToSkip : String)
  /-- `The field '...' in item ... is not an object. It is not possible to use dot notation.` -/
  | notAnObject (key : CodeUnits) (item : ℕ)

def hasDot (field : String) : Bool := '.' ∈ field.toList

variable {δ : Type} (fieldsToMatch : List PairToMatch) (options : CompareOptions)

def isEntriesEqual : JsValue → JsValue → Bool :=
  N8n.fuzzyCompare rt.toValidationRuntime options.fuzzyCompare options.nodeVersion

/-! ## Comparing two items -/

def processNullishValue (version : ℚ) (value : JsValue) : JsValue :=
  if version ≥ 2 then if value.isUndefined then .null else value
  else if truthy value then value else .null

/-- `text.replace(part, '')` -/
def removeFirst (part : CodeUnits) : CodeUnits → CodeUnits
  | [] => []
  | char :: text =>
    if part <+: char :: text then (char :: text).drop part.length
    else char :: removeFirst part text

def isObjectType : JsValue → Bool
  | .object _ | .array _ | .null => true
  | _ => false

/-- The values of a key in both items. -/
def bothInputs (input1 input2 : JsValue) : JsValue :=
  let (firstInputName, secondInputName) :=
    if options.nodeVersion ≥ 2 then (units "inputA", units "inputB")
    else (units "input1", units "input2")
  .object [(firstInputName, input1), (secondInputName, input2)]

/-- The skipped fields of two values: what is skipped of them, and what is left. -/
def splitSkipped (key : CodeUnits) (fields : List String) (input1 input2 : JsValue) :
    (JsValue × JsValue) × (JsValue × JsValue) :=
  fields.foldl
    (fun ((skipped1, skipped2), input1, input2) field =>
      let nestedField := fieldName (removeFirst (key ++ units ".") (units field))
      ((rt.set skipped1 nestedField (rt.get input1 nestedField),
          rt.set skipped2 nestedField (rt.get input2 nestedField)),
        rt.unset input1 nestedField, rt.unset input2 nestedField))
    ((.object [], .object []), input1, input2)

/-- `different` and `skipped` -/
structure Differences where
  different : Json := []
  skipped : Json := []

def compareKey (json1 json2 : Json) (differences : Differences) (entry : CodeUnits × ℕ) :
    Except CompareError Differences :=
  let (key, i) := entry
  let input1 := processNullishValue options.nodeVersion (readKey rt.toItemRuntime json1 key)
  let input2 := processNullishValue options.nodeVersion (readKey rt.toItemRuntime json2 key)
  if options.nodeVersion ≥ 21 / 10 ∧ !options.disableDotNotation ∧
      key ∉ options.skipFields.map units then
    let skippedFieldsWithDotNotation :=
      options.skipFields.filter fun field => key <+: units field ∧ hasDot field
    if skippedFieldsWithDotNotation ≠ [] ∧ !(isObjectType input1 && isObjectType input2) then
      .error (.notAnObject key i)
    else
      let (skipped, left) := splitSkipped rt key skippedFieldsWithDotNotation input1 input2
      .ok
        { different := assign differences.different key (bothInputs options left.1 left.2)
          skipped :=
            if skippedFieldsWithDotNotation = [] then differences.skipped
            else assign differences.skipped key (bothInputs options skipped.1 skipped.2) }
  else if key ∈ options.skipFields.map units then
    .ok { differences with
      skipped := assign differences.skipped key (bothInputs options input1 input2) }
  else
    .ok { differences with
      different := assign differences.different key (bothInputs options input1 input2) }

/-- The `json` of a comparison, and the two items it is paired with. -/
structure ComparedItems (δ : Type) extends Differences where
  keys : Json
  same : Json
  pairedItem : δ × δ

/-- It is called where the differences of both items are wanted. -/
def compareItems (json : ℕ → Json) (item1 item2 : ItemRef δ) :
    Except CompareError (ComparedItems δ) :=
  let json1 := json item1.json
  let json2 := json item2.json
  let keys1 := json1.map Prod.fst
  let keys2 := json2.map Prod.fst
  let allUniqueKeys := keys1 ++ keys2.filter (· ∉ keys1)
  let keysToCompare :=
    if options.fuzzyCompare && options.nodeVersion ≥ 21 / 10 then allUniqueKeys
    else keys1.filter (· ∈ keys2)
  let same := keysToCompare.foldl (fun acc key =>
      if isEntriesEqual rt options (readKey rt.toItemRuntime json1 key)
          (readKey rt.toItemRuntime json2 key) then
        assign acc key (readKey rt.toItemRuntime json1 key)
      else acc)
    []
  let differentKeys := allUniqueKeys.filter (· ∉ same.map Prod.fst)
  (differentKeys.zipIdx.foldlM (compareKey rt options json1 json2) {}).map fun differences =>
    { differences with
      keys := fieldsToMatch.foldl (fun keys field =>
          assign keys (units field.field1) (readKey rt.toItemRuntime json1 (units field.field1)))
        []
      same
      pairedItem := (item1.rest, item2.rest) }

/-- `entry.json[field] = match.json[field]` -/
def assignField (json : ℕ → Json) (entry matched : ItemRef δ) (field : String) : Json :=
  assign (json entry.json) (units field)
    (readKey rt.toItemRuntime (json matched.json) (units field))

/-- `set(entry, ['json', field], get(match.json, field) || null)` -/
def setField (json : ℕ → Json) (entry matched : ItemRef δ) (field : String) : Json :=
  let value := rt.get (.object (json matched.json)) field
  if units field ∈ unsafeKeys then json entry.json
  else assign (json entry.json) (units field) (if truthy value then value else .null)

/-- An entry takes a field of its match. -/
def combineField (entry matched : ItemRef δ) (s : Store) (field : String) : Store :=
  let s := s.write entry.json (assignField rt s.json entry matched field)
  if options.disableDotNotation then
    s.write entry.json (assignField rt s.json entry matched field)
  else s.write entry.json (setField rt s.json entry matched field)

/-- The item that is preferred where items are mixed. -/
def preferred (item1 item2 : ItemRef δ) : ItemRef δ × ItemRef δ :=
  if options.preferInput1 then (item1, item2) else (item2, item1)

def combineItems (item1 item2 : ItemRef δ) (s : Store) : Store :=
  let (entry, matched) := preferred options item1 item2
  options.exceptFields.foldl (combineField rt options entry matched) s

/-! ## Sorting the matched pairs -/

/-- The object without the fields that are skipped. -/
def withoutSkipped (json : Json) : JsValue :=
  if options.disableDotNotation || !options.skipFields.any hasDot then
    -- `omit`, which goes through the fields from the last one on
    options.skipFields.foldr (fun field value => rt.unset value field) (.object json)
  else options.skipFields.foldl (fun value field => rt.unset value field) (.object json)

def isItemsEqual (entryFromInput1 entryFromInput2 : JsValue) : Bool :=
  if options.fuzzyCompare then
    (keysOf entryFromInput1).all fun key =>
      isEntriesEqual rt options (readValue rt entryFromInput1 key) (readValue rt entryFromInput2 key)
  else isEntriesEqual rt options entryFromInput1 entryFromInput2

/-- The matched pair is taken to be the same. -/
def judgedSame (json : ℕ → Json) (entry matched : ItemRef δ) : Bool :=
  isItemsEqual rt options (withoutSkipped rt options (json entry.json))
    (withoutSkipped rt options (json matched.json))

/-- What is pushed for a pair that differs: an item of the inputs, or a comparison. -/
inductive DifferentEntry (δ : Type)
  | item (item : ItemRef δ)
  | compared (compared : ComparedItems δ)

/-- `entryCopy` of a pair that is the same. -/
def sameItem (entry matched : ItemRef δ) : ItemRef δ :=
  if options.fuzzyCompare && options.resolve = .preferInput2 then matched else entry

def differentEntry (json : ℕ → Json) (entry matched : ItemRef δ) :
    Except CompareError (DifferentEntry δ) :=
  match options.resolve with
  | .preferInput1 => .ok (.item entry)
  | .preferInput2 => .ok (.item matched)
  | .mix => .ok (.item (preferred options entry matched).1)
  | .includeBoth => (compareItems rt fieldsToMatch options json entry matched).map .compared

/-- The state of the loops over the matched pairs. -/
structure Comparison (δ : Type) where
  store : Store
  entryCopy : Option (ItemRef δ) := none
  same : List (ItemRef δ) := []
  different : List (DifferentEntry δ) := []

def compareMatch (entry : ItemRef δ) (c : Comparison δ) (matched : ItemRef δ) :
    Except CompareError (Comparison δ) :=
  if judgedSame rt options c.store.json entry matched then
    .ok { c with entryCopy := some (c.entryCopy.getD (sameItem options entry matched)) }
  else
    (differentEntry rt fieldsToMatch options c.store.json entry matched).map fun different =>
      { c with
        store := if options.resolve = .mix then combineItems rt options entry matched c.store
          else c.store
        different := c.different ++ [different] }

def compareEntry (c : Comparison δ) (entryMatches : ItemRef δ × List (ItemRef δ)) :
    Except CompareError (Comparison δ) :=
  (entryMatches.2.foldlM (compareMatch rt fieldsToMatch options entryMatches.1)
      { c with entryCopy := none }).map fun c =>
    { c with same := c.same ++ c.entryCopy.toList }

/-! ## The four outputs -/

structure Outputs (δ : Type) where
  unmatched1 : List (ItemRef δ)
  same : List (ItemRef δ)
  different : List (DifferentEntry δ)
  unmatched2 : List (ItemRef δ)

/-- The matches of an entry, each with its index. -/
def matchesOf (json : ℕ → Json) (input2 : List (ItemRef δ)) (entry : ItemRef δ) :
    List (ItemRef δ × ℕ) :=
  foundedMatches rt.toItemRuntime (fun item : ItemRef δ => json item.json) input2
    (lookupOf rt.toItemRuntime options.disableDotNotation fieldsToMatch (json entry.json))
    options.disableDotNotation (isEntriesEqual rt options) options.multipleMatches

/-- What is returned, and the store at the end. -/
def findMatches (json : ℕ → Json) (input1 input2 : List (ItemRef δ)) :
    Except CompareError (Outputs δ × Store) :=
  match options.disableDotNotation, options.skipFields.find? hasDot with
  | true, some fieldToSkip => .error (.dotNotation fieldToSkip)
  | _, _ =>
    let found := fun entry => matchesOf rt fieldsToMatch options json input2 entry
    let matched := (input1.filter (found · ≠ [])).map fun entry =>
      (entry, (found entry).map Prod.fst)
    let matchedInInput2 := input1.flatMap fun entry => (found entry).map Prod.snd
    (matched.foldlM (compareEntry rt fieldsToMatch options) { store := { json } }).map fun c =>
      ({ unmatched1 := input1.filter (found · = [])
         same := c.same
         different := c.different
         unmatched2 :=
          (input2.zipIdx.filter fun (_, i) => i ∉ matchedInInput2).map Prod.fst }, c.store)

/-! ## What it is for -/

/-- Two items agree on every field that one of them has outside the skipped ones. -/
def AgreeOutside (json : ℕ → Json) (entry matched : ItemRef δ) : Prop :=
  let entryFromInput1 := withoutSkipped rt options (json entry.json)
  let entryFromInput2 := withoutSkipped rt options (json matched.json)
  ∀ key, key ∈ keysOf entryFromInput1 ∨ key ∈ keysOf entryFromInput2 →
    isEntriesEqual rt options (readValue rt entryFromInput1 key)
      (readValue rt entryFromInput2 key) = true

/-- The items that an item is matched with. -/
def matchedWith (json : ℕ → Json) (input2 : List (ItemRef δ)) (entry : ItemRef δ) :
    List (ItemRef δ) :=
  (matchesOf rt fieldsToMatch options json input2 entry).map Prod.fst

/-- The pairs are sorted rightly, and the items are left as they are. -/
structure Classifies (json : ℕ → Json) (input1 input2 : List (ItemRef δ))
    (found : Outputs δ × Store) : Prop where
  /-- Pairs that are the same agree. -/
  agree : ∀ entry ∈ input1, ∀ matched ∈ matchedWith rt fieldsToMatch options json input2 entry,
    judgedSame rt options json entry matched = true → AgreeOutside rt options json entry matched
  /-- Each entry has one item among these if one of its pairs is the same. -/
  same : found.1.same = input1.flatMap fun entry =>
    (((matchedWith rt fieldsToMatch options json input2 entry).find?
      (judgedSame rt options json entry)).map (sameItem options entry)).toList
  /-- Every other pair yields an entry. -/
  different : ((input1.flatMap fun entry =>
      ((matchedWith rt fieldsToMatch options json input2 entry).filter
        (!judgedSame rt options json entry ·)).map (entry, ·)).mapM fun pair =>
      differentEntry rt fieldsToMatch options json pair.1 pair.2) = .ok found.1.different
  unmatched1 : found.1.unmatched1 =
    input1.filter fun entry => matchedWith rt fieldsToMatch options json input2 entry = []
  unmatched2 : found.1.unmatched2 = (input2.zipIdx.filter fun (_, i) =>
    ∀ entry ∈ input1, i ∉ (matchesOf rt fieldsToMatch options json input2 entry).map Prod.snd).map
      Prod.fst
  /-- No item has been modified at any time. -/
  unmodified : ∀ write ∈ found.2.writes, write.1 = write.2

end CompareDatasets

end N8n
