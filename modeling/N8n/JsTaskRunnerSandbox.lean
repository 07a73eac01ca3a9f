import N8n.DataRequest
import N8n.DisplayOptions
import N8n.Library.Pushes

/-!
# Code for each item

The code node has a task runner run its code for each item, a chunk of items at a time. The runner
pushes a result for each item that the code returns something for, and the node validates each
result when it has come back as JSON.
-/

namespace N8n

open Doubles

/-! ## Results as JSON -/

mutual

/-- `JSON.parse(JSON.stringify(value))`. None is `undefined`. -/
def throughJson : JsValue → Option JsValue
  | .undefined => none
  | .number .nan => some .null
  | .number (.infinity _) => some .null
  | .array values => some (.array (throughJsonArray values))
  | .object properties => some (.object (throughJsonObject properties))
  | value => some value

def throughJsonArray : List JsValue → List JsValue
  | [] => []
  | value :: values => (throughJson value).getD .null :: throughJsonArray values

def throughJsonObject : List (CodeUnits × JsValue) → List (CodeUnits × JsValue)
  | [] => []
  | (key, value) :: properties =>
    match throughJson value with
    | some value => (key, value) :: throughJsonObject properties
    | none => throughJsonObject properties

end

namespace Sandbox

/-- An element of the result as it comes back. -/
def received (value : JsValue) : JsValue := (throughJson value).getD .null

def jsonKey : CodeUnits := units "json"

def binaryKey : CodeUnits := units "binary"

def pairedItemKey : CodeUnits := units "pairedItem"

/-- `isObject` -/
def isObject : JsValue → Bool
  | .object _ => true
  | _ => false

/-- The value of a property, `undefined` if there is none. -/
def read (properties : List (CodeUnits × JsValue)) (key : CodeUnits) : JsValue :=
  (properties.lookup key).getD .undefined

/-- `key in properties` -/
def hasKey (properties : List (CodeUnits × JsValue)) (key : CodeUnits) : Bool :=
  (properties.lookup key).isSome

/-! ## Validation -/

/-- Where the node fails. The texts of a `ValidationError` are its message and its description. -/
inductive SandboxError (ε : Type)
  | validation (message description : CodeUnits) (itemIndex : ℕ)
  /-- `throwExecutionError` of what the runner has thrown. -/
  | execution (error : ε)
  | typeError

/-- `new ValidationError({ message, description, itemIndex })` -/
def validationError {ε : Type} (message description : CodeUnits) (itemIndex : ℕ) :
    SandboxError ε :=
  .validation (message ++ units s!" [item {itemIndex}]") description itemIndex

def requiredItemKeys : List CodeUnits :=
  [jsonKey, binaryKey, pairedItemKey, units "error", units "index"]

/-- `normalizeItems`, for one item. -/
def normalizeItem (properties : List (CodeUnits × JsValue)) : List (CodeUnits × JsValue) :=
  if hasKey properties jsonKey then properties
  else if hasKey properties binaryKey then
    [(jsonKey, .object (properties.filter (·.1 ≠ binaryKey))),
      (binaryKey, read properties binaryKey)]
  else [(jsonKey, .object properties)]

section

variable {ε : Type}

def validateItem (properties : List (CodeUnits × JsValue)) (itemIndex : ℕ) :
    Except (SandboxError ε) Unit :=
  if !isObject (read properties jsonKey) then
    .error (validationError (units "A 'json' property isn't an object")
      (units "In the returned data, every key named 'json' must point to an object.") itemIndex)
  else
    match read properties binaryKey with
    | .undefined => .ok ()
    | binary =>
      if !isObject binary then
        .error (validationError (units "A 'binary' property isn't an object")
          (units "In the returned data, every key named 'binary' must point to an object.")
          itemIndex)
      else .ok ()

def reservedKeyFoundDescription (reservedKey : CodeUnits) : CodeUnits :=
  units "An output item contains the reserved key <code>" ++ reservedKey ++
    units ("</code>. To get around this, please wrap each item in an object, under a key called " ++
      "<code>json</code>. <a href=\"https://docs.n8n.io/data/data-structure/#data-structure\" " ++
      "target=\"_blank\">Example</a>")

def validateTopLevelKeys (properties : List (CodeUnits × JsValue)) (itemIndex : ℕ) :
    Except (SandboxError ε) Unit :=
  let keys := properties.map Prod.fst
  match keys.find? (· ∉ requiredItemKeys) with
  | none => .ok ()
  | some unknownKey =>
    match keys.find? (· ∈ requiredItemKeys) with
    | some foundReservedKey =>
      .error (validationError (units "Invalid output format")
        (reservedKeyFoundDescription foundReservedKey) itemIndex)
    | none =>
      .error (validationError (units "Unknown top-level item key: " ++ unknownKey)
        (units ("Access the properties of an item under \x60.json\x60, e.g. " ++
          "\x60item.json\x60")) itemIndex)

/-- `An array of ... was returned.` -/
def arrayReturned : List JsValue → CodeUnits
  | [] => units "An empty array was returned."
  | value :: _ => units "An array of " ++ typeOf value ++ units "s was returned."
where
  /-- `typeof` -/
  typeOf : JsValue → CodeUnits
    | .string _ => units "string"
    | .number _ => units "number"
    | .boolean _ => units "boolean"
    | .undefined => units "undefined"
    | _ => units "object"

def validateRunCodeEachItem (toText : JsValue → CodeUnits) (executionResult : JsValue)
    (itemIndex : ℕ) : Except (SandboxError ε) JsValue :=
  match executionResult with
  | .object properties => do
    let returnData := normalizeItem properties
    validateItem returnData itemIndex
    validateTopLevelKeys returnData itemIndex
    return .object returnData
  | .array values =>
    .error (validationError (units "Code doesn't return a single object")
      (arrayReturned values ++ units (" If you need to output multiple items, please use the " ++
        "'Run Once for All Items' mode instead.")) itemIndex)
  -- `in` needs an object
  | .null => .error .typeError
  | value =>
    .error (validationError (units "Code doesn't return an object")
      (units "Please return an object representing the output item. ('" ++ toText value ++
        units "' was returned instead.)") itemIndex)

end

/-! ## The task runner -/

/-- The code node with its code and its data; `ε` is what the code throws. -/
structure CodeNode (ε ρ π : Type) where
  /-- What the code does for an item. The item is `undefined` if the runner does not have it. -/
  code : ℕ → Option Item → Except ε JsValue
  /-- The message of the error as it is reported. -/
  errorMessage : ε → CodeUnits
  continueOnFail : Bool
  /-- `validateNoDisallowedMethodsInRunForEach`, which only looks at the code. -/
  validateNoDisallowedMethods : Except (SandboxError ε) Unit
  response : DataRequestResponse ρ π
  /-- The data that the code needs. -/
  stripParams : TaskDataRequestParams
  toText : JsValue → CodeUnits

def extractJsonData : JsValue → JsValue
  | .object properties =>
    if hasKey properties jsonKey then read properties jsonKey
    else if hasKey properties binaryKey then .object []
    else .object properties
  | value => value

def pairedItem (index : ℕ) : CodeUnits × JsValue :=
  (pairedItemKey, .object [(units "item", .number (.ofNat index))])

/-- `result.binary` -/
def binaryOf : JsValue → JsValue
  | .object properties => read properties binaryKey
  | _ => .undefined

/-- What is pushed for a result. -/
def pushed (index : ℕ) (result : JsValue) : List JsValue :=
  if truthy result then
    [.object ([(jsonKey, extractJsonData result), pairedItem index] ++
      if truthy (binaryOf result) then [(binaryKey, binaryOf result)] else [])]
  else []

variable {ε ρ π : Type}

namespace CodeNode

variable (node : CodeNode ε ρ π)

/-- The input items that the runner rebuilds. -/
def connectionInputData (chunk : InputDataChunkDefinition) : List (Option Item) :=
  reconstructConnectionInputItems
    (DataRequestResponseStripper.mk node.response
      { node.stripParams with
        input := { node.stripParams.input with chunk := some chunk } }).strip.inputData
    (some chunk)

/-- The code is run for an item. -/
def runItem (index : ℕ) (item : Option Item) : Except ε (List JsValue) :=
  match node.code index item with
  | .ok result => .ok (pushed index result)
  | .error error =>
    if !node.continueOnFail then .error error
    else
      .ok [.object [(jsonKey, .object [(units "error", .string (node.errorMessage error))]),
        pairedItem index]]

def runForEachItem (chunk : InputDataChunkDefinition) : Except ε (List JsValue) :=
  let inputItems := node.connectionInputData chunk
  Fallible.collect (fun index => node.runItem index (inputItems[index]?).join)
    (List.range' chunk.startIndex chunk.count)

/-! ## The sandbox -/

/-- The elements of the result are validated, each with the index that its place suggests. -/
def validateResult (startIdx : ℕ) (result : List JsValue) :
    Except (SandboxError ε) (List JsValue) :=
  Fallible.collect (fun (value, i) =>
    (validateRunCodeEachItem node.toText (received value) (startIdx + i)).map ([·])) result.zipIdx

def runChunk (chunk : InputDataChunkDefinition) : Except (SandboxError ε) (List JsValue) :=
  (node.runForEachItem chunk).mapError .execution >>= node.validateResult chunk.startIndex

def runCodeForEachItem (chunkSize numInputItems : ℕ) : Except (SandboxError ε) (List JsValue) := do
  node.validateNoDisallowedMethods
  Fallible.collect node.runChunk (chunkInputItems chunkSize numInputItems)

/-- All items are in one chunk. -/
def runInOneChunk (numInputItems : ℕ) : Except (SandboxError ε) (List JsValue) :=
  node.runCodeForEachItem (max 1 numInputItems) numInputItems

end CodeNode

/-! ## What it is for -/

/-- An item, `null` or `undefined`. -/
inductive IsItem : JsValue → Prop
  | null : IsItem .null
  | undefined : IsItem .undefined
  | item (properties : List (CodeUnits × JsValue))
      (hjson : hasKey properties jsonKey = true → isObject (read properties jsonKey) = true)
      (hbinary : truthy (read properties binaryKey) = true →
        isObject (read properties binaryKey) = true) : IsItem (.object properties)

/-- For each item the code returns an item, `null` or `undefined`, or throws. -/
def CodeNode.ReturnsItems (node : CodeNode ε ρ π) : Prop :=
  ∀ index item result, node.code index item = .ok result → IsItem result

end Sandbox

end N8n
