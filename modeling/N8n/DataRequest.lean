import N8n.Values

/-!
# Data requests of a task

The data of a task goes to its runner without what the runner has not asked for. The runner asks for
the input items a chunk at a time and puts the chunk back between undefined items.
-/

namespace N8n

structure InputDataChunkDefinition where
  startIndex : ℕ
  count : ℕ
  deriving DecidableEq, Repr

structure InputDataRequestParams where
  /-- `include` -/
  included : Bool
  chunk : Option InputDataChunkDefinition := none

inductive DataOfNodes
  | nodes (names : List String)
  | all
  deriving DecidableEq

/-- Specifies what data should be included for a task data request. -/
structure TaskDataRequestParams where
  dataOfNodes : DataOfNodes
  prevNode : Bool
  input : InputDataRequestParams
  /-- Whether env provider's state should be included -/
  env : Bool

structure EnvProviderState where
  env : Dict String String
  isEnvAccessBlocked : Bool
  isProcessAvailable : Bool

/-- The data of a task; `ρ` are the runs of a node and `π` its pinned data. -/
structure DataRequestResponse (ρ π : Type*) where
  inputData : TaskDataConnections
  connectionInputSource : Option (Dict NodeConnectionType (List (Option SourceData)))
  envProviderState : EnvProviderState
  runData : Dict String ρ
  pinData : Option (Dict String π)

variable {ρ π : Type*}

/-- `inputData.main?.[0]` -/
def mainSlot (inputData : TaskDataConnections) : Slot :=
  slotAt ((inputData.get? .main).getD []) 0

/-- `inputItems.slice(startIndex, startIndex + count)` -/
def InputDataChunkDefinition.slice (chunk : InputDataChunkDefinition) (inputItems : List Item) :
    List Item :=
  (inputItems.drop chunk.startIndex).take chunk.count

/-! ## Stripping -/

structure DataRequestResponseStripper (ρ π : Type*) where
  dataResponse : DataRequestResponse ρ π
  stripParams : TaskDataRequestParams

namespace DataRequestResponseStripper

variable (s : DataRequestResponseStripper ρ π)

def determinePrevNodeName : String :=
  match s.dataResponse.connectionInputSource.bind fun source =>
      ((source.get? .main).bind (·[0]?)).join with
  | some sourceData => sourceData.previousNode
  | none => ""

def requestedNodeNames : List String :=
  match s.stripParams.dataOfNodes with
  -- the set of a string has its characters, and nobody looks at it then
  | .all => []
  | .nodes names =>
    if s.stripParams.prevNode then names ++ [s.determinePrevNodeName] else names

/-- Only the node names that are requested. -/
def filterObjectByNodeNames {β : Type*} (obj : Dict String β) : Dict String β :=
  if s.stripParams.dataOfNodes = .all then obj
  else ⟨obj.entries.filter fun e => e.1 ∈ s.requestedNodeNames,
    obj.nodup.sublist (List.filter_sublist.map _)⟩

def stripEnvProviderState (envProviderState : EnvProviderState) : EnvProviderState :=
  if s.stripParams.env then envProviderState else { envProviderState with env := .empty }

def stripChunkedInputData (inputData : TaskDataConnections) (chunk : InputDataChunkDefinition) :
    TaskDataConnections :=
  match mainSlot inputData with
  | .items inputItems => inputData.set .main [.items (chunk.slice inputItems)]
  | _ => inputData

def stripInputData (inputData : TaskDataConnections) : TaskDataConnections :=
  if !s.stripParams.input.included then .empty
  else match s.stripParams.input.chunk with
    | some chunk => stripChunkedInputData inputData chunk
    | none => inputData

/-- Builds a response to the data request. -/
def strip : DataRequestResponse ρ π where
  inputData := s.stripInputData s.dataResponse.inputData
  connectionInputSource := s.dataResponse.connectionInputSource
  envProviderState := s.stripEnvProviderState s.dataResponse.envProviderState
  runData := s.filterObjectByNodeNames s.dataResponse.runData
  pinData := s.dataResponse.pinData.map s.filterObjectByNodeNames

end DataRequestResponseStripper

/-! ## Rebuilding -/

/-- `Array.from({ length })` -/
def arrayFrom (length : ℤ) : List (Option Item) := List.replicate length.toNat none

/-- The missing items are filled in with `undefined`. -/
def reconstructConnectionInputItems (inputData : TaskDataConnections)
    (chunk : Option InputDataChunkDefinition) : List (Option Item) :=
  let inputItems := (mainSlot inputData).list.map some
  match chunk with
  | none => inputItems
  | some chunk =>
    arrayFrom chunk.startIndex ++ inputItems ++
      arrayFrom (inputItems.length - chunk.startIndex - chunk.count)

namespace DataRequestResponse

variable (response : DataRequestResponse ρ π)

def inputItems : List Item := (mainSlot response.inputData).list

/-- The input items that the runner rebuilds from the response to a request for a chunk of them. -/
def chunkedInputItems (dataOfNodes : DataOfNodes) (prevNode env : Bool)
    (chunk : InputDataChunkDefinition) : List (Option Item) :=
  let stripParams := { dataOfNodes, prevNode, env, input := { included := true, chunk } }
  reconstructConnectionInputItems
    (DataRequestResponseStripper.mk response stripParams).strip.inputData
    (some chunk)

end DataRequestResponse

/-- As many items as there were, those of the chunk in their places and no others. -/
def InPlace (items : List Item) (chunk : InputDataChunkDefinition) (rebuilt : List (Option Item)) :
    Prop :=
  rebuilt.length = items.length ∧ ∀ i < items.length,
    rebuilt[i]? = some (if chunk.startIndex ≤ i ∧ i < chunk.startIndex + chunk.count then items[i]?
      else none)

/-! ## The chunks of a code node -/

/-- Chunks the input items into chunks of `chunkSize` items each. -/
def chunkInputItems (chunkSize numInputItems : ℕ) : List InputDataChunkDefinition :=
  let numChunks := (numInputItems + chunkSize - 1) / chunkSize
  (List.range numChunks).map fun i =>
    let startIdx := i * chunkSize
    ⟨startIdx, if i = numChunks - 1 then numInputItems - startIdx else chunkSize⟩

end N8n
