import N8n.Library.Trace
import N8n.ConcurrencyControl
import N8n.Values

/-!
# Paired items

`$getPairedItem` of the workflow data proxy: the item of an earlier node that an item comes from,
found along the paired items and sources of the runs in between. Items are compared by reference,
so the runs hold references, of a type `ι`, and `pairedItem` reads the item behind one.
-/

namespace N8n

variable {ι : Type}

/-- `ITaskData`, with its `data.main`. -/
structure ProxyTask (ι : Type) where
  executionIndex : ℕ
  source : List (Option SourceData) := []
  main : List (Option (List ι))
  deriving DecidableEq

/-- `normalizePairedItem` -/
def normalizePairedItem : Option PairedItem → List PairedItemData
  | none => []
  | some (.index item) => [{ item }]
  | some (.single data) => [data]
  | some (.list data) => data

/-- What the proxy reads. -/
structure ProxyData (ι : Type) where
  mode : WorkflowExecuteMode
  runData : Dict String (List (ProxyTask ι))
  pinData : Dict String (List ι) := .empty
  pairedItem : ι → Option PairedItem

namespace ProxyData

variable (s : ProxyData ι)

def runOf (source : SourceData) : Option (ProxyTask ι) :=
  (s.runData.get? source.previousNode).bind (·[source.previousNodeRun.getD 0]?)

/-- The sources that a run names, for itself or in the paired items of its output. -/
def sourcesOf (task : ProxyTask ι) : List SourceData :=
  task.source.reduceOption ++ task.main.reduceOption.flatten.flatMap fun item =>
    (normalizePairedItem (s.pairedItem item)).filterMap (·.sourceOverwrite)

end ProxyData

/-- Every source refers to an earlier run. -/
structure WorkflowDataProxy (ι : Type) extends ProxyData ι where
  earlier : ∀ node, ∀ tasks ∈ runData.get? node, ∀ task ∈ tasks,
    ∀ source ∈ toProxyData.sourcesOf task, ∀ before ∈ toProxyData.runOf source,
      before.executionIndex < task.executionIndex

/-! ## Errors -/

inductive PairedItemMethod
  | pairedItem | itemMatching | item | getPairedItem
  deriving DecidableEq, Repr

def PairedItemMethod.text : PairedItemMethod → String
  | .pairedItem => "pairedItem"
  | .itemMatching => "itemMatching"
  | .item => "item"
  | .getPairedItem => "$getPairedItem"

/-- The errors of class `ExpressionError`. -/
inductive PairedItemError
  | pairedItemNotFound (destNode : String) (nodeCause : Option String)
  | missingOutput (outputIndex : ℕ) (node : String) (nodeCause : Option String)
  | invalidPairedItem (nodeName : String)
  | missingPairedItem (nodeCause : String) (usedMethodName : PairedItemMethod) (pinned : Bool)
  | noConnection (nodeCause : String)
  | branchNotFound (node : String) (item : ℕ) (nodeCause : Option String)
  | multipleItemsFound (destNode : String) (itemIndex : ℕ)
  deriving DecidableEq, Repr

namespace PairedItemError

def type : PairedItemError → String
  | .pairedItemNotFound _ _ | .missingPairedItem _ _ _ => "paired_item_no_info"
  | .missingOutput _ _ _ => "internal"
  | .invalidPairedItem _ | .branchNotFound _ _ _ => "paired_item_invalid_info"
  | .noConnection _ => "paired_item_no_connection"
  | .multipleItemsFound _ _ => "paired_item_multiple_matches"

/-- The template of the message, or the message where there is no template. -/
def messageTemplate : PairedItemError → String
  | .pairedItemNotFound _ _ => "Unable to find paired item source"
  | .missingOutput _ _ _ => "Missing output data"
  | .invalidPairedItem _ => "Expression info invalid"
  | .missingPairedItem nodeCause usedMethodName true =>
    "Using the " ++ usedMethodName.text ++
      " method doesn't work with pinned data in this scenario. Please unpin '" ++ nodeCause ++
      "' and try again."
  | .missingPairedItem nodeCause usedMethodName false =>
    "Paired item data for " ++ usedMethodName.text ++ " from node '" ++ nodeCause ++
      "' is unavailable. Ensure '" ++ nodeCause ++ "' is providing the required output."
  | .noConnection _ => "No path back to referenced node"
  | .branchNotFound _ _ _ => "Paired item references non-existent branch"
  | .multipleItemsFound _ itemIndex =>
    "Multiple matching items for item [" ++ toString itemIndex ++ "]"

end PairedItemError

inductive ProxyError
  | expression (error : PairedItemError)
  /-- `Cannot read properties of undefined` -/
  | typeError (property : String)
  /-- `Maximum call stack size exceeded` -/
  | rangeError
  deriving DecidableEq, Repr

/-! ## Resolution -/

namespace WorkflowDataProxy

variable (s : WorkflowDataProxy ι)

def getPinDataIfManualExecution (nodeName : String) : Option (List ι) :=
  if s.mode = .manual then s.pinData.get? nodeName else none

def pinDataToTask (pinData : Option (List ι)) : Option (ProxyTask ι) :=
  pinData.map fun pinData => { executionIndex := 0, main := [some pinData] }

def getTaskData (source : SourceData) : Option (ProxyTask ι) :=
  (s.runOf source).or (pinDataToTask (s.getPinDataIfManualExecution source.previousNode))

/-- None where `getNodeOutput` throws. -/
def getNodeOutput (taskData : Option (ProxyTask ι)) (source : SourceData) : Option (List ι) :=
  taskData.bind fun task => task.main[source.previousNodeOutput.getD 0]?.join

/-- The arguments of a call that differ from call to call. -/
structure Call where
  incomingSourceData : Option SourceData
  pairedItem : PairedItemData
  nodeBeforeLast : Option String := none
  deriving DecidableEq, Repr

/-- `normalizeInputs` -/
def Call.sourceData (call : Call) : Option SourceData :=
  call.pairedItem.sourceOverwrite.or call.incomingSourceData

/-- The calls for the paired items of an item, but for those whose input has no source. -/
def nextCalls (sourceData : SourceData) (sourceArray : List (Option SourceData))
    (nextPairedItems : List PairedItemData) : List Call :=
  nextPairedItems.flatMap fun nextPairedItem =>
    let inputIndex := nextPairedItem.input.getD 0
    if inputIndex ≥ sourceArray.length then []
    else [{
      incomingSourceData := nextPairedItem.sourceOverwrite.or sourceArray[inputIndex]?.join
      pairedItem := { nextPairedItem with input := some inputIndex }
      nodeBeforeLast := some sourceData.previousNode }]

def isOk : Except ProxyError ι → Bool
  | .ok _ => true
  | .error _ => false

def result? : Except ProxyError ι → Option ι
  | .ok item => some item
  | .error _ => none

variable [DecidableEq ι]

/-- What the results of the branches come to. Without any result the first check already holds, and
reads the error of a result that is not there. -/
def matchResults (destinationNodeName : String) (call : Call) (sourceData : SourceData)
    (sourceArray : List (Option SourceData)) (results : List (Except ProxyError ι)) :
    Except ProxyError ι :=
  if results.all (!isOk ·) then
    match results with
    | .error error :: _ => .error error
    | _ => .error (.typeError "error")
  else
    match results.filterMap result? with
    | [] =>
      if sourceArray = [] then .error (.expression (.noConnection destinationNodeName))
      else .error (.expression (.branchNotFound sourceData.previousNode call.pairedItem.item
        call.nodeBeforeLast))
    | first :: rest =>
      if rest.any (· ≠ first) then
        .error (.expression (.multipleItemsFound destinationNodeName call.pairedItem.item))
      else .ok first

/-- `getPairedItem`, with as many nested calls as the stack takes. -/
def getPairedItemWithin (destinationNodeName : String) (usedMethodName : PairedItemMethod) :
    ℕ → Call → Except ProxyError ι
  | 0, _ => .error .rangeError
  | stack + 1, call =>
    match call.sourceData with
    | none =>
      .error (.expression (.pairedItemNotFound destinationNodeName call.nodeBeforeLast))
    | some sourceData =>
      let taskData := s.getTaskData sourceData
      match getNodeOutput taskData sourceData with
      | none =>
        .error (.expression (.missingOutput (sourceData.previousNodeOutput.getD 0)
          sourceData.previousNode call.nodeBeforeLast))
      | some outputData =>
        let sourceArray := (taskData.map (·.source)).getD []
        match outputData[call.pairedItem.item]? with
        | none =>
          if sourceData.previousNode = destinationNodeName then
            .error (.expression (.invalidPairedItem sourceData.previousNode))
          else .error (.typeError "pairedItem")
        | some item =>
          if sourceData.previousNode = destinationNodeName then .ok item
          else
            let nextPairedItems := normalizePairedItem (s.pairedItem item)
            if nextPairedItems = [] then
              .error (.expression (.missingPairedItem sourceData.previousNode usedMethodName
                (s.getPinDataIfManualExecution sourceData.previousNode).isSome))
            else
              matchResults destinationNodeName call sourceData sourceArray
                ((nextCalls sourceData sourceArray nextPairedItems).map
                  (getPairedItemWithin destinationNodeName usedMethodName stack))

/-- More nested calls than there are runs one after the other. -/
def stackSize : ℕ :=
  (s.runData.entries.flatMap (·.2)).foldr (fun task n => max task.executionIndex n) 0 + 2

def getPairedItem (destinationNodeName : String) (usedMethodName : PairedItemMethod) (call : Call) :
    Except ProxyError ι :=
  s.getPairedItemWithin destinationNodeName usedMethodName s.stackSize call

/-! ## Ancestry -/

variable (destinationNodeName : String)

/-- The items that a call finds at its source. -/
def Outputs (call : Call) (sourceData : SourceData) (outputData : List ι) : Prop :=
  call.sourceData = some sourceData ∧
    getNodeOutput (s.getTaskData sourceData) sourceData = some outputData

/-- The chain has come to the destination, at the item. -/
def Arrives (call : Call) (item : ι) : Prop :=
  ∃ sourceData outputData, s.Outputs call sourceData outputData ∧
    sourceData.previousNode = destinationNodeName ∧ outputData[call.pairedItem.item]? = some item

/-- The chain goes on from the item of the call, by one of its paired items. -/
def Goes (call next : Call) : Prop :=
  ∃ sourceData outputData item, s.Outputs call sourceData outputData ∧
    sourceData.previousNode ≠ destinationNodeName ∧ outputData[call.pairedItem.item]? = some item ∧
    next ∈ nextCalls sourceData (((s.getTaskData sourceData).map (·.source)).getD [])
      (normalizePairedItem (s.pairedItem item))

/-- The output before the destination does not have the item. -/
def Missing (call : Call) : Prop :=
  ∃ sourceData outputData, s.Outputs call sourceData outputData ∧
    sourceData.previousNode ≠ destinationNodeName ∧ outputData.length ≤ call.pairedItem.item

/-- The item has paired items, but none whose input has a source. -/
def DeadEnd (call : Call) : Prop :=
  ∃ sourceData outputData item, s.Outputs call sourceData outputData ∧
    sourceData.previousNode ≠ destinationNodeName ∧ outputData[call.pairedItem.item]? = some item ∧
    normalizePairedItem (s.pairedItem item) ≠ [] ∧
    ∀ nextPairedItem ∈ normalizePairedItem (s.pairedItem item),
      (((s.getTaskData sourceData).map (·.source)).getD []).length ≤ nextPairedItem.input.getD 0

/-- The item that is the end of every chain which comes to the destination, if one does, is
returned, and otherwise an `ExpressionError` is thrown. -/
def Resolves (call : Call) (result : Except ProxyError ι) : Prop :=
  (∀ item, result = .ok item ↔
    Trace.Unique (s.Arrives destinationNodeName) (s.Goes destinationNodeName) call item) ∧
  ((∀ item, ¬ Trace.Unique (s.Arrives destinationNodeName) (s.Goes destinationNodeName) call item) →
    ∃ error, result = .error (.expression error))

end WorkflowDataProxy

end N8n
