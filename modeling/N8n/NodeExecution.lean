import N8n.RequestsResponse

/-!
# Executing one node

The tries of one node execution: the calls of `runNode`, what is made of the data they return, and
when a failed one is repeated. What a call returns is up to the node.
-/

namespace N8n

/-! ## What a node returns -/

inductive RunNodeResult
  /-- The outputs; none if they are `null` or `undefined`. -/
  | response (data : Option (List Slot))
  | request (request : EngineRequest)
  | throws (message : String)
  deriving DecidableEq

/-- A call of `runNode`. -/
structure Attempt where
  result : RunNodeResult
  /-- The node puts the execution to wait. -/
  waitTill : Bool := false
  deriving DecidableEq

/-- What the engine does not decide in one turn of its loop. -/
structure Turn where
  /-- The calls of `runNode`, in order. -/
  attempt : ℕ → Attempt
  /-- The execution has been canceled, or its time is up. -/
  canceled : Bool := false
  /-- `$getPairedItem` of the node's data proxy. -/
  getPairedItem : SourceData → PairedItemData → Except String (Option Item) := fun _ _ => .ok none

structure ActionResponse where
  action : EngineAction
  data : TaskData
  deriving DecidableEq

structure EngineResponse where
  actionResponses : List ActionResponse := []
  metadata : String := ""
  deriving DecidableEq

def makeEngineResponse : EngineResponse := {}

/-- `data?.[0]?.[0]` -/
def firstItem (data : Option (List Slot)) : Option Item :=
  (slotAt (data.getD []) 0).list.head?

/-- `data?.[0]?.[0]?.json?.error !== undefined` -/
def nodeFailed (data : Option (List Slot)) : Bool :=
  match firstItem data with
  | none => false
  | some item => item.json.read "error" ≠ .undefined

/-! ## Error output -/

namespace Item

/-- The item carries an error: as its `error`, or with nothing else in its JSON but a message. -/
def hasErrorData (item : Item) : Bool :=
  item.error.truthy ||
    (item.json.read "error").truthy && item.json.keys.length == 1 ||
    (item.json.read "error").truthy && (item.json.read "message").truthy &&
      item.json.keys.length == 2

def pairedItemData (item : Item) : Option PairedItemData :=
  match item.pairedItem with
  | some (.single data) => some data
  | some (.list data) => data.head?
  | _ => none

end Item

/-- The item with an error, as it goes to the error output: over its paired item, if there is one. -/
def errorItem (t : Turn) (executionData : ExecuteData) (item : Item) : Except String Item :=
  match executionData.source, item.pairedItemData with
  | some source, some pairedItemData =>
    match source[pairedItemData.input.getD 0]?.join with
    | none => .error typeError
    | some sourceData =>
      match t.getPairedItem sourceData pairedItemData with
      | .error e => .error e
      | .ok none => .ok item
      | .ok (some constPairedItem) => .ok { item with json := constPairedItem.json.merge item.json }
  | _, _ => .ok item

/-- The items of one output. -/
structure SplitItems where
  successItems : List Item := []
  errorItems : List Item := []
  /-- The error thrown at an item, and the items after it. -/
  thrown : Option (String × List Item) := none

def splitItems (t : Turn) (executionData : ExecuteData) : List Item → SplitItems
  | [] => {}
  | item :: items =>
    let rest := splitItems t executionData items
    if item.hasErrorData then
      match errorItem t executionData item with
      | .error e => { thrown := some (e, items) }
      | .ok errorItem => { rest with errorItems := errorItem :: rest.errorItems }
    else { rest with successItems := item :: rest.successItems }

structure ErrorOutput where
  nodeSuccessData : List Slot
  errorItems : List Item := []
  error : Option String := none

/-- So many outputs, from the index on. When an item throws, its output keeps the items after it. -/
def splitOutputs (t : Turn) (executionData : ExecuteData) : ℕ → ℕ → ErrorOutput → ErrorOutput
  | 0, _, o => o
  | outputs + 1, outputIndex, o =>
    let items := (slotAt o.nodeSuccessData outputIndex).list
    let split := splitItems t executionData items
    match split.thrown with
    | some (e, items) =>
      { nodeSuccessData := setAt o.nodeSuccessData outputIndex .hole (.items items)
        error := some e }
    | none =>
      splitOutputs t executionData outputs (outputIndex + 1)
        { nodeSuccessData :=
            setAt o.nodeSuccessData outputIndex .hole (.items split.successItems)
          errorItems := o.errorItems ++ split.errorItems }

/-- The items with an error go from the other outputs to the last. -/
def handleNodeErrorOutput (w : Workflow) (t : Turn) (executionData : ExecuteData)
    (nodeSuccessData : List Slot) : ErrorOutput :=
  let mainOutputs := (w.nodeType executionData.node).mainOutputs
  let o := splitOutputs t executionData (mainOutputs - 1) 0 { nodeSuccessData }
  if o.error.isSome ∨ mainOutputs = 0 then o
  else { o with
    nodeSuccessData := setAt o.nodeSuccessData (mainOutputs - 1) .hole (.items o.errorItems) }

/-! ## Paired items -/

/-- Whether it came to the end. -/
def pairItems (fix : ℕ → Option PairedItem) : ℕ → List Item → List Item × Bool
  | _, [] => ([], true)
  | index, item :: items =>
    match item.pairedItem, fix index with
    | none, none => (item :: items, false)
    | pairedItem, fixed =>
      let (items, complete) := pairItems fix (index + 1) items
      ({ item with pairedItem := pairedItem <|> fixed } :: items, complete)

/-- Up to the first item that cannot be paired. -/
def pairOutputs (fix : ℕ → Option PairedItem) : List Slot → Option (List Slot)
  | [] => some []
  | .null :: outputs => (pairOutputs fix outputs).map (.null :: ·)
  | .items items :: outputs =>
    let (items, complete) := pairItems fix 0 items
    if complete then (pairOutputs fix outputs).map (.items items :: ·)
    else some (.items items :: outputs)
  | _ => none

/-- `array[0]?.length` -/
def Slot.length? : Slot → Option ℕ
  | .items data => some data.length
  | _ => none

/-- None when it throws. -/
def assignPairedItems (nodeSuccessData : Option (List Slot)) (executionData : ExecuteData) :
    Option (Option (List Slot)) :=
  match nodeSuccessData, executionData.data.get? .main with
  | none, _ => some none
  | some [], _ => some (some [])
  | some _, none => none
  | some outputs, some main =>
    let inputLength := (slotAt main 0).length?
    let isSingleInputAndOutput := main.length = 1 ∧ inputLength = some 1
    let mayBeSameNumber := outputs.length = 1 ∧ main.length = 1
    let outputLength := (slotAt outputs 0).length?
    if mayBeSameNumber ∧ outputLength = none then none
    else
      let isSameNumberOfItems := mayBeSameNumber ∧ inputLength = outputLength
      let fix (index : ℕ) : Option PairedItem :=
        if isSingleInputAndOutput then some (.single { item := 0 })
        else if isSameNumberOfItems then some (.single { item := index })
        else none
      (pairOutputs fix outputs).map some

/-- The pairings of an item that stands for all input items. -/
def allInputItems (main : List Slot) : List PairedItemData :=
  main.zipIdx.flatMap fun (inputData, inputIndex) =>
    inputData.list.zipIdx.map fun (_, itemIndex) =>
      { item := itemIndex, input := some inputIndex }

/-- With `alwaysOutputData` an empty item takes the place of no data. None when it throws. -/
def outputDataAlways (nodeSuccessData : Option (List Slot)) (executionData : ExecuteData) :
    Option (Option (List Slot)) :=
  if (firstItem nodeSuccessData).isSome ∨ executionData.node.alwaysOutputData = false then
    some nodeSuccessData
  else
    (executionData.data.get? .main).map fun main =>
      let item := { json := .empty, pairedItem := some (.list (allInputItems main)) }
      some (setAt (nodeSuccessData.getD []) 0 .hole (.items [item]))

/-! ## Tries -/

/-- The variables of the loop over the tries. -/
structure Tries where
  state : WorkflowExecute
  subNodeExecutionResults : EngineResponse := makeEngineResponse
  /-- The results each call of `runNode` so far was given. -/
  calls : List (Option EngineResponse) := []
  nodeSuccessData : Option (List Slot) := none
  executionError : Option String := none
  deriving DecidableEq

/-- How the execution of a node comes out. -/
inductive NodeOutcome
  /-- It has returned a request, which has been handled. -/
  | requested (tries : Tries)
  /-- It has returned `null` or `undefined`. -/
  | noData (tries : Tries)
  /-- It has returned data, or it has failed in every try. -/
  | done (tries : Tries)
  deriving DecidableEq

def NodeOutcome.tries : NodeOutcome → Tries
  | .requested tries | .noData tries | .done tries => tries

inductive Try
  /-- The item returned first has an error: the node is called again at once. -/
  | again (tries : Tries)
  /-- The call of `runNode` has thrown. -/
  | threw (tries : Tries)
  /-- An error was thrown, but not by a call of `runNode`. -/
  | caught (tries : Tries)
  | ended (outcome : NodeOutcome)
  deriving DecidableEq

def Node.maxExecutionTries (node : Node) : ℕ :=
  if node.retryOnFail then
    min 5 (max 2 (match node.maxTries with
      | none | some 0 => 3
      | some maxTries => maxTries))
  else 1

def WorkflowExecute.ranLast (s : WorkflowExecute) (executionData : ExecuteData) :
    WorkflowExecute :=
  { s with lastNodeExecuted := some executionData.node.name }

namespace Tries

variable (w : Workflow) (t : Turn) (runIndex : ℕ) (executionData : ExecuteData)

/-- An error has been caught. -/
def fail (tries : Tries) (error : String) : Tries :=
  { tries with
    state := tries.state.ranLast executionData
    executionError := some error }

/-- The results of the actions of a resumed node, after those that are there. -/
def collectResults (tries : Tries) : Tries :=
  match executionData.metadata.bind (·.subNodeExecutionData) with
  | none => tries
  | some subNodeExecutionData =>
    let actionResponses := subNodeExecutionData.actions.filterMap fun subNode =>
      (tries.state.taskData subNode.nodeName)[subNode.runIndex]?.map fun data =>
        { data, action := subNode.action }
    { tries with subNodeExecutionResults :=
        { actionResponses := tries.subNodeExecutionResults.actionResponses ++ actionResponses
          metadata := subNodeExecutionData.metadata } }

/-- The node has run without throwing. -/
def settle (tries : Tries) : Try :=
  match assignPairedItems tries.nodeSuccessData executionData with
  | none => .caught (tries.fail executionData typeError)
  | some nodeSuccessData =>
    let tries := { tries with
      nodeSuccessData
      state := if nodeSuccessData.isSome then tries.state.ranLast executionData else tries.state }
    match outputDataAlways nodeSuccessData executionData with
    | none => .caught (tries.fail executionData typeError)
    | some nodeSuccessData =>
      if nodeSuccessData = none ∧ tries.state.waitTill = false then .ended (.noData tries)
      else .ended (.done { tries with nodeSuccessData })

/-- A call of `runNode` is made. One that repeats a failed one at once is given no results. -/
def called (repeats : Bool) (attempt : Attempt) (tries : Tries) : Tries :=
  { tries with
    calls := tries.calls ++ [if repeats then none else some tries.subNodeExecutionResults]
    state := { tries.state with waitTill := tries.state.waitTill || attempt.waitTill } }

/-- The node has returned data, or none. -/
def returned (tries : Tries) : Option (List Slot) → Try
  | none => { tries with nodeSuccessData := none }.settle executionData
  | some nodeSuccessData =>
    if executionData.node.onError = some .continueErrorOutput then
      let o := handleNodeErrorOutput w t executionData nodeSuccessData
      let tries := { tries with nodeSuccessData := some o.nodeSuccessData }
      match o.error with
      | none => tries.settle executionData
      | some error => .caught (tries.fail executionData error)
    else { tries with nodeSuccessData }.settle executionData

/-- The node has returned a request. -/
def requests (tries : Tries) (request : EngineRequest) : Try :=
  let handled :=
    tries.state.handleEngineRequest w executionData.node request runIndex executionData
  let tries := { tries with state := handled.state }
  match handled.error with
  | none => .ended (.requested tries)
  | some error => .caught (tries.fail executionData error)

def callRunNode (repeats last : Bool) (tries : Tries) : Try :=
  let attempt := t.attempt tries.calls.length
  let tries := tries.called repeats attempt
  match attempt.result with
  | .throws error => .threw (tries.fail executionData error)
  | .request request => tries.requests w runIndex executionData request
  | .response data =>
    if nodeFailed data ∧ last = false then .again tries
    else tries.returned w t executionData data

/-- The body of the loop over the tries. Pinned data stands in for the node. -/
def tryOnce (last : Bool) (tries : Tries) : Try :=
  let tries := { tries with executionError := none }
  match tries.state.pinData.get? executionData.node.name with
  | some nodePinData =>
    if executionData.node.disabled = some true then
      (tries.collectResults executionData).callRunNode w t runIndex executionData false last
    else { tries with nodeSuccessData := some [.items nodePinData] }.settle executionData
  | none => (tries.collectResults executionData).callRunNode w t runIndex executionData false last

/-- The loop over the tries, and the one in it that repeats a failed one at once: that one counts a
try after its call, which may throw. The first argument bounds the calls that are left. -/
def runTries (maxTries : ℕ) : ℕ → ℕ → Bool → Tries → NodeOutcome
  | 0, _, _, tries => .done tries
  | calls + 1, tryIndex, false, tries =>
    if tryIndex < maxTries then
      match tries.tryOnce w t runIndex executionData (tryIndex = maxTries - 1) with
      | .again tries => runTries maxTries calls tryIndex true tries
      | .threw tries | .caught tries => runTries maxTries calls (tryIndex + 1) false tries
      | .ended outcome => outcome
    else .done tries
  | calls + 1, tryIndex, true, tries =>
    match tries.callRunNode w t runIndex executionData true (tryIndex + 1 = maxTries - 1) with
    | .again tries => runTries maxTries calls (tryIndex + 1) true tries
    | .threw tries => runTries maxTries calls (tryIndex + 1) false tries
    | .caught tries => runTries maxTries calls (tryIndex + 2) false tries
    | .ended outcome => outcome

end Tries

/-- The calls that the tries may make: each but the last may be repeated without being counted. -/
def Node.maxCalls (node : Node) : ℕ := 2 * node.maxExecutionTries - 1

/-- The execution of a node, up to the writing of its record. -/
def WorkflowExecute.executeNode (w : Workflow) (s : WorkflowExecute) (t : Turn) (runIndex : ℕ)
    (executionData : ExecuteData) : NodeOutcome :=
  Tries.runTries w t runIndex executionData executionData.node.maxExecutionTries
    executionData.node.maxCalls 0 false { state := s }

end N8n
