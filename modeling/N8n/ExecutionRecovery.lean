import N8n.ActiveExecutions
import N8n.Values

/-!
# Recovery of executions

An execution that was cut off is rebuilt from the events in the log. Every node of its workflow
that has no run data gets one entry, from the first event of each kind that names the node.
-/

namespace N8n

namespace ExecutionRecovery

inductive EventName
  /-- `n8n.node.` -/
  | nodeStarted | nodeFinished
  /-- `n8n.workflow.` -/
  | workflowStarted | workflowSuccess | workflowFailed | workflowCrashed
  | other (name : String)
  deriving DecidableEq, Repr

def EventName.isNode : EventName → Bool
  | .nodeStarted | .nodeFinished => true
  | _ => false

def EventName.isWorkflow : EventName → Bool
  | .workflowStarted | .workflowSuccess | .workflowFailed | .workflowCrashed => true
  | _ => false

structure EventMessage where
  eventName : EventName
  /-- `payload.nodeName` -/
  nodeName : Option String := none
  /-- In milliseconds. -/
  ts : ℤ
  deriving DecidableEq, Repr

/-- `m.payload.nodeName === node.name && m.eventName === 'n8n.node.started'` -/
def EventMessage.started (node : String) (m : EventMessage) : Bool :=
  m.nodeName = some node && m.eventName = .nodeStarted

/-- `m.payload.nodeName === node.name && m.eventName === 'n8n.node.finished'` -/
def EventMessage.finished (node : String) (m : EventMessage) : Bool :=
  m.nodeName = some node && m.eventName = .nodeFinished

inductive TaskError
  /-- `new NodeCrashedError(node)` -/
  | nodeCrashed (node : String)
  | other (message : String)
  deriving DecidableEq, Repr

/-- `ITaskData` -/
structure TaskData where
  startTime : ℤ
  executionIndex : ℕ := 0
  executionTime : ℤ := -1
  source : List (Option SourceData) := [none]
  executionStatus : Option ActiveExecutions.ExecutionStatus := none
  data : Option TaskDataConnections := none
  error : Option TaskError := none
  deriving DecidableEq

inductive ResultError
  /-- `new WorkflowCrashedError()` -/
  | workflowCrashed
  | other (message : String)
  deriving DecidableEq, Repr

/-- `IRunExecutionData` -/
structure RunExecutionData where
  runData : Dict String (List TaskData) := .empty
  lastNodeExecuted : Option String := none
  error : Option ResultError := none
  deriving DecidableEq

/-- `IExecutionResponse` -/
structure Execution where
  status : ActiveExecutions.ExecutionStatus
  stoppedAt : Option ℤ := none
  /-- The names of `workflowData.nodes`. -/
  nodes : List String
  data : Option RunExecutionData := none
  deriving DecidableEq

def artificialTaskData : TaskDataConnections :=
  .set .empty .main
    [.items [{ json := Dict.empty.set "isArtificialRecoveredEventItem" (.boolean true) }]]

/-- `DateTime.toUnixInteger` -/
def toUnixInteger (ts : ℤ) : ℤ := ts / 1000

/-! ## Amending from the log -/

/-- The run data on the way, and `lastNodeRunTimestamp`. -/
structure Amended where
  data : RunExecutionData
  lastNodeRunTimestamp : Option ℤ := none
  deriving DecidableEq

def finishedTask (started finished : EventMessage) : TaskData where
  startTime := toUnixInteger started.ts
  executionTime := finished.ts - started.ts
  executionStatus := some .success
  data := some artificialTaskData

def crashedTask (node : String) (started : EventMessage) : TaskData where
  startTime := toUnixInteger started.ts
  executionTime := 0
  executionStatus := some .crashed
  error := some (.nodeCrashed node)

/-- A node that has finished. -/
def Amended.success (a : Amended) (node : String) (started finished : EventMessage) : Amended where
  data :=
    { a.data with
      lastNodeExecuted := some node
      runData := a.data.runData.set node [finishedTask started finished] }
  lastNodeRunTimestamp := some finished.ts

/-- A node that has not. -/
def Amended.crashed (a : Amended) (node : String) (started : EventMessage) : Amended where
  data :=
    { error := some .workflowCrashed
      lastNodeExecuted := some node
      runData := a.data.runData.set node [crashedTask node started] }
  lastNodeRunTimestamp := some started.ts

/-- One turn of the loop over the nodes of the workflow. -/
def amendNode (nodeMessages : List EventMessage) (a : Amended) (node : String) : Amended :=
  match nodeMessages.find? (·.started node) with
  | none => a
  | some started =>
    if a.data.runData.get? node ≠ none then a
    else match nodeMessages.find? (·.finished node) with
    | some finished => a.success node started finished
    | none => a.crashed node started

def isWorkflowEnd : EventName → Bool
  | .workflowSuccess | .workflowCrashed | .workflowFailed => true
  | _ => false

def toStoppedAt (timestamp : Option ℤ) (messages : List EventMessage) : Option ℤ :=
  match timestamp with
  | some timestamp => some timestamp
  | none =>
    ((messages.find? (isWorkflowEnd ·.eventName)).or
      (messages.find? (·.eventName = .workflowStarted))).map (·.ts)

/-- Finished executions with their data are left alone. -/
def isFinished (execution : Execution) : Bool :=
  (execution.status = .success || execution.status = .error || execution.status = .canceled) &&
    execution.data.isSome

def amendFromLogs (execution : Execution) (nodeMessages workflowMessages : List EventMessage) :
    Execution :=
  let a := execution.nodes.foldl (amendNode nodeMessages) { data := execution.data.getD {} }
  { execution with
    status := if execution.status = .error then .error else .crashed
    stoppedAt := toStoppedAt a.lastNodeRunTimestamp workflowMessages
    data := some a.data }

/-! ## Amending -/

/-- `ExecutionRepository.markAsCrashed` -/
def markAsCrashed (executions : Dict String Execution) (now : ℤ) (executionId : String) :
    Dict String Execution :=
  executions.mapEntries fun id execution =>
    if id = executionId then { execution with status := .crashed, stoppedAt := some now }
    else execution

def amendWithoutLogs (executions : Dict String Execution) (now : ℤ) (executionId : String) :
    Dict String Execution × Option Execution :=
  if executions.get? executionId = none then (executions, none)
  else
    let executions := markAsCrashed executions now executionId
    (executions, executions.get? executionId)

/-- The executions as they are stored afterwards, and the amended execution. -/
def amend (executions : Dict String Execution) (now : ℤ) (executionId : String)
    (messages : List EventMessage) : Dict String Execution × Option Execution :=
  if messages = [] then amendWithoutLogs executions now executionId
  else
    let nodeMessages := messages.filter (·.eventName.isNode)
    let workflowMessages := messages.filter (·.eventName.isWorkflow)
    if nodeMessages = [] then (executions, none)
    else match executions.get? executionId with
    | none => (executions, none)
    | some execution =>
      if isFinished execution then (executions, none)
      else (executions, some (amendFromLogs execution nodeMessages workflowMessages))

end ExecutionRecovery

end N8n
