import N8n.Library.Dict
import N8n.Library.Runs

/-!
# The task requester

A call of `startTask` asks the broker for a task, sends the settings once it has got one, and waits
for the result. What settles one of its promises and what the call does then are two events, so
that others may come in between.
-/

namespace N8n

namespace TaskRequester

/-- The ids drawn for requests are distinct: a request is named by the place of its call. -/
abbrev RequestId := ℕ

/-- The ids the broker draws for tasks are distinct, and numbered as their `broker:taskready`
comes. -/
abbrev TaskId := ℕ

/-- What the promise of a result is settled with. -/
inductive Answer
  | done (data : String)
  | error (error : String)
  /-- The error of `cancelTask`. -/
  | cancelled (message : String)
  deriving DecidableEq, Repr

/-- How far a call of `startTask` is. -/
inductive Stage
  /-- at `await taskIdPromise` -/
  | requested
  /-- with `taskIdPromise` resolved -/
  | ready (taskId : TaskId)
  /-- with `taskIdPromise` rejected -/
  | expired
  /-- at `await dataPromise` -/
  | awaitingData (taskId : TaskId)
  /-- with `dataPromise` settled -/
  | answered (taskId : TaskId) (answer : Answer)
  | returned (answer : Answer)
  | thrown
  deriving DecidableEq, Repr

structure Call where
  /-- `additionalData.executionId` -/
  executionId : Option String
  taskType : String
  settings : String
  stage : Stage := .requested
  /-- The stage at each cancellation of its execution. -/
  cancels : List Stage := []
  deriving DecidableEq, Repr

/-- The execution of a call, if it has one. -/
def Call.execution (c : Call) : Option String := c.executionId.filter (· ≠ "")

inductive RequesterMessage
  | taskRequest (requestId : RequestId) (taskType : String)
  | taskSettings (taskId : TaskId) (settings : String)
  | taskCancel (taskId : TaskId) (reason : String)
  deriving DecidableEq, Repr

structure Sent where
  message : RequesterMessage
  /-- It is sent for a call whose execution has been cancelled since. -/
  cancelled : Bool := false
  deriving DecidableEq, Repr

end TaskRequester

structure TaskRequester where
  requestAcceptRejects : List TaskRequester.RequestId := []
  /-- The call that waits for the result of a task. -/
  taskAcceptRejects : Dict TaskRequester.TaskId ℕ := .empty
  /-- The call of each task. -/
  tasks : Dict TaskRequester.TaskId ℕ := .empty
  executionIdsToTaskIds : Dict String (List TaskRequester.TaskId) := .empty
  calls : List TaskRequester.Call := []
  nextTaskId : TaskRequester.TaskId := 0
  sent : List TaskRequester.Sent := []
  deriving DecidableEq

namespace TaskRequester

variable (s : TaskRequester)

def setStage (call : ℕ) (stage : Stage) : TaskRequester :=
  { s with calls := s.calls.modify call fun c => { c with stage } }

def sendMessage (message : RequesterMessage) (cancelled : Bool := false) : TaskRequester :=
  { s with sent := s.sent ++ [{ message, cancelled }] }

/-! ## Starting a task -/

/-- `startTask`, up to `await taskIdPromise`. -/
def startTask (executionId : Option String) (taskType settings : String) : TaskRequester :=
  let requestId := s.calls.length
  sendMessage
    { s with
      calls := s.calls ++ [{ executionId, taskType, settings }]
      requestAcceptRejects := s.requestAcceptRejects ++ [requestId] }
    (.taskRequest requestId taskType)

def rejectTask (taskId : TaskId) (reason : String) : TaskRequester :=
  s.sendMessage (.taskCancel taskId reason)

/-- The id of the task is the next. -/
def taskReady (requestId : RequestId) : TaskRequester :=
  let taskId := s.nextTaskId
  let s := { s with nextTaskId := taskId + 1 }
  if requestId ∈ s.requestAcceptRejects then
    { s.setStage requestId (.ready taskId) with
      requestAcceptRejects := s.requestAcceptRejects.filter (· ≠ requestId) }
  else
    s.rejectTask taskId
      ("Request ID not found. In multi-main setup, it is possible for one of the mains to have "
        ++ "reported ready state already.")

def requestExpired (requestId : RequestId) : TaskRequester :=
  if requestId ∈ s.requestAcceptRejects then
    { s.setStage requestId .expired with
      requestAcceptRejects := s.requestAcceptRejects.filter (· ≠ requestId) }
  else s

def getTaskIds (executionId : String) : List TaskId :=
  (s.executionIdsToTaskIds.get? executionId).getD []

/-- `taskIds.add` -/
def addTaskId (taskIds : List TaskId) (taskId : TaskId) : List TaskId :=
  if taskId ∈ taskIds then taskIds else taskIds ++ [taskId]

/-- `startTask` from the id of its task on, up to `await dataPromise`. -/
def sendSettings (call : ℕ) (c : Call) (taskId : TaskId) : TaskRequester :=
  let executionIdsToTaskIds :=
    match c.execution with
    | none => s.executionIdsToTaskIds
    | some executionId =>
      s.executionIdsToTaskIds.set executionId (addTaskId (s.getTaskIds executionId) taskId)
  let s :=
    { s.setStage call (.awaitingData taskId) with
      tasks := s.tasks.set taskId call
      taskAcceptRejects := s.taskAcceptRejects.set taskId call
      executionIdsToTaskIds }
  s.sendMessage (.taskSettings taskId c.settings) (c.cancels ≠ [])

/-! ## Results -/

/-- Settles the promise of the result of a task. -/
def settle (taskId : TaskId) (answer : Answer) : TaskRequester :=
  match s.taskAcceptRejects.get? taskId with
  | none => s
  | some call =>
    { s.setStage call (.answered taskId answer) with
      taskAcceptRejects := s.taskAcceptRejects.erase taskId }

def taskDone (taskId : TaskId) (data : String) : TaskRequester := s.settle taskId (.done data)

def taskError (taskId : TaskId) (error : String) : TaskRequester := s.settle taskId (.error error)

def clearExecutionsMap (taskId : TaskId) : TaskRequester :=
  match s.executionIdsToTaskIds.entries.find? fun e => taskId ∈ e.2 with
  | none => s
  | some (executionId, taskIds) =>
    let taskIds := taskIds.filter (· ≠ taskId)
    let executionIdsToTaskIds :=
      if taskIds.length = 0 then s.executionIdsToTaskIds.erase executionId
      else s.executionIdsToTaskIds.set executionId taskIds
    { s with executionIdsToTaskIds }

/-- `startTask` from its result on. -/
def finish (call : ℕ) (taskId : TaskId) (answer : Answer) : TaskRequester :=
  clearExecutionsMap
    { s.setStage call (.returned answer) with tasks := s.tasks.erase taskId } taskId

/-- A call whose promise is settled goes on. -/
def resume (call : ℕ) : TaskRequester :=
  match s.calls[call]? with
  | none => s
  | some c =>
    match c.stage with
    | .ready taskId => s.sendSettings call c taskId
    | .expired => s.setStage call .thrown
    | .answered taskId answer => s.finish call taskId answer
    | _ => s

/-! ## Cancelling -/

def cancelTask (taskId : TaskId) (reason : String := "Task cancelled by user") : TaskRequester :=
  match s.tasks.get? taskId with
  | none => s
  | some _ =>
    let s := { s with tasks := s.tasks.erase taskId }
    (s.sendMessage (.taskCancel taskId reason)).settle taskId
      (.cancelled s!"Task cancelled: {reason}")

/-- A call of the execution is cancelled in the stage it is in. -/
def Call.noteCancel (executionId : String) (c : Call) : Call :=
  if c.execution = some executionId then { c with cancels := c.cancels ++ [c.stage] } else c

def noteCancel (executionId : String) : TaskRequester :=
  { s with calls := s.calls.map (Call.noteCancel executionId) }

def cancelTasks (executionId : String) : TaskRequester :=
  (s.getTaskIds executionId).foldl (fun s taskId => s.cancelTask taskId)
    (s.noteCancel executionId)

/-! ## Events -/

inductive Event
  | startTask (executionId : Option String) (taskType settings : String)
  | taskReady (requestId : RequestId)
  | requestExpired (requestId : RequestId)
  | taskDone (taskId : TaskId) (data : String)
  | taskError (taskId : TaskId) (error : String)
  | resume (call : ℕ)
  | cancelTasks (executionId : String)

def step : Event → TaskRequester
  | .startTask executionId taskType settings => s.startTask executionId taskType settings
  | .taskReady requestId => s.taskReady requestId
  | .requestExpired requestId => s.requestExpired requestId
  | .taskDone taskId data => s.taskDone taskId data
  | .taskError taskId error => s.taskError taskId error
  | .resume call => s.resume call
  | .cancelTasks executionId => s.cancelTasks executionId

/-! ## What a cancellation is for -/

/-- The task that a call has obtained and has no result of. -/
def Stage.heldTask : Stage → Option TaskId
  | ready taskId | awaitingData taskId => some taskId
  | _ => none

/-- The call has got, or returned, the error of a cancellation. -/
def Call.CancelledWith (c : Call) (taskId : TaskId) : Prop :=
  ∃ message, c.stage = .answered taskId (.cancelled message) ∨
    c.stage = .returned (.cancelled message)

/-- No settings are sent after a cancellation, and each call that had a task then is answered. -/
structure StartsNone : Prop where
  sent : ∀ m ∈ s.sent, ∀ taskId settings, m.message = .taskSettings taskId settings →
    m.cancelled = false
  answered : ∀ c ∈ s.calls, ∀ stage ∈ c.cancels, ∀ taskId, stage.heldTask = some taskId →
    c.CancelledWith taskId ∧ ∃ m ∈ s.sent, ∃ reason, m.message = .taskCancel taskId reason

/-- No request is answered after the execution of its call has been cancelled, and no execution is
cancelled between the answer to a request and the call that goes on with it. -/
def CancelsLinked : Event → Prop
  | .taskReady requestId => requestId ∈ s.requestAcceptRejects →
      ∀ c, s.calls[requestId]? = some c → c.cancels = []
  | .cancelTasks executionId => ∀ c ∈ s.calls, c.execution = some executionId →
      ∀ taskId, c.stage ≠ .ready taskId
  | _ => True

end TaskRequester

end N8n
