import Mathlib.Data.Int.Notation
import N8n.Library.Runs

/-!
# The task broker

The broker's handlers, cut at their awaits. A handler runs without interruption up to an await;
what it still has to do afterwards is kept in the state (`acceptances`, `endings`, `timingOut`)
until an event resumes it. So every interleaving of the handlers is a list of events.

A timer callback and what it settles run together: nothing gets in between a timer and the
continuations it makes ready. A message handler that settles a promise only records the answer,
since another message may be handled before the promise's continuation runs.
-/

namespace N8n

namespace TaskBroker

/-- The ids `nanoid` draws are pairwise distinct; they are numbered in the order drawn. -/
abbrev TaskId := ℕ

/-- Contents the broker passes on unread. -/
abbrev Payload := String

inductive RunnerMode
  | internal | external
  deriving DecidableEq, Repr

/-- What a timer does when it fires. -/
inductive TimerTarget
  /-- `handleRequestTimeout` of a request. -/
  | request (requestId : String)
  /-- The two seconds a runner has to accept. -/
  | runnerAccept (taskId : TaskId)
  /-- The two seconds a requester has to send the settings. -/
  | requesterSettings (taskId : TaskId)
  /-- `handleTaskTimeout` of a task. -/
  | task (taskId : TaskId)
  deriving DecidableEq, Repr

structure Timer where
  id : ℕ
  target : TimerTarget
  deriving DecidableEq, Repr

structure TaskRunner where
  id : String
  name : Option String := none
  taskTypes : List String := []
  deriving DecidableEq, Repr

structure Task where
  id : TaskId
  runnerId : String
  requesterId : String
  taskType : String
  timeout : Option Timer := none
  deriving DecidableEq, Repr

structure TaskOffer where
  offerId : String
  runnerId : String
  taskType : String
  /-- `-1` for an offer that does not expire. -/
  validFor : ℤ
  validUntil : ℤ
  deriving DecidableEq, Repr

structure TaskRequest where
  requestId : String
  requesterId : String
  taskType : String
  timeout : Option Timer := none
  acceptInProgress : Bool := false
  deriving DecidableEq, Repr, Inhabited

inductive TaskError
  | fromRunner (error : Payload)
  | disconnected (error : Payload)
  | runnerNotFound (runnerId : String)
  | executionTimeout
  deriving DecidableEq, Repr

/-- `BrokerMessage.ToRunner`. -/
inductive ToRunner
  | runnerRegistered
  | taskOfferAccept (offerId : String) (taskId : TaskId)
  | taskCancel (taskId : TaskId) (reason : String)
  | taskSettings (taskId : TaskId) (settings : Payload)
  | taskDataResponse (taskId : TaskId) (requestId : String) (data : Payload)
  | nodeTypes (taskId : TaskId) (requestId : String) (nodeTypes : Payload)
  | rpcResponse (taskId : TaskId) (callId : String) (status data : Payload)
  deriving DecidableEq, Repr

/-- `BrokerMessage.ToRequester`. -/
inductive ToRequester
  | requestExpired (requestId : String) (reason : String)
  | taskReady (requestId : String) (taskId : TaskId)
  | taskDone (taskId : TaskId) (data : Payload)
  | taskError (taskId : TaskId) (error : TaskError)
  | taskDataRequest (taskId : TaskId) (requestId : String) (requestParams : Payload)
  | nodeTypesRequest (taskId : TaskId) (requestId : String) (requestParams : Payload)
  | rpc (taskId : TaskId) (callId : String) (name params : Payload)
  deriving DecidableEq, Repr

inductive Sent
  | toRunner (runnerId : String) (message : ToRunner)
  | toRequester (requesterId : String) (message : ToRequester)
  deriving DecidableEq, Repr

/-- How the promise a runner's acceptance waits on was settled. -/
inductive RunnerAnswer
  | accepted | rejected (reason : String) | deferred | timedOut
  deriving DecidableEq, Repr

/-- How the promise for the requester's settings was settled. -/
inductive RequesterAnswer
  | settings (settings : Payload) | timedOut
  deriving DecidableEq, Repr

/-- Where an `acceptOffer` call is suspended. The promise of a stage is `none` until it settles. -/
inductive Stage
  /-- At the runner's callback for `broker:taskofferaccept`. -/
  | messagingRunner (answer : Option RunnerAnswer)
  /-- At the promise of the runner's acceptance. -/
  | awaitingRunner (answer : Option RunnerAnswer)
  /-- At the requester's callback for `broker:taskready`. -/
  | messagingRequester (answer : Option RequesterAnswer)
  /-- At the promise of the requester's settings. -/
  | awaitingSettings (answer : Option RequesterAnswer)
  /-- In `sendTaskSettings`, with the runner looked up. -/
  | foundRunner (runnerId : String) (settings : Payload)
  /-- In `sendTaskSettings`, at the runner's callback for `broker:tasksettings`. -/
  | sendingSettings
  deriving DecidableEq, Repr

/-- An `acceptOffer` call in flight; `request` is the reference of the request it was called
with. -/
structure Acceptance where
  taskId : TaskId
  offer : TaskOffer
  request : ℕ
  stage : Stage
  deriving DecidableEq, Repr

/-- A `taskDoneHandler` or `taskErrorHandler` call suspended at the requester's callback;
`delivered` when there was a callback to call. -/
structure Ending where
  taskId : TaskId
  delivered : Bool
  deriving DecidableEq, Repr

/-- What a message callback does: it returns, it suspends, or it throws. -/
inductive Callback
  | returned | suspended | threw
  deriving DecidableEq, Repr

end TaskBroker

open TaskBroker in
/-- Request objects are shared by `pendingTaskRequests` and the `acceptOffer` calls, so they are
kept in `requests` and referred to by their position. -/
structure TaskBroker where
  mode : RunnerMode
  knownRunners : List TaskRunner := []
  requesters : List String := []
  tasks : List Task := []
  runnerAcceptRejects : List TaskId := []
  requesterAcceptRejects : List TaskId := []
  pendingTaskOffers : List TaskOffer := []
  pendingTaskRequests : List ℕ := []
  requests : List TaskRequest := []
  timers : List Timer := []
  nextTimer : ℕ := 0
  nextTaskId : TaskId := 0
  acceptances : List Acceptance := []
  endings : List Ending := []
  /-- `handleTaskTimeout` calls suspended at the runner's callback. -/
  timingOut : List TaskId := []
  sent : List Sent := []
  deriving DecidableEq, Repr

namespace TaskBroker

def request (s : TaskBroker) (ref : ℕ) : TaskRequest := s.requests.getD ref default

def knows (s : TaskBroker) (runnerId : String) : Bool := s.knownRunners.any (·.id == runnerId)

def task? (s : TaskBroker) (taskId : TaskId) : Option Task := s.tasks.find? (·.id == taskId)

def deleteTask (s : TaskBroker) (taskId : TaskId) : TaskBroker :=
  { s with tasks := s.tasks.filter (·.id ≠ taskId) }

def updateRequest (s : TaskBroker) (ref : ℕ) (f : TaskRequest → TaskRequest) : TaskBroker :=
  { s with requests := s.requests.modify ref f }

def setStage (s : TaskBroker) (taskId : TaskId) (stage : Stage) : TaskBroker :=
  { s with acceptances := s.acceptances.map fun a =>
      if a.taskId = taskId then { a with stage } else a }

/-- The `acceptOffer` call of the task returns or throws. -/
def finish (s : TaskBroker) (taskId : TaskId) : TaskBroker :=
  { s with acceptances := s.acceptances.filter (·.taskId ≠ taskId) }

/-! ## Timers and messages -/

def newTimer (s : TaskBroker) (target : TimerTarget) : Timer := { id := s.nextTimer, target }

def setTimeout (s : TaskBroker) (target : TimerTarget) : TaskBroker :=
  { s with timers := s.timers ++ [s.newTimer target], nextTimer := s.nextTimer + 1 }

def clearTimeout (s : TaskBroker) (timeout : Option Timer) : TaskBroker :=
  { s with timers := s.timers.filter (some · ≠ timeout) }

def messageRunner (s : TaskBroker) (runnerId : String) (message : ToRunner) : TaskBroker :=
  { s with sent := s.sent ++ if s.knows runnerId then [.toRunner runnerId message] else [] }

def messageRequester (s : TaskBroker) (requesterId : String) (message : ToRequester) :
    TaskBroker :=
  { s with sent := s.sent ++
      if s.requesters.contains requesterId then [.toRequester requesterId message] else [] }

/-! ## Registration -/

def registerRunner (s : TaskBroker) (runner : TaskRunner) : TaskBroker :=
  let s := { s with knownRunners := 
    s.knownRunners.filter (fun r : TaskRunner => r.id ≠ runner.id) ++ [runner] }
  s.messageRunner runner.id .runnerRegistered

def registerRequester (s : TaskBroker) (requesterId : String) : TaskBroker :=
  { s with requesters := s.requesters.filter (· ≠ requesterId) ++ [requesterId] }

def deregisterRequester (s : TaskBroker) (requesterId : String) : TaskBroker :=
  { s with requesters := s.requesters.filter (· ≠ requesterId) }

/-! ## The ends of a task -/

def cancelTask (s : TaskBroker) (taskId : TaskId) (reason : String) : TaskBroker :=
  match s.task? taskId with
  | none => s
  | some task => (s.deleteTask taskId).messageRunner task.runnerId (.taskCancel taskId reason)

def failTask (s : TaskBroker) (taskId : TaskId) (error : TaskError) : TaskBroker :=
  match s.task? taskId with
  | none => s
  | some task => (s.deleteTask taskId).messageRequester task.requesterId (.taskError taskId error)

/-- The runner of a task; without one the task is failed and the caller throws. -/
def getRunnerOrFailTask (s : TaskBroker) (taskId : TaskId) : TaskBroker × Option TaskRunner :=
  match s.task? taskId with
  | none => (s, none)
  | some task =>
    match s.knownRunners.find? (·.id == task.runnerId) with
    | some runner => (s, some runner)
    | none => (s.failTask taskId (.runnerNotFound task.runnerId), none)

/-- The common body of `taskDoneHandler` and `taskErrorHandler`: the task is deleted only once the
requester's callback has returned. -/
def endTask (s : TaskBroker) (taskId : TaskId) (message : ToRequester) (reply : Callback) :
    TaskBroker :=
  match s.task? taskId with
  | none => s
  | some task =>
    let s := (s.clearTimeout task.timeout).messageRequester task.requesterId message
    match reply with
    | .returned => s.deleteTask task.id
    | .suspended =>
      { s with endings := s.endings ++
        [{ taskId := task.id, delivered := s.requesters.contains task.requesterId }] }
    | .threw => s

def taskDoneHandler (s : TaskBroker) (taskId : TaskId) (data : Payload) (reply : Callback) :
    TaskBroker :=
  s.endTask taskId (.taskDone taskId data) reply

def taskErrorHandler (s : TaskBroker) (taskId : TaskId) (error : TaskError) (reply : Callback) :
    TaskBroker :=
  s.endTask taskId (.taskError taskId error) reply

def handleTaskTimeout (s : TaskBroker) (taskId : TaskId) (runnerReply reply : Callback) :
    TaskBroker :=
  match s.task? taskId with
  | none => s
  | some task =>
    match s.mode with
    | .internal => s.taskErrorHandler taskId .executionTimeout reply
    | .external =>
      let s := s.messageRunner task.runnerId (.taskCancel taskId "Task execution timed out")
      match runnerReply with
      | .returned => s.taskErrorHandler taskId .executionTimeout reply
      | .suspended => { s with timingOut := s.timingOut ++ [taskId] }
      | .threw => s

/-! ## Requests and offers -/

def handleRequestTimeout (s : TaskBroker) (requestId : String) : TaskBroker :=
  match s.pendingTaskRequests.find? fun ref => (s.request ref).requestId == requestId with
  | none => s
  | some ref =>
    let request := s.request ref
    let s := { s with
      pendingTaskRequests := s.pendingTaskRequests.eraseP
        fun ref => (s.request ref).requestId == requestId }
    (s.clearTimeout request.timeout).messageRequester request.requesterId
      (.requestExpired request.requestId "timeout")

def expireTasks (s : TaskBroker) (now : ℤ) : TaskBroker :=
  { s with pendingTaskOffers := s.pendingTaskOffers.filter fun offer =>
      offer.validFor = -1 ∨ ¬ offer.validUntil < now }

/-- `acceptOffer` up to its first await. -/
def acceptOffer (s : TaskBroker) (offer : TaskOffer) (ref : ℕ) : TaskBroker :=
  let taskId := s.nextTaskId
  let s := { s with nextTaskId := taskId + 1,
                    runnerAcceptRejects := s.runnerAcceptRejects ++ [taskId] }
  let s := (s.setTimeout (.runnerAccept taskId)).messageRunner offer.runnerId
    (.taskOfferAccept offer.offerId taskId)
  { s with acceptances := s.acceptances ++
      [{ taskId, offer, request := ref, stage := .messagingRunner none }] }

/-- The loop of `settleTasks` over the pending requests. -/
def settleLoop (s : TaskBroker) : List ℕ → TaskBroker
  | [] => s
  | ref :: refs =>
    if (s.request ref).acceptInProgress then settleLoop s refs
    else
      match s.pendingTaskOffers.find? (·.taskType == (s.request ref).taskType) with
      | none => settleLoop s refs
      | some offer =>
        let s := s.updateRequest ref fun r => { r with acceptInProgress := true }
        let s := { s with pendingTaskOffers :=
          s.pendingTaskOffers.eraseP (·.taskType == (s.request ref).taskType) }
        settleLoop (s.acceptOffer offer ref) refs

def settleTasks (s : TaskBroker) (now : ℤ) : TaskBroker :=
  (s.expireTasks now).settleLoop s.pendingTaskRequests

def taskRequested (s : TaskBroker) (request : TaskRequest) (now : ℤ) : TaskBroker :=
  { s with requests := s.requests ++ [request],
           pendingTaskRequests := s.pendingTaskRequests ++ [s.requests.length] }.settleTasks now

def taskOffered (s : TaskBroker) (offer : TaskOffer) (now : ℤ) : TaskBroker :=
  { s with pendingTaskOffers := s.pendingTaskOffers ++ [offer] }.settleTasks now

/-! ## The answers `acceptOffer` waits for -/

/-- Settles the promise of the runner's acceptance, unless it is settled. -/
def settleRunner (s : TaskBroker) (taskId : TaskId) (answer : RunnerAnswer) : TaskBroker :=
  { s with acceptances := s.acceptances.map fun a =>
      if a.taskId = taskId then
        match a.stage with
        | .messagingRunner none => { a with stage := .messagingRunner (some answer) }
        | .awaitingRunner none => { a with stage := .awaitingRunner (some answer) }
        | _ => a
      else a }

/-- Settles the promise of the requester's settings, unless it is settled. -/
def settleRequester (s : TaskBroker) (taskId : TaskId) (answer : RequesterAnswer) : TaskBroker :=
  { s with acceptances := s.acceptances.map fun a =>
      if a.taskId = taskId then
        match a.stage with
        | .messagingRequester none => { a with stage := .messagingRequester (some answer) }
        | .awaitingSettings none => { a with stage := .awaitingSettings (some answer) }
        | _ => a
      else a }

/-- The common body of the three handlers of a runner's answer. -/
def answerRunner (s : TaskBroker) (taskId : TaskId) (answer : RunnerAnswer) : TaskBroker :=
  if taskId ∈ s.runnerAcceptRejects then
    { s.settleRunner taskId answer with
      runnerAcceptRejects := s.runnerAcceptRejects.filter (· ≠ taskId) }
  else s

def handleRunnerAccept (s : TaskBroker) (taskId : TaskId) : TaskBroker :=
  s.answerRunner taskId .accepted

def handleRunnerReject (s : TaskBroker) (taskId : TaskId) (reason : String) : TaskBroker :=
  s.answerRunner taskId (.rejected reason)

def handleRunnerDeferred (s : TaskBroker) (taskId : TaskId) : TaskBroker :=
  s.answerRunner taskId .deferred

def handleRequesterAccept (s : TaskBroker) (taskId : TaskId) (settings : Payload) : TaskBroker :=
  if taskId ∈ s.requesterAcceptRejects then
    { s.settleRequester taskId (.settings settings) with
      requesterAcceptRejects := s.requesterAcceptRejects.filter (· ≠ taskId) }
  else s

def deregisterRunner (s : TaskBroker) (runnerId : String) (error : Payload) : TaskBroker :=
  let s := { s with knownRunners := s.knownRunners.filter (·.id ≠ runnerId),
                    pendingTaskOffers := s.pendingTaskOffers.filter (·.runnerId ≠ runnerId) }
  (s.tasks.filter (·.runnerId = runnerId)).foldl (fun s task =>
    (s.failTask task.id (.disconnected error)).handleRunnerReject task.id
      ("The Task Runner (" ++ runnerId ++ ") has disconnected: " ++ error)) s

/-! ## `acceptOffer` after its awaits -/

/-- A failed acceptance: `acceptInProgress` is taken back, and a deferred request gets a new timer
and is pushed to the pending requests. -/
def acceptFailed (s : TaskBroker) (a : Acceptance) (deferred : Bool) : TaskBroker :=
  let s := s.updateRequest a.request fun r => { r with acceptInProgress := false }
  let s := s.finish a.taskId
  if deferred then
    let request := s.request a.request
    let s := s.clearTimeout request.timeout
    let timer := s.newTimer (.request request.requestId)
    let s := (s.setTimeout timer.target).updateRequest a.request fun r =>
      { r with timeout := some timer }
    { s with pendingTaskRequests := s.pendingTaskRequests ++ [a.request] }
  else s

/-- The runner has accepted: the task is created, and if its request is still pending the requester
is told that the task is ready. -/
def accepted (s : TaskBroker) (a : Acceptance) : TaskBroker :=
  let request := s.request a.request
  let s := s.clearTimeout request.timeout
  let task : Task :=
    { id := a.taskId, taskType := a.offer.taskType, runnerId := a.offer.runnerId,
      requesterId := request.requesterId }
  let s := { s with tasks := s.tasks.filter (fun t : Task => t.id ≠ a.taskId) ++ [task] }
  if s.pendingTaskRequests.any fun ref => (s.request ref).requestId == request.requestId then
    let s := { s with
      pendingTaskRequests := s.pendingTaskRequests.eraseP
        fun ref => (s.request ref).requestId == request.requestId
      requesterAcceptRejects := s.requesterAcceptRejects ++ [a.taskId] }
    let s := (s.setTimeout (.requesterSettings a.taskId)).messageRequester request.requesterId
      (.taskReady request.requestId a.taskId)
    s.setStage a.taskId (.messagingRequester none)
  else s.finish a.taskId

/-- The runner's acceptance is settled. -/
def runnerAnswered (s : TaskBroker) (a : Acceptance) : RunnerAnswer → TaskBroker
  | .accepted => s.accepted a
  | .rejected _ | .timedOut => s.acceptFailed a false
  | .deferred => s.acceptFailed a true

/-- `sendTaskSettings` up to its await of the runner. Where there is no task or no runner it
throws, and the `cancelTask` of the error path then finds no task. -/
def sendTaskSettings (s : TaskBroker) (taskId : TaskId) (settings : Payload) : TaskBroker :=
  match s.getRunnerOrFailTask taskId with
  | (s, none) => s.finish taskId
  | (s, some runner) => s.setStage taskId (.foundRunner runner.id settings)

/-- `sendTaskSettings` from there on: the execution timeout is armed and the settings are sent. -/
def armTask (s : TaskBroker) (taskId : TaskId) (runnerId : String) (settings : Payload) :
    TaskBroker :=
  match s.task? taskId with
  | none => s.finish taskId
  | some _ =>
    let timer := s.newTimer (.task taskId)
    let s := s.setTimeout timer.target
    let arm : Task → Task := fun task =>
      if task.id = taskId then { task with timeout := some timer } else task
    let s := { s with tasks := s.tasks.map arm }
    (s.messageRunner runnerId (.taskSettings taskId settings)).setStage taskId .sendingSettings

/-- The catch block around the requester's part: the task is cancelled. -/
def requesterFailed (s : TaskBroker) (taskId : TaskId) : TaskBroker :=
  (s.cancelTask taskId "Unknown reason").finish taskId

/-- Resumes an `acceptOffer` call; `ok` says whether the callback it was suspended at returned. -/
def resume (s : TaskBroker) (a : Acceptance) (ok : Bool) : TaskBroker :=
  match a.stage with
  | .messagingRunner answer =>
    if ok then s.setStage a.taskId (.awaitingRunner answer) else s.acceptFailed a false
  | .awaitingRunner none => s
  | .awaitingRunner (some answer) => s.runnerAnswered a answer
  | .messagingRequester answer =>
    if ok then s.setStage a.taskId (.awaitingSettings answer) else s.requesterFailed a.taskId
  | .awaitingSettings none => s
  | .awaitingSettings (some (.settings settings)) => s.sendTaskSettings a.taskId settings
  | .awaitingSettings (some .timedOut) => s.requesterFailed a.taskId
  | .foundRunner runnerId settings => s.armTask a.taskId runnerId settings
  | .sendingSettings => if ok then s.finish a.taskId else s.requesterFailed a.taskId

/-- A timer fires. Where the promise it rejects is the one an `acceptOffer` call waits at, that
call goes on at once. -/
def fireTimer (s : TaskBroker) (timer : Timer) (runnerReply reply : Callback) : TaskBroker :=
  let s := { s with timers := s.timers.erase timer }
  match timer.target with
  | .request requestId => s.handleRequestTimeout requestId
  | .runnerAccept taskId =>
    match s.acceptances.find? (·.taskId == taskId) with
    | some a =>
      if a.stage = .awaitingRunner none then s.runnerAnswered a .timedOut
      else s.settleRunner taskId .timedOut
    | none => s
  | .requesterSettings taskId =>
    match s.acceptances.find? (·.taskId == taskId) with
    | some a =>
      if a.stage = .awaitingSettings none then s.requesterFailed taskId
      else s.settleRequester taskId .timedOut
    | none => s
  | .task taskId => s.handleTaskTimeout taskId runnerReply reply

end TaskBroker

end N8n
