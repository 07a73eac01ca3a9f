import N8n.Library.Dict
import N8n.Library.Runs

/-!
# A task runner

The runner offers as many tasks as it has room for, accepts them, waits for their settings and
executes them. Messages, timers and the interval of the offers come one at a time, and none comes
while the continuations of a settled execution are still to run; these are run one by one. What an
execution does until it settles, its requests for data included, is left open.
-/

namespace N8n

namespace TaskRunner

/-- The state of the connection, in the order it goes through. -/
inductive ReadyState
  | connecting | open | closing | closed
  deriving DecidableEq, Repr

def ReadyState.order : ReadyState → ℕ
  | connecting => 0
  | .open => 1
  | closing => 2
  | closed => 3

/-- A value an execution settles with; `none` is one that `JSON.stringify` throws on. -/
abbrev Payload := Option String

inductive TaskError
  | timeoutError (taskTimeout : ℕ)
  /-- What the execution has thrown. -/
  | thrown (error : Payload)
  /-- What `taskExecutionSucceeded` has thrown. -/
  | rethrown
  deriving DecidableEq, Repr

/-- `RunnerMessage.ToBroker`, without the requests of an execution. -/
inductive RunnerMessage
  | info (name : String) (types : List String)
  | taskOffer (taskType offerId : String) (validFor : ℕ)
  | taskRejected (taskId reason : String)
  | taskAccepted (taskId : String)
  | taskDone (taskId : String) (data : Payload)
  | taskError (taskId : String) (error : TaskError)
  deriving DecidableEq, Repr

/-- `BrokerMessage.ToRunner`, without the answers to the requests of an execution. -/
inductive BrokerMessage
  | infoRequest
  | runnerRegistered
  | taskOfferAccept (offerId taskId : String)
  | taskCancel (taskId reason : String)
  | taskSettings (taskId settings : String)
  deriving DecidableEq, Repr

/-- Whether `JSON.stringify` throws on the message. -/
def RunnerMessage.unserializable : RunnerMessage → Bool
  | taskDone _ none | taskError _ (.thrown none) => true
  | _ => false

def RunnerMessage.isAnswer : RunnerMessage → Bool
  | taskDone _ _ | taskError _ _ => true
  | _ => false

structure TaskOffer where
  offerId : String
  /-- in nanoseconds -/
  validUntil : ℕ
  deriving DecidableEq, Repr

inductive TaskStatus
  | waitingForSettings | running | abortingCancelled | abortingTimeout
  deriving DecidableEq, Repr

structure TaskState where
  status : TaskStatus := .waitingForSettings
  taskId : String
  /-- The timer is pending. -/
  timeoutTimer : Bool := true
  deriving DecidableEq, Repr

def TaskState.cleanup (t : TaskState) : TaskState := { t with timeoutTimer := false }

/-- How far the execution of a task is. -/
inductive Execution
  | notStarted
  | underWay
  /-- `taskExecutionSucceeded` is at its `await`, and `caseOf` has thrown or not. -/
  | succeeded (threw : Bool)
  /-- `.catch` is to call `taskExecutionFailed`. -/
  | caught
  /-- `taskExecutionFailed` is at its `await`. -/
  | failed
  /-- It has settled, and no handler is left to run. -/
  | settled
  deriving DecidableEq, Repr

/-- A continuation of the execution is to run. -/
def Execution.atAwait : Execution → Bool
  | succeeded _ | caught | failed => true
  | _ => false

/-- A task that has been accepted. -/
structure Task where
  state : TaskState
  execution : Execution := .notStarted
  /-- It was cancelled while it waited for settings or ran. -/
  cancelled : Bool := false
  deriving DecidableEq, Repr

/-- A message, with the task that it answers for. -/
structure Sent where
  message : RunnerMessage
  task : Option ℕ := none
  deriving DecidableEq, Repr

/-- What `sendOffers` draws for an offer: its id, its `randomInt(500)`, and the clock then. -/
structure NewOffer where
  offerId : String
  randomInt : ℕ
  now : ℕ

structure Draws where
  /-- The clock when `deleteStaleOffers` comes to an offer. -/
  now : String → ℕ
  offer : ℕ → NewOffer

end TaskRunner

structure TaskRunner where
  taskType : String := "javascript"
  name : String := "Node.js Task Runner SDK"
  maxConcurrency : ℕ
  /-- in seconds -/
  taskTimeout : ℕ
  readyState : TaskRunner.ReadyState := .connecting
  canSendOffers : Bool := false
  openOffers : Dict String TaskRunner.TaskOffer := .empty
  /-- By task id; a task is named by its place in `tasks`. -/
  runningTasks : Dict String ℕ := .empty
  tasks : List TaskRunner.Task := []
  sent : List TaskRunner.Sent := []

namespace TaskRunner

def OFFER_VALID_TIME_MS : ℕ := 5000

def OFFER_VALID_EXTRA_MS : ℕ := 100

/-- Converts milliseconds to nanoseconds -/
def msToNs (ms : ℕ) : ℕ := ms * 1000000

-- `sendThrows` says in which states of the connection `ws.send` throws
variable (sendThrows : ReadyState → Bool) (s : TaskRunner)

def setStatus (task : ℕ) (status : TaskStatus) : TaskRunner :=
  { s with tasks := s.tasks.modify task fun t => { t with state := { t.state with status } } }

/-- The timer of a task is cleared. -/
def cleanup (task : ℕ) : TaskRunner :=
  { s with tasks := s.tasks.modify task fun t => { t with state := t.state.cleanup } }

def setExecution (task : ℕ) (execution : Execution) : TaskRunner :=
  { s with tasks := s.tasks.modify task fun t => { t with execution } }

/-- Sends a message that may be the answer for a task; the second component says whether it has
thrown. -/
def send (message : RunnerMessage) (task : Option ℕ := none) : TaskRunner × Bool :=
  if message.unserializable ∨ sendThrows s.readyState then (s, true)
  else ({ s with sent := s.sent ++ [{ message, task }] }, false)

/-! ## Offers -/

def NewOffer.validForInMs (o : NewOffer) : ℕ := OFFER_VALID_TIME_MS + o.randomInt

def NewOffer.toTaskOffer (o : NewOffer) : TaskOffer where
  offerId := o.offerId
  validUntil := o.now + msToNs (o.validForInMs + OFFER_VALID_EXTRA_MS)

def stopTaskOffers : TaskRunner := { s with canSendOffers := false }

def startTaskOffers : TaskRunner := { s with canSendOffers := true }

def deleteStaleOffers (now : String → ℕ) : TaskRunner :=
  { s with openOffers := s.openOffers.filter fun offer => ¬ offer.validUntil < now offer.offerId }

/-- The rounds of the loop of `sendOffers` from `i` on, up to one that throws. -/
def sendOffersFrom (offer : ℕ → NewOffer) : ℕ → ℕ → TaskRunner → TaskRunner × Bool
  | 0, _, s => (s, false)
  | rounds + 1, i, s =>
    let o := offer i
    let s := { s with openOffers := s.openOffers.set o.offerId o.toTaskOffer }
    let (s, threw) := s.send sendThrows (.taskOffer s.taskType o.offerId o.validForInMs)
    if threw then (s, true) else sendOffersFrom offer rounds (i + 1) s

def sendOffers (draws : Draws) : TaskRunner × Bool :=
  let s := s.deleteStaleOffers draws.now
  if s.canSendOffers then
    let offersToSend := s.maxConcurrency - (s.openOffers.size + s.runningTasks.size)
    sendOffersFrom sendThrows draws.offer offersToSend 0 s
  else (s, false)

/-! ## Tasks -/

/-- Finishes task by removing it from the running tasks and sending new offers -/
def finishTask (task : ℕ) (taskId : String) (draws : Draws) : TaskRunner × Bool :=
  sendOffers sendThrows
    { s.cleanup task with runningTasks := s.runningTasks.erase taskId } draws

/-- Whether the task runner has capacity to accept more tasks. -/
def hasOpenTaskSlots : Bool := s.runningTasks.size < s.maxConcurrency

def offerAccepted (offerId taskId : String) : TaskRunner :=
  if s.hasOpenTaskSlots then
    match s.openOffers.get? offerId with
    | none =>
      (s.send sendThrows (.taskRejected taskId
        "Offer expired - not accepted within validity window")).1
    | some _ =>
      let accepted : Task := { state := { taskId } }
      let s :=
        { s with
          openOffers := s.openOffers.erase offerId
          runningTasks := s.runningTasks.set taskId s.tasks.length
          tasks := s.tasks ++ [accepted] }
      (s.send sendThrows (.taskAccepted taskId)).1
  else
    (send sendThrows { s with openOffers := s.openOffers.erase offerId }
      (.taskRejected taskId "No open task slots - runner already at capacity")).1

/-- `runningTasks.get` -/
def getTask (taskId : String) : Option (ℕ × Task) :=
  match s.runningTasks.get? taskId with
  | none => none
  | some task => s.tasks[task]?.map fun t => (task, t)

def markCancelled (task : ℕ) : TaskRunner :=
  { s with tasks := s.tasks.modify task fun t => { t with cancelled := true } }

def taskCancelled (taskId : String) (draws : Draws) : TaskRunner :=
  match s.getTask taskId with
  | none => s
  | some (task, t) =>
    match t.state.status with
    | .waitingForSettings => ((s.markCancelled task).finishTask sendThrows task taskId draws).1
    | .running => (s.markCancelled task).setStatus task .abortingCancelled
    | .abortingTimeout | .abortingCancelled => s

def taskTimedOut (taskId : String) (draws : Draws) : TaskRunner :=
  match s.getTask taskId with
  | none => s
  | some (task, t) =>
    match t.state.status with
    | .waitingForSettings =>
      let error := TaskError.timeoutError s.taskTimeout
      let s := (s.send sendThrows (.taskError taskId error) task).1
      (s.finishTask sendThrows task taskId draws).1
    | .running => s.setStatus task .abortingTimeout
    | .abortingTimeout | .abortingCancelled => s

def receivedSettings (taskId : String) : TaskRunner :=
  match s.getTask taskId with
  | none => s
  | some (task, t) =>
    match t.state.status with
    | .waitingForSettings => (s.setStatus task .running).setExecution task .underWay
    | .running | .abortingTimeout | .abortingCancelled => s

/-- `onMessage`, once the connection is open. -/
def onMessage (draws : Draws) : BrokerMessage → TaskRunner
  | .infoRequest => (s.send sendThrows (.info s.name [s.taskType])).1
  | .runnerRegistered => s.startTaskOffers
  | .taskOfferAccept offerId taskId => s.offerAccepted sendThrows offerId taskId
  | .taskCancel taskId _ => s.taskCancelled sendThrows taskId draws
  | .taskSettings taskId _ => s.receivedSettings taskId

/-! ## Executions -/

/-- What `taskExecutionSucceeded` and `taskExecutionFailed` do up to their `await`. -/
def sendAnswer (task : ℕ) (status : TaskStatus) (message : RunnerMessage) : TaskRunner × Bool :=
  match status with
  | .waitingForSettings => (s, true)
  | .abortingCancelled => (s, false)
  | .abortingTimeout | .running => s.send sendThrows message task

def taskExecutionSucceeded (task : ℕ) (t : TaskState) (data : Payload) : TaskRunner :=
  let (s, threw) := s.sendAnswer sendThrows task t.status (.taskDone t.taskId data)
  s.setExecution task (.succeeded threw)

def taskExecutionFailed (task : ℕ) (t : TaskState) (error : TaskError) : TaskRunner :=
  (s.sendAnswer sendThrows task t.status (.taskError t.taskId error)).1.setExecution task .failed

/-- `executeTask` settles. -/
def settle (task : ℕ) (result : Except Payload Payload) : TaskRunner :=
  match s.tasks[task]? with
  | some { state := t, execution := .underWay, .. } =>
    match result with
    | .ok data => s.taskExecutionSucceeded sendThrows task t data
    | .error error => s.taskExecutionFailed sendThrows task t (.thrown error)
  | _ => s

/-- The next continuation of a settled execution. -/
def resume (task : ℕ) (draws : Draws) : TaskRunner :=
  match s.tasks[task]? with
  | some { state := t, execution := .succeeded threw, .. } =>
    let (s, finishThrew) := s.finishTask sendThrows task t.taskId draws
    s.setExecution task (if threw ∨ finishThrew then .caught else .settled)
  | some { state := t, execution := .caught, .. } =>
    s.taskExecutionFailed sendThrows task t .rethrown
  | some { state := t, execution := .failed, .. } =>
    (s.finishTask sendThrows task t.taskId draws).1.setExecution task .settled
  | _ => s

/-! ## Events -/

inductive Event
  /-- The connection gets into another state. -/
  | connection (readyState : ReadyState)
  | receive (message : BrokerMessage) (draws : Draws)
  /-- The interval of the offers fires. -/
  | offerInterval (draws : Draws)
  /-- The timer of a task fires. -/
  | timeout (task : ℕ) (draws : Draws)
  | stop
  | settle (task : ℕ) (result : Except Payload Payload)
  | resume (task : ℕ) (draws : Draws)

/-- No continuation is to run. -/
def Idle : Prop := ∀ t ∈ s.tasks, t.execution.atAwait = false

instance : Decidable s.Idle := inferInstanceAs (Decidable (∀ t ∈ s.tasks, _))

def connection (readyState : ReadyState) : TaskRunner :=
  if s.readyState.order < readyState.order then
    let s := { s with readyState }
    if readyState = .closed then s.stopTaskOffers else s
  else s

def timeout (task : ℕ) (draws : Draws) : TaskRunner :=
  match s.tasks[task]? with
  | some { state := { taskId, timeoutTimer := true, .. }, .. } =>
    (s.cleanup task).taskTimedOut sendThrows taskId draws
  | _ => s

def step : Event → TaskRunner
  | .connection readyState => if s.Idle then s.connection readyState else s
  | .receive message draws =>
    if s.Idle ∧ s.readyState ≠ .connecting then s.onMessage sendThrows draws message else s
  | .offerInterval draws =>
    if s.Idle ∧ s.canSendOffers then (s.sendOffers sendThrows draws).1 else s
  | .timeout task draws => if s.Idle then s.timeout sendThrows task draws else s
  | .stop => if s.Idle then s.stopTaskOffers else s
  | .settle task result => s.settle sendThrows task result
  | .resume task draws => s.resume sendThrows task draws

/-! ## What a runner keeps to -/

/-- The answers sent for a task. -/
def answers (task : ℕ) : List Sent :=
  s.sent.filter fun m => m.message.isAnswer ∧ m.task = some task

def WithinCapacity : Prop := s.openOffers.size + s.runningTasks.size ≤ s.maxConcurrency

structure Sound : Prop where
  capacity : s.WithinCapacity
  answered_once : ∀ task, (s.answers task).length ≤ 1
  cancelled : ∀ task t, s.tasks[task]? = some t → t.cancelled = true → s.answers task = []
  settled : ∀ task t, s.tasks[task]? = some t → t.execution = .settled →
    ∀ taskId, s.runningTasks.get? taskId ≠ some task

end TaskRunner

end N8n
