import N8n.Library.Dict
import N8n.Library.Runs

/-!
# The task runner for Python

A runner in an event loop: each of its coroutines runs from one `await` to the next, and anything
else may run in between. The messages of the broker are handled one at a time, the loops that send
offers run beside them, and so does the execution of each task, which waits for a process that a
thread starts and joins. The connection stays up, and the runner is not stopped.
-/

namespace N8n

namespace PythonTaskRunner

def OFFER_VALIDITY : ℕ := 5000

/-- in milliseconds, as all times are here -/
def OFFER_VALIDITY_LATENCY_BUFFER : ℕ := 100

def SIGTERM_EXIT_CODE : ℤ := -15

def SIGKILL_EXIT_CODE : ℤ := -9

structure TaskOffer where
  offerId : String
  validUntil : ℕ
  deriving DecidableEq, Repr

def TaskOffer.hasExpired (offer : TaskOffer) (now : ℕ) : Prop := offer.validUntil < now

instance (offer : TaskOffer) (now : ℕ) : Decidable (offer.hasExpired now) :=
  inferInstanceAs (Decidable (_ < _))

inductive TaskStatus
  | waitingForSettings | running | aborting
  deriving DecidableEq, Repr

/-- A process is named by the place of its execution in `executions`. -/
structure TaskState where
  taskId : String
  status : TaskStatus := .waitingForSettings
  process : Option ℕ := none
  deriving DecidableEq, Repr

/-- An item; those that user code returns are passed on unread. -/
inductive Item
  | returned (json : String)
  /-- `{"json": {"error": message}}` -/
  | error (message : String)
  deriving DecidableEq, Repr

/-- The arguments of each call of `print()`. -/
abbrev PrintArgs := List (List String)

/-! ## The executor -/

structure TaskErrorInfo where
  message : String
  description : String
  stderr : String
  deriving DecidableEq, Repr

inductive TaskError
  | cancelled
  | killed
  | missing (taskId : String)
  | subprocessFailed (exitCode : ℤ)
  | timeout (taskTimeout : ℕ)
  | resultRead
  | resultMissing
  | runtime (info : TaskErrorInfo)
  | syntaxError (message : String)
  | securityViolation (message description : String)
  /-- What else `validate` and `create_process` raise. -/
  | other (message : String)
  deriving DecidableEq, Repr

/-- `str(e)` -/
def TaskError.str : TaskError → String
  | cancelled => "Task was cancelled"
  | killed => "Process was forcefully killed (SIGKILL)"
  | missing taskId => s!"Failed to find task {taskId}. This is likely an internal error."
  | subprocessFailed exitCode => s!"Task subprocess exited with code {exitCode}"
  | timeout taskTimeout =>
    s!"Task execution timed out after {taskTimeout} " ++
      if taskTimeout = 1 then "second" else "seconds"
  | resultRead => "Failed to read result from child process"
  | resultMissing => "Process completed but returned no result. This is likely an internal error."
  | runtime info => info.message
  | syntaxError message => message
  | securityViolation message _ => message
  | other message => message

/-- The `description` of the error that is sent, which two kinds of errors go without. -/
def TaskError.description : TaskError → Option String
  | cancelled | syntaxError _ => none
  | runtime info => some (if info.description = "" then info.stderr else info.description)
  | securityViolation _ description => some description
  | _ => some ""

/-- What the pipe reader has when it is joined. -/
inductive Pipe
  | error
  | nothing
  | failed (error : TaskErrorInfo)
  | result (items : List Item) (printArgs : PrintArgs)
  deriving DecidableEq, Repr

/-- How a process ends. -/
inductive ProcessEnd
  | failsToStart
  | timesOut
  | exits (exitCode : ℤ) (pipe : Pipe)
  deriving DecidableEq, Repr

/-- The `try` of `execute_process`. -/
def processResult (taskTimeout : ℕ) : ProcessEnd → Except TaskError (List Item × PrintArgs)
  | .failsToStart => .error (.subprocessFailed (-1))
  | .timesOut => .error (.timeout taskTimeout)
  | .exits exitCode pipe =>
    if exitCode = SIGTERM_EXIT_CODE then .error .cancelled
    else if exitCode = SIGKILL_EXIT_CODE then .error .killed
    else if exitCode ≠ 0 then .error (.subprocessFailed exitCode)
    else
      match pipe with
      | .error => .error .resultRead
      | .nothing => .error .resultMissing
      | .failed error => .error (.runtime error)
      | .result items printArgs => .ok (items, printArgs)

/-- What `execute_process` returns or raises once the process has ended. -/
def executeProcess (taskTimeout : ℕ) (continueOnFail : Bool) (how : ProcessEnd) :
    Except TaskError (List Item × PrintArgs) :=
  match processResult taskTimeout how with
  | .ok result => .ok result
  | .error e => if continueOnFail then .ok ([.error e.str], []) else .error e

/-! ## Messages -/

inductive RunnerMessage
  | info (name : String) (types : List String)
  | taskOffer (offerId taskType : String) (validFor : ℕ)
  | taskAccepted (taskId : String)
  | taskRejected (taskId reason : String)
  | taskDone (taskId : String) (result : List Item)
  | taskError (taskId message : String) (description : Option String)
  | rpcCall (callId taskId name : String) (params : List String)
  deriving DecidableEq, Repr

/-- Of the settings, what the runner itself reads. -/
inductive BrokerMessage
  | infoRequest
  | runnerRegistered
  | taskOfferAccept (taskId offerId : String)
  | taskSettings (taskId : String) (continueOnFail : Bool)
  | taskCancel (taskId reason : String)
  | rpcResponse (callId taskId status : String)
  deriving DecidableEq, Repr

/-- A message that has been sent, or a cancel message that has been handled. -/
inductive Entry
  | sent (message : RunnerMessage)
  | cancelled (taskId : String)
  deriving DecidableEq, Repr

/-! ## Coroutines -/

/-- Where a `_send_offers_loop` is. -/
inductive Loop
  /-- It has not begun, or it sleeps. -/
  | sleeping
  /-- It waits for an offer to be sent, with so many left. -/
  | sending (left : ℕ)
  | ended
  deriving DecidableEq, Repr

/-- Where the handling of the messages is. -/
inductive Handler
  | idle
  /-- It waits for a message to be sent, and is done then. -/
  | responding
  /-- It waits for an offer to be sent, with so many left. -/
  | offering (left : ℕ)
  /-- `stop_process` is to run in a thread. -/
  | stopping (process : Option ℕ)
  /-- `stop_process` has terminated the process and joins it. -/
  | joining (process : ℕ)
  deriving DecidableEq, Repr

/-- Where an `_execute_task` is. -/
inductive Stage
  | created
  /-- `execute_process` has the process, which is not started. -/
  | threaded
  /-- The process is started, and it is joined. -/
  | alive (terminated : Bool)
  /-- `execute_process` has returned. -/
  | returned (result : Except TaskError (List Item × PrintArgs))
  /-- It waits for the printing of a call to be sent. -/
  | printing (result : List Item) (left : PrintArgs)
  /-- It waits for the result or the error to be sent. -/
  | answered
  | ended
  deriving DecidableEq

structure Execution where
  taskId : String
  continueOnFail : Bool
  stage : Stage := .created
  deriving DecidableEq

def Execution.isAlive (e : Execution) : Bool :=
  match e.stage with
  | .alive _ => true
  | _ => false

/-- What `_send_offers` draws up to its next `await`: the clock as each offer is looked at, and the
id, jitter and clock of the offer that is sent. -/
structure Draws where
  now : String → ℕ
  offerId : String
  jitter : ℕ
  sentAt : ℕ

def Draws.validForMs (draws : Draws) : ℕ := OFFER_VALIDITY + draws.jitter

def Draws.validUntil (draws : Draws) : ℕ :=
  draws.sentAt + draws.validForMs + OFFER_VALIDITY_LATENCY_BUFFER

end PythonTaskRunner

structure PythonTaskRunner where
  maxConcurrency : ℕ
  /-- in seconds -/
  taskTimeout : ℕ
  canSendOffers : Bool := false
  openOffers : Dict String PythonTaskRunner.TaskOffer := .empty
  runningTasks : Dict String PythonTaskRunner.TaskState := .empty
  loops : List PythonTaskRunner.Loop := []
  handler : PythonTaskRunner.Handler := .idle
  executions : List PythonTaskRunner.Execution := []
  /-- the last entry first -/
  log : List PythonTaskRunner.Entry := []

namespace PythonTaskRunner

variable (s : PythonTaskRunner)

def sendMessage (message : RunnerMessage) : PythonTaskRunner :=
  { s with log := .sent message :: s.log }

def setStage (i : ℕ) (stage : Stage) : PythonTaskRunner :=
  { s with executions := s.executions.modify i fun e => { e with stage } }

/-! ## Offers -/

/-- The `for` loop of `_send_offers`, up to its next `await`, with the rounds that are left there;
`none` once it has ended. -/
def sendNextOffer (draws : Draws) : ℕ → PythonTaskRunner × Option ℕ
  | 0 => (s, none)
  | left + 1 =>
    let offer := { offerId := draws.offerId, validUntil := draws.validUntil }
    let s := { s with openOffers := s.openOffers.set draws.offerId offer }
    (s.sendMessage (.taskOffer draws.offerId "python" draws.validForMs), some left)

def dropExpiredOffers (now : String → ℕ) : PythonTaskRunner :=
  { s with openOffers := s.openOffers.filter fun offer => ¬ offer.hasExpired (now offer.offerId) }

def sendOffers (draws : Draws) : PythonTaskRunner × Option ℕ :=
  if s.canSendOffers then
    let s := s.dropExpiredOffers draws.now
    s.sendNextOffer draws (s.maxConcurrency - (s.openOffers.size + s.runningTasks.size))
  else (s, none)

def setLoop (i : ℕ) (loop : Loop) : PythonTaskRunner :=
  { s with loops := s.loops.set i loop }

/-- `_send_offers_loop`, up to its next `await`. -/
def sendOffersLoop (i : ℕ) (draws : Draws) : PythonTaskRunner :=
  match s.loops[i]? with
  | some .sleeping =>
    if s.canSendOffers then
      let (s, left) := s.sendOffers draws
      s.setLoop i (left.elim .sleeping .sending)
    else s.setLoop i .ended
  | some (.sending left) =>
    let (s, left) := s.sendNextOffer draws left
    s.setLoop i (left.elim .sleeping .sending)
  | some .ended | none => s

/-! ## Messages -/

def handleRunnerRegistered : PythonTaskRunner :=
  { s with canSendOffers := true, loops := s.loops ++ [.sleeping] }

/-- The handler sends a message and waits for that. -/
def respond (message : RunnerMessage) : PythonTaskRunner :=
  { s.sendMessage message with handler := .responding }

def handleTaskOfferAccept (taskId offerId : String) (draws : Draws) : PythonTaskRunner :=
  match s.openOffers.get? offerId with
  | none =>
    s.respond (.taskRejected taskId "Offer expired - not accepted within validity window")
  | some offer =>
    if offer.hasExpired (draws.now offerId) then
      s.respond (.taskRejected taskId "Offer expired - not accepted within validity window")
    else if s.runningTasks.size ≥ s.maxConcurrency then
      s.respond (.taskRejected taskId "No open task slots - runner already at capacity")
    else
      let s :=
        { s with
          openOffers := s.openOffers.erase offerId
          runningTasks := s.runningTasks.set taskId { taskId } }
      s.respond (.taskAccepted taskId)

def setTask (taskId : String) (task : TaskState) : PythonTaskRunner :=
  { s with runningTasks := s.runningTasks.set taskId task }

/-- A task that is missing raises an error, which is logged. -/
def handleTaskSettings (taskId : String) (continueOnFail : Bool) : PythonTaskRunner :=
  match s.runningTasks.get? taskId with
  | none => s
  | some task =>
    if task.status = .waitingForSettings then
      let s := s.setTask taskId { task with status := .running }
      { s with executions := s.executions ++ [{ taskId, continueOnFail }] }
    else s

def handleTaskCancel (taskId : String) (draws : Draws) : PythonTaskRunner :=
  let s := { s with log := .cancelled taskId :: s.log }
  match s.runningTasks.get? taskId with
  | none => s
  | some task =>
    match task.status with
    | .waitingForSettings =>
      let s := { s with runningTasks := s.runningTasks.erase taskId }
      let (s, left) := s.sendOffers draws
      { s with handler := left.elim .idle .offering }
    | .running =>
      let s := s.setTask taskId { task with status := .aborting }
      { s with handler := .stopping task.process }
    | .aborting => s

/-- `_handle_message`, up to its next `await`. -/
def handleMessage (draws : Draws) : BrokerMessage → PythonTaskRunner
  | .infoRequest => s.respond (.info "Python Task Runner" ["python"])
  | .runnerRegistered => s.handleRunnerRegistered
  | .taskOfferAccept taskId offerId => s.handleTaskOfferAccept taskId offerId draws
  | .taskSettings taskId continueOnFail => s.handleTaskSettings taskId continueOnFail
  | .taskCancel taskId _ => s.handleTaskCancel taskId draws
  | .rpcResponse _ _ _ => s

def isAlive (process : ℕ) : Bool := (s.executions[process]?).any Execution.isAlive

/-- What the handler does after its `await`, or the thread of `stop_process` meanwhile. -/
def resumeHandler (draws : Draws) : PythonTaskRunner :=
  match s.handler with
  | .idle => s
  | .responding => { s with handler := .idle }
  | .offering left =>
    let (s, left) := s.sendNextOffer draws left
    { s with handler := left.elim .idle .offering }
  | .stopping none => { s with handler := .idle }
  | .stopping (some process) =>
    if s.isAlive process then
      { s.setStage process (.alive true) with handler := .joining process }
    else { s with handler := .idle }
  | .joining process => if s.isAlive process then s else { s with handler := .idle }

/-! ## Executions -/

/-- The execution sends the error and waits for that. -/
def sendError (i : ℕ) (taskId : String) (e : TaskError) : PythonTaskRunner :=
  (s.sendMessage (.taskError taskId e.str e.description)).setStage i .answered

/-- The execution sends what the next call has printed, or the result after the last one. -/
def sendResult (i : ℕ) (taskId callId : String) (result : List Item) :
    PrintArgs → PythonTaskRunner
  | params :: left =>
    (s.sendMessage (.rpcCall callId taskId "logNodeOutput" params)).setStage i
      (.printing result left)
  | [] => (s.sendMessage (.taskDone taskId result)).setStage i .answered

/-- `_execute_task` up to its first `await`; `failure` is what `validate` or `create_process` has
raised. -/
def executeTask (i : ℕ) (failure : Option TaskError) : PythonTaskRunner :=
  match s.executions[i]? with
  | some { taskId, stage := .created, .. } =>
    match s.runningTasks.get? taskId with
    | none => s.sendError i taskId (.missing taskId)
    | some task =>
      match failure with
      | some e => s.sendError i taskId e
      | none => (s.setTask taskId { task with process := some i }).setStage i .threaded
  | _ => s

/-- `process.start()` in the thread. -/
def startProcess (i : ℕ) : PythonTaskRunner :=
  match s.executions[i]? with
  | some { stage := .threaded, .. } => s.setStage i (.alive false)
  | _ => s

/-- The process ends, and `execute_process` returns. -/
def endProcess (i : ℕ) (how : ProcessEnd) : PythonTaskRunner :=
  match s.executions[i]? with
  | some { continueOnFail, stage := .threaded, .. } =>
    if how = .failsToStart then
      s.setStage i (.returned (executeProcess s.taskTimeout continueOnFail how))
    else s
  | some { continueOnFail, stage := .alive _, .. } =>
    if how = .failsToStart then s
    else s.setStage i (.returned (executeProcess s.taskTimeout continueOnFail how))
  | _ => s

/-- `_execute_task` after one of its later `await`s. -/
def resumeTask (i : ℕ) (callId : String) : PythonTaskRunner :=
  match s.executions[i]? with
  | some { taskId, stage := .returned (.error e), .. } => s.sendError i taskId e
  | some { taskId, stage := .returned (.ok (result, printArgs)), .. } =>
    s.sendResult i taskId callId result printArgs
  | some { taskId, stage := .printing result left, .. } =>
    s.sendResult i taskId callId result left
  | some { taskId, stage := .answered, .. } =>
    { s.setStage i .ended with runningTasks := s.runningTasks.erase taskId }
  | _ => s

/-! ## Events -/

inductive Event
  | receive (message : BrokerMessage) (draws : Draws)
  | resumeHandler (draws : Draws)
  | offersLoop (loop : ℕ) (draws : Draws)
  | executeTask (execution : ℕ) (failure : Option TaskError)
  | startProcess (execution : ℕ)
  | endProcess (execution : ℕ) (how : ProcessEnd)
  | resumeTask (execution : ℕ) (callId : String)

/-- A message is handled once the one before it is. -/
def step : Event → PythonTaskRunner
  | .receive message draws => if s.handler = .idle then s.handleMessage draws message else s
  | .resumeHandler draws => s.resumeHandler draws
  | .offersLoop loop draws => s.sendOffersLoop loop draws
  | .executeTask execution failure => s.executeTask execution failure
  | .startProcess execution => s.startProcess execution
  | .endProcess execution how => s.endProcess execution how
  | .resumeTask execution callId => s.resumeTask execution callId

end PythonTaskRunner

end N8n
