import N8n.TaskBroker

/-!
# Runs of the task broker

Messages, timers and resumed handlers as events, and what the broker promises about its requests
and its tasks.
-/

namespace N8n

namespace TaskBroker

/-- `RunnerMessage.ToBroker`. -/
inductive RunnerMessage
  | taskAccepted (taskId : TaskId)
  | taskRejected (taskId : TaskId) (reason : String)
  | taskDeferred (taskId : TaskId)
  | taskOffer (taskType offerId : String) (validFor : ℤ)
  | taskDone (taskId : TaskId) (data : Payload)
  | taskError (taskId : TaskId) (error : Payload)
  | taskDataRequest (taskId : TaskId) (requestId : String) (requestParams : Payload)
  | nodeTypesRequest (taskId : TaskId) (requestId : String) (requestParams : Payload)
  | rpc (taskId : TaskId) (callId : String) (name params : Payload)
  | info
  deriving DecidableEq, Repr

/-- `RequesterMessage.ToBroker`. -/
inductive RequesterMessage
  | taskSettings (taskId : TaskId) (settings : Payload)
  | taskCancel (taskId : TaskId) (reason : String)
  | taskRequest (taskType requestId : String)
  | taskDataResponse (taskId : TaskId) (requestId : String) (data : Payload)
  | nodeTypesResponse (taskId : TaskId) (requestId : String) (nodeTypes : Payload)
  | rpcResponse (taskId : TaskId) (callId : String) (status data : Payload)
  deriving DecidableEq, Repr

/-! ## Messages passed on -/

/-- The common body of `handleDataRequest`, `handleNodeTypesRequest` and `handleRpcRequest`. -/
def passToRequester (s : TaskBroker) (taskId : TaskId) (message : ToRequester) : TaskBroker :=
  match s.task? taskId with
  | none => s
  | some task => s.messageRequester task.requesterId message

def handleDataRequest (s : TaskBroker) (taskId : TaskId) (requestId : String)
    (requestParams : Payload) : TaskBroker :=
  s.passToRequester taskId (.taskDataRequest taskId requestId requestParams)

def handleNodeTypesRequest (s : TaskBroker) (taskId : TaskId) (requestId : String)
    (requestParams : Payload) : TaskBroker :=
  s.passToRequester taskId (.nodeTypesRequest taskId requestId requestParams)

def handleRpcRequest (s : TaskBroker) (taskId : TaskId) (callId : String) (name params : Payload) :
    TaskBroker :=
  s.passToRequester taskId (.rpc taskId callId name params)

/-- The common body of the three handlers of a requester's response. Nothing in the broker depends
on when the message goes out after the await of the runner. -/
def passToRunner (s : TaskBroker) (taskId : TaskId) (message : ToRunner) : TaskBroker :=
  match s.getRunnerOrFailTask taskId with
  | (s, none) => s
  | (s, some runner) => s.messageRunner runner.id message

def handleRequesterDataResponse (s : TaskBroker) (taskId : TaskId) (requestId : String)
    (data : Payload) : TaskBroker :=
  s.passToRunner taskId (.taskDataResponse taskId requestId data)

def handleRequesterNodeTypesResponse (s : TaskBroker) (taskId : TaskId) (requestId : String)
    (nodeTypes : Payload) : TaskBroker :=
  s.passToRunner taskId (.nodeTypes taskId requestId nodeTypes)

def handleRequesterRpcResponse (s : TaskBroker) (taskId : TaskId) (callId : String)
    (status data : Payload) : TaskBroker :=
  s.passToRunner taskId (.rpcResponse taskId callId status data)

def onRunnerMessage (s : TaskBroker) (runnerId : String) (message : RunnerMessage) (now : ℤ)
    (reply : Callback) : TaskBroker :=
  if !s.knows runnerId then s
  else
    match message with
    | .taskAccepted taskId => s.handleRunnerAccept taskId
    | .taskRejected taskId reason => s.handleRunnerReject taskId reason
    | .taskDeferred taskId => s.handleRunnerDeferred taskId
    | .taskOffer taskType offerId validFor =>
      let validUntil := if validFor = -1 then 0 else now + validFor * 1000000
      s.taskOffered { runnerId, taskType, offerId, validFor, validUntil } now
    | .taskDone taskId data => s.taskDoneHandler taskId data reply
    | .taskError taskId error => s.taskErrorHandler taskId (.fromRunner error) reply
    | .taskDataRequest taskId requestId params => s.handleDataRequest taskId requestId params
    | .nodeTypesRequest taskId requestId params => s.handleNodeTypesRequest taskId requestId params
    | .rpc taskId callId name params => s.handleRpcRequest taskId callId name params
    | .info => s

def onRequesterMessage (s : TaskBroker) (requesterId : String) (message : RequesterMessage)
    (now : ℤ) : TaskBroker :=
  match message with
  | .taskSettings taskId settings => s.handleRequesterAccept taskId settings
  | .taskCancel taskId reason => s.cancelTask taskId reason
  | .taskRequest taskType requestId =>
    let timer := s.newTimer (.request requestId)
    (s.setTimeout timer.target).taskRequested
      { taskType, requestId, requesterId, timeout := some timer } now
  | .taskDataResponse taskId requestId data => s.handleRequesterDataResponse taskId requestId data
  | .nodeTypesResponse taskId requestId nodeTypes =>
    s.handleRequesterNodeTypesResponse taskId requestId nodeTypes
  | .rpcResponse taskId callId status data => s.handleRequesterRpcResponse taskId callId status data

/-! ## Events -/

/-- `reply` says what the requester's callback does when the event ends a task, `runnerReply` what
the runner's does when a task times out, and `ok` whether a suspended callback returns. -/
inductive Event
  | registerRunner (runner : TaskRunner)
  | deregisterRunner (runnerId : String) (error : Payload)
  | registerRequester (requesterId : String)
  | deregisterRequester (requesterId : String)
  | runnerMessage (runnerId : String) (message : RunnerMessage) (now : ℤ) (reply : Callback)
  | requesterMessage (requesterId : String) (message : RequesterMessage) (now : ℤ)
  | fire (timer : Timer) (runnerReply reply : Callback)
  | resume (taskId : TaskId) (ok : Bool)
  | endingSettled (index : ℕ) (ok : Bool)
  | timingOutSettled (index : ℕ) (ok : Bool) (reply : Callback)
  deriving DecidableEq, Repr

def acceptance? (s : TaskBroker) (taskId : TaskId) : Option Acceptance :=
  s.acceptances.find? (·.taskId == taskId)

def step (s : TaskBroker) : Event → TaskBroker
  | .registerRunner runner => s.registerRunner runner
  | .deregisterRunner runnerId error => s.deregisterRunner runnerId error
  | .registerRequester requesterId => s.registerRequester requesterId
  | .deregisterRequester requesterId => s.deregisterRequester requesterId
  | .runnerMessage runnerId message now reply => s.onRunnerMessage runnerId message now reply
  | .requesterMessage requesterId message now => s.onRequesterMessage requesterId message now
  | .fire timer runnerReply reply =>
    if timer ∈ s.timers then s.fireTimer timer runnerReply reply else s
  | .resume taskId ok =>
    match s.acceptance? taskId with
    | none => s
    | some a => s.resume a ok
  | .endingSettled index ok =>
    match s.endings[index]? with
    | none => s
    | some ending =>
      let s := { s with endings := s.endings.eraseIdx index }
      if ok then s.deleteTask ending.taskId else s
  | .timingOutSettled index ok reply =>
    match s.timingOut[index]? with
    | none => s
    | some taskId =>
      let s := { s with timingOut := s.timingOut.eraseIdx index }
      if ok then s.taskErrorHandler taskId .executionTimeout reply else s

/-- A broker as its constructor leaves it. -/
def start (mode : RunnerMode) : TaskBroker := { mode }

/-- The id of the request an event makes. -/
def Event.requestId? : Event → Option String
  | .requesterMessage _ (.taskRequest _ requestId) _ => some requestId
  | _ => none

/-- A requester numbers its requests with ids that were not used before. -/
def Admissible (s : TaskBroker) (e : Event) : Prop :=
  ∀ requestId ∈ e.requestId?, ∀ request ∈ s.requests, request.requestId ≠ requestId

instance (s : TaskBroker) (e : Event) : Decidable (s.Admissible e) :=
  inferInstanceAs (Decidable (∀ requestId ∈ e.requestId?, _))

/-- The `acceptOffer` call an event resumes. -/
def resumed? (s : TaskBroker) : Event → Option Acceptance
  | .resume taskId _ => s.acceptance? taskId
  | _ => none

/-! ## Requests -/

/-- The message answers the request: it has expired, or its task is ready. -/
def Sent.answersTo (requestId : String) : Sent → Bool
  | .toRequester _ (.requestExpired id _) | .toRequester _ (.taskReady id _) => id == requestId
  | _ => false

def answers (s : TaskBroker) (requestId : String) : ℕ := s.sent.countP (Sent.answersTo requestId)

/-- No request is answered twice, and an answered one is not pending. -/
def SettledOnce (s : TaskBroker) : Prop :=
  ∀ requestId, s.answers requestId ≤ 1 ∧
    (0 < s.answers requestId →
      ∀ ref ∈ s.pendingTaskRequests, (s.request ref).requestId ≠ requestId)

/-- The event resumes no `acceptOffer` call that its runner has deferred. -/
def TakesNoDeferral (s : TaskBroker) (e : Event) : Prop :=
  ∀ a ∈ s.resumed? e, a.stage ≠ .awaitingRunner (some .deferred)

instance (s : TaskBroker) (e : Event) : Decidable (s.TakesNoDeferral e) :=
  inferInstanceAs (Decidable (∀ a ∈ s.resumed? e, _))

/-! ## The ends of a task -/

/-- The message tells a requester that the task has ended. -/
def Sent.ends (taskId : TaskId) : Sent → Bool
  | .toRequester _ (.taskDone id _) | .toRequester _ (.taskError id _) => id == taskId
  | _ => false

def endMessages (s : TaskBroker) (taskId : TaskId) : ℕ := s.sent.countP (Sent.ends taskId)

def EndsOnce (s : TaskBroker) : Prop := ∀ taskId, s.endMessages taskId ≤ 1

/-- The task, if it is there and its runner is not. -/
def lostRunner (s : TaskBroker) (taskId : TaskId) : List TaskId :=
  ((s.task? taskId).filter fun task => !s.knows task.runnerId).toList.map (·.id)

/-- The tasks an event ends: by the runner's word, its execution timeout, the loss of its runner,
or because a message for the runner finds none. -/
def ended (s : TaskBroker) : Event → List TaskId
  | .runnerMessage runnerId (.taskDone taskId _) _ _
  | .runnerMessage runnerId (.taskError taskId _) _ _ => if s.knows runnerId then [taskId] else []
  | .fire timer runnerReply _ =>
    match timer.target with
    | .task taskId => if s.mode = .internal ∨ runnerReply = .returned then [taskId] else []
    | _ => []
  | .timingOutSettled index ok _ => if ok then s.timingOut[index]?.toList else []
  | .deregisterRunner runnerId _ => (s.tasks.filter (·.runnerId = runnerId)).map (·.id)
  | .requesterMessage _ (.taskDataResponse taskId _ _) _
  | .requesterMessage _ (.nodeTypesResponse taskId _ _) _
  | .requesterMessage _ (.rpcResponse taskId _ _ _) _ => s.lostRunner taskId
  | .resume taskId _ =>
    match s.acceptance? taskId with
    | some { stage := .awaitingSettings (some (.settings _)), .. } => s.lostRunner taskId
    | _ => []
  | _ => []

/-- The task is in the map and its requester is registered. -/
def CanTell (s : TaskBroker) (taskId : TaskId) : Prop :=
  ∃ task ∈ s.tasks, task.id = taskId ∧ task.requesterId ∈ s.requesters

instance (s : TaskBroker) (taskId : TaskId) : Decidable (s.CanTell taskId) :=
  inferInstanceAs (Decidable (∃ task ∈ s.tasks, _))

/-- What the requester's callback does for a task the event ends. -/
def Event.reply : Event → Callback
  | .runnerMessage _ (.taskDone _ _) _ reply | .runnerMessage _ (.taskError _ _) _ reply
  | .fire _ _ reply | .timingOutSettled _ _ reply => reply
  | .endingSettled _ ok => if ok then .returned else .threw
  | _ => .returned

/-- The event ends no task that is already being ended, its requester told and still in its
callback; and no callback of a requester that is told throws. -/
def EndsAlone (s : TaskBroker) (e : Event) : Prop :=
  (∀ taskId ∈ s.ended e, s.CanTell taskId →
    { taskId, delivered := true } ∉ s.endings) ∧ e.reply ≠ .threw

instance (s : TaskBroker) (e : Event) : Decidable (s.EndsAlone e) :=
  inferInstanceAs (Decidable ((∀ taskId ∈ s.ended e, _) ∧ _))

/-! ## Tasks -/

/-- The requester has not sent the settings yet. -/
def Stage.awaitsSettings : Stage → Bool
  | .messagingRequester none | .awaitingSettings none => true
  | _ => false

/-- The task waits for its requester's settings, and the requester's two seconds are running. -/
def AwaitsSettings (s : TaskBroker) (taskId : TaskId) : Prop :=
  (∃ a ∈ s.acceptances, a.taskId = taskId ∧ a.stage.awaitsSettings) ∧
    ∃ timer ∈ s.timers, timer.target = .requesterSettings taskId

/-- The task's settings are on their way to its runner. -/
def Stage.sendsSettings : Stage → Bool
  | .messagingRequester (some (.settings _)) | .awaitingSettings (some (.settings _))
  | .foundRunner _ _ | .sendingSettings => true
  | _ => false

def SendsSettings (s : TaskBroker) (taskId : TaskId) : Prop :=
  ∃ a ∈ s.acceptances, a.taskId = taskId ∧ a.stage.sendsSettings

/-- The task's execution timeout is armed. -/
def Armed (s : TaskBroker) (task : Task) : Prop :=
  ∃ timer ∈ s.timers, task.timeout = some timer

/-- No task is stranded. -/
def NoneStranded (s : TaskBroker) : Prop :=
  ∀ task ∈ s.tasks, s.AwaitsSettings task.id ∨ s.SendsSettings task.id ∨ s.Armed task

/-- An acceptance is taken up for a request that is no longer pending. -/
def TakesExpired (s : TaskBroker) (e : Event) : Prop :=
  ∃ a ∈ s.resumed? e, a.stage = .awaitingRunner (some .accepted) ∧
    ∀ ref ∈ s.pendingTaskRequests, (s.request ref).requestId ≠ (s.request a.request).requestId

/-- The task whose requester's two seconds an event ends. -/
def Event.settingsTimer? : Event → Option TaskId
  | .fire ⟨_, .requesterSettings taskId⟩ _ _ => some taskId
  | _ => none

/-- The requester's two seconds end while it is still in its callback for `broker:taskready`. -/
def TimesOutInCallback (s : TaskBroker) (e : Event) : Prop :=
  ∃ taskId ∈ e.settingsTimer?, ∃ a ∈ s.acceptance? taskId, a.stage = .messagingRequester none

/-- The task whose end an event handles: the runner's word on it, or its execution timeout. -/
def ending? (s : TaskBroker) : Event → Option TaskId
  | .runnerMessage runnerId (.taskDone taskId _) _ _
  | .runnerMessage runnerId (.taskError taskId _) _ _ =>
    if s.knows runnerId then some taskId else none
  | .fire ⟨_, .task taskId⟩ _ _ => some taskId
  | _ => none

/-- What the runner's callback does for a task that times out. -/
def Event.runnerReply : Event → Callback
  | .fire _ runnerReply _ => runnerReply
  | _ => .returned

/-- A callback made to end a task does not return. -/
def LeavesEnding (s : TaskBroker) (e : Event) : Prop :=
  ∃ taskId ∈ s.ending? e, (s.task? taskId).isSome ∧
    (e.reply ≠ .returned ∨ s.mode = .external ∧ e.runnerReply ≠ .returned)

/-- The event can leave a task in the map that nothing will take out of it. -/
def Strands (s : TaskBroker) (e : Event) : Prop :=
  s.TakesExpired e ∨ s.TimesOutInCallback e ∨ s.LeavesEnding e

instance (s : TaskBroker) (e : Event) : Decidable (s.Strands e) :=
  inferInstanceAs (Decidable ((∃ a ∈ s.resumed? e, _) ∨
    (∃ taskId ∈ e.settingsTimer?, ∃ a ∈ s.acceptance? taskId, _) ∨ ∃ taskId ∈ s.ending? e, _))

/-! ## The parties of a task -/

/-- The task that the message is about. -/
def ToRunner.taskId? : ToRunner → Option TaskId
  | .runnerRegistered => none
  | .taskOfferAccept _ taskId | .taskCancel taskId _ | .taskSettings taskId _
  | .taskDataResponse taskId _ _ | .nodeTypes taskId _ _ | .rpcResponse taskId _ _ _ => some taskId

def ToRequester.taskId? : ToRequester → Option TaskId
  | .requestExpired _ _ => none
  | .taskReady _ taskId | .taskDone taskId _ | .taskError taskId _ | .taskDataRequest taskId _ _
  | .nodeTypesRequest taskId _ _ | .rpc taskId _ _ _ => some taskId

def Sent.isSettings (taskId : TaskId) : Sent → Bool
  | .toRunner _ (.taskSettings id _) => id == taskId
  | _ => false

def settingsSent (s : TaskBroker) (taskId : TaskId) : ℕ := s.sent.countP (Sent.isSettings taskId)

/-- All that is sent about a task goes to one runner, which was told that its offer is accepted, and
to one requester, and its settings are sent no more than once. -/
structure Isolated (s : TaskBroker) : Prop where
  oneRunner : ∀ runnerId message runnerId' message', .toRunner runnerId message ∈ s.sent →
    .toRunner runnerId' message' ∈ s.sent → message.taskId?.isSome →
    message.taskId? = message'.taskId? → runnerId = runnerId'
  oneRequester : ∀ requesterId message requesterId' message',
    .toRequester requesterId message ∈ s.sent → .toRequester requesterId' message' ∈ s.sent →
    message.taskId?.isSome → message.taskId? = message'.taskId? → requesterId = requesterId'
  offered : ∀ runnerId message taskId, .toRunner runnerId message ∈ s.sent →
    message.taskId? = some taskId →
    ∃ offerId, .toRunner runnerId (.taskOfferAccept offerId taskId) ∈ s.sent
  settingsOnce : ∀ taskId, s.settingsSent taskId ≤ 1

end TaskBroker

end N8n
