import Mathlib.Data.List.Sort
import Mathlib.Data.List.Basic
import N8n.ActiveExecutions

/-!
# Queue recovery

In queue mode an execution has a row in the database and a job in the queue. `recoverFromQueue`
reads the rows in progress, then the jobs, and then marks as crashed what has a row but no job. The
queries and the updates are steps of their own.
-/

namespace N8n

namespace ScalingService

structure ExecutionRow where
  status : ActiveExecutions.ExecutionStatus
  /-- What the rows are ordered by. -/
  startedAt : ℕ
  deriving DecidableEq, Repr

/-- How far a run of `recoverFromQueue` is. -/
inductive Recovery
  /-- `getInProgressExecutionIds` has returned. -/
  | stored (storedIds : List String)
  /-- at `markAsCrashed`, with these to come -/
  | marking (danglingIds : List String)
  | returned
  deriving DecidableEq, Repr

end ScalingService

structure ScalingService where
  rows : Dict String ScalingService.ExecutionRow := .empty
  /-- The executions whose row is created and whose job is still to be added. -/
  enqueueing : List String := []
  /-- The executions of the jobs that are active or waiting. -/
  queue : List String := []
  /-- The runs of `recoverFromQueue`, by their number. -/
  recoveries : List ScalingService.Recovery := []

namespace ScalingService

variable (s : ScalingService)

def setStatus (executionId : String) (status : ActiveExecutions.ExecutionStatus) :
    Dict String ExecutionRow :=
  s.rows.mapEntries fun id row => if id = executionId then { row with status } else row

/-! ## Enqueueing and completion -/

/-- `createNewExecution` -/
def createNewExecution (executionId : String) (startedAt : ℕ) : ScalingService :=
  if s.rows.get? executionId = none then
    { s with
      rows := s.rows.set executionId { status := .new, startedAt }
      enqueueing := s.enqueueing ++ [executionId] }
  else s

def addJob (executionId : String) : ScalingService :=
  if executionId ∈ s.enqueueing then
    { s with
      enqueueing := s.enqueueing.erase executionId
      queue := s.queue ++ [executionId] }
  else s

/-- `addJob` throws, and `processError` saves the execution. -/
def failToAddJob (executionId : String) : ScalingService :=
  if executionId ∈ s.enqueueing then
    { s with
      enqueueing := s.enqueueing.erase executionId
      rows := s.setStatus executionId .error }
  else s

/-- A worker has taken the job. -/
def setRunning (executionId : String) (startedAt : ℕ) : ScalingService :=
  if executionId ∈ s.queue then
    { s with rows := s.rows.mapEntries fun id row =>
        if id = executionId ∧ row.status = .new then { status := .running, startedAt } else row }
  else s

end ScalingService

/-- A status an execution is left with when its job is done. -/
def ActiveExecutions.ExecutionStatus.isFinal : ActiveExecutions.ExecutionStatus → Bool
  | .success | .error | .canceled => true
  | _ => false

namespace ScalingService

variable (s : ScalingService)

/-- The row is moved to its final status while the job is still active. -/
def complete (executionId : String) (status : ActiveExecutions.ExecutionStatus) :
    ScalingService :=
  if executionId ∈ s.queue ∧ status.isFinal then
    { s with rows := s.setStatus executionId status }
  else s

def isCompleted (executionId : String) : Bool :=
  (s.rows.get? executionId).any (·.status.isFinal)

/-- `removeOnComplete` -/
def removeJob (executionId : String) : ScalingService :=
  if s.isCompleted executionId then { s with queue := s.queue.erase executionId } else s

/-- The queue loses the job, as it does when the data of Redis is lost. -/
def loseJob (executionId : String) : ScalingService :=
  { s with queue := s.queue.erase executionId }

/-! ## Recovery -/

/-- The latest rows in progress. -/
def getInProgressExecutionIds (batchSize : ℕ) : List String :=
  let inProgress := s.rows.entries.filter fun e => e.2.status = .new ∨ e.2.status = .running
  ((inProgress.insertionSort fun a b => b.2.startedAt ≤ a.2.startedAt).take batchSize).map (·.1)

def startRecovery (batchSize : ℕ) : ScalingService :=
  let storedIds := s.getInProgressExecutionIds batchSize
  { s with recoveries := s.recoveries ++ [if storedIds = [] then .returned else .stored storedIds] }

def danglingIds (storedIds : List String) : List String := storedIds.filter (· ∉ s.queue)

def findJobs (recovery : ℕ) : ScalingService :=
  match s.recoveries[recovery]? with
  | some (.stored storedIds) =>
    let danglingIds := s.danglingIds storedIds
    let next : Recovery := if danglingIds = [] then .returned else .marking danglingIds
    { s with recoveries := s.recoveries.set recovery next }
  | _ => s

/-- `MAX_UPDATE_BATCH_SIZE` -/
def maxUpdateBatchSize : ℕ := 900

/-- One update of the loop of `markAsCrashed`, by id. -/
def markAsCrashed (recovery : ℕ) : ScalingService :=
  match s.recoveries[recovery]? with
  | some (.marking danglingIds) =>
    let batch := danglingIds.take maxUpdateBatchSize
    let rest := danglingIds.drop maxUpdateBatchSize
    { s with
      rows := s.rows.mapEntries fun id row =>
        if id ∈ batch then { row with status := .crashed } else row
      recoveries := s.recoveries.set recovery (if rest = [] then .returned else .marking rest) }
  | _ => s

/-! ## Runs -/

inductive Event
  | createNewExecution (executionId : String) (startedAt : ℕ)
  | addJob (executionId : String)
  | failToAddJob (executionId : String)
  | setRunning (executionId : String) (startedAt : ℕ)
  | complete (executionId : String) (status : ActiveExecutions.ExecutionStatus)
  | removeJob (executionId : String)
  | loseJob (executionId : String)
  | startRecovery (batchSize : ℕ)
  | findJobs (recovery : ℕ)
  | markAsCrashed (recovery : ℕ)

def step : Event → ScalingService
  | .createNewExecution executionId startedAt => s.createNewExecution executionId startedAt
  | .addJob executionId => s.addJob executionId
  | .failToAddJob executionId => s.failToAddJob executionId
  | .setRunning executionId startedAt => s.setRunning executionId startedAt
  | .complete executionId status => s.complete executionId status
  | .removeJob executionId => s.removeJob executionId
  | .loseJob executionId => s.loseJob executionId
  | .startRecovery batchSize => s.startRecovery batchSize
  | .findJobs recovery => s.findJobs recovery
  | .markAsCrashed recovery => s.markAsCrashed recovery

/-- The job is still to be added or in the queue, or the execution is completed. -/
def Live (executionId : String) : Prop :=
  executionId ∈ s.enqueueing ∨ executionId ∈ s.queue ∨ s.isCompleted executionId = true

/-- No execution that is live is given the status `crashed`. -/
def CrashesOnlyLost : Event → Prop
  | .markAsCrashed recovery => ∀ danglingIds,
      s.recoveries[recovery]? = some (.marking danglingIds) →
      ∀ id ∈ danglingIds.take maxUpdateBatchSize, ¬ s.Live id
  | _ => True

/-- When the jobs are read, no execution whose row was in progress is between its row and its job,
or has been completed since. -/
def ReadsOnlyLost : Event → Prop
  | .findJobs recovery => ∀ storedIds, s.recoveries[recovery]? = some (.stored storedIds) →
      ∀ id ∈ storedIds, id ∉ s.queue → id ∉ s.enqueueing ∧ s.isCompleted id = false
  | _ => True

end ScalingService

end N8n

/-!
# The timer of queue recovery

The leader runs `recoverFromQueue` from a timer, and the callback of the timer schedules the next
run when it is done with this one. A leader that steps down clears the timer whose handle is stored.
-/

namespace N8n

namespace QueueRecoveryTimer

/-- A pending timer. -/
structure Timer where
  handle : ℕ
  waitMs : ℕ
  deriving DecidableEq, Repr

end QueueRecoveryTimer

structure QueueRecoveryTimer where
  /-- The time between two runs, in `queueRecoveryContext`. -/
  waitMs : ℕ
  /-- The handle in `queueRecoveryContext`, kept after its timer has fired or is cleared. -/
  timeout : Option ℕ := none
  timers : List QueueRecoveryTimer.Timer := []
  nextHandle : ℕ := 0
  /-- The callbacks that wait for `recoverFromQueue`. -/
  callbacks : ℕ := 0
  isLeader : Bool := false
  deriving DecidableEq

namespace QueueRecoveryTimer

variable (s : QueueRecoveryTimer)

def scheduleQueueRecovery (waitMs : ℕ) : QueueRecoveryTimer :=
  { s with
    timeout := some s.nextHandle
    timers := s.timers ++ [{ handle := s.nextHandle, waitMs }]
    nextHandle := s.nextHandle + 1 }

/-- What `setupQueue` leaves. -/
def setupQueue (waitMs : ℕ) (isLeader : Bool) : QueueRecoveryTimer :=
  let s : QueueRecoveryTimer := { waitMs, isLeader }
  if isLeader then s.scheduleQueueRecovery 0 else s

/-! ## Leadership -/

def takeover : QueueRecoveryTimer :=
  { s with isLeader := true }.scheduleQueueRecovery s.waitMs

/-- `clearTimeout` -/
def clearTimeout (handle : ℕ) : QueueRecoveryTimer :=
  { s with timers := s.timers.eraseP (·.handle = handle) }

def stopQueueRecovery : QueueRecoveryTimer :=
  match s.timeout with
  | none => s
  | some timeout => s.clearTimeout timeout

def stepdown : QueueRecoveryTimer := { s with isLeader := false }.stopQueueRecovery

/-! ## The callback -/

/-- A timer fires, once, and its callback calls `recoverFromQueue`. -/
def fire (handle : ℕ) : QueueRecoveryTimer :=
  if s.timers.any (·.handle = handle) then
    { s.clearTimeout handle with callbacks := s.callbacks + 1 }
  else s

/-- The time until the next run, shorter where the last has used up its batch. -/
def nextWaitMs (batchUsedUp : Bool) : ℕ := if batchUsedUp then s.waitMs / 2 else s.waitMs

/-- `recoverFromQueue` has returned in a callback, or has thrown (`none`). -/
def recovered (batchUsedUp : Option Bool) : QueueRecoveryTimer :=
  if s.callbacks = 0 then s
  else { s with callbacks := s.callbacks - 1 }.scheduleQueueRecovery
    (batchUsedUp.elim s.waitMs s.nextWaitMs)

inductive Event
  | takeover
  | stepdown
  | fire (handle : ℕ)
  | recovered (batchUsedUp : Option Bool)

def step : Event → QueueRecoveryTimer
  | .takeover => s.takeover
  | .stepdown => s.stepdown
  | .fire handle => s.fire handle
  | .recovered batchUsedUp => s.recovered batchUsedUp

/-- Between two callbacks at most one timer is pending, and none while the instance does not
lead. -/
def OneChain : Prop :=
  s.callbacks = 0 → s.timers.length ≤ 1 ∧ (s.isLeader = false → s.timers = [])

/-- The instance takes over while no recovery is scheduled or running, and steps down while none is
running. -/
def KeepsChain : Event → Prop
  | .takeover => s.timers = [] ∧ s.callbacks = 0
  | .stepdown => s.callbacks = 0
  | _ => True

end QueueRecoveryTimer

end N8n
