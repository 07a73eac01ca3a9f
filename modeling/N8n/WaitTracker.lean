import N8n.ActiveExecutions
import Mathlib.Data.List.Sort

/-!
# Waiting executions

The leader polls the database for executions whose wait ends soon, sets a timer for each, and
resumes an execution when its timer fires. A poll is suspended at its query, and a resume at the
database, at the project of the workflow and at the throttle of `ActiveExecutions.add`.
-/

namespace N8n

namespace WaitTracker

/-- The row of an execution. -/
structure Row where
  status : ActiveExecutions.ExecutionStatus
  waitTill : Option ℕ := none
  finished : Bool := false
  /-- `workflowData.id` -/
  workflowId : Option String
  /-- How often the execution has been put to waiting. -/
  wait : ℕ := 0
  deriving DecidableEq, Repr

inductive Poll
  | querying
  /-- The query has returned these executions. -/
  | queried (executionIds : List String)
  | done
  deriving DecidableEq, Repr

/-- How far a call of `startExecution` is. -/
inductive ResumeStage
  /-- at `findSingleExecution` -/
  | finding
  /-- at `getWorkflowProjectCached` -/
  | gettingProject
  /-- `workflowRunner.run` is called, and `add` waits for capacity or for its update. -/
  | running
  | ended
  deriving DecidableEq, Repr

structure Resume where
  executionId : String
  stage : ResumeStage := .finding
  deriving DecidableEq, Repr

end WaitTracker

structure WaitTracker where
  /-- The timer of each entry. -/
  waitingExecutions : Dict String ℕ := .empty
  mainTimer : Option ℕ := none
  /-- The timers that are pending, with the execution each is for. -/
  timers : Dict ℕ String := .empty
  /-- The intervals that are pending. -/
  intervals : List ℕ := []
  nextTimer : ℕ := 0
  /-- Tracking has been started and not been stopped since. -/
  tracking : Bool := false
  polls : List WaitTracker.Poll := []
  resumes : List WaitTracker.Resume := []
  rows : Dict String WaitTracker.Row := .empty
  /-- The calls of `workflowRunner.run` for a waiting execution, each with the wait it is in. -/
  runs : List (String × ℕ) := []

namespace WaitTracker

variable (s : WaitTracker)

/-! ## Tracking -/

def startTracking : WaitTracker :=
  { s with
    mainTimer := some s.nextTimer
    intervals := s.intervals ++ [s.nextTimer]
    nextTimer := s.nextTimer + 1
    polls := s.polls ++ [.querying]
    tracking := true }

def stopTracking : WaitTracker :=
  match s.mainTimer with
  | none => { s with tracking := false }
  | some mainTimer =>
    { s with
      intervals := s.intervals.filter (· ≠ mainTimer)
      timers := (s.waitingExecutions.entries.map (·.2)).foldl
        (fun timers timer => timers.erase timer) s.timers
      tracking := false }

/-- An interval fires. -/
def tick (interval : ℕ) : WaitTracker :=
  if interval ∈ s.intervals then { s with polls := s.polls ++ [.querying] } else s

/-! ## Polls -/

/-- The executions that should be started in the next 70 seconds. -/
def getWaitingExecutions (now : ℕ) : List String :=
  let due := s.rows.entries.filter fun e => (e.2.waitTill.any (· ≤ now + 70000)) ∧
    e.2.status ≠ .crashed
  (due.insertionSort fun a b => a.2.waitTill.getD 0 ≤ b.2.waitTill.getD 0).map (·.1)

def query (poll now : ℕ) : WaitTracker :=
  match s.polls[poll]? with
  | some .querying => { s with polls := s.polls.set poll (.queried (s.getWaitingExecutions now)) }
  | _ => s

/-- Adds a timer for an execution without an entry. -/
def setTimer (executionId : String) : WaitTracker :=
  if s.waitingExecutions.get? executionId = none then
    { s with
      waitingExecutions := s.waitingExecutions.set executionId s.nextTimer
      timers := s.timers.set s.nextTimer executionId
      nextTimer := s.nextTimer + 1 }
  else s

def setTimers (poll : ℕ) : WaitTracker :=
  match s.polls[poll]? with
  | some (.queried executionIds) =>
    let s := executionIds.foldl setTimer s
    { s with polls := s.polls.set poll .done }
  | _ => s

/-! ## Resuming -/

def stopExecution (executionId : String) : WaitTracker :=
  match s.waitingExecutions.get? executionId with
  | none => s
  | some timer =>
    { s with
      timers := s.timers.erase timer
      waitingExecutions := s.waitingExecutions.erase executionId }

/-- Up to its first `await`; a parent execution is started without a timer. -/
def startExecution (executionId : String) : WaitTracker :=
  { s with
    waitingExecutions := s.waitingExecutions.erase executionId
    resumes := s.resumes ++ [{ executionId }] }

/-- A timer fires, once. -/
def fire (timer : ℕ) : WaitTracker :=
  match s.timers.get? timer with
  | some executionId => { s with timers := s.timers.erase timer }.startExecution executionId
  | none => s

def setStage (resume : ℕ) (stage : ResumeStage) : WaitTracker :=
  { s with resumes := s.resumes.modify resume fun r => { r with stage } }

/-- The stage of a resume after its execution is found, or not. -/
def foundStage : Option Row → ResumeStage
  | none => .ended
  | some row => if row.finished ∨ row.workflowId.getD "" = "" then .ended else .gettingProject

def found (resume : ℕ) : WaitTracker :=
  match s.resumes[resume]? with
  | some ⟨executionId, .finding⟩ => s.setStage resume (foundStage (s.rows.get? executionId))
  | _ => s

/-- The wait an execution is in. -/
def currentWait (executionId : String) : Option ℕ :=
  match s.rows.get? executionId with
  | some row => if row.status = .waiting then some row.wait else none
  | none => none

/-- Calls `workflowRunner.run`. -/
def run (resume : ℕ) : WaitTracker :=
  match s.resumes[resume]? with
  | some ⟨executionId, .gettingProject⟩ =>
    { s.setStage resume .running with
      runs := s.runs ++ ((s.currentWait executionId).map fun wait => (executionId, wait)).toList }
  | _ => s

/-- `updateExistingExecution`, once there is capacity. -/
def update (resume : ℕ) : WaitTracker :=
  match s.resumes[resume]? with
  | some ⟨executionId, .running⟩ =>
    { s.setStage resume .ended with
      rows := s.rows.mapEntries fun id row =>
        if id = executionId then { row with status := .running, waitTill := none } else row }
  | _ => s

/-- A resume fails where it is. -/
def fail (resume : ℕ) : WaitTracker := s.setStage resume .ended

/-! ## Rows -/

/-- An execution of a workflow, which may be a new one, is put to waiting. -/
def putToWait (executionId : String) (workflowId : Option String) (waitTill : ℕ) : WaitTracker :=
  match s.rows.get? executionId with
  | none =>
    let row : Row := { status := .waiting, waitTill, workflowId, wait := 1 }
    { s with rows := s.rows.set executionId row }
  | some row =>
    let row' : Row := { row with status := .waiting, waitTill, wait := row.wait + 1 }
    if row.status = .waiting then s else { s with rows := s.rows.set executionId row' }

/-- `markAsCrashed` leaves the end of the wait. -/
def Row.saved (row : Row) (status : ActiveExecutions.ExecutionStatus) : Row :=
  { row with
    status
    waitTill := if status = .crashed then row.waitTill else none
    finished := status = .success }

/-- An execution is saved with another status. -/
def save (executionId : String) (status : ActiveExecutions.ExecutionStatus) : WaitTracker :=
  if status = .waiting then s
  else { s with
    rows := s.rows.mapEntries fun id row => if id = executionId then row.saved status else row }

/-! ## Events -/

inductive Event
  | startTracking
  | stopTracking
  | tick (interval : ℕ)
  | query (poll now : ℕ)
  | setTimers (poll : ℕ)
  | stopExecution (executionId : String)
  | startExecution (executionId : String)
  | fire (timer : ℕ)
  | found (resume : ℕ)
  | run (resume : ℕ)
  | update (resume : ℕ)
  | fail (resume : ℕ)
  | putToWait (executionId : String) (workflowId : Option String) (waitTill : ℕ)
  | save (executionId : String) (status : ActiveExecutions.ExecutionStatus)

def step : Event → WaitTracker
  | .startTracking => s.startTracking
  | .stopTracking => s.stopTracking
  | .tick interval => s.tick interval
  | .query poll now => s.query poll now
  | .setTimers poll => s.setTimers poll
  | .stopExecution executionId => s.stopExecution executionId
  | .startExecution executionId => s.startExecution executionId
  | .fire timer => s.fire timer
  | .found resume => s.found resume
  | .run resume => s.run resume
  | .update resume => s.update resume
  | .fail resume => s.fail resume
  | .putToWait executionId workflowId waitTill => s.putToWait executionId workflowId waitTill
  | .save executionId status => s.save executionId status

/-- While waits are tracked every entry owns a pending timer; else no timer is pending. -/
def TimersLive : Prop :=
  (s.tracking = true → ∀ executionId timer, s.waitingExecutions.get? executionId = some timer →
    s.timers.get? timer = some executionId) ∧
  (s.tracking = false → (∀ timer, s.timers.get? timer = none) ∧ s.intervals = [])

/-- Tracking starts without entries, stops with no pending timer that is out of its reach, and no
poll comes back with executions to set a timer for after it has stopped. -/
def KeepsTimers : Event → Prop
  | .startTracking => s.tracking = true ∨ ∀ executionId, s.waitingExecutions.get? executionId = none
  | .stopTracking => (∀ interval ∈ s.intervals, s.mainTimer = some interval) ∧
      ∀ timer executionId, s.timers.get? timer = some executionId →
        s.waitingExecutions.get? executionId = some timer
  | .setTimers poll => s.tracking = true ∨
      ∀ executionIds, s.polls[poll]? = some (.queried executionIds) →
        ∀ executionId ∈ executionIds, s.waitingExecutions.get? executionId ≠ none
  | _ => True

/-- An execution is resumed once in each wait. -/
def ResumesOnce : Prop := s.runs.Nodup

/-- No earlier resume of the execution is under way, and none has called `run` in the same wait. -/
def FirstResume (executionId : String) : Prop :=
  (∀ resume ∈ s.resumes, resume.executionId = executionId → resume.stage = .ended) ∧
    ∀ wait, s.currentWait executionId = some wait → (executionId, wait) ∉ s.runs

def ResumesFirst : Event → Prop
  | .fire timer => ∀ executionId, s.timers.get? timer = some executionId →
      s.FirstResume executionId
  | .startExecution executionId => s.FirstResume executionId
  | _ => True

end WaitTracker

end N8n
