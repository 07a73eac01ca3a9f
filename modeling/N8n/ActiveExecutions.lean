import N8n.Library.Dict
import N8n.ConcurrencyControl

/-!
# Active executions

The executions of this process, in regular mode, and the capacity that they take from the
concurrency control and give back. A call of `add` is suspended at the database and at the
throttle, and what `finally` does when a promise settles is a step of its own, so that any other
call may come in between.
-/

namespace N8n

namespace ActiveExecutions

/-- `ExecutionStatus` -/
inductive ExecutionStatus
  | canceled | crashed | error | new | running | success | unknown | waiting
  deriving DecidableEq, Repr

/-- The state of a promise with a `finally` callback. -/
inductive PromiseState
  | pending | settled | handled
  deriving DecidableEq, Repr

/-- `IExecutingWorkflowData`, which its callback keeps hold of. -/
structure Execution where
  executionId : String
  status : ExecutionStatus := .running
  postExecutePromise : PromiseState := .pending
  deriving DecidableEq, Repr

/-- How far a call of `add` is. -/
inductive AddStage
  /-- at `createNewExecution` -/
  | creating
  | throttling (executionId : String)
  /-- at `setRunning` for a new execution, else at `updateExistingExecution` -/
  | saving (executionId : String)
  | failed
  | added (execution : Execution)
  deriving DecidableEq, Repr

structure AddCall where
  executionMode : WorkflowExecuteMode
  stage : AddStage
  deriving DecidableEq, Repr

end ActiveExecutions

structure ActiveExecutions where
  /-- Each entry is the execution of the call with that number. -/
  activeExecutions : Dict String ℕ := .empty
  /-- The calls of `add`, by their number. -/
  calls : List ActiveExecutions.AddCall := []
  /-- The calls whose throttle has succeeded. -/
  throttles : List (ℕ × WorkflowExecuteMode) := []
  /-- The releases, each with the call whose execution it is for. -/
  releases : List (ℕ × WorkflowExecuteMode) := []
  deriving DecidableEq

namespace ActiveExecutions

variable (s : ActiveExecutions)

def execution? (call : ℕ) : Option Execution :=
  match s.calls[call]? with
  | some ⟨_, .added execution⟩ => some execution
  | _ => none

def setStage (call : ℕ) (stage : AddStage) : ActiveExecutions :=
  { s with calls := s.calls.modify call fun c => { c with stage } }

/-! ## Adding -/

/-- An execution without an id is new. -/
def add (executionMode : WorkflowExecuteMode) (executionId : Option String) : ActiveExecutions :=
  { s with calls := s.calls ++ [{
      executionMode
      stage := match executionId with
        | none => .creating
        | some executionId => .throttling executionId }] }

/-- `createNewExecution` returns an id or fails. -/
def created (call : ℕ) (executionId : Option String) : ActiveExecutions :=
  match s.calls[call]? with
  | some ⟨_, .creating⟩ =>
    s.setStage call (match executionId with
      | some executionId => .throttling executionId
      | none => .failed)
  | _ => s

/-- The throttle lets the execution through, or throws for its mode. -/
def throttled (call : ℕ) (through : Bool) : ActiveExecutions :=
  match s.calls[call]? with
  | some ⟨executionMode, .throttling executionId⟩ =>
    if through then
      { s.setStage call (.saving executionId) with
        throttles := s.throttles ++ [(call, executionMode)] }
    else s.setStage call .failed
  | _ => s

/-- Once the database has the execution, it is stored over a resuming one. -/
def saved (call : ℕ) (ok : Bool) : ActiveExecutions :=
  match s.calls[call]? with
  | some ⟨_, .saving executionId⟩ =>
    if ok then
      { s.setStage call (.added { executionId }) with
        activeExecutions := s.activeExecutions.set executionId call }
    else s.setStage call .failed
  | _ => s

/-! ## The promise -/

/-- A promise settles once. -/
def settle (call : ℕ) : ActiveExecutions :=
  match s.execution? call with
  | some execution =>
    if execution.postExecutePromise = .pending then
      s.setStage call (.added { execution with postExecutePromise := .settled })
    else s
  | none => s

/-- The callback of `finally`. -/
def onSettled (call : ℕ) : ActiveExecutions :=
  match s.calls[call]? with
  | some ⟨executionMode, .added execution⟩ =>
    if execution.postExecutePromise = .settled then
      let s := { s.setStage call (.added { execution with postExecutePromise := .handled }) with
        releases := s.releases ++ [(call, executionMode)] }
      if execution.status = .waiting then s
      else { s with activeExecutions := s.activeExecutions.erase execution.executionId }
    else s
  | _ => s

/-! ## Calls by id -/

/-- Throws where there is no execution. -/
def setStatus (executionId : String) (status : ExecutionStatus) : ActiveExecutions :=
  match s.activeExecutions.get? executionId with
  | none => s
  | some call =>
    match s.execution? call with
    | none => s
    | some execution => s.setStage call (.added { execution with status })

def stopExecution (executionId : String) : ActiveExecutions :=
  match s.activeExecutions.get? executionId with
  | none => s
  | some call =>
    if (s.execution? call).any (·.status = .waiting) then
      { s with activeExecutions := s.activeExecutions.erase executionId }
    else s.settle call

def finalizeExecution (executionId : String) : ActiveExecutions :=
  match s.activeExecutions.get? executionId with
  | none => s
  | some call => s.settle call

end ActiveExecutions

/-! ## Interleavings -/

inductive ExecutionEvent
  | add (executionMode : WorkflowExecuteMode) (executionId : Option String)
  | created (call : ℕ) (executionId : Option String)
  | throttled (call : ℕ) (through : Bool)
  | saved (call : ℕ) (ok : Bool)
  | onSettled (call : ℕ)
  | setStatus (executionId : String) (status : ActiveExecutions.ExecutionStatus)
  | stopExecution (executionId : String)
  | finalizeExecution (executionId : String)
  deriving DecidableEq, Repr

namespace ActiveExecutions

def step (s : ActiveExecutions) : ExecutionEvent → ActiveExecutions
  | .add executionMode executionId => s.add executionMode executionId
  | .created call executionId => s.created call executionId
  | .throttled call through => s.throttled call through
  | .saved call ok => s.saved call ok
  | .onSettled call => s.onSettled call
  | .setStatus executionId status => s.setStatus executionId status
  | .stopExecution executionId => s.stopExecution executionId
  | .finalizeExecution executionId => s.finalizeExecution executionId

variable (s : ActiveExecutions)

def PromiseIs (call : ℕ) (state : PromiseState) : Prop :=
  ∃ execution ∈ s.execution? call, execution.postExecutePromise = state

/-- `finalizeExecution` or `stopExecution` for some id settles the promise. -/
def Reachable (call : ℕ) : Prop :=
  ∃ executionId, (s.finalizeExecution executionId).PromiseIs call .settled ∨
    (s.stopExecution executionId).PromiseIs call .settled

/-- The call is still running, its promise can still be settled, or it has settled and the callback
is about to run. -/
def Held (call : ℕ) : Prop :=
  (∃ executionMode executionId, s.calls[call]? = some ⟨executionMode, .saving executionId⟩) ∨
    s.PromiseIs call .pending ∧ s.Reachable call ∨ s.PromiseIs call .settled

/-- Each throttle has one release, or is still held. -/
structure Matched : Prop where
  once : (s.releases.map Prod.fst).Nodup
  throttled : ∀ release ∈ s.releases, release ∈ s.throttles
  held : ∀ throttle ∈ s.throttles, throttle ∉ s.releases → s.Held throttle.1

/-- There is no entry for the id whose promise is pending. -/
def Idle (executionId : String) : Prop :=
  ∀ call ∈ s.activeExecutions.get? executionId, ¬ s.PromiseIs call .pending

/-- The database does not fail after the throttle; nothing is stored over an execution that has not
settled; no execution is stopped that waits but has not settled; and the callback of an execution
that does not wait finds no later one that has not settled. -/
def KeepsCapacity (s : ActiveExecutions) : ExecutionEvent → Prop
  | .saved call ok => ∀ executionMode executionId,
      s.calls[call]? = some ⟨executionMode, .saving executionId⟩ → ok = true ∧ s.Idle executionId
  | .stopExecution executionId => ∀ call ∈ s.activeExecutions.get? executionId,
      ∀ execution ∈ s.execution? call, execution.status = .waiting → s.Idle executionId
  | .onSettled call => ∀ execution ∈ s.execution? call,
      execution.postExecutePromise = .settled → execution.status ≠ .waiting →
      s.Idle execution.executionId
  | _ => True

end ActiveExecutions

end N8n
