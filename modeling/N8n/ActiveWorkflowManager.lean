import N8n.Library.Dict
import Mathlib.Data.Nat.Notation

/-!
# The active workflow manager

Activation and deactivation of workflows on the leader of a single-main setup: the calls of `add` of
callers, at startup and of retry timers, the calls of `remove`, and the errors that triggers report.
Each await is the end of a step, so calls may come in between one another there.
-/

namespace N8n

/-! ## Calls -/

namespace ActiveWorkflowManager

/-- Who has called `add`. -/
inductive AddOrigin
  | caller
  /-- `activateWorkflow` -/
  | startup
  /-- the retry function of a timer -/
  | retry
  deriving DecidableEq, Repr

/-- What the checks on a loaded workflow say. -/
inductive Loaded
  | skipped | refused | activatable
  deriving DecidableEq, Repr

/-- What a call of `add` finds in its workflow. -/
structure Candidate where
  loaded : Loaded := .activatable
  hasTriggerNodes : Bool := true
  hasPollNodes : Bool := false
  /-- Some trigger returns a response. -/
  hasResponses : Bool := true
  /-- At startup: there is an active version, and the error is not about authorization. -/
  requeues : Bool := true
  deriving DecidableEq, Repr

/-- Where a call of `add` is suspended. -/
inductive AddStage
  /-- `findById` -/
  | finding
  /-- `WorkflowExecuteAdditionalData.getBase` -/
  | gettingBase
  | addingWebhooks
  /-- the trigger loop of `ActiveWorkflows.add` -/
  | startingTriggers
  /-- the poll loop of `ActiveWorkflows.add` -/
  | polling
  /-- `addTriggersAndPollers` has returned. -/
  | activated
  /-- `activationErrorsService.deregister` -/
  | deregistering
  /-- `updateWorkflowTriggerCount` -/
  | counting
  /-- `activationErrorsService.register` in the catch -/
  | registering
  | savingStaticData
  /-- The call has thrown. -/
  | threw
  | done
  deriving DecidableEq, Repr

structure AddCall where
  workflowId : String
  origin : AddOrigin
  candidate : Candidate
  stage : AddStage
  deriving DecidableEq, Repr

/-- Where a removal is suspended. -/
inductive RemoveStage
  | clearingWebhooks
  /-- `activationErrorsService.deregister` -/
  | deregistering
  /-- `ActiveWorkflows.remove` -/
  | closing
  /-- `removeWorkflowTriggersAndPollers` has returned. -/
  | returning
  /-- `ActiveWorkflows.remove`, called by `emitError`, which does not await it -/
  | unawaited
  | done
  deriving DecidableEq, Repr

structure RemoveCall where
  workflowId : String
  stage : RemoveStage
  deriving DecidableEq, Repr

structure QueuedActivation where
  lastTimeout : ℕ
  timeout : ℕ
  deriving DecidableEq, Repr

end ActiveWorkflowManager

structure ActiveWorkflowManager where
  /-- The ids of the entries of `ActiveWorkflows`. -/
  activeWorkflows : List String := []
  queuedActivations : Dict String ActiveWorkflowManager.QueuedActivation := .empty
  /-- The timers that have not fired, each with the workflow that it activates. -/
  timers : Dict ℕ String := .empty
  nextTimer : ℕ := 0
  adds : List ActiveWorkflowManager.AddCall := []
  removes : List ActiveWorkflowManager.RemoveCall := []
  /-- The workflows of which a removal has completed, with no call of `add` by a caller since. -/
  removed : List String := []
  /-- The workflows of which a retry has thrown a `TypeError` since. -/
  typeErrors : List String := []
  deriving DecidableEq

namespace ActiveWorkflowManager

def WORKFLOW_REACTIVATE_INITIAL_TIMEOUT : ℕ := 1000

def WORKFLOW_REACTIVATE_MAX_TIMEOUT : ℕ := 24 * 60 * 60 * 1000

variable (s : ActiveWorkflowManager)

def isActive (workflowId : String) : Bool := workflowId ∈ s.activeWorkflows

def setActive (workflowId : String) : ActiveWorkflowManager :=
  { s with activeWorkflows := workflowId :: s.activeWorkflows }

def deleteActive (workflowId : String) : ActiveWorkflowManager :=
  { s with activeWorkflows := s.activeWorkflows.filter (· ≠ workflowId) }

/-! ## The queue -/

/-- `setTimeout(retryFunction, lastTimeout)`, as the timeout of the entry. -/
def arm (workflowId : String) (lastTimeout : ℕ) : ActiveWorkflowManager :=
  { s with
    timers := s.timers.set s.nextTimer workflowId
    nextTimer := s.nextTimer + 1
    queuedActivations :=
      s.queuedActivations.set workflowId { lastTimeout, timeout := s.nextTimer } }

def removeQueuedWorkflowActivation (workflowId : String) : ActiveWorkflowManager :=
  match s.queuedActivations.get? workflowId with
  | none => s
  | some queued =>
    { s with
      timers := s.timers.erase queued.timeout
      queuedActivations := s.queuedActivations.erase workflowId }

def addQueuedWorkflowActivation (workflowId : String) : ActiveWorkflowManager :=
  (s.removeQueuedWorkflowActivation workflowId).arm workflowId WORKFLOW_REACTIVATE_INITIAL_TIMEOUT

/-- The catch of the retry function. -/
def retryAgain (workflowId : String) : ActiveWorkflowManager :=
  match s.queuedActivations.get? workflowId with
  | none => { s with typeErrors := workflowId :: s.typeErrors }
  | some queued =>
    s.arm workflowId (if queued.lastTimeout < WORKFLOW_REACTIVATE_MAX_TIMEOUT then
      min (queued.lastTimeout * 2) WORKFLOW_REACTIVATE_MAX_TIMEOUT else queued.lastTimeout)

/-! ## Activation -/

/-- The stage after the workflow has been loaded and checked. -/
def Candidate.begin (candidate : Candidate) : AddStage :=
  match candidate.loaded with
  | .skipped => .done
  | .refused => .registering
  | .activatable => .gettingBase

/-- A caller has the workflow loaded; at startup and on a retry it is there already. -/
def add (workflowId : String) (origin : AddOrigin) (candidate : Candidate) :
    ActiveWorkflowManager :=
  { s with adds := s.adds ++ [{
      workflowId, origin, candidate
      stage := if origin = .caller then .finding else candidate.begin }] }

def setAdd (call : ℕ) (stage : AddStage) : ActiveWorkflowManager :=
  { s with adds := s.adds.modify call fun c => { c with stage } }

/-- All triggers have started: the entry is set, and the pollers come next. -/
def activate (call : ℕ) (c : AddCall) : ActiveWorkflowManager :=
  (s.setActive c.workflowId).setAdd call (if c.candidate.hasPollNodes then .polling else .activated)

/-- The call has thrown to where it was made. -/
def caught (c : AddCall) : ActiveWorkflowManager :=
  match c.origin with
  | .caller => s
  | .startup => if c.candidate.requeues then s.addQueuedWorkflowActivation c.workflowId else s
  | .retry => s.retryAgain c.workflowId

/-- What a call of `add` waits for has returned, or has thrown if not `ok`. -/
def resumeAdd (call : ℕ) (ok : Bool) : ActiveWorkflowManager :=
  match s.adds[call]? with
  | none => s
  | some c =>
    match c.stage with
    | .finding => s.setAdd call (if ok then c.candidate.begin else .registering)
    | .gettingBase => s.setAdd call (if ok then .addingWebhooks else .registering)
    | .addingWebhooks =>
      if !ok then s.setAdd call .registering
      else if c.candidate.hasTriggerNodes then s.setAdd call .startingTriggers
      else if c.candidate.hasPollNodes then s.activate call c
      else s.setAdd call .activated
    | .startingTriggers => if ok then s.activate call c else s.setAdd call .registering
    | .polling =>
      if ok then s.setAdd call .activated
      else if c.candidate.hasTriggerNodes ∧ c.candidate.hasResponses then
        s.setAdd call .registering
      else (s.deleteActive c.workflowId).setAdd call .registering
    | .activated => (s.removeQueuedWorkflowActivation c.workflowId).setAdd call .deregistering
    | .deregistering => s.setAdd call (if ok then .counting else .registering)
    | .counting => s.setAdd call (if ok then .savingStaticData else .registering)
    | .registering => s.setAdd call .threw
    | .savingStaticData => s.setAdd call (if ok then .done else .threw)
    | .threw => (s.caught c).setAdd call .done
    | .done => s

/-! ## Deactivation -/

def remove (workflowId : String) : ActiveWorkflowManager :=
  { s with removes := s.removes ++ [{ workflowId, stage := .clearingWebhooks }] }

def setRemove (call : ℕ) (stage : RemoveStage) : ActiveWorkflowManager :=
  { s with removes := s.removes.modify call fun c => { c with stage } }

/-- What a removal waits for has returned, or has thrown if not `ok`. -/
def resumeRemove (call : ℕ) (ok : Bool) : ActiveWorkflowManager :=
  match s.removes[call]? with
  | none => s
  | some c =>
    match c.stage with
    | .clearingWebhooks => s.setRemove call .deregistering
    | .deregistering =>
      if !ok then s.setRemove call .done
      else
        let s := s.removeQueuedWorkflowActivation c.workflowId
        s.setRemove call (if s.isActive c.workflowId then .closing else .returning)
    | .closing =>
      if !ok then s.setRemove call .done
      else (s.deleteActive c.workflowId).setRemove call .returning
    | .returning =>
      { s.setRemove call .done with
        removed := c.workflowId :: s.removed
        typeErrors := s.typeErrors.filter (· ≠ c.workflowId) }
    | .unawaited =>
      if !ok then s.setRemove call .done else (s.deleteActive c.workflowId).setRemove call .done
    | .done => s

/-- A trigger of an active workflow reports an error. -/
def emitError (workflowId : String) : ActiveWorkflowManager :=
  let s := if s.isActive workflowId then
    { s with removes := s.removes ++ [{ workflowId, stage := .unawaited }] } else s
  s.addQueuedWorkflowActivation workflowId

end ActiveWorkflowManager

/-! ## Interleavings -/

inductive ManagerEvent
  /-- A caller adds a workflow, or it is added at startup. -/
  | add (workflowId : String) (atStartup : Bool)
      (candidate : ActiveWorkflowManager.Candidate)
  | remove (workflowId : String)
  | emitError (workflowId : String)
  | timer (timeout : ℕ) (candidate : ActiveWorkflowManager.Candidate)
  | resumeAdd (call : ℕ) (ok : Bool)
  | resumeRemove (call : ℕ) (ok : Bool)
  deriving DecidableEq, Repr

namespace ActiveWorkflowManager

def step (s : ActiveWorkflowManager) : ManagerEvent → ActiveWorkflowManager
  | .add workflowId atStartup candidate =>
    { s with removed := s.removed.filter (· ≠ workflowId) }.add workflowId
      (if atStartup then .startup else .caller) candidate
  | .remove workflowId => s.remove workflowId
  | .emitError workflowId => s.emitError workflowId
  | .timer timeout candidate =>
    match s.timers.get? timeout with
    | none => s
    | some workflowId =>
      { s with timers := s.timers.erase timeout }.add workflowId .retry candidate
  | .resumeAdd call ok => s.resumeAdd call ok
  | .resumeRemove call ok => s.resumeRemove call ok

variable (s : ActiveWorkflowManager)

/-- A removed workflow is not active, no timer is pending for it, and no retry of it has failed but
with the error of the activation. -/
def Final : Prop :=
  ∀ workflowId ∈ s.removed, ¬ s.isActive workflowId ∧
    (∀ timer ∈ s.timers.entries, timer.2 ≠ workflowId) ∧ workflowId ∉ s.typeErrors

instance : Decidable s.Final := inferInstanceAs (Decidable (∀ _ ∈ _, _))

/-- A call that neither makes its workflow active nor starts a timer any more. -/
def AddCall.isSettled (c : AddCall) : Bool :=
  match c.stage with
  | .done => true
  | .finding | .gettingBase | .addingWebhooks | .startingTriggers => false
  | _ => c.origin = .caller

/-- A call of `remove` that has cleared the queue and has not completed. -/
def RemoveCall.hasCleared (c : RemoveCall) : Bool :=
  c.stage = .closing || c.stage = .returning

/-- The workflow is being removed, past the queue. -/
def Removing (workflowId : String) : Prop :=
  ∃ c ∈ s.removes, c.workflowId = workflowId ∧ c.hasCleared = true

/-- When a removal clears the queue, no call of `add` for the workflow is at work, and no timer but
that of the queue is pending. Until it completes, the workflow is not added. From then on until
the workflow is added again, no trigger of it reports an error. -/
def Undisturbed (s : ActiveWorkflowManager) : ManagerEvent → Prop
  | .resumeRemove call ok => ∀ c ∈ s.removes[call]?, c.stage = .deregistering → ok = true →
      (∀ a ∈ s.adds, a.workflowId = c.workflowId → a.isSettled = true) ∧
      ∀ timer ∈ s.timers.entries, timer.2 = c.workflowId →
        ∃ queued ∈ s.queuedActivations.get? c.workflowId, queued.timeout = timer.1
  | .add workflowId _ _ => ¬ s.Removing workflowId
  | .emitError workflowId => workflowId ∉ s.removed ∧ ¬ s.Removing workflowId
  | _ => True

instance (workflowId : String) : Decidable (s.Removing workflowId) :=
  inferInstanceAs (Decidable (∃ _ ∈ _, _))

instance (event : ManagerEvent) : Decidable (s.Undisturbed event) :=
  match event with
  | .resumeRemove _ _ => inferInstanceAs (Decidable (∀ _ ∈ _, _ → _ → _ ∧ _))
  | .add _ _ _ => inferInstanceAs (Decidable (¬ _))
  | .emitError _ => inferInstanceAs (Decidable (_ ∧ _))
  | .remove _ | .timer _ _ | .resumeAdd _ _ => isTrue trivial

end ActiveWorkflowManager

end N8n
