import Mathlib.Data.Int.Notation
import N8n.Library.Dict
import N8n.Library.Fallible

/-!
# Active workflows

The workflows whose triggers and pollers run in this process, and the crons of the scheduled task
manager. Calls are taken one after the other; whether a trigger starts, a poll succeeds, a cron
expression is accepted or a trigger closes is the environment's choice.
-/

namespace N8n

/-! ## Crons -/

inductive RecurrenceInterval
  | hours | days | weeks | months
  deriving DecidableEq, Repr

/-- `CronRecurrenceRule` -/
inductive CronRecurrence
  | deactivated
  | activated (index intervalSize : ℤ) (typeInterval : RecurrenceInterval)
  deriving DecidableEq, Repr

structure Cron where
  expression : String
  recurrence : Option CronRecurrence := none
  deriving DecidableEq, Repr

structure CronContext extends Cron where
  nodeId : String
  workflowId : String
  timezone : String
  deriving DecidableEq, Repr

/-- The crons of a workflow are found by their whole context, of which `toCronKey` makes a text. -/
structure ScheduledTaskManager where
  cronsByWorkflow : Dict String (List CronContext) := .empty
  deriving DecidableEq

namespace ScheduledTaskManager

variable (cronError : String → String → Option String) (s : ScheduledTaskManager)

def cronsOf (workflowId : String) : List CronContext :=
  (s.cronsByWorkflow.get? workflowId).getD []

/-- `cronError` is what `new CronJob` throws for an expression and a timezone, if it does. -/
def registerCron (ctx : CronContext) : ScheduledTaskManager × Except String Unit :=
  if ctx ∈ s.cronsOf ctx.workflowId then (s, .ok ())
  else
    match cronError ctx.expression ctx.timezone with
    | some message => (s, .error message)
    | none =>
      ({ cronsByWorkflow :=
          s.cronsByWorkflow.set ctx.workflowId (s.cronsOf ctx.workflowId ++ [ctx]) }, .ok ())

/-- One registration after the other, whether or not it throws. -/
def registerCrons (ctxs : List CronContext) : ScheduledTaskManager :=
  ctxs.foldl (fun s ctx => (s.registerCron cronError ctx).1) s

def deregisterCrons (workflowId : String) : ScheduledTaskManager :=
  if s.cronsOf workflowId = [] then s
  else { cronsByWorkflow := s.cronsByWorkflow.erase workflowId }

end ScheduledTaskManager

/-! ## Activation -/

@[ext] structure TriggerResponse where
  /-- Which of the responses so far it is. -/
  id : ℕ
  hasCloseFunction : Bool
  deriving DecidableEq, Repr

inductive TriggerResult
  | failed (message : String)
  | noResponse
  | responded (hasCloseFunction : Bool)
  deriving DecidableEq, Repr

/-- How the start of a trigger goes: the crons it registers, and what it returns or throws. -/
structure TriggerRun where
  nodeId : String
  crons : List Cron := []
  result : TriggerResult
  deriving DecidableEq, Repr

/-- How the activation of a poller goes. -/
structure PollRun where
  nodeId : String
  /-- What its parameters or its first poll throw. -/
  test : Option String := none
  cronExpressions : List String
  deriving DecidableEq, Repr

/-- A call of `add`. -/
structure Activation where
  workflowId : String
  /-- `workflow.id` -/
  id : String
  timezone : String
  triggers : List TriggerRun
  polls : List PollRun
  /-- The manager adds every workflow under its own id. -/
  own : id = workflowId
  deriving DecidableEq

inductive ActivationError
  | activation (message nodeId : String)
  | deactivation (message workflowId : String)
  deriving DecidableEq, Repr

def ActivationError.ofStart (message nodeId : String) : ActivationError :=
  .activation ("There was a problem activating the workflow: \"" ++ message ++ "\"") nodeId

def ActivationError.ofClose (message workflowId : String) : ActivationError :=
  .deactivation ("Failed to deactivate trigger of workflow ID \"" ++ workflowId ++ "\": \"" ++
    message ++ "\"") workflowId

/-- How a call of `closeFunction` ends. -/
inductive Closing
  | closed | triggerCloseError
  | failed (message : String)
  deriving DecidableEq, Repr

structure ActiveWorkflows where
  activeWorkflows : Dict String (List TriggerResponse) := .empty
  scheduledTaskManager : ScheduledTaskManager := {}
  /-- The responses returned by triggers whose `closeFunction` has not been called. -/
  running : List (String × TriggerResponse) := []
  nextResponse : ℕ := 0
  deriving DecidableEq

namespace ActiveWorkflows

variable (cronError : String → String → Option String) (s : ActiveWorkflows)

def isActive (workflowId : String) : Bool := (s.activeWorkflows.get? workflowId).isSome

def triggerResponses (workflowId : String) : List TriggerResponse :=
  (s.activeWorkflows.get? workflowId).getD []

end ActiveWorkflows

namespace Activation

variable (call : Activation)

def context (nodeId : String) (cron : Cron) : CronContext :=
  { cron with nodeId, workflowId := call.id, timezone := call.timezone }

end Activation

namespace ActiveWorkflows

variable (cronError : String → String → Option String) (call : Activation) (s : ActiveWorkflows)

/-- What a cron that is not accepted throws, it throws into the trigger. -/
def runTrigger (run : TriggerRun) : ActiveWorkflows × Except String (Option TriggerResponse) :=
  let ctxs := run.crons.map (call.context run.nodeId)
  let s := { s with
    scheduledTaskManager := s.scheduledTaskManager.registerCrons cronError ctxs }
  match run.result with
  | .failed message => (s, .error message)
  | .noResponse => (s, .ok none)
  | .responded hasCloseFunction =>
    let response : TriggerResponse := { id := s.nextResponse, hasCloseFunction }
    ({ s with
        running := if hasCloseFunction then s.running ++ [(call.workflowId, response)] else s.running
        nextResponse := s.nextResponse + 1 }, .ok (some response))

def startTriggers : ActiveWorkflows → List TriggerResponse → List TriggerRun →
    ActiveWorkflows × Except ActivationError (List TriggerResponse)
  | s, triggerResponses, [] => (s, .ok triggerResponses)
  | s, triggerResponses, run :: runs =>
    match runTrigger cronError call s run with
    | (s, .error message) => (s, .error (.ofStart message run.nodeId))
    | (s, .ok triggerResponse) =>
      startTriggers s (triggerResponses ++ triggerResponse.toList) runs

/-- `expression.split(' ').at(0)?.includes('*')` -/
def tooShort (expression : String) : Bool := '*' ∈ expression.toList.takeWhile (· ≠ ' ')

/-- The loop of `activatePolling` over the expressions. -/
def registerPolls (nodeId : String) : ScheduledTaskManager → List String →
    ScheduledTaskManager × Except String Unit
  | manager, [] => (manager, .ok ())
  | manager, expression :: expressions =>
    if tooShort expression then
      (manager, .error "The polling interval is too short. It has to be at least a minute.")
    else
      match manager.registerCron cronError (call.context nodeId { expression }) with
      | (manager, .error message) => (manager, .error message)
      | (manager, .ok ()) => registerPolls nodeId manager expressions

def activatePolling (manager : ScheduledTaskManager) (run : PollRun) :
    ScheduledTaskManager × Except String Unit :=
  match run.test with
  | some message => (manager, .error message)
  | none => registerPolls cronError call run.nodeId manager run.cronExpressions

def activatePolls (triggerResponses : List TriggerResponse) : ActiveWorkflows → List PollRun →
    ActiveWorkflows × Except ActivationError Unit
  | s, [] => (s, .ok ())
  | s, run :: runs =>
    match activatePolling cronError call s.scheduledTaskManager run with
    | (manager, .ok ()) =>
      activatePolls triggerResponses { s with scheduledTaskManager := manager } runs
    | (manager, .error message) =>
      let s := { s with scheduledTaskManager := manager }
      (if triggerResponses = [] then
        { s with activeWorkflows := s.activeWorkflows.erase call.workflowId } else s,
        .error (.ofStart message run.nodeId))

def add : ActiveWorkflows × Except ActivationError Unit :=
  match startTriggers cronError call s [] call.triggers with
  | (s, .error error) => (s, .error error)
  | (s, .ok triggerResponses) =>
    activatePolls cronError call triggerResponses
      { s with activeWorkflows := s.activeWorkflows.set call.workflowId triggerResponses } call.polls

/-! ## Removal -/

/-- The loop of `remove` with `closeTrigger` in it. -/
def closeTriggers (workflowId : String) (closing : TriggerResponse → Closing) :
    ActiveWorkflows → List TriggerResponse → ActiveWorkflows × Except ActivationError Unit
  | s, [] => (s, .ok ())
  | s, response :: responses =>
    if !response.hasCloseFunction then closeTriggers workflowId closing s responses
    else
      let s := { s with running := s.running.filter (· ≠ (workflowId, response)) }
      match closing response with
      | .closed | .triggerCloseError => closeTriggers workflowId closing s responses
      | .failed message => (s, .error (.ofClose message workflowId))

def remove (workflowId : String) (closing : TriggerResponse → Closing) :
    ActiveWorkflows × Except ActivationError Bool :=
  if !s.isActive workflowId then (s, .ok false)
  else
    let s := { s with scheduledTaskManager := s.scheduledTaskManager.deregisterCrons workflowId }
    match closeTriggers workflowId closing s (s.triggerResponses workflowId) with
    | (s, .error error) => (s, .error error)
    | (s, .ok ()) => ({ s with activeWorkflows := s.activeWorkflows.erase workflowId }, .ok true)

end ActiveWorkflows

/-! ## Runs of calls -/

inductive ActivationCall
  | add (call : Activation)
  | remove (workflowId : String) (closing : TriggerResponse → Closing)

namespace ActiveWorkflows

variable (cronError : String → String → Option String) (s : ActiveWorkflows)

def step (s : ActiveWorkflows) : ActivationCall → ActiveWorkflows
  | .add call => (s.add cronError call).1
  | .remove workflowId closing => (s.remove workflowId closing).1

/-- What runs is known to an active workflow. -/
structure NoOrphans : Prop where
  triggers : ∀ entry ∈ s.running, s.isActive entry.1 ∧ entry.2 ∈ s.triggerResponses entry.1
  crons : ∀ workflowId, s.scheduledTaskManager.cronsOf workflowId ≠ [] → s.isActive workflowId

/-- A successful removal leaves nothing of a workflow running. -/
def Removable : Prop :=
  ∀ workflowId closing, (s.remove workflowId closing).2 = .ok true →
    (∀ entry ∈ (s.remove workflowId closing).1.running, entry.1 ≠ workflowId) ∧
    (s.remove workflowId closing).1.scheduledTaskManager.cronsOf workflowId = []

end ActiveWorkflows

/-! ## Calls that keep track -/

def TriggerRun.fails (run : TriggerRun) : Bool :=
  match run.result with
  | .failed _ => true
  | _ => false

/-- The crons of the trigger that are accepted. -/
def TriggerRun.accepted (run : TriggerRun) (cronError : String → String → Option String)
    (call : Activation) : List Cron :=
  run.crons.filter fun cron => (cronError cron.expression call.timezone).isNone

namespace PollRun

variable (run : PollRun) (cronError : String → String → Option String) (call : Activation)

def accepts (expression : String) : Bool :=
  !ActiveWorkflows.tooShort expression && (cronError expression call.timezone).isNone

def fails : Bool := run.test.isSome || run.cronExpressions.any (!accepts cronError call ·)

/-- The expressions that come to be registered. -/
def accepted : List String :=
  if run.test.isSome then [] else run.cronExpressions.takeWhile (accepts cronError call)

end PollRun

namespace ActiveWorkflows

open Fallible

variable (cronError : String → String → Option String)

/-- Where a trigger fails, none has returned a `closeFunction` before, and no cron is registered
for a workflow that is not active. Otherwise no earlier trigger of the workflow runs any more, and
where a poller fails and there is no response, the workflow has no cron. -/
def KeepsTrack (s : ActiveWorkflows) : ActivationCall → Prop
  | .add call =>
    if call.triggers.any TriggerRun.fails then
      (∀ run ∈ reached TriggerRun.fails call.triggers, run.result ≠ .responded true) ∧
      (s.isActive call.workflowId ∨
        ∀ run ∈ reached TriggerRun.fails call.triggers, run.accepted cronError call = [])
    else
      (∀ entry ∈ s.running, entry.1 ≠ call.workflowId) ∧
      (call.polls.any (·.fails cronError call) → (∀ run ∈ call.triggers, run.result = .noResponse) →
        s.scheduledTaskManager.cronsOf call.workflowId = [] ∧
        (∀ run ∈ call.triggers, run.accepted cronError call = []) ∧
        ∀ run ∈ reached (PollRun.fails · cronError call) call.polls,
          run.accepted cronError call = [])
  | .remove _ _ => True

end ActiveWorkflows

end N8n
