import Mathlib.Data.Int.Notation
import N8n.Library.Runs

/-!
# The concurrency control service

One queue for production executions and one for evaluations, each only where its limit is set.
-/

/-!
## The concurrency queue

An execution that finds no capacity left waits in a FIFO queue; `capacity` goes negative by one
for each execution that waits.  A call's effects are the events it emits and the waiting promises
it resolves, in order.
-/

namespace N8n

/-- What a call on a queue makes visible: an event it emits (`concurrency-check` is debounced
before its listeners see it), or the promise of a throttled `enqueue` it resolves. -/
inductive ConcurrencyEffect
  | concurrencyCheck (capacity : ℤ)
  | executionThrottled (executionId : String)
  | executionReleased (executionId : String)
  | resolve (executionId : String)
  deriving DecidableEq, Repr

/-- An item's `resolve` is the promise of the `enqueue` call that pushed it, so an item is its
`executionId`. -/
structure ConcurrencyQueue where
  queue : List String := []
  capacity : ℤ
  deriving DecidableEq, Repr

namespace ConcurrencyQueue

/-- Takes the execution in, and says whether it is let through at once. -/
def enqueue (q : ConcurrencyQueue) (executionId : String) :
    ConcurrencyQueue × Bool × List ConcurrencyEffect :=
  let capacity := q.capacity - 1
  let check := .concurrencyCheck capacity
  if capacity < 0 then
    ({ queue := q.queue ++ [executionId], capacity }, false,
      [check, .executionThrottled executionId])
  else
    ({ q with capacity }, true, [check])

def currentCapacity (q : ConcurrencyQueue) : ℤ := q.capacity

def resolveNext (q : ConcurrencyQueue) : ConcurrencyQueue × List ConcurrencyEffect :=
  match q.queue with
  | [] => (q, [])
  | executionId :: rest =>
    ({ q with queue := rest }, [.executionReleased executionId, .resolve executionId])

def dequeue (q : ConcurrencyQueue) : ConcurrencyQueue × List ConcurrencyEffect :=
  { q with capacity := q.capacity + 1 }.resolveNext

def remove (q : ConcurrencyQueue) (executionId : String) :
    ConcurrencyQueue × List ConcurrencyEffect :=
  match q.queue.findIdx? (· == executionId) with
  | some index =>
    { q with queue := q.queue.eraseIdx index, capacity := q.capacity + 1 }.resolveNext
  | none => (q, [])

/-- The ids in the order a JavaScript set gives them: each at its first occurrence. -/
def getAll (q : ConcurrencyQueue) : List String :=
  q.queue.foldl (fun ids id => if id ∈ ids then ids else ids ++ [id]) []

def has (q : ConcurrencyQueue) (executionId : String) : Bool := q.queue.any (· == executionId)

end ConcurrencyQueue

/-- How many waiting executions the effects let through. -/
def letThrough (effects : List ConcurrencyEffect) : ℕ :=
  effects.countP fun | .resolve _ => true | _ => false

/-! ## A queue and its callers -/

namespace ConcurrencyQueue

/-- A call one of the queue's users makes. -/
inductive Call
  | enqueue (executionId : String)
  | dequeue
  | remove (executionId : String)
  deriving DecidableEq, Repr

/-- A queue with the number of executions that were let through and have not called `dequeue`. -/
structure Usage where
  queue : ConcurrencyQueue
  active : ℕ
  deriving DecidableEq, Repr

/-- A queue as its constructor leaves it. -/
def Usage.start (capacity : ℤ) : Usage := { queue := { capacity }, active := 0 }

def Usage.step (u : Usage) : Call → Usage
  | .enqueue executionId =>
    let (queue, through, effects) := u.queue.enqueue executionId
    { queue, active := u.active + (if through then 1 else 0) + letThrough effects }
  | .dequeue =>
    let (queue, effects) := u.queue.dequeue
    { queue, active := u.active - 1 + letThrough effects }
  | .remove executionId =>
    let (queue, effects) := u.queue.remove executionId
    { queue, active := u.active + letThrough effects }

/-- `dequeue` is called by an execution that was let through and has finished. -/
def Usage.Admissible (u : Usage) : Call → Prop
  | .dequeue => 0 < u.active
  | _ => True

/-- The limit `L` is kept, and the capacity counts the slots in use and the executions waiting. -/
def Usage.WithinLimit (L : ℤ) (u : Usage) : Prop :=
  (u.active : ℤ) ≤ L ∧ u.queue.capacity = L - u.active - u.queue.queue.length

/-- The call removes no waiting execution, or the only one. -/
def Usage.RemovesOnlyWaiter (u : Usage) : Call → Prop
  | .remove executionId => executionId ∈ u.queue.queue → u.queue.queue.length = 1
  | _ => True

instance (u : Usage) : DecidablePred u.Admissible
  | .enqueue _ => inferInstanceAs (Decidable True)
  | .dequeue => inferInstanceAs (Decidable (0 < u.active))
  | .remove _ => inferInstanceAs (Decidable True)

instance (u : Usage) : DecidablePred u.RemovesOnlyWaiter
  | .enqueue _ => inferInstanceAs (Decidable True)
  | .dequeue => inferInstanceAs (Decidable True)
  | .remove _ => inferInstanceAs (Decidable (_ → _))

instance (L : ℤ) : DecidablePred (Usage.WithinLimit L) := fun u =>
  inferInstanceAs (Decidable ((u.active : ℤ) ≤ L ∧ _ = _))

end ConcurrencyQueue

end N8n

/-! ## The service -/

namespace N8n

inductive WorkflowExecuteMode
  | cli | error | integrated | internal | manual | retry | trigger | webhook | evaluation | chat
  deriving DecidableEq, Repr

inductive ConcurrencyQueueType
  | production | evaluation
  deriving DecidableEq, Repr

/-- What a call on the service makes visible. -/
inductive ControlEffect
  | queue (type : ConcurrencyQueueType) (effect : ConcurrencyEffect)
  | cancelMany (executionIds : List String)
  deriving DecidableEq, Repr

inductive ConcurrencyError
  | invalidConcurrencyLimit (limit : ℤ)
  | unknownExecutionMode (mode : WorkflowExecuteMode)
  deriving DecidableEq, Repr

/-- `queues` is the map of the queues in insertion order; where the constructor leaves it unset
the service is disabled and no method reads it. -/
structure ConcurrencyControlService where
  isEnabled : Bool
  limits : List (ConcurrencyQueueType × ℤ)
  queues : List (ConcurrencyQueueType × ConcurrencyQueue)
  deriving DecidableEq, Repr

namespace ConcurrencyControlService

def create (productionLimit evaluationLimit : ℤ) (queueMode : Bool) :
    Except ConcurrencyError ConcurrencyControlService :=
  let configured := [(ConcurrencyQueueType.production, productionLimit),
    (ConcurrencyQueueType.evaluation, evaluationLimit)]
  match configured.find? (·.2 = 0) with
  | some (_, limit) => .error (.invalidConcurrencyLimit limit)
  | none =>
    let limits := configured.map fun (type, limit) => (type, if limit < -1 then -1 else limit)
    if limits.all (·.2 = -1) || queueMode then
      .ok { isEnabled := false, limits, queues := [] }
    else
      .ok { isEnabled := true, limits, queues :=
        (limits.filter (0 < ·.2)).map fun (type, limit) => (type, { capacity := limit }) }

/-- The queue type an execution mode is throttled by, if any. -/
def queueTypeOf : WorkflowExecuteMode → Except ConcurrencyError (Option ConcurrencyQueueType)
  | .error | .integrated | .cli | .internal | .manual | .retry => .ok none
  | .webhook | .trigger => .ok (some .production)
  | .evaluation => .ok (some .evaluation)
  | .chat => .error (.unknownExecutionMode .chat)

def getQueue (c : ConcurrencyControlService) (mode : WorkflowExecuteMode) :
    Except ConcurrencyError (Option (ConcurrencyQueueType × ConcurrencyQueue)) := do
  match ← queueTypeOf mode with
  | some type => return (c.queues.find? (·.1 = type))
  | none => return none

/-- Writes a queue back after a call on it. -/
def setQueue (c : ConcurrencyControlService) (type : ConcurrencyQueueType)
    (queue : ConcurrencyQueue) : ConcurrencyControlService :=
  { c with queues := c.queues.map fun (t, q) => if t = type then (t, queue) else (t, q) }

def has (c : ConcurrencyControlService) (executionId : String) : Bool :=
  c.isEnabled && c.queues.any (·.2.has executionId)

/-- Whether the execution is let through at once. -/
def throttle (c : ConcurrencyControlService) (mode : WorkflowExecuteMode) (executionId : String) :
    Except ConcurrencyError (ConcurrencyControlService × Bool × List ControlEffect) := do
  if !c.isEnabled then return (c, true, [])
  match ← c.getQueue mode with
  | none => return (c, true, [])
  | some (type, queue) =>
    let (queue, through, effects) := queue.enqueue executionId
    return (c.setQueue type queue, through, effects.map (.queue type))

def release (c : ConcurrencyControlService) (mode : WorkflowExecuteMode) :
    Except ConcurrencyError (ConcurrencyControlService × List ControlEffect) := do
  if !c.isEnabled then return (c, [])
  match ← c.getQueue mode with
  | none => return (c, [])
  | some (type, queue) =>
    let (queue, effects) := queue.dequeue
    return (c.setQueue type queue, effects.map (.queue type))

def remove (c : ConcurrencyControlService) (mode : WorkflowExecuteMode) (executionId : String) :
    Except ConcurrencyError (ConcurrencyControlService × List ControlEffect) := do
  if !c.isEnabled then return (c, [])
  match ← c.getQueue mode with
  | none => return (c, [])
  | some (type, queue) =>
    let (queue, effects) := queue.remove executionId
    return (c.setQueue type queue, effects.map (.queue type))

/-- Removes the ids one after another. -/
def removeEach (q : ConcurrencyQueue) : List String → ConcurrencyQueue × List ConcurrencyEffect
  | [] => (q, [])
  | id :: ids =>
    let (q, effects) := q.remove id
    let (q, rest) := removeEach q ids
    (q, effects ++ rest)

/-- The ids to remove are taken from the queue before the first of them is removed. -/
def removeAll (c : ConcurrencyControlService) (executionIdsToCancel : List String) :
    ConcurrencyControlService × List ControlEffect :=
  if !c.isEnabled then (c, [])
  else
    let drained := c.queues.map fun (type, queue) =>
      let enqueuedExecutionIds := queue.getAll
      (type, removeEach queue enqueuedExecutionIds)
    let effects := drained.flatMap fun (type, _, effects) => effects.map (.queue type)
    ({ c with queues := drained.map fun (type, queue, _) => (type, queue) },
      if executionIdsToCancel = [] then effects
      else effects ++ [.cancelMany executionIdsToCancel])

def disable (c : ConcurrencyControlService) : ConcurrencyControlService :=
  { c with isEnabled := false }

/-- No queue holds an execution, and no waiting execution was let through. -/
def Drained (after : ConcurrencyControlService × List ControlEffect) : Prop :=
  (∀ q ∈ after.1.queues, q.2.queue = []) ∧
    ∀ type executionId, .queue type (.resolve executionId) ∉ after.2

end ConcurrencyControlService

end N8n
