import Mathlib.Algebra.Group.Int.Defs
import N8n.ActiveExecutions

/-!
# Collecting insights

Events are buffered until a flush takes the whole buffer and saves it with four database calls. A
flush that fails puts its events back. The calls of the database come back in any order, and events,
timers and the shutdown may come in between.
-/

namespace N8n

namespace InsightsCollectionService

def shouldSkipStatus : ActiveExecutions.ExecutionStatus → Bool
  | .success | .crashed | .error => false
  | .canceled | .new | .running | .unknown | .waiting => true

def shouldSkipMode : WorkflowExecuteMode → Bool
  | .cli | .error | .retry | .trigger | .webhook | .evaluation => false
  | .integrated | .internal | .manual | .chat => true

def minRuntime : ℤ := 0

def maxRuntime : ℤ := 2 ^ 31 - 1

inductive InsightType
  | success | failure | runtimeMs | timeSavedMin
  deriving DecidableEq, Repr

/-- `WorkflowExecuteAfterContext` -/
structure WorkflowExecuteAfterContext where
  status : ActiveExecutions.ExecutionStatus
  mode : WorkflowExecuteMode
  startedAt : ℤ
  stoppedAt : Option ℤ
  workflowId : String
  workflowName : String
  timeSavedPerExecution : Option ℤ
  deriving DecidableEq, Repr

/-- An object of the buffer; a set tells its elements by their references. -/
structure BufferedInsight where
  ref : ℕ
  type : InsightType
  value : ℤ
  timestamp : ℤ
  workflowId : String
  workflowName : String
  deriving DecidableEq, Repr

/-- A `sharedWorkflow` with the name of its project. -/
structure SharedWorkflow where
  workflowId : String
  projectId : String
  projectName : String
  deriving DecidableEq, Repr

structure InsightsMetadata where
  /-- The database gives it. -/
  metaId : Option ℕ := none
  projectId : String
  projectName : String
  workflowId : String
  workflowName : Option String
  deriving DecidableEq, Repr

structure InsightsRaw where
  metaId : Option ℕ
  type : InsightType
  value : ℤ
  timestamp : ℤ
  deriving DecidableEq, Repr

/-- The database call that a flush awaits, or how it has ended. -/
inductive FlushStage
  | findSharedWorkflows
  | upsertMetadata (metadataToUpsert : List InsightsMetadata)
  | findMetadata
  | insertRaw (events : List InsightsRaw)
  | saved
  /-- Failed, when so many flushes had begun. -/
  | failed (begun : ℕ)
  deriving DecidableEq, Repr

def FlushStage.isInProgress : FlushStage → Bool
  | .saved | .failed _ => false
  | _ => true

structure Flush where
  bufferedInsightsToFlush : List BufferedInsight
  stage : FlushStage := .findSharedWorkflows
  deriving DecidableEq, Repr

/-- How far the shutdown is. -/
inductive Shutdown
  | notCalled
  /-- waits for these flushes -/
  | waits (flushes : List ℕ)
  | resolved
  deriving DecidableEq, Repr

end InsightsCollectionService

open InsightsCollectionService in
structure InsightsCollectionService where
  flushBatchSize : ℕ
  /-- The rows of the database. -/
  insightsRaw : List InsightsRaw := []
  cachedMetadata : Dict String InsightsMetadata := .empty
  bufferedInsights : List BufferedInsight := []
  /-- The timer is set. -/
  flushInsightsRawBufferTimer : Bool := false
  isAsynchronouslySavingInsights : Bool := true
  flushesInProgress : List ℕ := []
  isInitialized : Bool := false
  /-- All flushes, by their number. -/
  flushes : List Flush := []
  /-- The flushes that calls of `handleWorkflowExecuteAfter` await. -/
  handlers : List ℕ := []
  shutdownStage : Shutdown := .notCalled
  /-- The events that were added to the buffer, and those that were inserted. -/
  collected : List BufferedInsight := []
  inserted : List BufferedInsight := []

namespace InsightsCollectionService

variable (s : InsightsCollectionService)

/-! ## Flushing -/

/-- `Set.add` -/
def addTo (set : List BufferedInsight) (event : BufferedInsight) : List BufferedInsight :=
  if event ∈ set then set else set ++ [event]

def scheduleFlushing : InsightsCollectionService :=
  if s.isInitialized then { s with flushInsightsRawBufferTimer := true } else s

def cancelScheduledFlushing : InsightsCollectionService :=
  { s with flushInsightsRawBufferTimer := false }

/-- `flushEvents`, up to its first await. -/
def flushEvents : InsightsCollectionService :=
  if !s.isInitialized then s
  else if s.bufferedInsights = [] then s.scheduleFlushing
  else
    { s.cancelScheduledFlushing with
      flushes := s.flushes ++ [{ bufferedInsightsToFlush := s.bufferedInsights }]
      bufferedInsights := []
      flushesInProgress := s.flushesInProgress ++ [s.flushes.length] }

def setStage (flush : ℕ) (stage : FlushStage) : InsightsCollectionService :=
  { s with flushes := s.flushes.modify flush fun f => { f with stage } }

/-- `finally` -/
def endFlush (flush : ℕ) : InsightsCollectionService :=
  { s.scheduleFlushing with flushesInProgress := s.flushesInProgress.erase flush }

def saveFlush (flush : ℕ) (f : Flush) (events : List InsightsRaw) : InsightsCollectionService :=
  let saved : InsightsCollectionService :=
    { s.setStage flush .saved with
      insightsRaw := s.insightsRaw ++ events
      inserted := s.inserted ++ f.bufferedInsightsToFlush }
  saved.endFlush flush

/-- `catch` -/
def failFlush (flush : ℕ) (f : Flush) : InsightsCollectionService :=
  let failed : InsightsCollectionService :=
    { s.setStage flush (.failed s.flushes.length) with
      bufferedInsights := f.bufferedInsightsToFlush.foldl addTo s.bufferedInsights }
  failed.endFlush flush

/-! ## `saveInsightsMetadataAndRaw` -/

def workflowIdNames (events : List BufferedInsight) : Dict String String :=
  events.foldl (fun names event => names.set event.workflowId event.workflowName) .empty

/-- What is not in the cache or has changed. -/
def metadataToUpsert (events : List BufferedInsight) (sharedWorkflows : List SharedWorkflow) :
    List InsightsMetadata :=
  sharedWorkflows.filterMap fun workflow =>
    let workflowName := (workflowIdNames events).get? workflow.workflowId
    let metadata : InsightsMetadata :=
      { projectId := workflow.projectId, projectName := workflow.projectName
        workflowId := workflow.workflowId, workflowName }
    match s.cachedMetadata.get? workflow.workflowId with
    | none => some metadata
    | some cached =>
      if cached.projectId ≠ workflow.projectId ∨ cached.projectName ≠ workflow.projectName ∨
          cached.workflowName ≠ workflowName then some metadata
      else none

def rawInsight (event : BufferedInsight) : Option InsightsRaw :=
  (s.cachedMetadata.get? event.workflowId).map fun metadata =>
    { metaId := metadata.metaId, type := event.type, value := event.value
      timestamp := event.timestamp }

/-- The shared workflows have come, or the call was rejected. -/
def foundSharedWorkflows (flush : ℕ) (result : Option (List SharedWorkflow)) :
    InsightsCollectionService :=
  match s.flushes[flush]? with
  | some f =>
    if f.stage = .findSharedWorkflows then
      match result with
      | some sharedWorkflows =>
        s.setStage flush (.upsertMetadata
          (s.metadataToUpsert f.bufferedInsightsToFlush sharedWorkflows))
      | none => s.failFlush flush f
    else s
  | none => s

def upsertedMetadata (flush : ℕ) (ok : Bool) : InsightsCollectionService :=
  match s.flushes[flush]? with
  | some f =>
    match f.stage with
    | .upsertMetadata _ => if ok then s.setStage flush .findMetadata else s.failFlush flush f
    | _ => s
  | none => s

/-- The metadata have come. A workflow without metadata makes the flush fail. -/
def foundMetadata (flush : ℕ) (result : Option (List InsightsMetadata)) :
    InsightsCollectionService :=
  match s.flushes[flush]? with
  | some f =>
    if f.stage = .findMetadata then
      match result with
      | some upsertMetadata =>
        let cached : InsightsCollectionService := { s with
          cachedMetadata := upsertMetadata.foldl
            (fun cache metadata => cache.set metadata.workflowId metadata) s.cachedMetadata }
        match f.bufferedInsightsToFlush.mapM cached.rawInsight with
        | some events => cached.setStage flush (.insertRaw events)
        | none => cached.failFlush flush f
      | none => s.failFlush flush f
    else s
  | none => s

def insertedRaw (flush : ℕ) (ok : Bool) : InsightsCollectionService :=
  match s.flushes[flush]? with
  | some f =>
    match f.stage with
    | .insertRaw events =>
      if ok then s.saveFlush flush f events else s.failFlush flush f
    | _ => s
  | none => s

/-! ## Handling executions -/

def clampRuntime (runtimeMs : ℤ) : ℤ := min (max runtimeMs minRuntime) maxRuntime

/-- The types and values of the events that an execution adds. -/
def insightsOf (ctx : WorkflowExecuteAfterContext) : List (InsightType × ℤ) :=
  let type : InsightType := if ctx.status = .success then .success else .failure
  let timeSaved := ctx.timeSavedPerExecution.getD 0
  [(type, 1)] ++
    (ctx.stoppedAt.toList.map fun stoppedAt =>
      (.runtimeMs, clampRuntime (stoppedAt - ctx.startedAt))) ++
    if type = .success ∧ timeSaved ≠ 0 then [(.timeSavedMin, timeSaved)] else []

/-- A new object is added to the buffer. -/
def collect (ctx : WorkflowExecuteAfterContext) (timestamp : ℤ) (insight : InsightType × ℤ) :
    InsightsCollectionService :=
  let event : BufferedInsight :=
    { ref := s.collected.length, type := insight.1, value := insight.2, timestamp
      workflowId := ctx.workflowId, workflowName := ctx.workflowName }
  { s with
    bufferedInsights := addTo s.bufferedInsights event
    collected := s.collected ++ [event] }

/-- The end of `handleWorkflowExecuteAfter`. -/
def flushFullBuffer : InsightsCollectionService :=
  if s.flushBatchSize ≤ s.bufferedInsights.length then s.flushEvents else s

/-- `handleWorkflowExecuteAfter`. While it saves synchronously it awaits the flush that it has
begun. -/
def handleWorkflowExecuteAfter (ctx : WorkflowExecuteAfterContext) (timestamp : ℤ) :
    InsightsCollectionService :=
  if !s.isInitialized then s
  else if shouldSkipStatus ctx.status || shouldSkipMode ctx.mode then s
  else
    let added := (insightsOf ctx).foldl (·.collect ctx timestamp ·) s
    if !s.isAsynchronouslySavingInsights then
      { added.flushEvents with handlers := s.handlers ++ [s.flushes.length] }
    else added.flushFullBuffer

def isInProgress (flush : ℕ) : Bool := s.flushes[flush]?.any (·.stage.isInProgress)

/-- A handler goes on when the flush it awaits has ended. -/
def resumeHandler (handler : ℕ) : InsightsCollectionService :=
  match s.handlers[handler]? with
  | some flush =>
    if s.isInProgress flush then s
    else flushFullBuffer { s with handlers := s.handlers.eraseIdx handler }
  | none => s

/-! ## The service -/

/-- The timeout of the timer. -/
def timeout : InsightsCollectionService :=
  if s.flushInsightsRawBufferTimer then
    flushEvents { s with flushInsightsRawBufferTimer := false }
  else s

def init : InsightsCollectionService :=
  scheduleFlushing { s with isInitialized := true, isAsynchronouslySavingInsights := true }

/-- `shutdown`, up to its await. It is called once. -/
def shutdown : InsightsCollectionService :=
  if s.shutdownStage = .notCalled then
    let flushed := flushEvents
      { s.cancelScheduledFlushing with isAsynchronouslySavingInsights := false }
    { flushed with shutdownStage := .waits flushed.flushesInProgress }
  else s

/-- `Promise.all` has resolved. -/
def shutdownResolves : InsightsCollectionService :=
  match s.shutdownStage with
  | .waits flushes =>
    if flushes.any s.isInProgress then s
    else { s with isInitialized := false, shutdownStage := .resolved }
  | _ => s

inductive Event
  | workflowExecuteAfter (ctx : WorkflowExecuteAfterContext) (timestamp : ℤ)
  | resumeHandler (handler : ℕ)
  | timeout
  | foundSharedWorkflows (flush : ℕ) (result : Option (List SharedWorkflow))
  | upsertedMetadata (flush : ℕ) (ok : Bool)
  | foundMetadata (flush : ℕ) (result : Option (List InsightsMetadata))
  | insertedRaw (flush : ℕ) (ok : Bool)
  | shutdown
  | shutdownResolves
  deriving DecidableEq

def step (s : InsightsCollectionService) : Event → InsightsCollectionService
  | .workflowExecuteAfter ctx timestamp => s.handleWorkflowExecuteAfter ctx timestamp
  | .resumeHandler handler => s.resumeHandler handler
  | .timeout => s.timeout
  | .foundSharedWorkflows flush result => s.foundSharedWorkflows flush result
  | .upsertedMetadata flush ok => s.upsertedMetadata flush ok
  | .foundMetadata flush result => s.foundMetadata flush result
  | .insertedRaw flush ok => s.insertedRaw flush ok
  | .shutdown => s.shutdown
  | .shutdownResolves => s.shutdownResolves

end InsightsCollectionService

end N8n
