import N8n.Library.Dict
import Mathlib.Data.Nat.Notation

/-!
# Test webhooks

The webhooks that manual executions listen for. Their registrations, of all workflows, are the
fields of one hash of the cache. Calls are taken one after the other; what is registered at a
third-party service is seen in the calls made to it.
-/

namespace N8n

/-- `IHttpRequestMethods` -/
inductive HttpMethod
  | delete | get | head | patch | post | put
  deriving DecidableEq, Repr

def HttpMethod.text : HttpMethod → String
  | .delete => "DELETE"
  | .get => "GET"
  | .head => "HEAD"
  | .patch => "PATCH"
  | .post => "POST"
  | .put => "PUT"

/-- A webhook of a node, as `getWorkflowWebhooks` finds it. -/
structure NodeWebhook where
  node : String
  httpMethod : HttpMethod
  path : String
  webhookId : Option String := none
  restartWebhook : Bool := false
  deriving DecidableEq, Repr

/-- `IWebhookData`, without what cannot be cached. -/
structure WebhookData extends NodeWebhook where
  workflowId : String
  userId : Option String := none
  isTest : Bool := false
  staticData : Option String := none
  deriving DecidableEq, Repr

/-- The workflow is that of the webhook, which is marked as a test webhook. -/
structure TestWebhookRegistration where
  pushRef : Option String := none
  /-- `workflowEntity.id` -/
  workflowId : String
  destinationNode : Option String := none
  webhook : WebhookData
  owned : webhook.workflowId = workflowId
  test : webhook.isTest = true
  deriving DecidableEq

inductive WebhookError
  | workflowMissingId
  | webhookPathTaken (node : String)
  | webhookNotFound (path : String) (httpMethod : HttpMethod)
  | nodeNotFound
  | thirdParty
  deriving DecidableEq, Repr

/-! ## Keys -/

/-- `path.split('/')` -/
def pathElements (path : List Char) : List (List Char) := path.splitOn '/'

/-- The path without the webhook id it may begin with. -/
def cutWebhookId (webhookId : String) (path : List Char) : List Char :=
  if webhookId.toList.isPrefixOf path ∧ '/' ∈ path then (path.dropWhile (· ≠ '/')).tail else path

def toKey (httpMethod : HttpMethod) (path : String) (webhookId : Option String) : String :=
  match webhookId with
  | none => httpMethod.text ++ "|" ++ path
  | some webhookId =>
    if webhookId = "" then httpMethod.text ++ "|" ++ path
    else httpMethod.text ++ "|" ++ webhookId ++ "|" ++
      toString (pathElements (cutWebhookId webhookId path.toList)).length

def WebhookData.key (webhook : WebhookData) : String :=
  toKey webhook.httpMethod webhook.path webhook.webhookId

def removeTrailingSlash (path : String) : String :=
  if path.toList.getLast? = some '/' then String.ofList path.toList.dropLast else path

/-! ## The registrations -/

/-- What happens beside the changes of the hash. -/
inductive WebhookEffect
  /-- `deleteWebhook` is called. -/
  | deleteWebhook (webhook : WebhookData)
  /-- The workflow loses a registration. -/
  | removed (registration : TestWebhookRegistration)
  deriving DecidableEq

structure TestWebhooks where
  /-- The hash `test-webhooks` of the cache. -/
  registrations : Dict String TestWebhookRegistration := .empty
  effects : List WebhookEffect := []
  deriving DecidableEq

namespace TestWebhooks

variable (s : TestWebhooks)

/-- A registration under the same key is replaced. -/
def register (registration : TestWebhookRegistration) : TestWebhooks where
  registrations := s.registrations.set registration.webhook.key registration
  effects := s.effects ++
    ((s.registrations.get? registration.webhook.key).toList.filter
      (·.workflowId ≠ registration.workflowId)).map .removed

def getAllRegistrations : List TestWebhookRegistration := s.registrations.entries.map (·.2)

/-- The whole hash is deleted. -/
def deregisterAll : TestWebhooks where
  registrations := .empty
  effects := s.effects ++ s.getAllRegistrations.map .removed

/-- The webhooks of a workflow, out of all registrations. -/
def webhooksOf (workflowId : String) : List WebhookData :=
  (s.getAllRegistrations.map (·.webhook)).filter (·.workflowId = workflowId)

/-- The `deletion` is how many calls of `deleteWebhook` return before one throws, if one does. -/
def deactivateWebhooks (workflowId : String) (deletion : Option ℕ) :
    TestWebhooks × Except WebhookError Unit :=
  if s.webhooksOf workflowId = [] then (s, .ok ())
  else
    match deletion with
    | some count =>
      ({ s with effects := s.effects ++
          ((s.webhooksOf workflowId).take (count + 1)).map .deleteWebhook }, .error .thirdParty)
    | none =>
      (({ s with effects := s.effects ++
          (s.webhooksOf workflowId).map .deleteWebhook } : TestWebhooks).deregisterAll, .ok ())

/-! ## Listening -/

/-- A call of `needsWebhook`, with what it finds in the workflow and how the third party replies. -/
structure NeedsWebhook where
  userId : String
  workflowId : String
  webhooks : List NodeWebhook
  /-- The nodes that have run data. -/
  runData : List String := []
  pushRef : Option String := none
  destinationNode : Option String := none
  /-- The name of the trigger, and whether it has data. -/
  triggerToStartFrom : Option (String × Bool) := none
  /-- The static data once the webhook is created, if it is. -/
  creation : NodeWebhook → Option (Option String) := fun _ => some none
  deletion : Option ℕ := none

namespace NeedsWebhook

variable (call : NeedsWebhook)

def registration (webhook : NodeWebhook) (staticData : Option String) :
    TestWebhookRegistration where
  pushRef := call.pushRef
  workflowId := call.workflowId
  destinationNode := call.destinationNode
  webhook := { webhook with
    path := removeTrailingSlash webhook.path
    workflowId := call.workflowId
    userId := some call.userId
    isTest := true
    staticData }
  owned := rfl
  test := rfl

/-- The registration keeps others from the path. -/
def pathTaken (webhook : NodeWebhook) (registrationByKey : TestWebhookRegistration) : Bool :=
  webhook.webhookId.getD "" = "" ∧ ¬ registrationByKey.webhook.isTest ∧
    registrationByKey.webhook.userId ≠ some call.userId ∧
    registrationByKey.webhook.workflowId ≠ call.workflowId

/-- The webhooks to listen for; none when the call returns before it registers any. -/
def toListenFor : List NodeWebhook :=
  match call.triggerToStartFrom with
  | some (_, true) => []
  | some (name, false) => startable (call.webhooks.filter (·.node = name))
  | none => startable call.webhooks
where
  startable (webhooks : List NodeWebhook) : List NodeWebhook :=
    if webhooks.any (!·.restartWebhook) then webhooks else []

end NeedsWebhook

/-- The loop of `needsWebhook`. A webhook is registered before it is created, and once more after. -/
def registerWebhooks (call : NeedsWebhook) :
    TestWebhooks → List NodeWebhook → TestWebhooks × Except WebhookError Bool
  | s, [] => (s, .ok true)
  | s, webhook :: webhooks =>
    let key := toKey webhook.httpMethod webhook.path webhook.webhookId
    if webhook.node ∈ call.runData then (s, .ok false)
    else if (s.registrations.get? key).any (call.pathTaken webhook) then
      (s, .error (.webhookPathTaken webhook.node))
    else
      let s := s.register (call.registration webhook none)
      match call.creation webhook with
      | none =>
        let (s, deactivated) := s.deactivateWebhooks call.workflowId call.deletion
        (s, deactivated.bind fun _ => .error .thirdParty)
      | some staticData =>
        registerWebhooks call (s.register (call.registration webhook staticData)) webhooks

def needsWebhook (call : NeedsWebhook) : TestWebhooks × Except WebhookError Bool :=
  if call.workflowId = "" then (s, .error .workflowMissingId)
  else if call.toListenFor = [] then (s, .ok false)
  else registerWebhooks call s call.toListenFor

/-! ## Requests -/

/-- What `WebhookHelpers.executeWebhook` comes to: an execution, a reply without one, an error. -/
inductive Execution
  | started | replied | threw
  deriving DecidableEq, Repr

/-- A call of `executeWebhook`. -/
structure ExecuteWebhook where
  httpMethod : HttpMethod
  path : String
  /-- The workflow has the node of the webhook. -/
  hasStartNode : Bool := true
  execution : Execution := .started
  isMultiMain : Bool := false
  hasPushRef : Bool := true
  deletion : Option ℕ := none
  deriving DecidableEq

def getActiveWebhookFromRegistration (path : List Char)
    (registration : TestWebhookRegistration) : Option WebhookData :=
  let staticElements := (pathElements registration.webhook.path.toList).filter
    fun element => ¬ [':'].isPrefixOf element
  if ∀ element ∈ staticElements, element ∈ pathElements path then some registration.webhook
  else none

def getActiveWebhook (httpMethod : HttpMethod) (path : String) (webhookId : Option String) :
    Option WebhookData :=
  (s.registrations.get? (toKey httpMethod path webhookId)).bind
    (getActiveWebhookFromRegistration path.toList)

/-- A static webhook of the path, or else a dynamic one: `<webhookId>/<segments>`. -/
def findWebhook (httpMethod : HttpMethod) (path : String) : Option WebhookData :=
  (s.getActiveWebhook httpMethod path none).or
    (s.getActiveWebhook httpMethod
      (String.ofList (List.intercalate ['/'] (pathElements path.toList).tail))
      (some (String.ofList ((pathElements path.toList).headD []))))

/-- The registration a request is for. -/
def requested (call : ExecuteWebhook) : Option TestWebhookRegistration :=
  (s.findWebhook call.httpMethod (removeTrailingSlash call.path)).bind
    fun webhook => s.registrations.get? webhook.key

def executeWebhook (call : ExecuteWebhook) : TestWebhooks × Except WebhookError Unit :=
  match s.requested call with
  | none => (s, .error (.webhookNotFound (removeTrailingSlash call.path) call.httpMethod))
  | some registration =>
    if !call.hasStartNode then (s, .error .nodeNotFound)
    else if call.execution = .replied then (s, .ok ())
    else if call.isMultiMain ∧ registration.pushRef.getD "" ≠ "" ∧ !call.hasPushRef then
      -- the main process that has created the webhook is told to clear it
      (s, .ok ())
    else s.deactivateWebhooks registration.workflowId call.deletion

/-! ## Cancelling -/

/-- Whether the workflow has a registration. The deactivation is not waited for. -/
def cancelWebhook (workflowId : String) (deletion : Option ℕ) : TestWebhooks × Bool :=
  if s.getAllRegistrations.any (·.workflowId = workflowId) then
    ((s.deactivateWebhooks workflowId deletion).1, true)
  else (s, false)

/-! ## Calls for a workflow -/

end TestWebhooks

inductive WebhookCall
  | needsWebhook (call : TestWebhooks.NeedsWebhook)
  | executeWebhook (call : TestWebhooks.ExecuteWebhook)
  | cancelWebhook (workflowId : String) (deletion : Option ℕ)

namespace TestWebhooks

variable (workflowId : String)

def step (s : TestWebhooks) : WebhookCall → TestWebhooks
  | .needsWebhook call => (s.needsWebhook call).1
  | .executeWebhook call => (s.executeWebhook call).1
  | .cancelWebhook workflowId deletion => (s.cancelWebhook workflowId deletion).1

/-- The call is for the workflow; a request, if it finds a registration. -/
def IsFor (s : TestWebhooks) : WebhookCall → Prop
  | .needsWebhook call => call.workflowId = workflowId
  | .executeWebhook call => ∀ registration ∈ s.requested call, registration.workflowId = workflowId
  | .cancelWebhook cancelledId _ => cancelledId = workflowId

/-- Whatever is removed is of the workflow, and `deleteWebhook` has been called for it before. -/
def Orderly (effects : List WebhookEffect) : Prop :=
  ∀ before registration after, effects = before ++ .removed registration :: after →
    registration.workflowId = workflowId ∧ .deleteWebhook registration.webhook ∈ before

/-- What is registered under the key, if anything, is of the workflow. -/
def Owns (s : TestWebhooks) (key : String) : Prop :=
  ∀ registration ∈ s.registrations.get? key, registration.workflowId = workflowId

/-- The webhooks that the loop of `needsWebhook` comes to register: until one has run data, or
cannot be created. -/
def attempted (call : NeedsWebhook) : List NodeWebhook → List NodeWebhook
  | [] => []
  | webhook :: webhooks =>
    if webhook.node ∈ call.runData then []
    else if (call.creation webhook).isNone then [webhook]
    else webhook :: attempted call webhooks

/-- The call registers nothing under a key of another workflow, and where it deactivates the
webhooks of its own, no other workflow has any, or a deletion throws. -/
def KeepsToItself (s : TestWebhooks) : WebhookCall → Prop
  | .needsWebhook call => call.workflowId = "" ∨
      (∀ webhook ∈ attempted call call.toListenFor,
        s.Owns workflowId (call.registration webhook none).webhook.key) ∧
      ((∃ webhook ∈ attempted call call.toListenFor, call.creation webhook = none) →
        call.deletion.isSome ∨ ∀ key, s.Owns workflowId key)
  | .executeWebhook call => ∀ registration ∈ s.requested call, call.hasStartNode = true →
      call.execution ≠ .replied →
      ¬ (call.isMultiMain ∧ registration.pushRef.getD "" ≠ "" ∧ !call.hasPushRef) →
      call.deletion.isSome ∨ ∀ key, s.Owns workflowId key
  | .cancelWebhook _ deletion =>
      (∃ registration ∈ s.getAllRegistrations, registration.workflowId = workflowId) →
      deletion.isSome ∨ ∀ key, s.Owns workflowId key

end TestWebhooks

end N8n
