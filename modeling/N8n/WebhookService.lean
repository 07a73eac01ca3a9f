import N8n.TestWebhooks
import Mathlib.Data.List.Basic

/-!
# Webhooks of active workflows

The table of webhooks, with the cache before it. A webhook with dynamic segments is addressed by its
webhook id, `<uuid>/user/:id/posts`, and stored under its template, `user/:id/posts`.
-/

namespace N8n

/-- `s.startsWith(':')` -/
def isParameter (segment : List Char) : Bool := [':'].isPrefixOf segment

/-! ## Registration -/

/-- The path without a slash before it and one behind it. -/
def cutSlashes (path : List Char) : List Char :=
  let path := if path.head? = some '/' then path.tail else path
  if path.getLast? = some '/' then path.dropLast else path

/-- `path.startsWith(':') || path.includes('/:')` -/
def HasParameter (path : List Char) : Prop := path.head? = some ':' ∨ ['/', ':'] <:+: path

instance (path : List Char) : Decidable (HasParameter path) :=
  inferInstanceAs (Decidable (_ ∨ _))

theorem isParameter_iff {segment : List Char} :
    isParameter segment = true ↔ segment.head? = some ':' := by
  rcases segment with _ | ⟨c, segment⟩
  · simp [isParameter]
  · simp [isParameter, @eq_comm _ ':' c]

/-- The first segment starts as the path does, and the others stand behind a slash. -/
theorem pathElements_parameters : ∀ path : List Char,
    (isParameter ((pathElements path).headD []) = true ↔ path.head? = some ':') ∧
      ((pathElements path).tail.any isParameter = true ↔ ['/', ':'] <:+: path)
  | [] => by decide
  | c :: path => by
    obtain ⟨ihhead, ihtail⟩ := pathElements_parameters path
    have hne : pathElements path ≠ [] := List.splitOn_ne_nil '/' path
    obtain ⟨first, rest, hcons⟩ := List.exists_cons_of_ne_nil hne
    rw [hcons] at ihhead ihtail
    simp only [List.headD_cons, List.tail_cons] at ihhead ihtail
    have hsplit : pathElements (c :: path) =
        if c = '/' then [] :: first :: rest else (c :: first) :: rest := by
      unfold pathElements at hcons ⊢
      rw [List.splitOn_cons_eq_if_modifyHead, hcons]
      simp
    rw [hsplit, List.infix_cons_iff, List.cons_prefix_cons]
    split_ifs with hc
    · subst hc
      simp only [List.headD_cons, List.tail_cons, List.any_cons, Bool.or_eq_true, ihhead, ihtail,
        isParameter_iff]
      rcases path with _ | ⟨d, path⟩
      · simp
      · simp [@eq_comm _ ':' d]
    · simp [isParameter_iff, ihtail, Ne.symm hc]

theorem any_isParameter {path : List Char} :
    (pathElements path).any isParameter = true ↔ HasParameter path := by
  obtain ⟨hhead, htail⟩ := pathElements_parameters path
  obtain ⟨first, rest, hcons⟩ := List.exists_cons_of_ne_nil (List.splitOn_ne_nil '/' path)
  unfold HasParameter
  rw [← hhead, ← htail]
  unfold pathElements
  rw [hcons]
  simp

theorem HasParameter.cutSlashes {path : List Char} (h : HasParameter path) :
    HasParameter (cutSlashes path) := by
  have hfront : HasParameter (if path.head? = some '/' then path.tail else path) := by
    split_ifs with hslash
    · obtain ⟨rest, rfl⟩ : ∃ rest, path = '/' :: rest :=
        ⟨path.tail, List.eq_cons_of_mem_head? hslash⟩
      rcases h with h | h
      · cases h
      · rw [List.infix_cons_iff, List.cons_prefix_cons] at h
        refine h.imp_left fun ⟨_, hrest⟩ => ?_
        obtain ⟨_, rfl⟩ := hrest
        rfl
    · exact h
  unfold N8n.cutSlashes
  dsimp only
  generalize (if path.head? = some '/' then path.tail else path) = path at hfront ⊢
  split_ifs with hslash
  · obtain ⟨front, rfl⟩ := List.getLast?_eq_some_iff.1 hslash
    rw [List.dropLast_concat]
    rcases hfront with hfront | hfront
    · rcases front with _ | ⟨c, front⟩
      · cases hfront
      · exact .inl hfront
    · rw [List.infix_concat_iff] at hfront
      refine .inr (hfront.resolve_left fun hsuffix => ?_)
      have hlast := List.IsSuffix.getLast hsuffix (by simp)
      simp at hlast
  · exact hfront

theorem any_isParameter_cutSlashes {path : List Char} (h : HasParameter path) :
    (pathElements (cutSlashes path)).any isParameter = true := any_isParameter.2 h.cutSlashes

/-- The id and the number of segments are set together, for dynamic webhooks. -/
structure WebhookEntity where
  workflowId : String
  webhookPath : String
  method : HttpMethod
  node : String
  webhookId : Option String := none
  pathLength : Option ℕ := none
  measured : pathLength = webhookId.map fun _ => (pathElements webhookPath.toList).length
  addressed : webhookId.isSome → (pathElements webhookPath.toList).any isParameter
  deriving DecidableEq

/-- `webhook:${method}-${path}` -/
def webhookCacheKey (method : HttpMethod) (path : String) : String :=
  "webhook:" ++ method.text ++ "-" ++ path

namespace WebhookEntity

variable (w : WebhookEntity)

def segments : List (List Char) := pathElements w.webhookPath.toList

/-- `[undefined, path].join('/')` is `/${path}`. -/
def uniquePath : String :=
  if ':' ∈ w.webhookPath.toList then w.webhookId.getD "" ++ "/" ++ w.webhookPath else w.webhookPath

def cacheKey : String := webhookCacheKey w.method w.uniquePath

def staticSegments : List (List Char) := w.segments.filter (!isParameter ·)

def isDynamic : Bool := w.segments.any isParameter

/-- The parameters of a request, as `LiveWebhooks` reads them off its path. -/
def parameters (path : String) : List (List Char × Option (List Char)) :=
  w.segments.zipIdx.filterMap fun (segment, index) =>
    if isParameter segment then some (segment.tail, (pathElements path.toList).tail[index]?)
    else none

def staticCount : ℕ := w.staticSegments.length

/-- At every position there is a parameter or the segment of the request. -/
def Fits (segments : List (List Char)) : Prop :=
  List.Forall₂ (fun t s => isParameter t = true ∨ t = s) w.segments segments

/-- The static segments are in the request, in some place. -/
def Occurs (segments : List (List Char)) : Prop := ∀ s ∈ w.staticSegments, s ∈ segments

instance (segments : List (List Char)) : Decidable (w.Occurs segments) :=
  inferInstanceAs (Decidable (∀ s ∈ w.staticSegments, s ∈ segments))

/-- `const [uuidSegment, ...otherSegments] = path.split('/')` -/
def uuidSegment (path : String) : String :=
  String.ofList ((pathElements path.toList).headD [])

def otherSegments (path : String) : List (List Char) := (pathElements path.toList).tail

/-- The request is one that the webhook is for: its path to the letter, or its template after its
webhook id. -/
def Answers (method : HttpMethod) (path : String) : Prop :=
  method = w.method ∧
    match w.webhookId with
    | none => path = w.webhookPath
    | some webhookId => uuidSegment path = webhookId ∧ w.Fits (otherSegments path)

/-- The webhook that `addWebhooks` stores for a path of a node. -/
def ofNode (workflowId node : String) (nodeWebhookId : Option String) (method : HttpMethod)
    (path : String) : WebhookEntity where
  workflowId
  webhookPath := String.ofList (cutSlashes path.toList)
  method
  node
  webhookId := if HasParameter path.toList then nodeWebhookId.filter (· ≠ "") else none
  pathLength := (if HasParameter path.toList then nodeWebhookId.filter (· ≠ "") else none).map
    fun _ => (pathElements (cutSlashes path.toList)).length
  measured := by simp
  addressed h := by
    split_ifs at h with hparameter
    · simpa using any_isParameter_cutSlashes hparameter
    · cases h

end WebhookEntity

/-! ## The table -/

/-- The rows by their primary key. -/
structure WebhookRepository where
  table : Dict (HttpMethod × String) WebhookEntity
  keyed : ∀ key w, table.get? key = some w → key = (w.method, w.webhookPath)
  deriving DecidableEq

namespace WebhookRepository

open WebhookEntity

def empty : WebhookRepository := ⟨.empty, by simp⟩

variable (r : WebhookRepository)

def rows : List WebhookEntity := r.table.entries.map (·.2)

def upsert (w : WebhookEntity) : WebhookRepository where
  table := r.table.set (w.method, w.webhookPath) w
  keyed key v h := by
    rw [Dict.get?_set] at h
    split_ifs at h with hkey
    · exact hkey.trans (Option.some.inj h ▸ rfl)
    · exact r.keyed key v h

/-- `remove`, of the webhooks of a workflow. -/
def removeOf (workflowId : String) : WebhookRepository where
  table := ⟨r.table.entries.filter fun e => e.2.workflowId ≠ workflowId,
    r.table.nodup.sublist (List.filter_sublist.map _)⟩
  keyed key v h := by
    refine r.keyed key v (Dict.mem_entries.1 ?_)
    exact List.mem_of_mem_filter (Dict.mem_entries.2 h)

/-- The table without the row at a key. -/
def removeAt (method : HttpMethod) (webhookPath : String) : WebhookRepository where
  table := r.table.erase (method, webhookPath)
  keyed key v h := by
    rw [Dict.get?_erase] at h
    split_ifs at h with hkey
    exact r.keyed key v h

def findOneBy (method : HttpMethod) (webhookPath : String) : Option WebhookEntity :=
  r.table.get? (method, webhookPath)

/-- The rows with the id, the number of segments and the method, if one is asked for. -/
def findBy (webhookId : String) (method : Option HttpMethod) (pathLength : ℕ) :
    List WebhookEntity :=
  r.rows.filter fun w => w.webhookId = some webhookId ∧ method.getD w.method = w.method ∧
    w.pathLength = some pathLength

def findByWorkflowId (workflowId : String) : List WebhookEntity :=
  r.rows.filter (·.workflowId = workflowId)

def getStaticWebhooks : List WebhookEntity := r.rows.filter (·.webhookId = none)

/-- Find a matching webhook with zero dynamic path segments. -/
def findStaticWebhook (method : HttpMethod) (path : String) : Option WebhookEntity :=
  r.findOneBy method path

/-- The first webhook with the most static segments, out of those whose static segments are all in
the request; `:var` matches on anything. -/
def bestMatch (requestSegments : List (List Char)) (dynamicWebhooks : List WebhookEntity) :
    Option WebhookEntity :=
  (dynamicWebhooks.foldl (fun (acc : Option WebhookEntity × ℕ) dw =>
    if dw.Occurs requestSegments ∧ acc.2 < dw.staticSegments.length then
      (some dw, dw.staticSegments.length)
    else if dw.staticSegments.length = 0 ∧ acc.1 = none then (some dw, acc.2)
    else acc) (none, 0)).1

def dynamicWebhooks (path : String) (method : Option HttpMethod) : List WebhookEntity :=
  r.findBy (uuidSegment path) method (otherSegments path).length

/-- Find a matching webhook with one or more dynamic path segments. -/
def findDynamicWebhook (path : String) (method : Option HttpMethod) : Option WebhookEntity :=
  bestMatch (otherSegments path) (r.dynamicWebhooks path method)

/-- What the table says without the cache. -/
def lookup (method : HttpMethod) (path : String) : Option WebhookEntity :=
  (r.findStaticWebhook method path).or (r.findDynamicWebhook path (some method))

/-- Every webhook is the answer to its own unique path. -/
def EachAtUniquePath : Prop := ∀ w ∈ r.rows, r.lookup w.method w.uniquePath = some w

/-- Once the webhook is stored, the search for a request comes to it: its path is that of the
request to the letter, or there is none such and it is the best of the dynamic webhooks. -/
def Takes (w : WebhookEntity) (method : HttpMethod) (path : String) : Prop :=
  (method, path) = (w.method, w.webhookPath) ∨ r.findStaticWebhook method path = none ∧
    let ws := (r.upsert w).dynamicWebhooks path (some method)
    w ∈ ws ∧ w.Occurs (otherSegments path) ∧
      ∀ v ∈ ws, v.Occurs (otherSegments path) → v ≠ w →
        v.staticCount < w.staticCount ∨ v.staticCount = w.staticCount ∧ [w, v].Sublist ws

/-- A path is answered by a webhook that matches position by position, with the most static segments
of those that do, if one does. -/
def AnswersByPosition (path : String) (method : Option HttpMethod) : Prop :=
  (∀ w ∈ r.findDynamicWebhook path method, w.Fits (otherSegments path)) ∧
    ∀ v ∈ r.dynamicWebhooks path method, v.Fits (otherSegments path) →
      ∃ w ∈ r.findDynamicWebhook path method, v.staticCount ≤ w.staticCount

/-- A webhook whose static segments are in other places of the path comes after one that matches
position by position. -/
def PrefersPosition (path : String) (method : Option HttpMethod) : Prop :=
  ∀ v ∈ r.dynamicWebhooks path method, v.Occurs (otherSegments path) →
    ¬ v.Fits (otherSegments path) →
      ∃ w ∈ r.dynamicWebhooks path method, w.Fits (otherSegments path) ∧
        (v.staticCount < w.staticCount ∨
          v.staticCount = w.staticCount ∧ [w, v].Sublist (r.dynamicWebhooks path method))

/-- A template and a path of as many segments match in the table as they do among test webhooks. -/
def MatchesTestWebhooks : Prop :=
  ∀ (w : WebhookEntity) (id : String) (registration : TestWebhookRegistration) (path : List Char),
    w.webhookId = some id → '/' ∉ id.toList → registration.webhook.path = w.webhookPath →
    w.segments.length = (pathElements path).length →
    ((empty.upsert w).findDynamicWebhook (id ++ "/" ++ String.ofList path) (some w.method) =
        some w ↔
      TestWebhooks.getActiveWebhookFromRegistration path registration = some registration.webhook)

def getWebhookMethods (rawPath : String) : List HttpMethod :=
  let staticMethods := (r.rows.filter (·.webhookPath = rawPath)).map (·.method)
  if staticMethods = [] then ((r.findDynamicWebhook rawPath none).map (·.method)).toList
  else staticMethods

end WebhookRepository

/-! ## The service -/

structure WebhookService where
  cache : Dict String WebhookEntity := .empty
  repository : WebhookRepository := .empty

namespace WebhookService

variable (s : WebhookService)

def populateCache : WebhookService where
  cache := s.repository.getStaticWebhooks.foldl (fun cache w => cache.set w.cacheKey w) s.cache
  repository := s.repository

/-- `findCached` -/
def findWebhook (method : HttpMethod) (path : String) : Option WebhookEntity × WebhookService :=
  match s.cache.get? (webhookCacheKey method path) with
  | some cached => (some cached, s)
  | none =>
    match s.repository.findStaticWebhook method path with
    | some webhook =>
      (some webhook, { s with cache := s.cache.set (webhookCacheKey method path) webhook })
    | none => (s.repository.findDynamicWebhook path (some method), s)

def storeWebhook (webhook : WebhookEntity) : WebhookService where
  cache := s.cache.set webhook.cacheKey webhook
  repository := s.repository.upsert webhook

def deleteWorkflowWebhooks (workflowId : String) : WebhookService where
  cache := (s.repository.findByWorkflowId workflowId).foldl (fun cache w => cache.erase w.cacheKey)
    s.cache
  repository := s.repository.removeOf workflowId

/-! ## Calls one after the other -/

/-- A call, with the cache operations it makes. -/
inductive Call
  | storeWebhook (webhook : WebhookEntity)
  | deleteWorkflowWebhooks (workflowId : String)
  | populateCache
  | findWebhook (method : HttpMethod) (path : String)

def step : Call → WebhookService
  | .storeWebhook webhook => s.storeWebhook webhook
  | .deleteWorkflowWebhooks workflowId => s.deleteWorkflowWebhooks workflowId
  | .populateCache => s.populateCache
  | .findWebhook method path => (s.findWebhook method path).2

/-- Every request gets the answer of the table, so none gets a webhook that is deleted. -/
def AnswersFromTable : Prop :=
  ∀ method path, (s.findWebhook method path).1 = s.repository.lookup method path ∧
    ∀ w, (s.findWebhook method path).1 = some w → w ∈ s.repository.rows

/-- Nothing is cached for a request that spells the template of the webhook out. -/
def NotSpelledOut (w : WebhookEntity) : Prop :=
  ':' ∈ w.webhookPath.toList → s.cache.get? (webhookCacheKey w.method w.webhookPath) = none

/-- A webhook that is stored leaves every one the answer to its unique path, and a row that it
replaces has the same unique path; a webhook that goes has been cached under its unique path
only. -/
def KeepsCache : Call → Prop
  | .storeWebhook w => (s.repository.upsert w).EachAtUniquePath ∧
      ∀ v ∈ s.repository.findOneBy w.method w.webhookPath, v ≠ w →
        v.uniquePath = w.uniquePath ∧ s.NotSpelledOut v
  | .deleteWorkflowWebhooks workflowId =>
      ∀ v ∈ s.repository.findByWorkflowId workflowId, s.NotSpelledOut v
  | .populateCache => True
  | .findWebhook _ _ => True

/-! ## What a webhook does to the others -/

/-- The same workflow and node -/
def SameRoute (v w : Option WebhookEntity) : Prop :=
  v.map (fun v => (v.workflowId, v.node)) = w.map fun w => (w.workflowId, w.node)

/-- The request goes where it went before the webhook was stored. -/
def KeepsRoute (w : WebhookEntity) (method : HttpMethod) (path : String) : Prop :=
  SameRoute ((s.storeWebhook w).findWebhook method path).1 (s.findWebhook method path).1

/-- A request is left alone by a webhook that is stored. -/
structure Leaves (w : WebhookEntity) (method : HttpMethod) (path : String) : Prop where
  /-- Its key in the cache is not that of the webhook. -/
  cached : webhookCacheKey method path = w.cacheKey →
    SameRoute (some w) (s.findWebhook method path).1
  /-- The search does not come to the webhook. -/
  searched : webhookCacheKey method path ≠ w.cacheKey →
    s.cache.get? (webhookCacheKey method path) = none → s.repository.Takes w method path →
      SameRoute (some w) (s.repository.lookup method path)
  /-- It was not answered by the row that is replaced. -/
  replaced : webhookCacheKey method path ≠ w.cacheKey →
    s.cache.get? (webhookCacheKey method path) = none → ¬ s.repository.Takes w method path →
      ∀ v ∈ s.repository.findOneBy w.method w.webhookPath,
        s.repository.lookup method path = some v →
        SameRoute ((s.repository.removeAt w.method w.webhookPath).lookup method path) (some v)

end WebhookService

end N8n
