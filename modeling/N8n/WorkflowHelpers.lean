import N8n.ExportedGraph

/-!
# Workflow helpers

`replaceInvalidCredentials` looks up the credentials of the nodes of a workflow, and caches both
what it finds and that it finds nothing. `getVariables` puts the variables of a project over the
global ones.
-/

namespace N8n

namespace WorkflowHelpers

/-! ## Credentials -/

/-- A registered type. Its name is not that of a property which every object inherits. -/
structure CredentialType where
  name : String
  notInherited : name ∉ inheritedKeys
  deriving DecidableEq

structure INodeCredentialsDetails where
  id : Option String
  name : String
  deriving DecidableEq

/-- What a node has for a type, in the old format only a name. -/
inductive NodeCredentials
  | onlyName (name : String)
  | details (details : INodeCredentialsDetails)
  deriving DecidableEq

/-- What a node is given: credentials, or what a cache inherits under their key. -/
inductive GivenCredentials
  | credentials (credentials : NodeCredentials)
  | inherited (key : String)
  deriving DecidableEq

structure CredentialsEntity where
  id : String
  name : String
  type : String
  deriving DecidableEq

def CredentialsEntity.details (credentials : CredentialsEntity) : INodeCredentialsDetails :=
  ⟨some credentials.id, credentials.name⟩

/-- The table of credentials. Ids are generated, of 16 letters and digits, as no property is that
objects inherit. -/
structure CredentialsTable where
  rows : List CredentialsEntity
  nodup : (rows.map CredentialsEntity.id).Nodup
  notInherited : ∀ credentials ∈ rows, credentials.id ∉ inheritedKeys

namespace CredentialsTable

variable (table : CredentialsTable) (type : CredentialType)

def findBy (name : String) : List CredentialsEntity :=
  table.rows.filter fun credentials => credentials.name = name ∧ credentials.type = type.name

def findOneBy (id : String) : Option CredentialsEntity :=
  table.rows.find? fun credentials => credentials.id = id ∧ credentials.type = type.name

/-- The credentials with a name that no others of the type have. -/
def unique (name : String) : Option CredentialsEntity :=
  match table.findBy type name with
  | [credentials] => some credentials
  | _ => none

end CredentialsTable

/-- `credentialsByName` and `credentialsById`, by type and then by name or id -/
structure CredentialsCaches where
  byName : Dict (CredentialType × String) INodeCredentialsDetails
  byId : Dict (CredentialType × String) INodeCredentialsDetails

def CredentialsCaches.empty : CredentialsCaches := ⟨.empty, .empty⟩

/-- What a cache has under a key, or inherits. -/
def cached (cache : Dict (CredentialType × String) INodeCredentialsDetails) (type : CredentialType)
    (key : String) : Option GivenCredentials :=
  match cache.get? (type, key) with
  | some details => some (.credentials (.details details))
  | none => if key ∈ inheritedKeys then some (.inherited key) else none

variable (table : CredentialsTable)

/-- Credentials of the old format, with the name that they have. -/
def replaceByName (caches : CredentialsCaches) (type : CredentialType)
    (nodeCredentials : NodeCredentials) (name : String) : GivenCredentials × CredentialsCaches :=
  match cached caches.byName type name with
  | some given => (given, caches)
  | none =>
    match table.unique type name with
    | some credentials => (.credentials (.details credentials.details),
        { caches with byName := caches.byName.set (type, name) credentials.details })
    | none => (.credentials nodeCredentials,
        { caches with byName := caches.byName.set (type, name) ⟨none, name⟩ })

/-- Credentials with an id. -/
def replaceById (caches : CredentialsCaches) (type : CredentialType) (id name : String) :
    GivenCredentials × CredentialsCaches :=
  match cached caches.byId type id with
  | some given => (given, caches)
  | none =>
    match table.findOneBy type id with
    | some credentials => (.credentials (.details credentials.details),
        { caches with byId := caches.byId.set (type, id) credentials.details })
    | none =>
      match table.unique type name with
      | some credentials => (.credentials (.details credentials.details),
          { caches with byId := caches.byId.set (type, credentials.id) credentials.details })
      | none => (.credentials (.details ⟨some id, name⟩),
          { caches with byId := caches.byId.set (type, id) ⟨some id, name⟩ })

def replaceCredentials (caches : CredentialsCaches) (type : CredentialType)
    (nodeCredentials : NodeCredentials) : GivenCredentials × CredentialsCaches :=
  match nodeCredentials with
  | .onlyName name => replaceByName table caches type nodeCredentials name
  | .details ⟨none, name⟩ => replaceByName table caches type nodeCredentials name
  | .details ⟨some id, name⟩ => replaceById table caches type id name

/-- The credentials of a node, one type after the other. -/
def replaceAll (caches : CredentialsCaches) :
    List (CredentialType × NodeCredentials) →
      List (CredentialType × GivenCredentials) × CredentialsCaches
  | [] => ([], caches)
  | (type, nodeCredentials) :: allNodeCredentials =>
    let replaced := replaceCredentials table caches type nodeCredentials
    let rest := replaceAll replaced.2 allNodeCredentials
    ((type, replaced.1) :: rest.1, rest.2)

theorem map_fst_replaceAll : ∀ (allNodeCredentials : List (CredentialType × NodeCredentials))
    (caches : CredentialsCaches),
    (replaceAll table caches allNodeCredentials).1.map Prod.fst = allNodeCredentials.map Prod.fst
  | [], _ => rfl
  | (type, nodeCredentials) :: allNodeCredentials, caches => by
    unfold replaceAll
    dsimp only
    rw [List.map_cons, List.map_cons, map_fst_replaceAll allNodeCredentials]

/-- A node with its credentials; `δ` is the rest of it. -/
structure CredentialsNode (γ δ : Type) where
  credentials : Option (Dict CredentialType γ)
  disabled : Bool
  rest : δ
  deriving DecidableEq

variable {δ : Type}

def replaceInNode (caches : CredentialsCaches) (node : CredentialsNode NodeCredentials δ) :
    CredentialsNode GivenCredentials δ × CredentialsCaches :=
  match node.credentials with
  | none => (⟨none, node.disabled, node.rest⟩, caches)
  | some credentials =>
    if node.disabled then
      (⟨some (credentials.mapValues .credentials), node.disabled, node.rest⟩, caches)
    else
      let replaced := replaceAll table caches credentials.entries
      (⟨some ⟨replaced.1, (map_fst_replaceAll table _ _).symm ▸ credentials.nodup⟩, node.disabled,
        node.rest⟩, replaced.2)

def replaceInNodes (caches : CredentialsCaches) :
    List (CredentialsNode NodeCredentials δ) → List (CredentialsNode GivenCredentials δ)
  | [] => []
  | node :: nodes =>
    let replaced := replaceInNode table caches node
    replaced.1 :: replaceInNodes replaced.2 nodes

/-- The nodes of a workflow, if it has any. -/
def replaceInvalidCredentials (nodes : Option (List (CredentialsNode NodeCredentials δ))) :
    Option (List (CredentialsNode GivenCredentials δ)) :=
  nodes.map (replaceInNodes table .empty)

/-- Each node is given what it would be given in a workflow of its own. -/
def SameAsAlone (nodes : Option (List (CredentialsNode NodeCredentials δ))) : Prop :=
  replaceInvalidCredentials table nodes = nodes.map fun nodes =>
    nodes.flatMap fun node => (replaceInvalidCredentials table (some [node])).getD []

instance [DecidableEq δ] (nodes : Option (List (CredentialsNode NodeCredentials δ))) :
    Decidable (SameAsAlone table nodes) :=
  inferInstanceAs (Decidable (_ = _))

/-! ### What the caches are asked for -/

/-- The credentials that are looked up, in their order. -/
def lookedUp (nodes : List (CredentialsNode NodeCredentials δ)) :
    List (CredentialType × NodeCredentials) :=
  nodes.flatMap fun node =>
    match node.credentials with
    | none => []
    | some credentials => if node.disabled then [] else credentials.entries

/-- The name that is looked up for want of an id. -/
def NodeCredentials.oldName : NodeCredentials → Option String
  | .onlyName name => some name
  | .details ⟨none, name⟩ => some name
  | .details ⟨some _, _⟩ => none

/-- A miss of earlier credentials does not change what later ones are given. -/
structure Harmless (earlier later : CredentialType × NodeCredentials) : Prop where
  byName : earlier.1 = later.1 → ∀ name, earlier.2.oldName = some name → later.2 = .onlyName name →
    name ∈ inheritedKeys ∨ (table.unique later.1 name).isSome
  byId : earlier.1 = later.1 → ∀ id name name', earlier.2 = .details ⟨some id, name⟩ →
    later.2 = .details ⟨some id, name'⟩ →
      id ∈ inheritedKeys ∨ (table.findOneBy later.1 id).isSome ∨
        (table.unique later.1 name).isSome ∨ name = name'

/-! ## Variables -/

/-- A variable; `project` is the id of its project, if it is not global. -/
structure Variable where
  key : String
  value : String
  project : Option String
  deriving DecidableEq

namespace Variable

def isGlobal (v : Variable) : Bool := v.project.isNone

/-- It is a variable of the given project. No project has an empty id. -/
def isOf (projectIdToUse : Option String) (v : Variable) : Bool :=
  match projectIdToUse, v.project with
  | some id, some project => id ≠ "" && project = id
  | _, _ => false

end Variable

/-- The variables as they are in the cache, or else in the database, in any order. -/
def getAllCached (cache : Option (List Variable)) (findAll : List Variable) (globalOnly : Bool) :
    List Variable :=
  let stored := cache.getD findAll
  if globalOnly then stored.filter Variable.isGlobal else stored

/-- `acc[key] = value` -/
def setVariable (acc : Dict String String) (curr : Variable) : Dict String String :=
  if curr.key = protoKey then acc else acc.set curr.key curr.value

def addVariable (projectIdToUse : Option String) (acc : Dict String String) (curr : Variable) :
    Dict String String :=
  if curr.isGlobal then setVariable acc curr
  else if curr.isOf projectIdToUse then setVariable acc curr
  else acc

/-- The project that is given, or that of the workflow, which may not be found. -/
def projectToUse (getWorkflowProjectCached : String → Option String)
    (workflowId projectId : Option String) : Option (Option String) :=
  if workflowId.getD "" ≠ "" ∧ projectId.getD "" = "" then
    (getWorkflowProjectCached (workflowId.getD "")).map fun project => some (projectId.getD project)
  else some projectId

/-- There are no variables if the project of the workflow is not found. -/
def getVariables (cache : Option (List Variable)) (findAll : List Variable)
    (getWorkflowProjectCached : String → Option String) (workflowId projectId : Option String) :
    Option (Dict String String) :=
  (projectToUse getWorkflowProjectCached workflowId projectId).map fun projectIdToUse =>
    (getAllCached cache findAll false).foldl (addVariable projectIdToUse) .empty

/-! ### What it is for -/

/-- No two global variables have one key, and no two of the project. -/
structure AtMostOne (projectIdToUse : Option String) (stored : List Variable) : Prop where
  globals : ((stored.filter Variable.isGlobal).map Variable.key).Nodup
  ofProject : ((stored.filter (Variable.isOf projectIdToUse)).map Variable.key).Nodup

/-- The value of the variable of the project if there is one, and of the global one otherwise. -/
def valueFor (projectIdToUse : Option String) (stored : List Variable) (key : String) :
    Option String :=
  match stored.find? fun v => v.isOf projectIdToUse && v.key = key with
  | some v => some v.value
  | none => (stored.find? fun v => v.isGlobal && v.key = key).map Variable.value

/-- Each key has its value, whatever the order that the variables are stored in. -/
structure OverridesGlobals (cache : Option (List Variable)) (findAll : List Variable)
    (getWorkflowProjectCached : String → Option String) (workflowId projectId : Option String) :
    Prop where
  values : ∀ key,
    (getVariables cache findAll getWorkflowProjectCached workflowId projectId).map (·.get? key) =
      (projectToUse getWorkflowProjectCached workflowId projectId).map
        (valueFor · (getAllCached cache findAll false) key)
  anyOrder : ∀ cache' findAll',
    (getAllCached cache' findAll' false).Perm (getAllCached cache findAll false) → ∀ key,
      (getVariables cache' findAll' getWorkflowProjectCached workflowId projectId).map
          (·.get? key) =
        (getVariables cache findAll getWorkflowProjectCached workflowId projectId).map (·.get? key)

/-- No order of the variables matters, as all that are set for a key have one value. -/
structure Unambiguous (projectIdToUse : Option String) (stored : List Variable) : Prop where
  notProto : ∀ v ∈ stored, v.isGlobal ∨ v.isOf projectIdToUse → v.key ≠ protoKey
  sameValue : ∀ g ∈ stored, ∀ v ∈ stored, g.isGlobal → v.isOf projectIdToUse → g.key = v.key →
    g.value = v.value

end WorkflowHelpers

end N8n
