import N8n.Library.Dict
import N8n.Library.Forest
import N8n.Library.Runs

/-!
# Folders

The folders of a project are stored with the ids of their parents. They are created, moved, deleted
and handed over to other projects; what is above or below a folder is found by recursive queries,
which go on for ever where a folder is above itself.
-/

namespace N8n

def projectRoot : String := "0"

structure Folder where
  name : String
  parentFolderId : Option String
  projectId : String
  deriving DecidableEq, Repr

/-- What the folders need to know of a workflow: where it is, and the project that owns it. -/
structure FiledWorkflow where
  parentFolderId : Option String
  projectId : String
  isArchived : Bool := false
  deriving DecidableEq, Repr

structure FolderTables where
  folders : Dict String Folder := .empty
  workflows : Dict String FiledWorkflow := .empty
  deriving DecidableEq

inductive FolderError
  /-- `FolderNotFoundError` -/
  | folderNotFound (folderId : String)
  /-- `findOneOrFail` -/
  | entityNotFound
  | user (message : String)
  | notFound (message : String)
  | transferWorkflow (message : String)
  | uniqueViolation
  /-- The query does not end. -/
  | endless
  deriving DecidableEq, Repr

/-- The tables that a request leaves, and its error if it fails. -/
structure FolderOutcome where
  tables : FolderTables
  error : Option FolderError := none
  deriving DecidableEq

namespace FolderTables

variable (t : FolderTables)

def parentOf (folderId : String) : Option String :=
  (t.folders.get? folderId).bind (·.parentFolderId)

/-- `toFolderId === PROJECT_ROOT ? null : { id: toFolderId }` -/
def toParent (toFolderId : String) : Option String :=
  if toFolderId = projectRoot then none else some toFolderId

def findOneOrFailFolderInProject (folderId projectId : String) : Option Folder :=
  (t.folders.get? folderId).filter (·.projectId = projectId)

/-- `update(Folder, where, change)` -/
def updateFolders (where_ : String → Folder → Bool) (change : Folder → Folder) : FolderTables :=
  { t with folders := t.folders.mapEntries fun folderId folder =>
      if where_ folderId folder then change folder else folder }

/-- `update(WorkflowEntity, where, change)` -/
def updateWorkflows (where_ : String → FiledWorkflow → Bool)
    (change : FiledWorkflow → FiledWorkflow) : FolderTables :=
  { t with workflows := t.workflows.mapEntries fun workflowId workflow =>
      if where_ workflowId workflow then change workflow else workflow }

/-! ## Above a folder -/

structure FolderPathRow where
  folder_id : String
  folder_name : String
  folder_parent_folder_id : Option String
  deriving DecidableEq

/-- The common table expression of `getFolderTree`: a way up that is longer than there are folders
never ends. -/
def folderPath (folderId : String) : Option (List String) :=
  if (t.folders.get? folderId).isSome then
    Forest.climb t.parentOf (t.folders.size + 1) folderId
  else some []

/-- The rows are not ordered. -/
def folderPathRows (arrange : List FolderPathRow → List FolderPathRow) (folderId : String) :
    Option (List FolderPathRow) := do
  let path ← t.folderPath folderId
  return arrange <| (t.folders.entries.filter fun (folder_id, _) => folder_id ∈ path).map
    fun (folder_id, folder) =>
      { folder_id, folder_name := folder.name, folder_parent_folder_id := folder.parentFolderId }

end FolderTables

open FolderTables (FolderPathRow)

inductive SimpleFolderNode
  | mk (id name : String) (children : List SimpleFolderNode)

/-- The parent of a folder, if it is in the path. -/
def parentRow (flatPath : List FolderPathRow) (folder : FolderPathRow) : Option String :=
  folder.folder_parent_folder_id.filter fun parent =>
    parent ≠ "" && parent ∈ flatPath.map (·.folder_id)

/-- Each node gets one child, the last one that is set. -/
def onlyChild (flatPath : List FolderPathRow) : Dict String FolderPathRow :=
  flatPath.foldl (fun children folder =>
    match parentRow flatPath folder with
    | none => children
    | some parent => children.set parent folder) .empty

/-- The last one that is set. -/
def rootNode (flatPath : List FolderPathRow) : Option FolderPathRow :=
  (flatPath.filter fun folder => (parentRow flatPath folder).isNone).getLast?

/-- The node with what is below it, no deeper than there are nodes. -/
def nodeBelow (children : Dict String FolderPathRow) : ℕ → FolderPathRow → SimpleFolderNode
  | 0, folder => .mk folder.folder_id folder.folder_name []
  | depth + 1, folder =>
    .mk folder.folder_id folder.folder_name
      ((children.get? folder.folder_id).toList.map (nodeBelow children depth))

def transformFolderPathToTree (flatPath : List FolderPathRow) : List SimpleFolderNode :=
  ((rootNode flatPath).toList).map (nodeBelow (onlyChild flatPath) flatPath.length)

mutual

def isDescendant (folderId : String) : List SimpleFolderNode → Bool
  | [] => false
  | node :: nodes => isDescendantOf folderId node || isDescendant folderId nodes

def isDescendantOf (folderId : String) : SimpleFolderNode → Bool
  | .mk id _ children => id = folderId || isDescendant folderId children

end

namespace FolderTables

variable (t : FolderTables)

/-- The query of `getFolderTree`, once the folder has been found. -/
def getFolderTree (arrange : List FolderPathRow → List FolderPathRow) (folderId : String) :
    Except FolderError (List SimpleFolderNode) :=
  match t.folderPathRows arrange folderId with
  | none => .error .endless
  | some rows => .ok (transformFolderPathToTree rows)

/-! ## Below a folder -/

/-- The children of the folders that are in the project. -/
def childrenIn (projectId : String) (folderIds : List String) : List String :=
  (t.folders.entries.filter fun (_, folder) =>
    folder.projectId = projectId && folder.parentFolderId.any (· ∈ folderIds)).map (·.1)

/-- The children, and from level to level what is below them: a search that goes deeper than there
are folders never ends. -/
def getAllFolderIdsInHierarchy (parentFolderId projectId : String) : Option (List String) :=
  (Forest.levels (t.childrenIn projectId) (t.folders.size + 1)
    (t.childrenIn projectId [parentFolderId])).map List.dedup

/-- Whether a folder is this one or below it, as the foreign keys have it. -/
def isUnder (folderId : String) : ℕ → String → Bool
  | 0, _ => false
  | depth + 1, id => id = folderId || (t.parentOf id).any (isUnder folderId depth)

/-- `delete(Folder, { id: folderId })`: what is below the folder goes with it, and so do all
workflows there. -/
def deleteFolderRow (folderId : String) : FolderTables :=
  let gone (id : String) : Bool := t.isUnder folderId (t.folders.size + 1) id
  { folders := t.folders.filterKeys (!gone ·)
    workflows := t.workflows.filter fun workflow => !workflow.parentFolderId.any gone }

/-! ## Requests -/

def folderNotFound (folderId : String) : FolderOutcome := ⟨t, some (.folderNotFound folderId)⟩

def insertFolder (newId : String) (folder : Folder) : FolderTables :=
  { t with folders := t.folders.set newId folder }

/-- The id is generated, and the table does not take one twice. -/
def createFolder (newId name : String) (parentFolderId : Option String) (projectId : String) :
    FolderOutcome :=
  let save (parentFolder : Option String) : FolderOutcome :=
    if (t.folders.get? newId).isSome then ⟨t, some .uniqueViolation⟩
    else ⟨t.insertFolder newId { name, parentFolderId := parentFolder, projectId }, none⟩
  match parentFolderId.filter (· ≠ "") with
  | none => save none
  | some parentFolderId =>
    if (t.findOneOrFailFolderInProject parentFolderId projectId).isSome then
      save (some parentFolderId)
    else t.folderNotFound parentFolderId

def ownParentMessage : String := "Cannot set a folder as its own parent"

def descendantMessage : String :=
  "Cannot set a folder's parent to a folder that is a descendant of the current folder"

/-- Why a folder may not get the parent. -/
def checkParent (arrange : List FolderPathRow → List FolderPathRow)
    (folderId projectId parentFolderId : String) : Option FolderError :=
  if folderId = parentFolderId then some (.user ownParentMessage)
  else if parentFolderId = projectRoot then none
  else if (t.findOneOrFailFolderInProject parentFolderId projectId).isNone then
    some (.folderNotFound parentFolderId)
  else
    match t.getFolderTree arrange parentFolderId with
    | .error e => some e
    | .ok parentFolderPath =>
      if isDescendant folderId parentFolderPath then some (.user descendantMessage) else none

/-- The name is written before the parent is looked at. -/
def updateFolder (arrange : List FolderPathRow → List FolderPathRow) (folderId projectId : String)
    (name parentFolderId : Option String) : FolderOutcome :=
  if (t.findOneOrFailFolderInProject folderId projectId).isNone then t.folderNotFound folderId
  else
    let t := match name.filter (· ≠ "") with
      | none => t
      | some name => t.updateFolders (fun id _ => id = folderId) ({ · with name })
    match parentFolderId.filter (· ≠ "") with
    | none => ⟨t, none⟩
    | some parentFolderId =>
      match t.checkParent arrange folderId projectId parentFolderId with
      | some e => ⟨t, some e⟩
      | none => ⟨t.updateFolders (fun id _ => id = folderId)
          ({ · with parentFolderId := toParent parentFolderId }), none⟩

def isFiledIn (folderIds : List String) (workflow : FiledWorkflow) : Bool :=
  workflow.parentFolderId.any (· ∈ folderIds)

/-- The workflows are archived, where the user may delete them, and moved to the root. -/
def archiveAndMove (mayArchive : String → Bool) (folderIds : List String) : FolderTables :=
  (t.updateWorkflows (fun id workflow => mayArchive id && isFiledIn folderIds workflow)
    ({ · with isArchived := true })).updateWorkflows (fun _ => isFiledIn folderIds)
      ({ · with parentFolderId := none })

def flattenAndArchive (mayArchive : String → Bool) (folderId projectId : String) :
    Option FolderTables := do
  let subFolderIds ← t.getAllFolderIdsInHierarchy folderId projectId
  return t.archiveAndMove mayArchive (folderId :: subFolderIds)

/-- `folderRepository.moveAllToFolder` and `workflowRepository.moveAllToFolder` -/
def moveAllToFolder (fromFolderId toFolderId : String) : FolderTables :=
  (t.updateFolders (fun _ folder => folder.parentFolderId = some fromFolderId)
    ({ · with parentFolderId := toParent toFolderId })).updateWorkflows
      (fun _ workflow => workflow.parentFolderId = some fromFolderId)
      ({ · with parentFolderId := toParent toFolderId })

def transferToDeletedMessage : String :=
  "Cannot transfer folder contents to the folder being deleted"

def deleteFolder (mayArchive : String → Bool) (folderId projectId : String)
    (transferToFolderId : Option String) : FolderOutcome :=
  if (t.findOneOrFailFolderInProject folderId projectId).isNone then t.folderNotFound folderId
  else
    match transferToFolderId.filter (· ≠ "") with
    | none =>
      match t.flattenAndArchive mayArchive folderId projectId with
      | none => ⟨t, some .endless⟩
      | some flat => ⟨flat.deleteFolderRow folderId, none⟩
    | some transferToFolderId =>
      if folderId = transferToFolderId then ⟨t, some (.user transferToDeletedMessage)⟩
      else if transferToFolderId ≠ projectRoot ∧
          (t.findOneOrFailFolderInProject transferToFolderId projectId).isNone then
        t.folderNotFound transferToFolderId
      else ⟨(t.moveAllToFolder folderId transferToFolderId).deleteFolderRow folderId, none⟩

def noDestinationProjectMessage (destinationProjectId : String) : String :=
  "Could not find project with the id \"" ++ destinationProjectId ++
    "\". Make sure you have the permission to create workflows in it."

def ownWorkflowMessage : String :=
  "You can't transfer a workflow into the project that's already owning it."

/-- `EnterpriseWorkflowService.transferFolder`. `mayCreate` says whether the user may create
workflows in the destination project. -/
def transferFolder (mayCreate : Bool) (sourceProjectId sourceFolderId destinationProjectId
    destinationParentFolderId : String) : FolderOutcome :=
  match t.getAllFolderIdsInHierarchy sourceFolderId sourceProjectId with
  | none => ⟨t, some .endless⟩
  | some childrenFolderIds =>
    let filed := isFiledIn (childrenFolderIds ++ [sourceFolderId])
    if !mayCreate then ⟨t, some (.notFound (noDestinationProjectMessage destinationProjectId))⟩
    else if destinationParentFolderId ≠ projectRoot ∧
        (t.findOneOrFailFolderInProject destinationParentFolderId destinationProjectId).isNone then
      ⟨t, some .entityNotFound⟩
    else if (t.findOneOrFailFolderInProject sourceFolderId sourceProjectId).isNone then
      ⟨t, some .entityNotFound⟩
    else if t.workflows.entries.any fun (_, workflow) =>
        filed workflow && workflow.projectId = destinationProjectId then
      ⟨t, some (.transferWorkflow ownWorkflowMessage)⟩
    else
      let owned := t.updateWorkflows (fun _ => filed) ({ · with projectId := destinationProjectId })
      let moved := owned.updateFolders (fun folderId _ => folderId ∈ childrenFolderIds)
        ({ · with projectId := destinationProjectId })
      ⟨moved.updateFolders (fun folderId _ => folderId = sourceFolderId)
        ({ · with
          projectId := destinationProjectId
          parentFolderId := toParent destinationParentFolderId }), none⟩

def transferAllFoldersToProject (fromProjectId toProjectId : String) : FolderTables :=
  t.updateFolders (fun _ folder => folder.projectId = fromProjectId)
    ({ · with projectId := toProjectId })

/-- The folder of a workflow, as `WorkflowService.update` sets it. -/
def fileWorkflow (workflowId parentFolderId : String) : FolderOutcome :=
  match t.workflows.get? workflowId with
  | none => ⟨t, none⟩
  | some workflow =>
    if parentFolderId = "" then ⟨t, none⟩
    else if parentFolderId ≠ projectRoot ∧
        (t.findOneOrFailFolderInProject parentFolderId workflow.projectId).isNone then
      t.folderNotFound parentFolderId
    else ⟨t.updateWorkflows (fun id _ => id = workflowId)
      ({ · with parentFolderId := toParent parentFolderId }), none⟩

end FolderTables

/-- An id as it is generated for a new row. -/
abbrev NanoId := { id : String // id ≠ "" }

inductive FolderRequest
  | create (newId : NanoId) (name : String) (parentFolderId : Option String) (projectId : String)
  | update (folderId projectId : String) (name parentFolderId : Option String)
  | delete (mayArchive : String → Bool) (folderId projectId : String)
      (transferToFolderId : Option String)
  | transfer (mayCreate : Bool) (sourceProjectId sourceFolderId destinationProjectId
      destinationParentFolderId : String)
  | transferAll (fromProjectId toProjectId : String)
  | file (workflowId parentFolderId : String)

namespace FolderTables

variable (arrange : List FolderPathRow → List FolderPathRow) (t : FolderTables)

def handle : FolderRequest → FolderOutcome
  | .create newId name parentFolderId projectId =>
    t.createFolder newId name parentFolderId projectId
  | .update folderId projectId name parentFolderId =>
    t.updateFolder arrange folderId projectId name parentFolderId
  | .delete mayArchive folderId projectId transferToFolderId =>
    t.deleteFolder mayArchive folderId projectId transferToFolderId
  | .transfer mayCreate sourceProjectId sourceFolderId destinationProjectId
      destinationParentFolderId =>
    t.transferFolder mayCreate sourceProjectId sourceFolderId destinationProjectId
      destinationParentFolderId
  | .transferAll fromProjectId toProjectId =>
    ⟨t.transferAllFoldersToProject fromProjectId toProjectId, none⟩
  | .file workflowId parentFolderId => t.fileWorkflow workflowId parentFolderId

def step (request : FolderRequest) : FolderTables := (t.handle arrange request).tables

/-! ## Forests of folders -/

/-- The first folder is below the second, or is it. -/
def AtOrBelow : String → String → Prop := Relation.ReflTransGen (Forest.Up t.parentOf)

def Below : String → String → Prop := Relation.TransGen (Forest.Up t.parentOf)

/-- The folders are a forest in which each is in the project of its parent, and workflows are in
folders that are there. -/
structure Sound : Prop where
  named : ∀ folderId, (t.folders.get? folderId).isSome → folderId ≠ ""
  parents : ∀ folderId folder parentId, t.folders.get? folderId = some folder →
    folder.parentFolderId = some parentId →
    ∃ parent, t.folders.get? parentId = some parent ∧ parent.projectId = folder.projectId
  acyclic : Forest.Acyclic t.parentOf
  homes : ∀ workflowId workflow parentId, t.workflows.get? workflowId = some workflow →
    workflow.parentFolderId = some parentId → (t.folders.get? parentId).isSome

/-- The contents of a folder that is deleted go below the folder itself, or a folder goes to itself
or below itself within its project. No workflow that it has in this project stands in the way. -/
def IntoItself : FolderRequest → Prop
  | .delete _ folderId projectId (some transferToFolderId) =>
    (t.findOneOrFailFolderInProject folderId projectId).isSome ∧ transferToFolderId ≠ projectRoot ∧
      t.Below transferToFolderId folderId
  | .transfer mayCreate sourceProjectId sourceFolderId destinationProjectId
      destinationParentFolderId =>
    mayCreate ∧ (t.findOneOrFailFolderInProject sourceFolderId sourceProjectId).isSome ∧
      (t.findOneOrFailFolderInProject destinationParentFolderId destinationProjectId).isSome ∧
      destinationParentFolderId ≠ projectRoot ∧
      t.AtOrBelow destinationParentFolderId sourceFolderId ∧
      ∀ workflowId workflow parentId, t.workflows.get? workflowId = some workflow →
        workflow.parentFolderId = some parentId → t.AtOrBelow parentId sourceFolderId →
        workflow.projectId ≠ destinationProjectId
  | _ => False

/-! ## What a deletion does -/

/-- The folder and all that is below it are gone. The workflows that were there are at the root, and
archived where the user may. -/
structure Flattens (mayArchive : String → Bool) (folderId : String) (t' : FolderTables) : Prop where
  gone : ∀ id, t.AtOrBelow id folderId → t'.folders.get? id = none
  kept : ∀ id, ¬ t.AtOrBelow id folderId → t'.folders.get? id = t.folders.get? id
  raised : ∀ id workflow parentId, t.workflows.get? id = some workflow →
    workflow.parentFolderId = some parentId → t.AtOrBelow parentId folderId →
    t'.workflows.get? id = some { workflow with
      parentFolderId := none
      isArchived := workflow.isArchived || mayArchive id }
  left : ∀ id, (∀ workflow parentId, t.workflows.get? id = some workflow →
      workflow.parentFolderId = some parentId → ¬ t.AtOrBelow parentId folderId) →
    t'.workflows.get? id = t.workflows.get? id

/-- The folder is gone. What was in it is in the other folder, or at the root. -/
structure HandsOver (folderId : String) (target : Option String) (t' : FolderTables) : Prop where
  gone : t'.folders.get? folderId = none
  folders : ∀ id ≠ folderId, t'.folders.get? id = (t.folders.get? id).map fun folder =>
    if folder.parentFolderId = some folderId then { folder with parentFolderId := target }
    else folder
  workflows : ∀ id, t'.workflows.get? id = (t.workflows.get? id).map fun workflow =>
    if workflow.parentFolderId = some folderId then { workflow with parentFolderId := target }
    else workflow

/-- The contents are handed over to the target, if there is one, or they go as well. -/
def Deletes (mayArchive : String → Bool) (folderId : String) :
    Option String → FolderTables → Prop
  | none, t' => t.Flattens mayArchive folderId t'
  | some target, t' => t.HandsOver folderId (toParent target) t'

/-- The folder is in the project, and so is the target, another folder or the root. -/
def MayDelete (folderId projectId : String) (target : Option String) : Prop :=
  (t.findOneOrFailFolderInProject folderId projectId).isSome ∧ ∀ toFolderId ∈ target,
    folderId ≠ toFolderId ∧ (toFolderId = projectRoot ∨
      (t.findOneOrFailFolderInProject toFolderId projectId).isSome)

end FolderTables

end N8n
