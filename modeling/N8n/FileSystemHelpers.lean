import N8n.Library.FileTree

/-!
# File access of nodes

The check that a node makes before it reads or writes a file. The allowed and the restricted
directories are the lists that are read from the environment.
-/

namespace N8n

namespace FileSystemHelpers

open Paths FileTree

variable (t : FileTree) (links : ℕ)

/-! ## Paths -/

/-- The place that a path names, as text. -/
def named (path : String) : Location :=
  normalize (t.start path.toList) (components path.toList)

/-- `path.resolve` -/
def resolve (path : String) : String := String.ofList (text (named t path))

def isContainedWithin (parentPath childPath : String) : Bool :=
  let parentPath := resolve t parentPath
  let childPath := resolve t childPath
  if parentPath = childPath then true
  else (parentPath ++ "/").toList.isPrefixOf childPath.toList

def fsRealpath (path : String) : Except WalkError String :=
  match t.walk links path.toList with
  | .found location => .ok (String.ofList (text location))
  | .missing _ => .error .noEntry
  | .error error => .error error

/-! ## The check -/

def resolvedFilePath (filePath : String) : Except WalkError String :=
  match fsRealpath t links filePath with
  | .ok path => .ok path
  | .error .noEntry => .ok (resolve t filePath)
  | .error error => .error error

variable (allowedPaths restrictedPaths : List String)

def isFilePathBlocked (filePath : String) : Except WalkError Bool := do
  let resolvedFilePath ← resolvedFilePath t links filePath
  if restrictedPaths.any (isContainedWithin t · resolvedFilePath) then return true
  if allowedPaths ≠ [] then return !allowedPaths.any (isContainedWithin t · resolvedFilePath)
  return false

/-! ## Reading and writing -/

inductive FileError
  | notAllowed (allowedPaths : List String)
  | notAccessed (filePath : String)
  | notWritable (filePath : String)
  | system (error : WalkError)
  deriving DecidableEq, Repr

/-- The message of an error of the node; an error of the system has its own. -/
def FileError.message : FileError → Option String
  | .notAllowed allowedPaths => some ("Access to the file is not allowed." ++
      if allowedPaths = [] then "" else " Allowed paths: " ++ ", ".intercalate allowedPaths)
  | .notAccessed filePath => some ("The file \"" ++ filePath ++ "\" could not be accessed.")
  | .notWritable filePath => some ("The file \"" ++ filePath ++ "\" is not writable.")
  | .system _ => none

/-- Where a file is opened that is there. -/
def readLocation (filePath : String) : Except WalkError Location :=
  match t.walk links filePath.toList with
  | .found location => .ok location
  | .missing _ => .error .noEntry
  | .error error => .error error

/-- Where a file is opened that is created if it is not there. -/
def writeLocation (filePath : String) : Except WalkError Location :=
  match t.walk links filePath.toList with
  | .found location | .missing location => .ok location
  | .error error => .error error

def createReadStream (filePath : String) : Except FileError Location :=
  match isFilePathBlocked t links allowedPaths restrictedPaths filePath with
  | .error error => .error (.system error)
  | .ok true => .error (.notAllowed allowedPaths)
  | .ok false =>
    match readLocation t links filePath with
    | .ok location => .ok location
    | .error .noEntry => .error (.notAccessed filePath)
    | .error error => .error (.system error)

def writeContentToFile (filePath : String) : Except FileError Location :=
  match isFilePathBlocked t links allowedPaths restrictedPaths filePath with
  | .error error => .error (.system error)
  | .ok true => .error (.notWritable filePath)
  | .ok false => (writeLocation t links filePath).mapError .system

end FileSystemHelpers

end N8n
