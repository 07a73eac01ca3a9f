import N8n.FileSystemHelpers
import N8n.Library.Fallible

/-!
# Paths of source-controlled files

A path that comes with a request is joined to the git folder, unless it is absolute, and must lie in
it.
-/

namespace N8n

namespace SourceControlPaths

open Paths FileSystemHelpers

/-! ## Joining -/

/-- The components of a relative path, which may go up from where it starts. -/
def normalizeRelative : List Name → List Name → List Name
  | names, [] => names
  | names, name :: rest =>
    if name = [] ∨ name = ['.'] then normalizeRelative names rest
    else if name = ['.', '.'] ∧ names ≠ [] ∧ names.getLast? ≠ some ['.', '.'] then
      normalizeRelative names.dropLast rest
    else normalizeRelative (names ++ [name]) rest

/-- `path.normalize`. A slash at the end stays. -/
def normalizePath (path : List Char) : List Char :=
  let trailing := if path.getLast? = some '/' then ['/'] else []
  if path = [] then ['.']
  else if isAbsolute path then
    let location := normalize [] (components path)
    if location = [] then ['/'] else text location ++ trailing
  else
    let names := normalizeRelative [] (components path)
    if names = [] then '.' :: trailing else List.intercalate ['/'] names ++ trailing

/-- `path.join` -/
def join (paths : List String) : String :=
  let joined := List.intercalate ['/'] ((paths.map String.toList).filter (· ≠ []))
  String.ofList (if joined = [] then ['.'] else normalizePath joined)

/-! ## Validating -/

inductive PathError
  /-- `Path traversal detected, refusing to join paths: ...` -/
  | traversal (parentPath : String) (paths : List String)
  /-- `File path ... is invalid` -/
  | invalid (filePath : String)
  /-- `gitFolder must be an absolute path` -/
  | notAbsolute
  deriving DecidableEq, Repr

variable (t : FileTree)

def safeJoinPath (parentPath : String) (paths : List String) : Except PathError String :=
  let candidate := join (parentPath :: paths)
  if isContainedWithin t parentPath candidate then .ok candidate
  else .error (.traversal parentPath paths)

/-- `normalizedPath` -/
def normalizedPath (gitFolderPath filePath : String) : Except PathError String :=
  if isAbsolute filePath.toList then .ok filePath else safeJoinPath t gitFolderPath [filePath]

def normalizeAndValidateSourceControlledFilePath (gitFolderPath filePath : String) :
    Except PathError String :=
  if !isAbsolute gitFolderPath.toList then .error .notAbsolute
  else do
    let normalizedPath ← normalizedPath t gitFolderPath filePath
    if isContainedWithin t gitFolderPath filePath then .ok normalizedPath
    else .error (.invalid filePath)

/-! ## What it is for -/

/-- The place of an absolute path. -/
def place (path : String) : Location := normalize [] (components path.toList)

/-- The place that a path denotes, from the folder if it is relative. -/
def denoted (gitFolderPath filePath : String) : Location :=
  if isAbsolute filePath.toList then place filePath
  else normalize (place gitFolderPath) (components filePath.toList)

/-- Just the paths to places in the folder are accepted, and made absolute ones in it. -/
def ValidatesExactly (gitFolderPath filePath : String) : Prop :=
  ((∃ path, normalizeAndValidateSourceControlledFilePath t gitFolderPath filePath = .ok path) ↔
    place gitFolderPath <+: denoted gitFolderPath filePath) ∧
  ∀ path, normalizeAndValidateSourceControlledFilePath t gitFolderPath filePath = .ok path →
    isAbsolute path.toList = true ∧ place gitFolderPath <+: place path

end SourceControlPaths

end N8n
