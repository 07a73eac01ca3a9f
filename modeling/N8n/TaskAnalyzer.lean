import Mathlib.Data.List.Sort
import N8n.Library.BoundedCache
import N8n.PythonAst

/-!
# Static analysis of Python tasks

The visitor that looks through the syntax of a task for imports that are not allowed and for names
and attributes that are blocked.
-/

namespace N8n

namespace TaskAnalyzer

open PythonAst

/-! ## Constants -/

def blockedNames : List String :=
  ["__loader__", "__builtins__", "__globals__", "__spec__", "__name__"]

def blockedAttributes : List String :=
  ["__subclasses__", "__globals__", "__builtins__", "__traceback__", "tb_frame", "tb_next", "f_back",
    "f_globals", "f_locals", "f_code", "f_builtins", "__getattribute__", "__qualname__",
    "__module__", "gi_frame", "gi_code", "gi_yieldfrom", "cr_frame", "cr_code", "ag_frame",
    "ag_code", "__thisclass__", "__self_class__", "__base__", "__class__", "__bases__", "__code__",
    "__closure__", "__loader__", "__cached__", "__dict__", "__import__", "__mro__",
    "__init_subclass__", "__getattr__", "__setattr__", "__delattr__", "__self__", "__func__",
    "__wrapped__", "__annotations__", "__spec__"]

def errorRelativeImport : String := "Relative imports are disallowed."

def errorStdlibDisallowed (modulePath allowed : String) : String :=
  "Import of standard library module '" ++ modulePath ++ "' is disallowed. Allowed stdlib modules: " ++
    allowed

def errorExternalDisallowed (modulePath allowed : String) : String :=
  "Import of external package '" ++ modulePath ++ "' is disallowed. Allowed external packages: " ++
    allowed

def errorDangerousName (name : String) : String :=
  "Access to name '" ++ name ++ "' is disallowed, because it can be used to bypass security " ++
    "restrictions."

def errorDangerousAttribute (attr : String) : String :=
  "Access to attribute '" ++ attr ++ "' is disallowed, because it can be used to bypass security " ++
    "restrictions."

def errorNameMangledAttribute : String :=
  "Access to name-mangled attributes (pattern: _ClassName__attr) is disallowed for security reasons."

def errorDynamicImport : String :=
  "Dynamic __import__() calls are not allowed for security reasons."

/-! ## Imports -/

structure SecurityConfig where
  stdlibAllow : List String
  externalAllow : List String
  deriving DecidableEq, Repr

/-- `module_path.split(".")[0]` -/
def moduleName (modulePath : String) : String :=
  String.ofList (modulePath.toList.takeWhile (· ≠ '.'))

section Visitor

variable (stdlibModuleNames : List String) (config : SecurityConfig)

/-- `", ".join(sorted(allow)) if allow else "none"` -/
def allowedText (allow : List String) : String :=
  if allow = [] then "none" else ", ".intercalate (allow.insertionSort (· ≤ ·))

def validateModuleImport (modulePath : String) : Bool × Option String :=
  let name := moduleName modulePath
  let isStdlib := name ∈ stdlibModuleNames
  if isStdlib ∧ ("*" ∈ config.stdlibAllow ∨ name ∈ config.stdlibAllow) then (true, none)
  else if ¬ isStdlib ∧ ("*" ∈ config.externalAllow ∨ name ∈ config.externalAllow) then (true, none)
  else if isStdlib then
    (false, some (errorStdlibDisallowed modulePath (allowedText config.stdlibAllow)))
  else (false, some (errorExternalDisallowed modulePath (allowedText config.externalAllow)))

/-! ## Visiting -/

structure SecurityValidator where
  checkedModules : List String := []
  violations : List String := []
  deriving DecidableEq, Repr

namespace SecurityValidator

variable (v : SecurityValidator)

def addViolation (lineno : ℕ) (message : String) : SecurityValidator :=
  { v with violations := v.violations ++ ["Line " ++ toString lineno ++ ": " ++ message] }

def validateImport (modulePath : String) (lineno : ℕ) : SecurityValidator :=
  if modulePath.startsWith "." then v.addViolation lineno errorRelativeImport
  else
    let name := moduleName modulePath
    if name ∈ v.checkedModules then v
    else
      let v := { v with checkedModules := v.checkedModules ++ [name] }
      match validateModuleImport stdlibModuleNames config modulePath with
      | (true, _) => v
      | (false, message) => v.addViolation lineno (message.getD "None")

/-! ### The kinds of nodes, without the nodes below them -/

def visitImport (names : List Alias) (lineno : ℕ) : SecurityValidator :=
  names.foldl (fun v name => v.validateImport stdlibModuleNames config name.name lineno) v

def visitImportFrom (source : Option String) (level lineno : ℕ) : SecurityValidator :=
  if level > 0 then v.addViolation lineno errorRelativeImport
  else
    match source with
    | none => v
    | some source =>
      if source = "" then v else v.validateImport stdlibModuleNames config source lineno

def visitName (id : String) (lineno : ℕ) : SecurityValidator :=
  if id ∈ blockedNames then v.addViolation lineno (errorDangerousName id) else v

/-- `parts[0]` of `attr.split("__", 1)`, where there are two parts. -/
def beforeDunder : List Char → Option (List Char)
  | '_' :: '_' :: _ => some []
  | c :: cs => (beforeDunder cs).map (c :: ·)
  | [] => none

/-- The attribute has the form `_ClassName__attr`. -/
def isNameMangled (attr : String) : Bool :=
  attr.startsWith "_" && (beforeDunder attr.toList).any (·.head? = some '_')

def visitAttribute (attr : String) (lineno : ℕ) : SecurityValidator :=
  let v := if attr ∈ blockedAttributes then v.addViolation lineno (errorDangerousAttribute attr)
    else v
  if isNameMangled attr then v.addViolation lineno errorNameMangledAttribute else v

/-- `__import__()`, `builtins.__import__()` or `__builtins__.__import__()` -/
def isImportCall : Expr → Bool
  | .Name id _ => id = "__import__"
  | .Attribute (.Name id _) attr _ => attr = "__import__" && (id = "builtins" || id = "__builtins__")
  | _ => false

def visitCall (func : Expr) (args : List Expr) (lineno : ℕ) : SecurityValidator :=
  if isImportCall func then
    match args with
    | .Constant (.str moduleName) :: _ =>
      v.validateImport stdlibModuleNames config moduleName lineno
    | _ => v.addViolation lineno errorDynamicImport
  else v

/-- `__builtins__[...]`, `builtins[...]` or one of them as an attribute -/
def isBuiltinsAccess : Expr → Bool
  | .Name id _ => id = "__builtins__" || id = "builtins"
  | .Attribute _ attr _ => attr = "__builtins__" || attr = "builtins"
  | _ => false

def visitSubscript (value slice : Expr) (lineno : ℕ) : SecurityValidator :=
  if isBuiltinsAccess value then
    match slice with
    | .Constant (.str key) =>
      if key ∈ blockedAttributes then v.addViolation lineno (errorDangerousAttribute key) else v
    | _ => v
  else v

/-- What the visitor does at a node before it visits those below. -/
def visitNode : Node → SecurityValidator
  | .stmt (.Import names lineno) => v.visitImport stdlibModuleNames config names lineno
  | .stmt (.ImportFrom source _ level lineno) =>
    v.visitImportFrom stdlibModuleNames config source level lineno
  | .expr (.Name id lineno) => v.visitName id lineno
  | .expr (.Attribute _ attr lineno) => v.visitAttribute attr lineno
  | .expr (.Call func args _ lineno) => v.visitCall stdlibModuleNames config func args lineno
  | .expr (.Subscript value slice lineno) => v.visitSubscript value slice lineno
  | _ => v

/-- `visit`, with `generic_visit` for the nodes below. -/
def visit (node : Node) (v : SecurityValidator) : SecurityValidator :=
  node.children.attach.foldl (fun v c => visit c.1 v) (v.visitNode stdlibModuleNames config node)
termination_by sizeOf node
decreasing_by exact Node.sizeOf_children c.2

end SecurityValidator

/-- The violations that are found in a module. -/
def violations (tree : Module) : List String :=
  (SecurityValidator.visit stdlibModuleNames config (.module tree) {}).violations

end Visitor

end TaskAnalyzer

end N8n

/-!
## The cache of the static analysis

All analyzers share one cache of the violations that were found, by the digest of the code and the
allowlists in order.
-/

namespace N8n.TaskAnalyzer

open PythonAst

variable {Code Digest Failure : Type}

/-- What the analyzer asks of Python. Code may not be encodable, or it may have a syntax error. -/
structure Python (Code Digest Failure : Type) where
  stdlibModuleNames : List String
  sha256 : Code → Except Failure Digest
  parse : Code → Except Failure Module

/-- `tuple(sorted(...))` of each allowlist -/
abbrev Allowlists := List String × List String

abbrev CacheKey (Digest : Type) := Digest × Allowlists

abbrev ValidationCache (Digest : Type) := Dict (CacheKey Digest) (List String)

def maxValidationCacheSize : ℕ := 500

/-! ## Analyzers -/

structure Analyzer where
  securityConfig : SecurityConfig
  allowlists : Allowlists
  allowAll : Bool

/-- `__init__` -/
def Analyzer.new (securityConfig : SecurityConfig) : Analyzer where
  securityConfig := securityConfig
  allowlists := (securityConfig.stdlibAllow.insertionSort (· ≤ ·),
    securityConfig.externalAllow.insertionSort (· ≤ ·))
  allowAll := "*" ∈ securityConfig.stdlibAllow && "*" ∈ securityConfig.externalAllow

@[simp] theorem Analyzer.new_securityConfig (securityConfig : SecurityConfig) :
    (Analyzer.new securityConfig).securityConfig = securityConfig := rfl

inductive ValidationError (Failure : Type)
  /-- `SecurityViolationError` -/
  | security (message description : String)
  | failure (error : Failure)
  deriving DecidableEq

abbrev ValidationOutcome (Failure : Type) := Except (ValidationError Failure) Unit

def raiseSecurityError (violations : List String) : ValidationOutcome Failure :=
  .error (.security "Security violations detected" ("\n".intercalate violations))

variable [DecidableEq Digest] (py : Python Code Digest Failure)

def Analyzer.toCacheKey (analyzer : Analyzer) (code : Code) : Except Failure (CacheKey Digest) :=
  (py.sha256 code).map fun codeHash => (codeHash, analyzer.allowlists)

/-- The cache after the call, and its outcome. -/
def Analyzer.validate (analyzer : Analyzer) (code : Code) (cache : ValidationCache Digest) :
    ValidationCache Digest × ValidationOutcome Failure :=
  if analyzer.allowAll then (cache, .ok ())
  else
    match analyzer.toCacheKey py code with
    | .error error => (cache, .error (.failure error))
    | .ok cacheKey =>
      match cache.get? cacheKey with
      | some cachedViolations =>
        let cache := BoundedCache.moveToEnd cache cacheKey
        if cachedViolations.length = 0 then (cache, .ok ())
        else (cache, raiseSecurityError cachedViolations)
      | none =>
        match py.parse code with
        | .error error => (cache, .error (.failure error))
        | .ok tree =>
          let violations := violations py.stdlibModuleNames analyzer.securityConfig tree
          let cache := BoundedCache.store maxValidationCacheSize cache cacheKey violations
          if violations ≠ [] then (cache, raiseSecurityError violations) else (cache, .ok ())

/-- Calls of analyzers for the given allowlists, one after the other. -/
def validateAll (cache : ValidationCache Digest) : List (SecurityConfig × Code) →
    ValidationCache Digest × List (ValidationOutcome Failure)
  | [] => (cache, [])
  | (securityConfig, code) :: calls =>
    let (cache, outcome) := (Analyzer.new securityConfig).validate py code cache
    let (cache, outcomes) := validateAll cache calls
    (cache, outcome :: outcomes)

end N8n.TaskAnalyzer
