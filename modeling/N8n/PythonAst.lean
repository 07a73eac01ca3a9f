import Mathlib.Data.List.Basic

/-!
# The abstract syntax of Python modules

The nodes of `ast` in Python 3.13, with the fields in their order. Contexts, operators, comments and
flags are left out, which have no nodes below them, and a line number is kept where it is read.
-/

namespace N8n

namespace PythonAst

/-! ## Expressions -/

inductive Constant
  | str (value : String)
  | other
  deriving DecidableEq, Repr

mutual

inductive Expr
  | BoolOp (values : List Expr)
  | NamedExpr (target value : Expr)
  | BinOp (left right : Expr)
  | UnaryOp (operand : Expr)
  | Lambda (args : Arguments) (body : Expr)
  | IfExp (test body orelse : Expr)
  | Dict (keys : List (Option Expr)) (values : List Expr)
  | Set (elts : List Expr)
  | ListComp (elt : Expr) (generators : List Comprehension)
  | SetComp (elt : Expr) (generators : List Comprehension)
  | DictComp (key value : Expr) (generators : List Comprehension)
  | GeneratorExp (elt : Expr) (generators : List Comprehension)
  | Await (value : Expr)
  | Yield (value : Option Expr)
  | YieldFrom (value : Expr)
  | Compare (left : Expr) (comparators : List Expr)
  | Call (func : Expr) (args : List Expr) (keywords : List Keyword) (lineno : ℕ)
  | FormattedValue (value : Expr) (formatSpec : Option Expr)
  | JoinedStr (values : List Expr)
  | Constant (value : Constant)
  | Attribute (value : Expr) (attr : String) (lineno : ℕ)
  | Subscript (value slice : Expr) (lineno : ℕ)
  | Starred (value : Expr)
  | Name (id : String) (lineno : ℕ)
  | List (elts : List Expr)
  | Tuple (elts : List Expr)
  | Slice (lower upper step : Option Expr)

inductive Comprehension
  | mk (target iter : Expr) (ifs : List Expr)

inductive Arguments
  | mk (posonlyargs args : List Arg) (vararg : Option Arg) (kwonlyargs : List Arg)
      (kwDefaults : List (Option Expr)) (kwarg : Option Arg) (defaults : List Expr)

inductive Arg
  | mk (arg : String) ( annotation : Option Expr)

inductive Keyword
  | mk (arg : Option String) (value : Expr)

end

/-! ## Patterns -/

inductive Pattern
  | MatchValue (value : Expr)
  | MatchSingleton (value : Constant)
  | MatchSequence (patterns : List Pattern)
  | MatchMapping (keys : List Expr) (patterns : List Pattern) (rest : Option String)
  | MatchClass (cls : Expr) (patterns : List Pattern) (kwdAttrs : List String)
      (kwdPatterns : List Pattern)
  | MatchStar (name : Option String)
  | MatchAs (pattern : Option Pattern) (name : Option String)
  | MatchOr (patterns : List Pattern)

/-! ## Statements -/

structure Alias where
  name : String
  asname : Option String := none
  deriving DecidableEq, Repr

structure WithItem where
  contextExpr : Expr
  optionalVars : Option Expr

inductive TypeParam
  | TypeVar (name : String) (bound defaultValue : Option Expr)
  | ParamSpec (name : String) (defaultValue : Option Expr)
  | TypeVarTuple (name : String) (defaultValue : Option Expr)

mutual

inductive Stmt
  | FunctionDef (name : String) (args : Arguments) (body : List Stmt) (decoratorList : List Expr)
      (returns : Option Expr) (typeParams : List TypeParam)
  | AsyncFunctionDef (name : String) (args : Arguments) (body : List Stmt)
      (decoratorList : List Expr) (returns : Option Expr) (typeParams : List TypeParam)
  | ClassDef (name : String) (bases : List Expr) (keywords : List Keyword) (body : List Stmt)
      (decoratorList : List Expr) (typeParams : List TypeParam)
  | Return (value : Option Expr)
  | Delete (targets : List Expr)
  | Assign (targets : List Expr) (value : Expr)
  | TypeAlias (name : Expr) (typeParams : List TypeParam) (value : Expr)
  | AugAssign (target value : Expr)
  | AnnAssign (target annotation : Expr) (value : Option Expr)
  | For (target iter : Expr) (body orelse : List Stmt)
  | AsyncFor (target iter : Expr) (body orelse : List Stmt)
  | While (test : Expr) (body orelse : List Stmt)
  | If (test : Expr) (body orelse : List Stmt)
  | With (items : List WithItem) (body : List Stmt)
  | AsyncWith (items : List WithItem) (body : List Stmt)
  | Match (subject : Expr) (cases : List MatchCase)
  | Raise (exc cause : Option Expr)
  | Try (body : List Stmt) (handlers : List ExceptHandler) (orelse finalbody : List Stmt)
  | TryStar (body : List Stmt) (handlers : List ExceptHandler) (orelse finalbody : List Stmt)
  | Assert (test : Expr) (msg : Option Expr)
  | Import (names : List Alias) (lineno : ℕ)
  | ImportFrom (source : Option String) (names : List Alias) (level lineno : ℕ)
  | Global (names : List String)
  | Nonlocal (names : List String)
  | Expr (value : Expr)
  | Pass
  | Break
  | Continue

inductive ExceptHandler
  | mk (type : Option Expr) (name : Option String) (body : List Stmt)

inductive MatchCase
  | mk (pattern : Pattern) (guard : Option Expr) (body : List Stmt)

end

structure Module where
  body : List Stmt

/-! ## Nodes -/

/-- A node of any kind. -/
inductive Node
  | module (node : Module)
  | stmt (node : Stmt)
  | expr (node : Expr)
  | pattern (node : Pattern)
  | comprehension (node : Comprehension)
  | arguments (node : Arguments)
  | arg (node : Arg)
  | keyword (node : Keyword)
  | importAlias (node : Alias)
  | withItem (node : WithItem)
  | typeParam (node : TypeParam)
  | exceptHandler (node : ExceptHandler)
  | matchCase (node : MatchCase)

namespace Node

def exprs (nodes : List Expr) : List Node := nodes.map expr

def expr? (node : Option Expr) : List Node := node.toList.map expr

def stmts (nodes : List Stmt) : List Node := nodes.map stmt

def ofExpr : Expr → List Node
  | .BoolOp values => exprs values
  | .NamedExpr target value => [expr target, expr value]
  | .BinOp left right => [expr left, expr right]
  | .UnaryOp operand => [expr operand]
  | .Lambda args body => [arguments args, expr body]
  | .IfExp test body orelse => [expr test, expr body, expr orelse]
  | .Dict keys values => keys.flatMap expr? ++ exprs values
  | .Set elts => exprs elts
  | .ListComp elt generators | .SetComp elt generators | .GeneratorExp elt generators =>
    expr elt :: generators.map comprehension
  | .DictComp key value generators => expr key :: expr value :: generators.map comprehension
  | .Await value | .YieldFrom value | .Starred value => [expr value]
  | .Yield value => expr? value
  | .Compare left comparators => expr left :: exprs comparators
  | .Call func args keywords _ => expr func :: (exprs args ++ keywords.map keyword)
  | .FormattedValue value formatSpec => expr value :: expr? formatSpec
  | .JoinedStr values => exprs values
  | .Constant _ | .Name _ _ => []
  | .Attribute value _ _ => [expr value]
  | .Subscript value slice _ => [expr value, expr slice]
  | .List elts | .Tuple elts => exprs elts
  | .Slice lower upper step => expr? lower ++ expr? upper ++ expr? step

def ofPattern : Pattern → List Node
  | .MatchValue value => [expr value]
  | .MatchSingleton _ | .MatchStar _ => []
  | .MatchSequence patterns | .MatchOr patterns => patterns.map pattern
  | .MatchMapping keys patterns _ => exprs keys ++ patterns.map pattern
  | .MatchClass cls patterns _ kwdPatterns =>
    expr cls :: (patterns.map pattern ++ kwdPatterns.map pattern)
  | .MatchAs node _ => node.toList.map pattern

def ofStmt : Stmt → List Node
  | .FunctionDef _ args body decoratorList returns typeParams
  | .AsyncFunctionDef _ args body decoratorList returns typeParams =>
    arguments args ::
      (stmts body ++ exprs decoratorList ++ expr? returns ++ typeParams.map typeParam)
  | .ClassDef _ bases keywords body decoratorList typeParams =>
    exprs bases ++ keywords.map keyword ++ stmts body ++ exprs decoratorList ++
      typeParams.map typeParam
  | .Return value => expr? value
  | .Delete targets => exprs targets
  | .Assign targets value => exprs targets ++ [expr value]
  | .TypeAlias name typeParams value => expr name :: (typeParams.map typeParam ++ [expr value])
  | .AugAssign target value => [expr target, expr value]
  | .AnnAssign target annotation value => expr target :: expr annotation :: expr? value
  | .For target iter body orelse | .AsyncFor target iter body orelse =>
    expr target :: expr iter :: (stmts body ++ stmts orelse)
  | .While test body orelse | .If test body orelse => expr test :: (stmts body ++ stmts orelse)
  | .With items body | .AsyncWith items body => items.map withItem ++ stmts body
  | .Match subject cases => expr subject :: cases.map matchCase
  | .Raise exc cause => expr? exc ++ expr? cause
  | .Try body handlers orelse finalbody | .TryStar body handlers orelse finalbody =>
    stmts body ++ handlers.map exceptHandler ++ stmts orelse ++ stmts finalbody
  | .Assert test msg => expr test :: expr? msg
  | .Import names _ | .ImportFrom _ names _ _ => names.map importAlias
  | .Global _ | .Nonlocal _ | .Pass | .Break | .Continue => []
  | .Expr value => [expr value]

def ofTypeParam : TypeParam → List Node
  | .TypeVar _ bound defaultValue => expr? bound ++ expr? defaultValue
  | .ParamSpec _ defaultValue | .TypeVarTuple _ defaultValue => expr? defaultValue

/-- The nodes in the fields of a node, in the order of the fields. -/
def children : Node → List Node
  | module node => stmts node.body
  | stmt node => ofStmt node
  | expr node => ofExpr node
  | pattern node => ofPattern node
  | comprehension (.mk target iter ifs) => expr target :: expr iter :: exprs ifs
  | arguments (.mk posonlyargs args vararg kwonlyargs kwDefaults kwarg defaults) =>
    posonlyargs.map arg ++ args.map arg ++ vararg.toList.map arg ++ kwonlyargs.map arg ++
      kwDefaults.flatMap expr? ++ kwarg.toList.map arg ++ exprs defaults
  | arg (.mk _ annotation) => expr? annotation
  | keyword (.mk _ value) => [expr value]
  | importAlias _ => []
  | withItem node => expr node.contextExpr :: expr? node.optionalVars
  | typeParam node => ofTypeParam node
  | exceptHandler (.mk type _ body) => expr? type ++ stmts body
  | matchCase (.mk node guard body) => pattern node :: (expr? guard ++ stmts body)

/-! ## Sizes -/

theorem sizeOf_lt_of_mem_map {α : Type} [SizeOf α] {f : α → Node}
    (hf : ∀ a, sizeOf (f a) = 1 + sizeOf a) {nodes : List α} {c : Node} (h : c ∈ nodes.map f) :
    sizeOf c < 1 + sizeOf nodes := by
  obtain ⟨a, ha, rfl⟩ := List.mem_map.1 h
  have hlt := List.sizeOf_lt_of_mem ha
  rw [hf]
  omega

theorem sizeOf_lt_of_mem_toList {α : Type} [SizeOf α] {f : α → Node}
    (hf : ∀ a, sizeOf (f a) = 1 + sizeOf a) {node : Option α} {c : Node}
    (h : c ∈ node.toList.map f) : sizeOf c < 1 + sizeOf node := by
  cases node with
  | none => cases h
  | some a =>
    rw [List.mem_singleton.1 h, hf, Option.some.sizeOf_spec]
    omega

@[grind →] theorem sizeOf_lt_of_mem_exprs {nodes : List Expr} {c : Node} (h : c ∈ exprs nodes) :
    sizeOf c < 1 + sizeOf nodes :=
  sizeOf_lt_of_mem_map (fun _ => by rw [expr.sizeOf_spec]) h

@[grind →] theorem sizeOf_lt_of_mem_expr? {node : Option Expr} {c : Node} (h : c ∈ expr? node) :
    sizeOf c < 1 + sizeOf node :=
  sizeOf_lt_of_mem_toList (fun _ => by rw [expr.sizeOf_spec]) h

@[grind →] theorem sizeOf_lt_of_mem_flatMap {nodes : List (Option Expr)} {c : Node}
    (h : c ∈ nodes.flatMap expr?) : sizeOf c < 1 + sizeOf nodes := by
  obtain ⟨node, hnode, hc⟩ := List.mem_flatMap.1 h
  have hlt := List.sizeOf_lt_of_mem hnode
  have hle := sizeOf_lt_of_mem_expr? hc
  omega

@[grind →] theorem sizeOf_lt_of_mem_stmts {nodes : List Stmt} {c : Node} (h : c ∈ stmts nodes) :
    sizeOf c < 1 + sizeOf nodes :=
  sizeOf_lt_of_mem_map (fun _ => by rw [stmt.sizeOf_spec]) h

@[grind →] theorem sizeOf_lt_of_mem_comprehensions {nodes : List Comprehension} {c : Node}
    (h : c ∈ nodes.map comprehension) : sizeOf c < 1 + sizeOf nodes :=
  sizeOf_lt_of_mem_map (fun _ => by rw [comprehension.sizeOf_spec]) h

@[grind →] theorem sizeOf_lt_of_mem_args {nodes : List Arg} {c : Node}
    (h : c ∈ nodes.map arg) : sizeOf c < 1 + sizeOf nodes :=
  sizeOf_lt_of_mem_map (fun _ => by rw [arg.sizeOf_spec]) h

@[grind →] theorem sizeOf_lt_of_mem_keywords {nodes : List Keyword} {c : Node}
    (h : c ∈ nodes.map keyword) : sizeOf c < 1 + sizeOf nodes :=
  sizeOf_lt_of_mem_map (fun _ => by rw [keyword.sizeOf_spec]) h

@[grind →] theorem sizeOf_lt_of_mem_patterns {nodes : List Pattern} {c : Node}
    (h : c ∈ nodes.map pattern) : sizeOf c < 1 + sizeOf nodes :=
  sizeOf_lt_of_mem_map (fun _ => by rw [pattern.sizeOf_spec]) h

@[grind →] theorem sizeOf_lt_of_mem_withItems {nodes : List WithItem} {c : Node}
    (h : c ∈ nodes.map withItem) : sizeOf c < 1 + sizeOf nodes :=
  sizeOf_lt_of_mem_map (fun _ => by rw [withItem.sizeOf_spec]) h

@[grind →] theorem sizeOf_lt_of_mem_typeParams {nodes : List TypeParam} {c : Node}
    (h : c ∈ nodes.map typeParam) : sizeOf c < 1 + sizeOf nodes :=
  sizeOf_lt_of_mem_map (fun _ => by rw [typeParam.sizeOf_spec]) h

@[grind →] theorem sizeOf_lt_of_mem_exceptHandlers {nodes : List ExceptHandler} {c : Node}
    (h : c ∈ nodes.map exceptHandler) : sizeOf c < 1 + sizeOf nodes :=
  sizeOf_lt_of_mem_map (fun _ => by rw [exceptHandler.sizeOf_spec]) h

@[grind →] theorem sizeOf_lt_of_mem_matchCases {nodes : List MatchCase} {c : Node}
    (h : c ∈ nodes.map matchCase) : sizeOf c < 1 + sizeOf nodes :=
  sizeOf_lt_of_mem_map (fun _ => by rw [matchCase.sizeOf_spec]) h

@[grind →] theorem sizeOf_lt_of_mem_importAliases {nodes : List Alias} {c : Node}
    (h : c ∈ nodes.map importAlias) : sizeOf c < 1 + sizeOf nodes :=
  sizeOf_lt_of_mem_map (fun _ => by rw [importAlias.sizeOf_spec]) h

@[grind →] theorem sizeOf_lt_of_mem_arg? {node : Option Arg} {c : Node}
    (h : c ∈ node.toList.map arg) : sizeOf c < 1 + sizeOf node :=
  sizeOf_lt_of_mem_toList (fun _ => by rw [arg.sizeOf_spec]) h

@[grind →] theorem sizeOf_lt_of_mem_pattern? {node : Option Pattern} {c : Node}
    (h : c ∈ node.toList.map pattern) : sizeOf c < 1 + sizeOf node :=
  sizeOf_lt_of_mem_toList (fun _ => by rw [pattern.sizeOf_spec]) h

theorem sizeOf_ofExpr {node : Expr} {c : Node} (h : c ∈ ofExpr node) :
    sizeOf c < 1 + sizeOf node := by
  cases node <;> simp only [ofExpr, List.mem_cons, List.mem_append, List.not_mem_nil, or_false] at h <;>
    simp <;> grind

theorem sizeOf_ofPattern {node : Pattern} {c : Node} (h : c ∈ ofPattern node) :
    sizeOf c < 1 + sizeOf node := by
  cases node <;>
    simp only [ofPattern, List.mem_cons, List.mem_append, List.not_mem_nil, or_false] at h <;>
    simp <;> grind

theorem sizeOf_ofStmt {node : Stmt} {c : Node} (h : c ∈ ofStmt node) :
    sizeOf c < 1 + sizeOf node := by
  cases node <;>
    simp only [ofStmt, List.mem_cons, List.mem_append, List.not_mem_nil, or_false] at h <;>
    simp <;> grind

theorem sizeOf_ofTypeParam {node : TypeParam} {c : Node} (h : c ∈ ofTypeParam node) :
    sizeOf c < 1 + sizeOf node := by
  cases node <;> simp only [ofTypeParam, List.mem_append] at h <;> simp <;> grind

theorem sizeOf_children {node c : Node} (h : c ∈ node.children) : sizeOf c < sizeOf node := by
  cases node with
  | module node =>
    obtain ⟨body⟩ := node
    have hlt : sizeOf c < 1 + sizeOf body := sizeOf_lt_of_mem_stmts h
    simp
    omega
  | stmt node => simpa using sizeOf_ofStmt h
  | expr node => simpa using sizeOf_ofExpr h
  | pattern node => simpa using sizeOf_ofPattern h
  | typeParam node => simpa using sizeOf_ofTypeParam h
  | comprehension node | arguments node | arg node | keyword node | importAlias node
  | withItem node | exceptHandler node | matchCase node =>
    cases node
    simp only [children, List.mem_cons, List.mem_append, List.not_mem_nil, or_false] at h <;>
      simp <;> grind

/-- The node and the nodes below it, each before those below it. -/
def walk (node : Node) : List Node :=
  node :: node.children.attach.flatMap fun c => c.1.walk
termination_by sizeOf node
decreasing_by exact sizeOf_children c.2

theorem walk_eq (node : Node) : node.walk = node :: node.children.flatMap walk := by
  rw [walk, List.flatMap_subtype (g := walk) (fun _ _ => rfl), List.unattach_attach]

end Node

end PythonAst

end N8n
