import N8n.DataRequest

/-!
# The parser for built-ins

The task runner looks through the code of a Code node for the built-in variables it accesses, and
requests the data of the nodes that it names. Where it cannot tell, it requests the data of all.
-/

namespace N8n

/-! ## Syntax -/

/-- The value of a literal. One that is not a string is given by its source text. -/
inductive LiteralValue
  | string (value : String)
  | other (raw : String)
  deriving DecidableEq

/-- A node of a program, with the nodes below it in the order in which acorn-walk goes through them.
The property of a member access that is not computed is not among these. An identifier that is bound
is of the type `VariablePattern`. -/
inductive AstNode
  | identifier (name : String)
  | literal (value : LiteralValue)
  | callExpression (callee : AstNode) (arguments : List AstNode)
  | memberExpression (object property : AstNode) (computed : Bool)
  | other (type : String) (children : List AstNode)

/-! ## State -/

/-- Keeps track of which built-in variables are accessed in the code. -/
structure BuiltInsParserState where
  neededNodeNames : List String := []
  needsAllNodes : Bool := false
  needsEnv : Bool := false
  needsInput : Bool := false
  needsExecution : Bool := false
  needsPrevNode : Bool := false
  deriving DecidableEq

namespace BuiltInsParserState

variable (state : BuiltInsParserState)

def markNeedsAllNodes : BuiltInsParserState :=
  { state with needsAllNodes := true, needsInput := true, neededNodeNames := [] }

def markNodeAsNeeded (nodeName : String) : BuiltInsParserState :=
  if state.needsAllNodes ∨ nodeName ∈ state.neededNodeNames then state
  else { state with neededNodeNames := state.neededNodeNames ++ [nodeName] }

def markEnvAsNeeded : BuiltInsParserState := { state with needsEnv := true }

def markInputAsNeeded : BuiltInsParserState := { state with needsInput := true }

def markExecutionAsNeeded : BuiltInsParserState := { state with needsExecution := true }

def markPrevNodeAsNeeded : BuiltInsParserState := { state with needsPrevNode := true }

def toDataRequestParams (chunk : Option InputDataChunkDefinition) : TaskDataRequestParams where
  dataOfNodes := if state.needsAllNodes then .all else .nodes state.neededNodeNames
  env := state.needsEnv
  input := { included := state.needsInput, chunk }
  prevNode := state.needsPrevNode

end BuiltInsParserState

/-! ## Visitors -/

namespace BuiltInsParser

open BuiltInsParserState

def isPairedItemProperty : LiteralValue → Bool
  | .string property => property = "item" ∨ property = "pairedItem" ∨ property = "itemMatching"
  | .other _ => false

/-- The node above one is the second of `ancestors`, which starts with the node itself. -/
def handlePrevNodeCall (state : BuiltInsParserState) (ancestors : List AstNode) :
    BuiltInsParserState :=
  match ancestors with
  | _ :: .memberExpression _ accessedProperty computed :: _ =>
    if computed then
      match accessedProperty with
      | .literal value => if isPairedItemProperty value then state.markNeedsAllNodes else state
      | .identifier _ => state.markNeedsAllNodes
      | _ => state
    else
      match accessedProperty with
      | .identifier name =>
        if isPairedItemProperty (.string name) then state.markNeedsAllNodes else state
      | _ => state
  | _ => state.markNeedsAllNodes

/-- `$(...)` -/
def visitDollarCallExpression (arguments : List AstNode) (state : BuiltInsParserState)
    (ancestors : List AstNode) : BuiltInsParserState :=
  match arguments with
  | [] => state
  | .literal (.string value) :: _ => handlePrevNodeCall (state.markNodeAsNeeded value) ancestors
  | .literal (.other _) :: _ => state
  | _ :: _ => state.markNeedsAllNodes

/-- `$items(...)` -/
def visitDollarItemsCallExpression (arguments : List AstNode) (state : BuiltInsParserState) :
    BuiltInsParserState :=
  match arguments with
  | [] => state.markInputAsNeeded
  | .literal (.string value) :: _ => state.markNodeAsNeeded value
  | .literal (.other _) :: _ => state
  | _ :: _ => state.markNeedsAllNodes

def visitCallExpression (callee : AstNode) (arguments : List AstNode) (state : BuiltInsParserState)
    (ancestors : List AstNode) : BuiltInsParserState :=
  match callee with
  | .identifier name =>
    if name = "$" then visitDollarCallExpression arguments state ancestors
    else if name = "$items" then visitDollarItemsCallExpression arguments state
    else state
  | _ => state

def visitIdentifier (name : String) (state : BuiltInsParserState) : BuiltInsParserState :=
  if name = "$env" then state.markEnvAsNeeded
  else if name = "$item" then state.markNeedsAllNodes
  else if name = "$input" ∨ name = "$json" ∨ name = "items" ∨ name = "item" then
    state.markInputAsNeeded
  else if name = "$node" then state.markNeedsAllNodes
  else if name = "$execution" then state.markExecutionAsNeeded
  else if name = "$prevNode" then state.markPrevNodeAsNeeded
  else state

/-! ## The walk -/

mutual

/-- `ancestor` of acorn-walk. A node is visited after those below it. -/
def ancestor (ancestors : List AstNode) : AstNode → BuiltInsParserState → BuiltInsParserState
  | .identifier name, state => visitIdentifier name state
  | .literal _, state => state
  | .callExpression callee arguments, state =>
    let ancestors := .callExpression callee arguments :: ancestors
    let state := ancestorAll ancestors arguments (ancestor ancestors callee state)
    visitCallExpression callee arguments state ancestors
  | .memberExpression object property computed, state =>
    let ancestors := .memberExpression object property computed :: ancestors
    let state := ancestor ancestors object state
    if computed then ancestor ancestors property state else state
  | .other type children, state => ancestorAll (.other type children :: ancestors) children state

def ancestorAll (ancestors : List AstNode) :
    List AstNode → BuiltInsParserState → BuiltInsParserState
  | [], state => state
  | child :: children, state => ancestorAll ancestors children (ancestor ancestors child state)

end

def identifyBuiltInsByWalkingAst (ast : AstNode) : BuiltInsParserState := ancestor [] ast {}

end BuiltInsParser

end N8n
