import N8n.NodeReferences

/-!
# Nodes in parameter values

`renameNodeInParameterValue` renames a node in all expressions of a parameter value. It rebuilds
arrays and objects.
-/

namespace N8n

/-- `NodeParameterValueType`. An object has its properties in the order in which it lists them. -/
inductive ParameterValue (Number : Type)
  | string (value : CodeUnits)
  | number (value : Number)
  | boolean (value : Bool)
  | null
  | undefined
  | array (values : List (ParameterValue Number))
  | object (properties : List (CodeUnits × ParameterValue Number))

/-- To set this property of an object sets its prototype. -/
def protoName : CodeUnits := units "__proto__"

/-- The strings that nodes are renamed in. -/
def isRenamable (hasRenamableContent : Bool) (value : CodeUnits) : Bool :=
  value.head? = some 0x3d || hasRenamableContent

section

variable {Number : Type} (currentName newName : CodeUnits)

mutual

def renameNodeInParameterValue (hasRenamableContent : Bool) :
    ParameterValue Number → ParameterValue Number
  | .string value =>
    if isRenamable hasRenamableContent value then
      .string (applyAccessPatterns value currentName newName)
    else .string value
  | .number value => .number value
  | .boolean value => .boolean value
  -- its type is `object`, and it is not asked for its keys
  | .null => .object []
  | .undefined => .undefined
  | .array values => .array (renameNodeInArray values)
  | .object properties => .object (renameNodeInObject hasRenamableContent properties)

/-- `returnArray` -/
def renameNodeInArray : List (ParameterValue Number) → List (ParameterValue Number)
  | [] => []
  | value :: values => renameNodeInParameterValue false value :: renameNodeInArray values

/-- `returnData` -/
def renameNodeInObject (hasRenamableContent : Bool) :
    List (CodeUnits × ParameterValue Number) → List (CodeUnits × ParameterValue Number)
  | [] => []
  | (parameterName, value) :: properties =>
    if parameterName = protoName then renameNodeInObject hasRenamableContent properties
    else
      (parameterName, renameNodeInParameterValue hasRenamableContent value) ::
        renameNodeInObject hasRenamableContent properties

end

end

/-! ## What it is for -/

section

variable {Number : Type}

mutual

/-- The expressions in a value. -/
def expressions (hasRenamableContent : Bool) : ParameterValue Number → List CodeUnits
  | .string value => if isRenamable hasRenamableContent value then [value] else []
  | .number _ => []
  | .boolean _ => []
  | .null => []
  | .undefined => []
  | .array values => expressionsOfArray values
  | .object properties => expressionsOfObject hasRenamableContent properties

def expressionsOfArray : List (ParameterValue Number) → List CodeUnits
  | [] => []
  | value :: values => expressions false value ++ expressionsOfArray values

def expressionsOfObject (hasRenamableContent : Bool) :
    List (CodeUnits × ParameterValue Number) → List CodeUnits
  | [] => []
  | (_, value) :: properties =>
    expressions hasRenamableContent value ++ expressionsOfObject hasRenamableContent properties

end

variable (Refers : CodeUnits → Prop)

mutual

/-- Two values differ at most in expressions that refer to the node. -/
inductive Alike : Bool → ParameterValue Number → ParameterValue Number → Prop
  | string (b : Bool) (value : CodeUnits) : Alike b (.string value) (.string value)
  | expression {b : Bool} {value : CodeUnits} (value' : CodeUnits) : isRenamable b value →
      Refers value → Alike b (.string value) (.string value')
  | number (b : Bool) (value : Number) : Alike b (.number value) (.number value)
  | boolean (b value : Bool) : Alike b (.boolean value) (.boolean value)
  | null (b : Bool) : Alike b .null .null
  | undefined (b : Bool) : Alike b .undefined .undefined
  | array {b : Bool} {values values' : List (ParameterValue Number)} :
      AlikeArray values values' → Alike b (.array values) (.array values')
  | object {b : Bool} {properties properties' : List (CodeUnits × ParameterValue Number)} :
      AlikeObject b properties properties' → Alike b (.object properties) (.object properties')

inductive AlikeArray : List (ParameterValue Number) → List (ParameterValue Number) → Prop
  | nil : AlikeArray [] []
  | cons {value value' : ParameterValue Number} {values values' : List (ParameterValue Number)} :
      Alike false value value' → AlikeArray values values' →
      AlikeArray (value :: values) (value' :: values')

inductive AlikeObject : Bool → List (CodeUnits × ParameterValue Number) →
    List (CodeUnits × ParameterValue Number) → Prop
  | nil (b : Bool) : AlikeObject b [] []
  | cons {b : Bool} {value value' : ParameterValue Number}
      {properties properties' : List (CodeUnits × ParameterValue Number)}
      (parameterName : CodeUnits) : Alike b value value' → AlikeObject b properties properties' →
      AlikeObject b ((parameterName, value) :: properties) ((parameterName, value') :: properties')

end

/-- The value stays what it is where no expression refers to the node, and differs in those that
do otherwise. -/
structure KeepsUnrelated (hasRenamableContent : Bool) (value result : ParameterValue Number) :
    Prop where
  unchanged : (∀ expression ∈ expressions hasRenamableContent value, ¬ Refers expression) →
    result = value
  alike : Alike Refers hasRenamableContent value result

variable (currentName newName : CodeUnits)

mutual

/-- No `null` and no property of that name is in the value, and an expression that does not refer to
the node is not changed. -/
def Rebuildable (hasRenamableContent : Bool) : ParameterValue Number → Prop
  | .string value => isRenamable hasRenamableContent value → ¬ Refers value →
      applyAccessPatterns value currentName newName = value
  | .number _ => True
  | .boolean _ => True
  | .null => False
  | .undefined => True
  | .array values => RebuildableArray values
  | .object properties => RebuildableObject hasRenamableContent properties

def RebuildableArray : List (ParameterValue Number) → Prop
  | [] => True
  | value :: values => Rebuildable false value ∧ RebuildableArray values

def RebuildableObject (hasRenamableContent : Bool) :
    List (CodeUnits × ParameterValue Number) → Prop
  | [] => True
  | (parameterName, value) :: properties => parameterName ≠ protoName ∧
      Rebuildable hasRenamableContent value ∧ RebuildableObject hasRenamableContent properties

end

end

end N8n
