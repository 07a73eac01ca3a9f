import Mathlib.Data.List.Lex
import N8n.Library.Doubles
import N8n.ParameterValues
import N8n.Values

/-!
# Displayed parameters

`displayParameter` decides from the other parameters of a node if one is displayed. The functions
of the library that reads properties, and what the language has for texts, are given.
-/

namespace N8n

open Doubles

abbrev JsValue := ParameterValue Number

/-- `get` and `isEqual` are those of a library. The others convert values as the operators of the
language do: an object to a primitive, a text to a number, a value to a text. -/
structure Runtime where
  get : JsValue → String → JsValue
  isEqual : JsValue → JsValue → Bool
  toPrimitive : JsValue → JsValue
  stringToNumber : CodeUnits → Number
  toText : JsValue → CodeUnits
  /-- None if the text is not a regular expression. -/
  testRegExp : CodeUnits → CodeUnits → Option Bool

namespace ParameterValue

/-- How `includes` compares. An object is the same only as itself. -/
def same : JsValue → JsValue → Bool
  | .string value, .string value' => value = value'
  | .number value, .number value' => value.same value'
  | .boolean value, .boolean value' => value = value'
  | .null, .null => true
  | .undefined, .undefined => true
  | _, _ => false

def toNumber (rt : Runtime) : JsValue → Number
  | .string value => rt.stringToNumber value
  | .number value => value
  | .boolean value => .ofNat value.toNat
  | .null => .ofNat 0
  | _ => .nan

/-- An operator compares two texts as such, and other values as numbers. -/
def compare (rt : Runtime) (numbers : Number → Number → Bool) (texts : CodeUnits → CodeUnits → Bool)
    (left right : JsValue) : Bool :=
  let primitive (value : JsValue) : JsValue :=
    match value with
    | .array _ | .object _ => rt.toPrimitive value
    | _ => value
  match primitive left, primitive right with
  | .string value, .string value' => texts value value'
  | left, right => numbers (left.toNumber rt) (right.toNumber rt)

def lt (rt : Runtime) : JsValue → JsValue → Bool := compare rt Number.lt fun a b => a < b

def le (rt : Runtime) : JsValue → JsValue → Bool := compare rt Number.le fun a b => a ≤ b

end ParameterValue

/-! ## Conditions -/

/-- The `_cnd` of a `DisplayCondition`. -/
inductive DisplayCondition
  | eq (target : JsValue)
  | not (target : JsValue)
  | gte (target : JsValue)
  | lte (target : JsValue)
  | gt (target : JsValue)
  | lt (target : JsValue)
  | between (start stop : JsValue)
  | includes (target : CodeUnits)
  | startsWith (target : CodeUnits)
  | endsWith (target : CodeUnits)
  | regex (target : CodeUnits)
  | exists

/-- What is given for a property: a value, or a condition. -/
inductive RuleCondition
  | value (value : JsValue)
  | cnd (condition : DisplayCondition)

/-- Only texts have the method. To call it on something else throws. -/
def textMethod (method : CodeUnits → Bool) : JsValue → Option Bool
  | .string value => some (method value)
  | _ => none

/-- What a condition says of a value. None if it throws. -/
def DisplayCondition.holds (rt : Runtime) (propertyValue : JsValue) : DisplayCondition → Option Bool
  | .eq target => some (rt.isEqual propertyValue target)
  | .not target => some (!rt.isEqual propertyValue target)
  | .gte target => some (target.le rt propertyValue)
  | .lte target => some (propertyValue.le rt target)
  | .gt target => some (target.lt rt propertyValue)
  | .lt target => some (propertyValue.lt rt target)
  | .between start stop => some (start.le rt propertyValue && propertyValue.le rt stop)
  | .includes target =>
    match propertyValue with
    | .array values => some (values.any (·.same (.string target)))
    | value => textMethod (fun text => target <:+: text) value
  | .startsWith target => textMethod (fun text => target <+: text) propertyValue
  | .endsWith target => textMethod (fun text => target <:+ text) propertyValue
  | .regex target => rt.testRegExp target (rt.toText propertyValue)
  | .exists =>
    match propertyValue with
    | .null | .undefined | .string [] => some false
    | _ => some true

/-- `every`, which stops where the callback gives `false` or throws. -/
def every {α : Type} (callback : α → Option Bool) : List α → Option Bool
  | [] => some true
  | a :: as => (callback a).bind fun passes => if passes then every callback as else some false

/-- `some`, which stops where the callback gives `true` or throws. -/
def anyOf {α : Type} (callback : α → Option Bool) : List α → Option Bool
  | [] => some false
  | a :: as => (callback a).bind fun passes => if passes then some true else anyOf callback as

/-- It throws where there are no conditions. -/
def checkConditions (rt : Runtime) (conditions : Option (List RuleCondition))
    (actualValues : List JsValue) : Option Bool :=
  conditions.bind <| anyOf fun condition =>
    match condition with
    | .cnd condition => every (condition.holds rt) actualValues
    | .value value => some (actualValues.any (·.same value))

/-! ## Properties -/

structure DisplayOptions where
  «show» : Option (Dict String (Option (List RuleCondition)))
  hide : Option (Dict String (Option (List RuleCondition)))

/-- The options of a parameter. -/
structure DisplayedParameter where
  displayOptions : Option DisplayOptions := none
  disabledOptions : Option DisplayOptions := none

inductive DisplayKey
  | displayOptions
  | disabledOptions

def DisplayedParameter.options (parameter : DisplayedParameter) : DisplayKey → Option DisplayOptions
  | .displayOptions => parameter.displayOptions
  | .disabledOptions => parameter.disabledOptions

/-- What the values of properties are read from. -/
structure DisplayContext where
  nodeValues : JsValue
  /-- `typeVersion` of the node, where there is one. -/
  node : Option Number
  /-- The name of the node type, where there is one. -/
  nodeTypeDescription : Option String
  nodeValuesRoot : JsValue

def truthy : JsValue → Bool
  | .undefined | .null | .boolean false | .string [] | .number .nan => false
  | .number (.finite value _) => value ≠ 0
  | _ => true

def property (properties : List (CodeUnits × JsValue)) (name : String) : JsValue :=
  (properties.lookup (units name)).getD .undefined

def getPropertyValues (rt : Runtime) (context : DisplayContext) (propertyName : String) :
    List JsValue :=
  let value :=
    if propertyName.toList.head? = some '/' then
      rt.get context.nodeValuesRoot (String.ofList propertyName.toList.tail)
    else if propertyName = "@version" then
      match context.node with
      | some typeVersion => if truthy (.number typeVersion) then .number typeVersion else
        .number (.ofNat 0)
      | none => .number (.ofNat 0)
    else if propertyName = "@tool" then
      .boolean (context.nodeTypeDescription.any fun name => "Tool".toList <:+ name.toList)
    else rt.get context.nodeValues propertyName
  -- a resource locator stands for its value
  let value :=
    match value with
    | .object properties =>
      if truthy (property properties "__rl") then property properties "value" else value
    | value => value
  match value with
  | .array values => values
  | value => [value]

/-! ## Display -/

/-- What a call ends with. -/
inductive Displayed
  | returns (display : Bool)
  | throws
  deriving DecidableEq

def isExpression : JsValue → Bool
  | .string value => value.head? = some 0x3d
  | _ => false

/-- What the loop over `show` does for a property, where it ends with it. -/
def showRule (rt : Runtime) (context : DisplayContext)
    (rules : Dict String (Option (List RuleCondition))) (propertyName : String) : Option Displayed :=
  let values := getPropertyValues rt context propertyName
  if values.any isExpression then some (.returns true)
  else if values.isEmpty then some (.returns false)
  else
    match checkConditions rt (rules.get? propertyName).join values with
    | none => some .throws
    | some true => none
    | some false => some (.returns false)

/-- What the loop over `hide` does for a property, where it ends with it. -/
def hideRule (rt : Runtime) (context : DisplayContext)
    (rules : Dict String (Option (List RuleCondition))) (propertyName : String) : Option Displayed :=
  let values := getPropertyValues rt context propertyName
  if values.isEmpty then none
  else
    match checkConditions rt (rules.get? propertyName).join values with
    | none => some .throws
    | some true => some (.returns false)
    | some false => none

/-- The properties in the order of `Object.keys`, up to the one that the loop ends with. -/
def loopOver (rule : Dict String (Option (List RuleCondition)) → String → Option Displayed)
    (rules : Option (Dict String (Option (List RuleCondition)))) : Option Displayed :=
  rules.bind fun rules => (objectKeys rules.keys).findSome? (rule rules)

def displayParameter (rt : Runtime) (nodeValues : JsValue) (parameter : DisplayedParameter)
    (node : Option Number) (nodeTypeDescription : Option String) (nodeValuesRoot : Option JsValue)
    (displayKey : DisplayKey) : Displayed :=
  match parameter.options displayKey with
  | none => .returns true
  | some options =>
    let context := ⟨nodeValues, node, nodeTypeDescription, nodeValuesRoot.getD nodeValues⟩
    ((loopOver (showRule rt context) options.«show»).or
      (loopOver (hideRule rt context) options.hide)).getD (.returns true)

end N8n
