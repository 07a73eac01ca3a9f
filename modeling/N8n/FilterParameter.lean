import N8n.TypeValidation

/-!
# Filter parameters

A filter combines conditions with `and` or `or`. `executeFilter` evaluates them in order, and
`validateFilterParameter` collects the issues of each of them.
-/

namespace N8n

open Doubles

structure FilterOperatorValue where
  type : FilterOperatorType
  operation : String
  rightType : Option FilterOperatorType := none
  singleValue : Bool := false

structure FilterConditionValue where
  leftValue : Operand
  operator : FilterOperatorValue
  rightValue : Operand

structure FilterOptionsValue where
  caseSensitive : Bool
  /-- `typeValidation` is `strict`, and not `loose`. -/
  strict : Bool
  version : ℕ := 1

inductive Combinator
  | and
  | or
  | unknown

structure FilterValue where
  options : FilterOptionsValue
  conditions : List FilterConditionValue
  combinator : Combinator

/-- `Partial<FilterConditionMetadata>` with its defaults. -/
structure FilterConditionMetadata where
  index : ℕ := 0
  itemIndex : ℕ := 0
  unresolvedExpressions : Bool := false
  /-- `errorFormat` is `inline`, and not `full`. -/
  inlineErrors : Bool := false

structure FilterError where
  message : CodeUnits
  description : CodeUnits

variable (rt : ValidationRuntime)

/-! ## Operands -/

def parseSingleFilterValue (value : Operand) (type : FilterOperatorType) (strict : Bool)
    (version : ℕ) : Option Operand :=
  if type = .any ∨ value.isNullish then some value
  else if type = .boolean ∧ strict = false then
    match if 2 ≤ version then validateFieldType rt value type false else none with
    | some newValue => some newValue
    | none => some (.json (.boolean value.truthy))
  else if type = .number ∧ value.isNaN then some value
  else validateFieldType rt value type strict

def FilterOperatorType.text : FilterOperatorType → CodeUnits
  | .string => units "string"
  | .number => units "number"
  | .boolean => units "boolean"
  | .array => units "array"
  | .object => units "object"
  | .dateTime => units "dateTime"
  | .any => units "any"

def withIndefiniteArticle (noun : CodeUnits) : CodeUnits :=
  (if noun.take 1 <:+: units "aeiou" then units "an " else units "a ") ++ noun

def getTypeDescription (strict : Bool) : CodeUnits :=
  if strict then
    units ("Try changing the type of comparison. Alternatively you can enable " ++
      "'Convert types where required'.")
  else units "Try changing the type of the comparison."

def composeInvalidTypeMessage (strict : Bool) (suffix type fromType value : CodeUnits) :
    CodeUnits :=
  let fromType := rt.toLocaleLowerCase fromType
  if strict then
    units "Wrong type: '" ++ value ++ units "' is " ++ withIndefiniteArticle fromType ++
      units " but was expecting " ++ withIndefiniteArticle type ++ units " " ++ suffix
  else
    units "Conversion error: the " ++ fromType ++ units " '" ++ value ++
      units "' can't be converted to " ++ withIndefiniteArticle type ++ units " " ++ suffix

def composeInvalidTypeDescription (strict : Bool) (type : FilterOperatorType)
    (valuePosition : String) : CodeUnits :=
  let convertionFunction :=
    match type with
    | .string => some (units ".toString()")
    | .number => some (units ".toNumber()")
    | .boolean => some (units ".toBoolean()")
    | _ => none
  match if strict then convertionFunction else none with
  | some function =>
    units "\n<p>Try either:</p>\n<ol>\n  <li>Enabling 'Convert types where required'</li>\n" ++
      units "  <li>Converting the " ++ units valuePosition ++ units " field to " ++
      withIndefiniteArticle type.text ++ units " by adding <code>" ++ function ++
      units "</code></li>\n</ol>\n\t\t\t"
  | none => getTypeDescription strict

/-- An expression is accepted where expressions are not resolved. -/
def isUnresolved (metadata : FilterConditionMetadata) : Operand → Bool
  | .json value => metadata.unresolvedExpressions && isExpression value
  | .dateTime _ => false

/-- The operands as the operator takes them. The error is returned, and not thrown. -/
def parseFilterConditionValues (condition : FilterConditionValue) (options : FilterOptionsValue)
    (metadata : FilterConditionMetadata) : Except FilterError (Operand × Operand) :=
  let operator := condition.operator
  let rightType := operator.rightType.getD operator.type
  let parsedLeftValue :=
    parseSingleFilterValue rt condition.leftValue operator.type options.strict options.version
  let parsedRightValue :=
    parseSingleFilterValue rt condition.rightValue rightType options.strict options.version
  let leftValid := parsedLeftValue.isSome || isUnresolved metadata condition.leftValue
  let rightValid := parsedRightValue.isSome || operator.singleValue ||
    isUnresolved metadata condition.rightValue
  let item := units "item " ++ units (toString metadata.itemIndex) ++ units "]"
  let suffix :=
    if metadata.inlineErrors then units "[" ++ item
    else units "[condition " ++ units (toString metadata.index) ++ units ", " ++ item
  let leftFrom := condition.leftValue.typeOf
  let rightFrom := condition.rightValue.typeOf
  if !leftValid && !rightValid && leftFrom == rightFrom then
    .error
      { message := units "Comparison type expects " ++ withIndefiniteArticle operator.type.text ++
          units " but both fields are " ++ withIndefiniteArticle leftFrom
        description := getTypeDescription options.strict }
  else if !leftValid then
    .error
      { message := composeInvalidTypeMessage rt options.strict suffix operator.type.text leftFrom
          (condition.leftValue.toText rt)
        description := composeInvalidTypeDescription options.strict operator.type "first" }
  else if !rightValid then
    .error
      { message := composeInvalidTypeMessage rt options.strict suffix rightType.text rightFrom
          (condition.rightValue.toText rt)
        description := composeInvalidTypeDescription options.strict rightType "second" }
  else .ok (parsedLeftValue.getD .undefined, parsedRightValue.getD .undefined)

/-! ## Operators -/

/-- What a condition can throw: a `FilterError`, or an error of the language. -/
inductive FilterFailure
  | filterError (error : FilterError)
  | thrown

abbrev FilterOutcome := Except FilterFailure Bool

namespace Operand

/-- `===`. An object is the same only as itself. -/
def strictEquals : Operand → Operand → Bool
  | .json left, .json right => left.same right && !isNaN (.json left)
  | _, _ => false

/-- A `DateTime` is compared by its milliseconds. -/
def primitive : Operand → JsValue
  | .json value => value
  | .dateTime millis => .number (millis.getD .nan)

def lt (left right : Operand) : Bool := left.primitive.lt rt.toRuntime right.primitive

def le (left right : Operand) : Bool := left.primitive.le rt.toRuntime right.primitive

/-- `value ?? ''` -/
def orEmpty (value : Operand) : Operand := if value.isNullish then .json (.string []) else value

/-- A text in lower case, and any other value as it is. -/
def lowered : Operand → Operand
  | .json (.string text) => .json (.string (rt.toLocaleLowerCase text))
  | value => value

end Operand

/-- The source and the flags of a pattern, which may be written as `/source/flags`. -/
def parseRegexPattern (pattern : CodeUnits) : CodeUnits × CodeUnits :=
  match pattern with
  | 0x2f :: text =>
    let flags := (text.reverse.takeWhile (· ≠ 0x2f)).reverse
    match text.reverse.dropWhile (· ≠ 0x2f) with
    | [] => (pattern, [])
    | _ :: source =>
      if flags.all (· ∈ units "gimusy") ∧ source.all (· ∉ [0x0a, 0x0d, 0x2028, 0x2029]) then
        (source.reverse, flags)
      else (pattern, [])
  | _ => (pattern, [])

/-- `parseRegexPattern(pattern).test(text)`. A pattern that is no text has no `match`. -/
def testPattern (pattern : Operand) (text : CodeUnits) : FilterOutcome :=
  let source : Option (CodeUnits × CodeUnits) :=
    match pattern with
    | .json (.string pattern) => some (parseRegexPattern pattern)
    | pattern => if pattern.truthy then none else some ([], [])
  match source.bind fun regex => rt.testRegExpWithFlags regex.1 regex.2 text with
  | some result => .ok result
  | none => .error .thrown

def executeString (ignoreCase : Bool) (operation : String) (leftValue rightValue : Operand) :
    Option FilterOutcome :=
  let isRegex := operation = "regex" ∨ operation = "notRegex"
  let left := (if ignoreCase then leftValue.lowered rt else leftValue).orEmpty
  let right := (if ignoreCase ∧ ¬ isRegex then rightValue.lowered rt else rightValue).orEmpty
  let text := left.toText rt
  let other := right.toText rt
  match operation with
  | "empty" => some (.ok (text = []))
  | "notEmpty" => some (.ok (text ≠ []))
  | "equals" => some (.ok (left.strictEquals right))
  | "notEquals" => some (.ok (!left.strictEquals right))
  | "contains" => some (.ok (other <:+: text))
  | "notContains" => some (.ok !(other <:+: text))
  | "startsWith" => some (.ok (other <+: text))
  | "notStartsWith" => some (.ok !(other <+: text))
  | "endsWith" => some (.ok (other <:+ text))
  | "notEndsWith" => some (.ok !(other <:+ text))
  | "regex" => some (testPattern rt right text)
  | "notRegex" => some ((testPattern rt right text).map (!·))
  | _ => none

def executeNumber (exists' : Bool) (operation : String) (left right : Operand) :
    Option FilterOutcome :=
  match operation with
  | "empty" => some (.ok !exists')
  | "notEmpty" => some (.ok exists')
  | "equals" => some (.ok (left.strictEquals right))
  | "notEquals" => some (.ok !(left.strictEquals right))
  | "gt" => some (.ok (right.lt rt left))
  | "lt" => some (.ok (left.lt rt right))
  | "gte" => some (.ok (right.le rt left))
  | "lte" => some (.ok (left.le rt right))
  | _ => none

/-- A comparison of milliseconds. Other values than a `DateTime` have no `toMillis`. -/
def compareMillis (compare : Number → Number → Bool) : Operand → Operand → FilterOutcome
  | .dateTime left, .dateTime right => .ok (compare (left.getD .nan) (right.getD .nan))
  | _, _ => .error .thrown

def executeDateTime (exists' : Bool) (operation : String) (left right : Operand) :
    Option FilterOutcome :=
  if operation = "empty" then some (.ok !exists')
  else if operation = "notEmpty" then some (.ok exists')
  else if !left.truthy || !right.truthy then some (.ok false)
  else
    match operation with
    | "equals" => some (compareMillis (fun a b => a.le b && b.le a) left right)
    | "notEquals" => some (compareMillis (fun a b => !(a.le b && b.le a)) left right)
    | "after" => some (compareMillis (fun a b => b.lt a) left right)
    | "before" => some (compareMillis (fun a b => a.lt b) left right)
    | "afterOrEquals" => some (compareMillis (fun a b => b.le a) left right)
    | "beforeOrEquals" => some (compareMillis (fun a b => a.le b) left right)
    | _ => none

def executeBoolean (exists' : Bool) (operation : String) (left right : Operand) :
    Option FilterOutcome :=
  match operation with
  | "empty" => some (.ok !exists')
  | "notEmpty" => some (.ok exists')
  | "true" => some (.ok left.truthy)
  | "false" => some (.ok !left.truthy)
  | "equals" => some (.ok (left.strictEquals right))
  | "notEquals" => some (.ok !(left.strictEquals right))
  | _ => none

def arrayContainsValue (array : List JsValue) (value : Operand) (ignoreCase : Bool) : Bool :=
  match value with
  | .json (.string text) =>
    if ignoreCase then
      array.any fun item =>
        match item with
        | .string item => rt.toLocaleLowerCase item = rt.toLocaleLowerCase text
        | _ => false
    else array.any (·.same (.string text))
  | .json value => array.any (·.same value)
  | .dateTime _ => false

/-- Only arrays have the methods that are called. -/
def containsValue (left right : Operand) (ignoreCase : Bool) : FilterOutcome :=
  match left with
  | .json (.array array) => .ok (arrayContainsValue rt array right ignoreCase)
  | _ => .error .thrown

/-- Only arrays have a length. -/
def executeArray (ignoreCase : Bool) (operation : String) (leftValue right : Operand) :
    Option FilterOutcome :=
  let left := if leftValue.isNullish then .json (.array []) else leftValue
  let contains := containsValue rt left right ignoreCase
  let length : Operand :=
    match left with
    | .json (.array array) => .json (.number (.ofNat array.length))
    | _ => .undefined
  let isEmpty := length.strictEquals (.json (.number (.ofNat 0)))
  match operation with
  | "contains" => some contains
  | "notContains" => some (contains.map (!·))
  | "lengthEquals" => some (.ok (length.strictEquals right))
  | "lengthNotEquals" => some (.ok !(length.strictEquals right))
  | "lengthGt" => some (.ok (right.lt rt length))
  | "lengthLt" => some (.ok (length.lt rt right))
  | "lengthGte" => some (.ok (right.le rt length))
  | "lengthLte" => some (.ok (length.le rt right))
  | "empty" => some (.ok isEmpty)
  | "notEmpty" => some (.ok !isEmpty)
  | _ => none

/-- It has keys of its own. A `DateTime` has. -/
def hasKeys : Operand → Bool
  | .json (.array array) => !array.isEmpty
  | .json (.object properties) => !properties.isEmpty
  | .json (.string text) => !text.isEmpty
  | .json _ => false
  | .dateTime _ => true

def executeObject (operation : String) (left : Operand) : Option FilterOutcome :=
  match operation with
  | "empty" => some (.ok !(left.truthy && hasKeys left))
  | "notEmpty" => some (.ok (left.truthy && hasKeys left))
  | _ => none

/-- The cases of the types. An operation that a type does not have falls through to the next case,
but for `string`. -/
def executeOperator (type : FilterOperatorType) (operation : String) (ignoreCase exists' : Bool)
    (left right : Operand) : Option FilterOutcome :=
  let object := executeObject operation left
  let array := (executeArray rt ignoreCase operation left right).or object
  let boolean := (executeBoolean exists' operation left right).or array
  let dateTime := (executeDateTime exists' operation left right).or boolean
  match type with
  | .string => executeString rt ignoreCase operation left right
  | .number => (executeNumber rt exists' operation left right).or dateTime
  | .dateTime => dateTime
  | .boolean => boolean
  | .array => array
  | .object => object
  | .any => none

/-- An operator that is not known is not met. -/
def executeFilterCondition (condition : FilterConditionValue) (filterOptions : FilterOptionsValue)
    (metadata : FilterConditionMetadata) : FilterOutcome :=
  let operator := condition.operator
  match parseFilterConditionValues rt condition filterOptions metadata with
  | .error error => .error (.filterError error)
  | .ok (left, right) =>
    let exists' := !left.isNullish && !left.isNaN
    if operator.operation = "exists" then .ok exists'
    else if operator.operation = "notExists" then .ok !exists'
    else
      (executeOperator rt operator.type operator.operation (!filterOptions.caseSensitive) exists'
        left right).getD (.ok false)

/-! ## Filters -/

/-- The conditions from an index on, up to the one that decides. -/
def passAll (options : FilterOptionsValue) (itemIndex : ℕ) (decides : Bool) :
    ℕ → List FilterConditionValue → FilterOutcome
  | _, [] => .ok !decides
  | index, condition :: conditions =>
    match executeFilterCondition rt condition options { index, itemIndex } with
    | .error failure => .error failure
    | .ok passes =>
      if passes = decides then .ok decides
      else passAll options itemIndex decides (index + 1) conditions

/-- `every` is decided by a condition that does not pass, `some` by one that does. -/
def executeFilter (value : FilterValue) (itemIndex : ℕ) : FilterOutcome :=
  match value.combinator with
  | .and => passAll rt value.options itemIndex false 0 value.conditions
  | .or => passAll rt value.options itemIndex true 0 value.conditions
  | .unknown => .ok false

/-- What is pushed to an issue list that is not there throws. -/
def pushIssue (issues : Dict String (List CodeUnits)) (key : String) (message : CodeUnits) :
    Except FilterFailure (Dict String (List CodeUnits)) :=
  match issues.get? key with
  | some messages => .ok (issues.set key (messages ++ [message]))
  | none => .error .thrown

/-- The issues of the conditions from an index on. Only an error that is thrown becomes one; what
is parsed is not looked at. -/
def collectIssues (name : String) (options : FilterOptionsValue) :
    ℕ → List FilterConditionValue → Dict String (List CodeUnits) →
      Except FilterFailure (Dict String (List CodeUnits))
  | _, [], issues => .ok issues
  | index, condition :: conditions, issues =>
    let key := name ++ "." ++ toString index
    let parse : Except FilterError (Except FilterError (Operand × Operand)) :=
      .ok (parseFilterConditionValues rt condition options
        { index, unresolvedExpressions := true, inlineErrors := true })
    match parse with
    | .ok _ => collectIssues name options (index + 1) conditions issues
    | .error error => do
      let issues ← pushIssue issues key error.message
      collectIssues name options (index + 1) conditions issues

def validateFilterParameter (name : String) (value : FilterValue) :
    Except FilterFailure (Dict String (List CodeUnits)) :=
  collectIssues rt name value.options 0 value.conditions .empty

end N8n
