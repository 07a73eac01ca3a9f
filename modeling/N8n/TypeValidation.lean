import N8n.DisplayOptions

/-!
# Validation of types

`validateFieldType` for the types that filters have. What it takes from libraries and from the
language is given: the parsers of dates and of JSON, and what values are as texts.
-/

namespace N8n

open Doubles

/-- A resolved value, or a `DateTime` with its milliseconds, where it is valid. -/
inductive Operand
  | json (value : JsValue)
  | dateTime (millis : Option Number)

/-- What validation takes from elsewhere. None where a parser fails. -/
structure ValidationRuntime extends Runtime where
  toLowerCase : CodeUnits → CodeUnits
  toLocaleLowerCase : CodeUnits → CodeUnits
  toLocaleLowerCase_nil : toLocaleLowerCase [] = []
  trim : CodeUnits → CodeUnits
  dateTimeText : Option Number → CodeUnits
  /-- `JSON.stringify` -/
  stringify : Operand → CodeUnits
  parseDateTime : CodeUnits → Option Number
  /-- `JSON.parse` -/
  parseJson : CodeUnits → Option JsValue
  /-- `jsonParse` with `acceptJSObject` -/
  jsonParse : CodeUnits → Option JsValue
  /-- The test of a regular expression with flags. None if it is not a valid one. -/
  testRegExpWithFlags : CodeUnits → CodeUnits → CodeUnits → Option Bool

/-- `FilterOperatorType` -/
inductive FilterOperatorType
  | string | number | boolean | array | object | dateTime | any
  deriving DecidableEq

namespace Operand

def undefined : Operand := .json .undefined

/-- It is `null` or `undefined`. -/
def isNullish : Operand → Bool
  | .json .null | .json .undefined => true
  | _ => false

def isNaN : Operand → Bool
  | .json (.number .nan) => true
  | _ => false

def truthy : Operand → Bool
  | .json value => N8n.truthy value
  | .dateTime _ => true

/-- `typeof` -/
def typeOf : Operand → CodeUnits
  | .json .undefined => units "undefined"
  | .json (.boolean _) => units "boolean"
  | .json (.number _) => units "number"
  | .json (.string _) => units "string"
  | _ => units "object"

/-- `String(value)` -/
def toText (rt : ValidationRuntime) : Operand → CodeUnits
  | .json (.string text) => text
  | .json value => rt.toText value
  | .dateTime millis => rt.dateTimeText millis

/-- `Number(value)` -/
def toNumber (rt : ValidationRuntime) : Operand → Number
  | .json (.array values) => (rt.toPrimitive (.array values)).toNumber rt.toRuntime
  | .json (.object properties) => (rt.toPrimitive (.object properties)).toNumber rt.toRuntime
  | .json value => value.toNumber rt.toRuntime
  | .dateTime millis => millis.getD .nan

end Operand

section

variable (rt : ValidationRuntime)

def tryToParseNumber (value : Operand) : Option Operand :=
  match value.toNumber rt with
  | .nan => none
  | number => some (.json (.number number))

def tryToParseString (value : Operand) : Operand :=
  if value.typeOf = units "object" then .json (.string (rt.stringify value))
  else if value.typeOf = units "undefined" then .json (.string [])
  else .json (.string (value.toText rt))

def tryToParseBoolean (value : Operand) : Option Operand :=
  match value with
  | .json (.boolean boolean) => some (.json (.boolean boolean))
  | value =>
    let word :=
      match value with
      | .json (.string text) =>
        if rt.toLowerCase text = units "true" then some true
        else if rt.toLowerCase text = units "false" then some false else none
      | _ => none
    let empty :=
      match value with
      | .json (.string text) => decide (rt.trim text = [])
      | _ => false
    match word with
    | some boolean => some (.json (.boolean boolean))
    | none =>
      if empty then none
      else if (value.toNumber rt).same (.ofNat 0) then some (.json (.boolean false))
      else if (value.toNumber rt).same (.ofNat 1) then some (.json (.boolean true))
      else none

def tryToParseDateTime (value : Operand) : Option Operand :=
  match value with
  | .dateTime (some millis) => some (.dateTime (some millis))
  | value =>
    (rt.parseDateTime (rt.trim (value.toText rt))).map fun millis => .dateTime (some millis)

/-- Single quotes are replaced where the text cannot be parsed as it is. -/
def tryToParseArray (value : Operand) : Option Operand :=
  match value with
  | .json (.array values) => some (.json (.array values))
  | value =>
    let text := value.toText rt
    let replaced := text.map fun char => if char = 0x27 then 0x22 else char
    match (rt.parseJson text).or (rt.parseJson replaced) with
    | some (.array values) => some (.json (.array values))
    | _ => none

/-- The type of `null` is `object` too. -/
def tryToParseObject (value : Operand) : Option Operand :=
  match value with
  | .json (.object properties) => some (.json (.object properties))
  | .dateTime millis => some (.dateTime millis)
  | value =>
    match rt.jsonParse (value.toText rt) with
    | some (.object properties) => some (.json (.object properties))
    | some .null => some (.json .null)
    | _ => none

/-- `isObject` of the library -/
def isObject : Operand → Bool
  | .json (.array _) | .json (.object _) | .dateTime _ => true
  | _ => false

/-- The parsed value with `parseStrings`. None if the value is not valid. -/
def validateFieldType (value : Operand) (type : FilterOperatorType) (strict : Bool) :
    Option Operand :=
  if value.isNullish then some .undefined
  else
    match type with
    | .string =>
      if strict ∧ value.typeOf ≠ units "string" then none else some (tryToParseString rt value)
    | .number =>
      if strict ∧ value.typeOf ≠ units "number" then none else tryToParseNumber rt value
    | .boolean =>
      if strict ∧ value.typeOf ≠ units "boolean" then none else tryToParseBoolean rt value
    | .dateTime => tryToParseDateTime rt value
    | .object => if strict ∧ !isObject value then none else tryToParseObject rt value
    | .array =>
      match value with
      | .json (.array values) => some (.json (.array values))
      | value => if strict then none else tryToParseArray rt value
    | .any => some value

end

end N8n
