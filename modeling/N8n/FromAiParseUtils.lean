import Mathlib.Data.List.DropRight
import Mathlib.Data.List.Infix

/-!
# `$fromAI` calls

The calls in node parameters are found with a pattern, and their arguments are read by a scanner of
quotes, escapes and parentheses.
-/

namespace N8n.FromAi

/-- The result that a default value is parsed to: a number, or JSON. -/
inductive DefaultValue (δ : Type)
  | text (value : List Char)
  | boolean (value : Bool)
  | parsed (value : δ)

/-- `FromAIArgument` -/
structure FromAIArgument (δ : Type) where
  key : List Char
  description : Option (List Char)
  type : List Char
  defaultValue : Option (DefaultValue δ)

/-- What the language reads numbers and JSON with. -/
structure Readers (δ : Type) where
  toNumber : List Char → Option δ
  jsonParse : List Char → Option δ

/-! ## Characters -/

/-- `\s`, which is also what `trim` takes off. -/
def isSpace (c : Char) : Bool :=
  c.toNat ∈ [0x09, 0x0a, 0x0b, 0x0c, 0x0d, 0x20, 0xa0, 0x1680, 0x2028, 0x2029, 0x202f, 0x205f, 0x3000,
    0xfeff] || 0x2000 ≤ c.toNat && c.toNat ≤ 0x200a

def trim (text : List Char) : List Char := (text.dropWhile isSpace).rdropWhile isSpace

def quotes : List Char := ['"', '\'', '\x60']

/-! ## The arguments of a call -/

/-- The arguments one by one, each without the backslashes that escape a character. -/
def splitArguments : Option Char → Bool → List Char → List Char → List (List Char)
  | _, _, currentArg, [] => if currentArg = [] then [] else [trim currentArg]
  | quoteChar, true, currentArg, char :: argsString =>
    splitArguments quoteChar false (currentArg ++ [char]) argsString
  | quoteChar, false, currentArg, char :: argsString =>
    if char = '\\' then splitArguments quoteChar true currentArg argsString
    else if char ∈ quotes then
      splitArguments
        (if quoteChar = none then some char else if quoteChar = some char then none else quoteChar)
        false (currentArg ++ [char]) argsString
    else if char = ',' ∧ quoteChar = none then
      trim currentArg :: splitArguments none false [] argsString
    else splitArguments quoteChar false (currentArg ++ [char]) argsString

/-- All places where the character comes after a backslash are replaced by it. -/
def replaceEscaped (char : Char) : List Char → List Char
  | [] => []
  | [c] => [c]
  | c :: next :: text =>
    if c = '\\' ∧ next = char then char :: replaceEscaped char text
    else c :: replaceEscaped char (next :: text)

/-- A second time the backslashes of escaped characters are taken out. -/
def unescape (text : List Char) : List Char :=
  replaceEscaped '\\' (replaceEscaped '"' (replaceEscaped '\x60' (replaceEscaped '\'' text)))

def cleanArg (arg : List Char) : List Char :=
  let trimmed := trim arg
  if quotes.any fun quote => trimmed.head? = some quote && trimmed.getLast? = some quote then
    unescape trimmed.tail.dropLast
  else trimmed

/-- No character but an ASCII one has a lower case that is part of the name of a type. -/
def toLowerCase (text : List Char) : List Char := text.map Char.toLower

def isFromAIArgumentType (value : List Char) : Bool :=
  ["string".toList, "number".toList, "boolean".toList, "json".toList].contains (toLowerCase value)

variable {δ : Type} (readers : Readers δ)

def parseDefaultValue (value : Option (List Char)) (type : List Char) : Option (DefaultValue δ) :=
  value.map fun value =>
    let lowerValue := toLowerCase value
    if type = "string".toList then .text value
    else if type = "boolean".toList ∧ (lowerValue = "true".toList ∨ lowerValue = "false".toList) then
      .boolean (lowerValue = "true".toList)
    else
      match if type = "number".toList then readers.toNumber value else none with
      | some number => .parsed number
      | none =>
        match readers.jsonParse value with
        | some json => .parsed json
        | none => .text value

def parseArguments (argsString : List Char) : Except String (FromAIArgument δ) :=
  let cleanArgs := (splitArguments none false [] argsString).map cleanArg
  let type := cleanArgs[2]?.getD "string".toList
  if isFromAIArgumentType type then
    .ok
      { key := cleanArgs[0]?.getD []
        description := cleanArgs[1]?
        type
        defaultValue := parseDefaultValue readers cleanArgs[3]? type }
  else .error ("Invalid type: " ++ String.ofList type)

/-! ## The calls in a text -/

/-- What comes after a word. The text may be in upper case. -/
def afterWord : List Char → List Char → Option (List Char)
  | [], text => some text
  | _ :: _, [] => none
  | letter :: word, c :: text => if c.toLower = letter then afterWord word text else none

/-- What comes after the parenthesis that a text starts with, and after the space around it. -/
def afterParenthesis (text : List Char) : Option (List Char) :=
  match text.dropWhile isSpace with
  | [] => none
  | c :: text => if c = '(' then some (text.dropWhile isSpace) else none

/-- What comes after the start of a call, where there is one at the start of the text: the pattern
is `\$fromAI\s*\(\s*`. -/
def matchCall (text : List Char) : Option (List Char) :=
  (afterWord ['$', 'f', 'r', 'o', 'm', 'a', 'i'] text).bind afterParenthesis

/-- The text up to the parenthesis that closes the call. None if it is not closed. -/
def scanArguments : Option Char → ℕ → List Char → Option (List Char)
  | _, 0, _ => some []
  | _, _ + 1, [] => none
  | some _, _ + 1, [_] => none
  | some quoteChar, parentheses + 1, char :: next :: text =>
    if char = '\\' then
      (scanArguments (some quoteChar) (parentheses + 1) text).map ([char, next] ++ ·)
    else
      (scanArguments (if char = quoteChar then none else some quoteChar) (parentheses + 1)
        (next :: text)).map (char :: ·)
  | none, parentheses + 1, char :: text =>
    if char ∈ quotes then
      (scanArguments (some char) (parentheses + 1) text).map (char :: ·)
    else if char = '(' then (scanArguments none (parentheses + 2) text).map (char :: ·)
    else if char = ')' then
      (scanArguments none parentheses text).map ((if parentheses = 0 then [] else [char]) ++ ·)
    else (scanArguments none (parentheses + 1) text).map (char :: ·)

/-- The call that the text comes after the start of. -/
def parseCall (text : List Char) : Except String (FromAIArgument δ) :=
  match scanArguments none 1 text with
  | none =>
    .error ("Unbalanced parentheses while parsing $fromAI call: " ++ String.ofList text)
  | some argsString =>
    match parseArguments readers argsString with
    | .ok argument => .ok argument
    | .error error =>
      .error ("Failed to parse $fromAI arguments: " ++ String.ofList argsString ++ ": Error: " ++
        error)

/-- The calls from `lastIndex` on, which lies some characters ahead. The pattern goes on behind the
start of a call, not behind the call. -/
def callsFrom : ℕ → List Char → Except String (List (FromAIArgument δ))
  | _, [] => .ok []
  | ahead + 1, _ :: text => callsFrom ahead text
  | 0, c :: text =>
    match matchCall (c :: text) with
    | none => callsFrom 0 text
    | some start =>
      match parseCall readers start with
      | .error error => .error error
      | .ok argument => (callsFrom (text.length - start.length) text).map (argument :: ·)

def extractFromAICalls (text : List Char) : Except String (List (FromAIArgument δ)) :=
  callsFrom readers 0 text

/-! ## The calls in parameters -/

/-- The values of node parameters, objects as the values of their properties in order. -/
inductive Payload
  | text (value : List Char)
  | array (items : List Payload)
  | object (values : List Payload)
  | other

mutual

/-- What is added to the collected arguments. -/
def traverseNodeParameters : Payload → Except String (List (FromAIArgument δ))
  | .text value => extractFromAICalls readers value
  | .array items => traverseAll items
  | .object values => traverseAll values
  | .other => .ok []

def traverseAll : List Payload → Except String (List (FromAIArgument δ))
  | [] => .ok []
  | payload :: payloads =>
    match traverseNodeParameters payload with
    | .error error => .error error
    | .ok arguments => (traverseAll payloads).map (arguments ++ ·)

end

end N8n.FromAi
