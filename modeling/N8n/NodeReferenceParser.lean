import Mathlib.Data.List.Sort
import N8n.Library.Dict
import N8n.ParameterValues

/-!
# Extracting a sub-workflow

`extractReferencesInNodeExpressions` finds the references in the expressions of the nodes that are
extracted. Data from outside becomes an input of the sub-workflow, under a name of its own.
-/

namespace N8n

open Replacement

namespace NodeReferenceParser

structure ExpressionMapping where
  nodeNameInExpression : Option CodeUnits
  originalExpression : CodeUnits
  replacementPrefix : CodeUnits
  replacementName : CodeUnits
  deriving DecidableEq, Repr

namespace ExpressionMapping

variable (mapping : ExpressionMapping)

/-- What stands for the reference under a name: `${replacementPrefix}.${replacementName}` -/
def keyOf (name : CodeUnits) : CodeUnits := mapping.replacementPrefix ++ units "." ++ name

def key : CodeUnits := mapping.keyOf mapping.replacementName

end ExpressionMapping

/-! ## Names -/

/-- `\w` -/
def isWord (unit : ℕ) : Bool :=
  isDigit unit || (0x41 ≤ unit ∧ unit ≤ 0x5a) || (0x61 ≤ unit ∧ unit ≤ 0x7a) || unit = 0x5f

/-- No match of `INVALID_JS_DOT_NAME`. -/
def isJsDotName (unit : ℕ) : Bool := isWord unit || unit = dollar

/-- No match of `INVALID_JS_DOT_PATH`. -/
def isJsDotPath (unit : ℕ) : Bool := isJsDotName unit || unit = 0x2e

/-- `DOT_REFERENCEABLE_JS_VARIABLE` has no anchors. -/
def isDotReferenceable (part : CodeUnits) : Bool := part.any isWord

/-- `while (taken(name)) name += suffix`, with so many turns at most -/
def appendWhile (taken : CodeUnits → Bool) (suffix : CodeUnits) : ℕ → CodeUnits → CodeUnits
  | 0, name => name
  | turns + 1, name =>
    if taken name then appendWhile taken suffix turns (name ++ suffix) else name

/-- `indexOf`, in digits -/
def indexOf (allNodeNames : List CodeUnits) (nodeName : CodeUnits) : CodeUnits :=
  if nodeName ∈ allNodeNames then units (toString (allNodeNames.idxOf nodeName)) else units "-1"

def convertToUniqueJsDotName (nodeName : CodeUnits) (allNodeNames : List CodeUnits) : CodeUnits :=
  let jsLegal := (nodeName.map fun unit => if unit = 0x20 then 0x5f else unit).filter isJsDotName
  if nodeName = jsLegal then jsLegal
  else appendWhile (· ∈ allNodeNames) (units "_" ++ indexOf allNodeNames nodeName)
    allNodeNames.length jsLegal

/-- `toLowerCase`, of ASCII -/
def toLowerCase (text : CodeUnits) : CodeUnits :=
  text.map fun unit => if 0x41 ≤ unit ∧ unit ≤ 0x5a then unit + 0x20 else unit

def convertDataAccessorName (name : CodeUnits) : CodeUnits :=
  let parts := name.splitOn 0x28
  let fnName := parts.headD []
  if toLowerCase fnName = units "item" then fnName
  else if toLowerCase fnName ∈ [units "first", units "last"] then fnName ++ units "Item"
  else if toLowerCase fnName = units "all" then fnName ++ units "Items"
  else fnName ++ units "_" ++ (parts[1]?.map List.dropLast).getD (units "unknown")

/-! ## Accessors -/

/-- How long the match of a literal at the start of a text is. -/
def literalStart (source text : CodeUnits) : Option ℕ :=
  if source.isPrefixOf text then some source.length else none

/-- `/^itemMatching\(\d+\)/` -/
def itemMatchingStart (text : CodeUnits) : Option ℕ := do
  let start ← literalStart (units "itemMatching(") text
  let digits := (text.drop start).takeWhile isDigit
  if digits ≠ [] ∧ (text.drop (start + digits.length)).head? = some 0x29 then
    some (start + digits.length + 1)
  else none

/-- `ITEM_TO_DATA_ACCESSORS` -/
def itemToDataAccessors : List (CodeUnits → Option ℕ) :=
  [literalStart (units "first()"), literalStart (units "last()"), literalStart (units "all()"),
    itemMatchingStart, literalStart (units "item")]

/-- `ITEM_ACCESSORS` -/
def itemAccessors : List CodeUnits := [units "params", units "isExecuted"]

/-- `DATA_ACCESSORS` -/
def dataAccessors : List CodeUnits := [units "json", units "binary"]

/-! ## One reference -/

def join (separator : CodeUnits) (parts : List CodeUnits) : CodeUnits :=
  separator.intercalate parts

/-- `$('${startNodeName}').${accessor}` -/
def startAccess (startNodeName accessor : CodeUnits) : CodeUnits :=
  units "$('" ++ startNodeName ++ units "')." ++ accessor

def parseExpressionMapping (isolatedExpression : CodeUnits)
    (nodeNameInExpression nodeNamePlainJs : Option CodeUnits) (startNodeName : CodeUnits) :
    Option ExpressionMapping :=
  let splitExpr := isolatedExpression.splitOn 0x2e
  let dotsInName := (nodeNameInExpression.getD []).count 0x2e
  let dotInAccessorsOffset := if (units "$node.").isPrefixOf isolatedExpression then 1 else 0
  let exprStart := join (units ".") (splitExpr.take (dotInAccessorsOffset + dotsInName + 1))
  let parts := splitExpr.drop (dotInAccessorsOffset + dotsInName + 1)
  let plain := nodeNamePlainJs.getD (units "null")
  if exprStart = units "$json" then
    let path := parts.takeWhile isDotReferenceable
    some {
      nodeNameInExpression := none
      originalExpression :=
        exprStart ++ units "." ++ join (units ".") (parts.take (path.length + 1))
      replacementPrefix := exprStart
      replacementName := join (units "_") path }
  else
    match parts with
    | [] => none
    | accessor :: rest =>
      let accessorPrefix := if accessor = units "all()" then units "first()" else accessor
      if itemToDataAccessors.any fun start => (start accessor).isSome then
        -- the return value of the accessor as a whole, or a method of it
        let whole : ExpressionMapping := {
          nodeNameInExpression := nodeNameInExpression
          originalExpression := exprStart ++ units "." ++ accessor
          replacementPrefix := startAccess startNodeName accessorPrefix ++ units ".json"
          replacementName := plain ++ units "_" ++ convertDataAccessorName accessor }
        match rest with
        | [] => some whole
        | data :: fields =>
          if data ∈ dataAccessors then
            let path := fields.takeWhile isDotReferenceable
            let replacementPostfix := if accessor = units "item" then []
              else units "_" ++ convertDataAccessorName accessor
            some {
              nodeNameInExpression := nodeNameInExpression
              originalExpression := exprStart ++ units "." ++
                join (units ".") (accessor :: data :: fields.take (path.length + 1))
              replacementPrefix := startAccess startNodeName accessorPrefix ++ units "." ++ data
              replacementName := join (units "_") path ++ replacementPostfix }
          else some whole
      else if accessor ∈ itemAccessors then
        some {
          nodeNameInExpression := nodeNameInExpression
          originalExpression := exprStart ++ units "." ++ accessor
          replacementPrefix := startAccess startNodeName (units "first()") ++ units ".json"
          replacementName := plain ++ units "_" ++ accessor }
      else none

def extractExpressionCandidate (expression : CodeUnits) (startIndex endIndex : ℕ) :
    Option CodeUnits := do
  let afterAccessorIdx :=
    match itemToDataAccessors.findSome? fun start => start (expression.drop endIndex) with
    | some length => endIndex + length
    | none => endIndex - 1
  -- skip `.` to continue
  let afterAccessorIdx :=
    if expression[afterAccessorIdx + 1]? = some 0x2e then afterAccessorIdx + 1 else afterAccessorIdx
  let firstInvalid ← (expression.drop afterAccessorIdx).findIdx? (!isJsDotPath ·)
  some ((expression.take (afterAccessorIdx + firstInvalid)).drop startIndex)

/-! ## The references in an expression -/

/-- The whole match, and the group with the name. -/
structure RegExpMatch where
  index : ℕ
  text : CodeUnits
  name : CodeUnits

/-- `matchAll`, from an index on. The second number says how much more belongs to a match. -/
def matchAll (matchAt : CodeUnits → Option (CodeUnits × CodeUnits)) :
    ℕ → ℕ → CodeUnits → List RegExpMatch
  | _, _, [] => []
  | index, skip + 1, _ :: text => matchAll matchAt (index + 1) skip text
  | index, 0, unit :: text =>
    match matchAt (unit :: text) with
    | some (found, name) =>
      ⟨index, found, name⟩ :: matchAll matchAt (index + 1) (found.length - 1) text
    | none => matchAll matchAt (index + 1) 0 text

/-- The regular expression of a pattern, with all names. They are escaped there, so that each one
matches itself, and they are tried in their order. -/
def matchNodeNames (nodeNames : List CodeUnits) (pattern : AccessPattern) (text : CodeUnits) :
    Option (CodeUnits × CodeUnits) :=
  pattern.before.findSome? fun before =>
    nodeNames.findSome? fun name =>
      pattern.after.findSome? fun after =>
        if (before ++ name ++ after).isPrefixOf text then some (before ++ name ++ after, name)
        else none

/-- `/\$json/gi` -/
def matchJson (text : CodeUnits) : Option (CodeUnits × CodeUnits) :=
  if toLowerCase (text.take 5) = units "$json" then some (text.take 5, []) else none

def parseCandidateMatch (found : RegExpMatch) (expression : CodeUnits)
    (nodeNames : List CodeUnits) (startNodeName : CodeUnits) : Option ExpressionMapping :=
  if found.name ∉ nodeNames then none
  else do
    let candidate ← extractExpressionCandidate expression found.index
      (found.index + found.text.length + 1)
    parseExpressionMapping candidate (some found.name)
      (some (convertToUniqueJsDotName found.name nodeNames)) startNodeName

/-- `parse$jsonMatch` -/
def parseJsonMatch (found : RegExpMatch) (expression startNodeName : CodeUnits) :
    Option ExpressionMapping := do
  let candidate ← extractExpressionCandidate expression found.index
    (found.index + found.text.length + 1)
  parseExpressionMapping candidate none none startNodeName

/-- The references in an expression, with the index at which each one starts. -/
def locateReferences (nodeNames : List CodeUnits) (startNodeName : CodeUnits) (parseJson : Bool)
    (expression : CodeUnits) : List (ℕ × ExpressionMapping) :=
  (accessPatterns.flatMap fun pattern =>
    if pattern.checkPattern <:+: expression then
      (matchAll (matchNodeNames nodeNames pattern) 0 0 expression).filterMap fun found =>
        (parseCandidateMatch found expression nodeNames startNodeName).map (found.index, ·)
    else []) ++
  if parseJson ∧ units "$json" <:+: expression then
    (matchAll matchJson 0 0 expression).filterMap fun found =>
      (parseJsonMatch found expression startNodeName).map (found.index, ·)
  else []

def parseReferencingExpressions (nodeNames : List CodeUnits) (startNodeName : CodeUnits)
    (parseJson : Bool) (expression : CodeUnits) : List ExpressionMapping :=
  (locateReferences nodeNames startNodeName parseJson expression).map Prod.snd

/-! ## The expressions of a node -/

/-- `ParameterExtractMapping`, with the shape of the parameters. For an array it has the indexes as
its keys. -/
inductive ParameterExtractMapping
  | undefined
  | expressions (mappings : List ExpressionMapping)
  | elements (values : List ParameterExtractMapping)
  | properties (properties : List (CodeUnits × ParameterExtractMapping))

def isExpression (keyOfValue : Option CodeUnits) (value : CodeUnits) : Bool :=
  value.head? = some 0x3d || keyOfValue = some (units "jsCode")

section

variable {Number : Type} (mapper : CodeUnits → List ExpressionMapping)

mutual

def applyParameterMapping (keyOfValue : Option CodeUnits) :
    ParameterValue Number → ParameterExtractMapping × List ExpressionMapping
  | .string value =>
    if isExpression keyOfValue value then (.expressions (mapper value), mapper value)
    else (.undefined, [])
  | .number _ => (.undefined, [])
  | .boolean _ => (.undefined, [])
  | .null => (.undefined, [])
  | .undefined => (.undefined, [])
  | .array values => ((.elements (applyArrayMapping values).1), (applyArrayMapping values).2)
  | .object properties =>
    (.properties (applyObjectMapping properties).1, (applyObjectMapping properties).2)

/-- No index is the key of code. -/
def applyArrayMapping :
    List (ParameterValue Number) → List ParameterExtractMapping × List ExpressionMapping
  | [] => ([], [])
  | value :: values =>
    let first := applyParameterMapping none value
    let rest := applyArrayMapping values
    (first.1 :: rest.1, first.2 ++ rest.2)

/-- What is set as the prototype is no property, and is not found again. -/
def applyObjectMapping : List (CodeUnits × ParameterValue Number) →
    List (CodeUnits × ParameterExtractMapping) × List ExpressionMapping
  | [] => ([], [])
  | (key, value) :: properties =>
    let first := applyParameterMapping (some key) value
    let rest := applyObjectMapping properties
    ((key, if key = protoName then .undefined else first.1) :: rest.1, first.2 ++ rest.2)

end

end

/-! ## Duplicates -/

/-- `triggerArgumentMap` and `originalExpressionMap` -/
structure DuplicateMaps where
  triggerArgumentMap : Dict CodeUnits ExpressionMapping
  originalExpressionMap : Dict CodeUnits CodeUnits

def hasKeyAndCollides (triggerArgumentMap : Dict CodeUnits ExpressionMapping)
    (mapping : ExpressionMapping) (key : CodeUnits) : Bool :=
  match triggerArgumentMap.get? key with
  | none => false
  | some value => value ≠ mapping

/-- The name of the node is put before the name of the reference, where there is one. -/
def withNodeName (allNodeNames : List CodeUnits) (mapping : ExpressionMapping) : Option CodeUnits :=
  match mapping.nodeNameInExpression with
  | none | some [] => none
  | some nodeName =>
    some (convertToUniqueJsDotName nodeName allNodeNames ++ units "_" ++ mapping.replacementName)

def resolveName (allNodeNames : List CodeUnits)
    (triggerArgumentMap : Dict CodeUnits ExpressionMapping) (mapping : ExpressionMapping) :
    CodeUnits :=
  let collides name := hasKeyAndCollides triggerArgumentMap mapping (mapping.keyOf name)
  let replacementName := if collides mapping.replacementName then
      (withNodeName allNodeNames mapping).getD mapping.replacementName
    else mapping.replacementName
  -- each name that is taken is a key of the map
  appendWhile collides (units "_1") triggerArgumentMap.size replacementName

def resolveMapping (allNodeNames : List CodeUnits) (maps : DuplicateMaps)
    (mapping : ExpressionMapping) : DuplicateMaps :=
  let resolved := { mapping with
    replacementName := resolveName allNodeNames maps.triggerArgumentMap mapping }
  { triggerArgumentMap := maps.triggerArgumentMap.set resolved.key resolved
    originalExpressionMap :=
      maps.originalExpressionMap.set mapping.originalExpression resolved.key }

def resolveDuplicates (data : List ExpressionMapping) (allNodeNames : List CodeUnits) :
    DuplicateMaps :=
  data.foldl (resolveMapping allNodeNames) ⟨.empty, .empty⟩

/-- An empty key is none. -/
def getCanonicalData (maps : DuplicateMaps) (originalExpression : CodeUnits) :
    Option ExpressionMapping :=
  match maps.originalExpressionMap.get? originalExpression with
  | none | some [] => none
  | some key => maps.triggerArgumentMap.get? key

/-! ## Replacing the references -/

/-- What the replacement stands for. There are no groups. -/
def substitute (before matched after : CodeUnits) : CodeUnits → CodeUnits
  | [] => []
  | [unit] => [unit]
  | unit :: next :: replacement =>
    if unit ≠ dollar then unit :: substitute before matched after (next :: replacement)
    else if next = dollar then dollar :: substitute before matched after replacement
    else if next = 0x26 then matched ++ substitute before matched after replacement
    else if next = 0x60 then before ++ substitute before matched after replacement
    else if next = 0x27 then after ++ substitute before matched after replacement
    else unit :: substitute before matched after (next :: replacement)

/-- A match of a string at the start of what is left of the text. -/
def matchString (text search replacement left : CodeUnits) : Option (ℕ × CodeUnits) :=
  if search.isPrefixOf left then
    some (search.length, substitute (text.take (text.length - left.length)) search
      (left.drop search.length) replacement)
  else none

/-- `replaceAll` with a string -/
def replaceString (text search replacement : CodeUnits) : CodeUnits :=
  replaceAll (matchString text search replacement) 0 text

/-- The loop over the mappings of an expression, and the mappings that are used. -/
def applyExpressionMappings :
    List ExpressionMapping → CodeUnits → CodeUnits × List ExpressionMapping
  | [], text => (text, [])
  | mapper :: mappings, text =>
    if mapper.originalExpression <:+: text then
      let rest := applyExpressionMappings mappings
        (replaceString text mapper.originalExpression mapper.key)
      (rest.1, mapper :: rest.2)
    else applyExpressionMappings mappings text

mutual

def applyCanonicalMapping (getCanonicalData : ExpressionMapping → Option ExpressionMapping) :
    ParameterExtractMapping → ParameterExtractMapping
  | .undefined => .undefined
  | .expressions mappings => .expressions <| (mappings.filterMap getCanonicalData).insertionSort
      fun a b => b.originalExpression.length ≤ a.originalExpression.length
  | .elements values => .elements (applyCanonicalElements getCanonicalData values)
  | .properties properties => .properties (applyCanonicalProperties getCanonicalData properties)

def applyCanonicalElements (getCanonicalData : ExpressionMapping → Option ExpressionMapping) :
    List ParameterExtractMapping → List ParameterExtractMapping
  | [] => []
  | value :: values =>
    applyCanonicalMapping getCanonicalData value :: applyCanonicalElements getCanonicalData values

def applyCanonicalProperties (getCanonicalData : ExpressionMapping → Option ExpressionMapping) :
    List (CodeUnits × ParameterExtractMapping) → List (CodeUnits × ParameterExtractMapping)
  | [] => []
  | (key, value) :: properties =>
    (key, applyCanonicalMapping getCanonicalData value) ::
      applyCanonicalProperties getCanonicalData properties

end

section

variable {Number : Type}

mutual

def applyMapping : ParameterValue Number → ParameterExtractMapping →
    ParameterValue Number × List ExpressionMapping
  | .string value, mapping =>
    match mapping with
    | .expressions mappings =>
      (.string (applyExpressionMappings mappings value).1,
        (applyExpressionMappings mappings value).2)
    | _ => (.string value, [])
  | .number value, _ => (.number value, [])
  | .boolean value, _ => (.boolean value, [])
  | .null, _ => (.null, [])
  | .undefined, _ => (.undefined, [])
  | .array values, mapping =>
    match mapping with
    | .elements mappings =>
      (.array (applyArray values mappings).1, (applyArray values mappings).2)
    | _ => (.array values, [])
  | .object properties, mapping =>
    match mapping with
    | .properties mappings =>
      (.object (applyObject properties mappings).1, (applyObject properties mappings).2)
    | _ => (.object properties, [])

def applyArray : List (ParameterValue Number) → List ParameterExtractMapping →
    List (ParameterValue Number) × List ExpressionMapping
  | value :: values, mapping :: mappings =>
    let first := applyMapping value mapping
    let rest := applyArray values mappings
    (first.1 :: rest.1, first.2 ++ rest.2)
  | values, _ => (values, [])

/-- The mapping has been made from these properties, and has their keys in the same order. -/
def applyObject : List (CodeUnits × ParameterValue Number) →
    List (CodeUnits × ParameterExtractMapping) →
    List (CodeUnits × ParameterValue Number) × List ExpressionMapping
  | (key, value) :: properties, (_, mapping) :: mappings =>
    let first := applyMapping value mapping
    let rest := applyObject properties mappings
    ((key, first.1) :: rest.1, first.2 ++ rest.2)
  | properties, _ => (properties, [])

end

end

/-! ## The extraction -/

/-- What is read of an `INode`. -/
structure ExtractedNode (Number : Type) where
  name : CodeUnits
  type : CodeUnits
  parameters : List (CodeUnits × ParameterValue Number)

/-- The arguments of `extractReferencesInNodeExpressions` -/
structure Selection (Number : Type) where
  subGraph : List (ExtractedNode Number)
  nodeNames : List CodeUnits
  insertedStartName : CodeUnits
  graphInputNodeNames : Option (List CodeUnits)

/-- `OperationalError` -/
inductive ExtractionError
  | startNameExists (insertedStartName : CodeUnits) (subGraphNames : List CodeUnits)
  | unknownName (subGraphNames nodeNames : List CodeUnits)
  | expressionToSplitOut (trimmed : CodeUnits)
  deriving DecidableEq

/-- The message, given `JSON.stringify`. -/
def ExtractionError.message (stringify : List CodeUnits → CodeUnits) : ExtractionError → CodeUnits
  | startNameExists insertedStartName subGraphNames =>
    units "StartNodeName " ++ insertedStartName ++ units " already exists in nodeNames: " ++
      stringify subGraphNames
  | unknownName subGraphNames nodeNames =>
    units "extractReferencesInNodeExpressions called with node in subGraph " ++
      stringify subGraphNames ++ units " whose name is not in provided 'nodeNames' list " ++
      stringify nodeNames ++ units "."
  | expressionToSplitOut trimmed =>
    units "Extracting sub-workflow from Split Out node with 'fieldToSplitOut' parameter " ++
      units "having expression \"" ++ trimmed ++ units "\" is not supported."

structure ExtractionResult (Number : Type) where
  nodes : List (ExtractedNode Number)
  variableMap : Dict CodeUnits CodeUnits

def splitOutNodeType : CodeUnits := units "n8n-nodes-base.splitOut"

/-- What `trim` takes away. -/
def whitespace : CodeUnits :=
  [0x09, 0x0a, 0x0b, 0x0c, 0x0d, 0x20, 0xa0, 0x1680, 0x2000, 0x2001, 0x2002, 0x2003, 0x2004, 0x2005,
    0x2006, 0x2007, 0x2008, 0x2009, 0x200a, 0x2028, 0x2029, 0x202f, 0x205f, 0x3000, 0xfeff]

def trim (text : CodeUnits) : CodeUnits :=
  ((text.dropWhile (· ∈ whitespace)).reverse.dropWhile (· ∈ whitespace)).reverse

def applyExtractMappingToNode {Number : Type} (node : ExtractedNode Number)
    (parameterExtractMapping : ParameterExtractMapping) :
    ExtractedNode Number × List ExpressionMapping :=
  match parameterExtractMapping with
  | .properties mappings =>
    ({ node with parameters := (applyObject node.parameters mappings).1 },
      (applyObject node.parameters mappings).2)
  | _ => (node, [])

/-- A candidate is used too, unless one of its name is. -/
def useCandidate (maps : DuplicateMaps) (allUsedMappings : List ExpressionMapping)
    (candidate : ExpressionMapping) : List ExpressionMapping :=
  match getCanonicalData maps candidate.originalExpression with
  | none => allUsedMappings
  | some canonical =>
    if allUsedMappings.any fun used => used.replacementName = canonical.replacementName then
      allUsedMappings
    else allUsedMappings ++ [canonical]

def variablesOf (allUsedMappings : List ExpressionMapping) : Dict CodeUnits CodeUnits :=
  allUsedMappings.foldl
    (fun variableMap used => variableMap.set used.replacementName used.originalExpression) .empty

namespace Selection

variable {Number : Type} (selection : Selection Number)

def subGraphNames : List CodeUnits := selection.subGraph.map ExtractedNode.name

def isGraphInput (node : ExtractedNode Number) : Bool :=
  node.name ∈ selection.graphInputNodeNames.getD []

def locate (node : ExtractedNode Number) (expression : CodeUnits) : List (ℕ × ExpressionMapping) :=
  locateReferences selection.nodeNames selection.insertedStartName (selection.isGraphInput node)
    expression

def parse (node : ExtractedNode Number) (expression : CodeUnits) : List ExpressionMapping :=
  parseReferencingExpressions selection.nodeNames selection.insertedStartName
    (selection.isGraphInput node) expression

/-- The parameters of a node, gone through. -/
def parameterMapping (node : ExtractedNode Number) :
    ParameterExtractMapping × List ExpressionMapping :=
  applyParameterMapping (selection.parse node) none (.object node.parameters)

def allData : List ExpressionMapping :=
  selection.subGraph.flatMap fun node => (selection.parameterMapping node).2

def parameterTreeMappingByNode : Dict CodeUnits ParameterExtractMapping :=
  selection.subGraph.foldl
    (fun trees node => trees.set node.name (selection.parameterMapping node).1) .empty

/-- The fields that a Split Out node at the start splits out, as expressions. -/
def fieldsToSplitOut (node : ExtractedNode Number) : Except ExtractionError (List CodeUnits) :=
  if (selection.graphInputNodeNames.getD []).head? = some node.name ∧
      node.type = splitOutNodeType then
    match node.parameters.lookup (units "fieldToSplitOut") with
    | some (.string raw) =>
      if trim raw = [] then .ok []
      else if (trim raw).head? = some 0x3d then .error (.expressionToSplitOut (trim raw))
      else .ok <| ((trim raw).splitOn 0x2c).map fun field =>
        units "=\x7b\x7b$json." ++ trim field ++ units "\x7d\x7d"
    | _ => .ok []
  else .ok []

def extraVariableCandidates : Except ExtractionError (List ExpressionMapping) :=
  selection.subGraph.foldlM (fun candidates node => do
    let fields ← selection.fieldsToSplitOut node
    return candidates ++ fields.flatMap (selection.parse node)) []

/-- Without the name of a node it is what comes into the selection. -/
def isOutside (mapping : ExpressionMapping) : Bool :=
  match mapping.nodeNameInExpression with
  | none | some [] => true
  | some nodeName => nodeName ∉ selection.subGraphNames

def dataFromOutsideSubgraph (extraVariableCandidates : List ExpressionMapping) :
    List ExpressionMapping :=
  (selection.allData ++ extraVariableCandidates).filter selection.isOutside

/-- The last steps, which rename what is found. -/
def extractWith (extraVariableCandidates : List ExpressionMapping) : ExtractionResult Number :=
  let maps := resolveDuplicates (selection.dataFromOutsideSubgraph extraVariableCandidates)
    selection.nodeNames
  let trees := selection.parameterTreeMappingByNode.mapValues <|
    applyCanonicalMapping fun mapping => getCanonicalData maps mapping.originalExpression
  let applied := selection.subGraph.map fun node =>
    applyExtractMappingToNode node ((trees.get? node.name).getD .undefined)
  { nodes := applied.map Prod.fst
    variableMap := variablesOf <|
      extraVariableCandidates.foldl (useCandidate maps) (applied.flatMap Prod.snd) }

def extractReferencesInNodeExpressions : Except ExtractionError (ExtractionResult Number) :=
  if selection.insertedStartName ∈ selection.subGraphNames then
    .error (.startNameExists selection.insertedStartName selection.subGraphNames)
  else if ∃ name ∈ selection.subGraphNames, name ∉ selection.nodeNames then
    .error (.unknownName selection.subGraphNames selection.nodeNames)
  else selection.extraVariableCandidates.map selection.extractWith

end Selection

/-! ## What it is for -/

/-- A reference to data from outside, with its index, or another code unit of an expression. -/
inductive Piece
  | unit (unit : ℕ)
  | reference (index : ℕ) (mapping : ExpressionMapping)
  deriving DecidableEq, Repr

namespace Piece

/-- The text of a piece, given that of a reference. -/
def written (reference : ExpressionMapping → CodeUnits) : Piece → CodeUnits
  | .unit char => [char]
  | .reference _ mapping => reference mapping

/-- At this place in its text a reference by the expression starts, which stands there. -/
def startsWith (reference : ExpressionMapping → CodeUnits) (originalExpression : CodeUnits) :
    Piece → ℕ → Bool
  | .reference _ mapping, 0 =>
    mapping.originalExpression = originalExpression ∧ reference mapping = originalExpression
  | _, _ => false

end Piece

/-- An expression from left to right. The second number says how much more of it belongs to a
reference. -/
def pieces (located : List (ℕ × ExpressionMapping)) : ℕ → ℕ → CodeUnits → List Piece
  | _, _, [] => []
  | index, skip + 1, _ :: text => pieces located (index + 1) skip text
  | index, 0, unit :: text =>
    match located.find? fun reference =>
      reference.1 = index ∧ reference.2.originalExpression <+: unit :: text with
    | some reference =>
      .reference reference.1 reference.2 ::
        pieces located (index + 1) (reference.2.originalExpression.length - 1) text
    | none => .unit unit :: pieces located (index + 1) 0 text

section

variable {Number : Type}

mutual

/-- The expressions in a value, and whether they are below a property that would be the
prototype. -/
def expressionTexts (hidden : Bool) (keyOfValue : Option CodeUnits) :
    ParameterValue Number → List (Bool × CodeUnits)
  | .string value => if isExpression keyOfValue value then [(hidden, value)] else []
  | .number _ => []
  | .boolean _ => []
  | .null => []
  | .undefined => []
  | .array values => expressionTextsOfArray hidden values
  | .object properties => expressionTextsOfObject hidden properties

def expressionTextsOfArray (hidden : Bool) :
    List (ParameterValue Number) → List (Bool × CodeUnits)
  | [] => []
  | value :: values => expressionTexts hidden none value ++ expressionTextsOfArray hidden values

def expressionTextsOfObject (hidden : Bool) :
    List (CodeUnits × ParameterValue Number) → List (Bool × CodeUnits)
  | [] => []
  | (key, value) :: properties =>
    expressionTexts (hidden || key = protoName) (some key) value ++
      expressionTextsOfObject hidden properties

end

variable (rewrite : CodeUnits → CodeUnits)

mutual

/-- A value with its expressions rewritten. -/
def rewriteExpressions (keyOfValue : Option CodeUnits) :
    ParameterValue Number → ParameterValue Number
  | .string value => .string (if isExpression keyOfValue value then rewrite value else value)
  | .number value => .number value
  | .boolean value => .boolean value
  | .null => .null
  | .undefined => .undefined
  | .array values => .array (rewriteArray values)
  | .object properties => .object (rewriteObject properties)

def rewriteArray : List (ParameterValue Number) → List (ParameterValue Number)
  | [] => []
  | value :: values => rewriteExpressions none value :: rewriteArray values

def rewriteObject :
    List (CodeUnits × ParameterValue Number) → List (CodeUnits × ParameterValue Number)
  | [] => []
  | (key, value) :: properties =>
    (key, rewriteExpressions (some key) value) :: rewriteObject properties

end

end

namespace Selection

variable {Number : Type} (selection : Selection Number)

/-- The references to data from outside in an expression. -/
def locateOutside (node : ExtractedNode Number) (expression : CodeUnits) :
    List (ℕ × ExpressionMapping) :=
  (selection.locate node expression).filter fun reference => selection.isOutside reference.2

def piecesOf (node : ExtractedNode Number) (expression : CodeUnits) : List Piece :=
  pieces (selection.locateOutside node expression) 0 0 expression

/-- Each reference to data from outside stands under the name that its expression is given. -/
def rewriteNode (given : CodeUnits → ExpressionMapping) (node : ExtractedNode Number) :
    ExtractedNode Number :=
  { node with
    parameters := rewriteObject
      (fun expression => (selection.piecesOf node expression).flatMap
        (Piece.written fun mapping => (given mapping.originalExpression).key))
      node.parameters }

/-- The references are replaced under the names of their expressions, and the variables are these
names. -/
structure KeepsApart (references : List ExpressionMapping) (given : CodeUnits → ExpressionMapping)
    (result : ExtractionResult Number) : Prop where
  nodes : result.nodes = selection.subGraph.map (selection.rewriteNode given)
  entry : ∀ mapping ∈ references,
    ∃! name, result.variableMap.get? name = some mapping.originalExpression
  names : ∀ mapping ∈ references, ∀ mapping' ∈ references,
    mapping.originalExpression ≠ mapping'.originalExpression →
      (given mapping.originalExpression).replacementName ≠
        (given mapping'.originalExpression).replacementName
  values : ∀ name originalExpression,
    result.variableMap.get? name = some originalExpression ↔
      ∃ mapping ∈ references, mapping.originalExpression = originalExpression ∧
        (given originalExpression).replacementName = name

/-- In what is returned no two references are merged. -/
def NeverMerges : Prop :=
  ∀ candidates result, selection.extraVariableCandidates = .ok candidates →
    selection.extractReferencesInNodeExpressions = .ok result →
      ∃ given, selection.KeepsApart (selection.dataFromOutsideSubgraph candidates) given result

end Selection

/-! ## Where it keeps references apart -/

section Clear

variable (allNodeNames : List CodeUnits)

/-- The names that a reference may get, in the order in which they are tried. -/
def nameAt (mapping : ExpressionMapping) : ℕ → CodeUnits
  | 0 => mapping.replacementName
  | turns + 1 =>
    match withNodeName allNodeNames mapping with
    | some name => name ++ (List.replicate turns (units "_1")).flatten
    | none => mapping.replacementName ++ (List.replicate (turns + 1) (units "_1")).flatten

/-- After the earlier references a reference tries so many names and one more: each but the last of
them has been tried with the same prefix before, the first one by another reference first. -/
inductive Tries : List ExpressionMapping → ExpressionMapping → ℕ → Prop
  | first (before : List ExpressionMapping) (mapping : ExpressionMapping) : Tries before mapping 0
  | next {before earlier between : List ExpressionMapping} {mapping other : ExpressionMapping}
      {turns turns' : ℕ} : Tries before mapping turns → before = earlier ++ other :: between →
      Tries earlier other turns' →
      other.keyOf (nameAt allNodeNames other turns') =
        mapping.keyOf (nameAt allNodeNames mapping turns) →
      (turns = 0 → mapping ∉ earlier ++ [other]) → Tries before mapping (turns + 1)

/-- One of the references tries the name. -/
def Tried (references : List ExpressionMapping) (mapping : ExpressionMapping) (name : CodeUnits) :
    Prop :=
  ∃ before after turns, references = before ++ mapping :: after ∧
    Tries allNodeNames before mapping turns ∧ nameAt allNodeNames mapping turns = name

/-- No name is tried with two prefixes. -/
def Separate (references : List ExpressionMapping) : Prop :=
  ∀ mapping mapping' name, Tried allNodeNames references mapping name →
    Tried allNodeNames references mapping' name →
      mapping.originalExpression ≠ mapping'.originalExpression →
        mapping.replacementPrefix = mapping'.replacementPrefix

/-- The replacement stands for itself. -/
def IsPlain (replacement : CodeUnits) : Prop :=
  ∀ next ∈ units "$&\x60'", ¬ [dollar, next] <:+: replacement

instance (replacement : CodeUnits) : Decidable (IsPlain replacement) :=
  inferInstanceAs (Decidable (∀ _ ∈ _, _))

/-- An expression stands in the text of the pieces only where a reference by it starts. -/
def StandsOnly (originalExpression : CodeUnits) (reference : ExpressionMapping → CodeUnits) :
    List Piece → Prop
  | [] => True
  | piece :: later =>
    (∀ k < (piece.written reference).length,
      originalExpression <+:
          (piece.written reference).drop k ++ later.flatMap (Piece.written reference) →
        piece.startsWith reference originalExpression k) ∧
    StandsOnly originalExpression reference later

instance decidableStandsOnly {originalExpression : CodeUnits}
    {reference : ExpressionMapping → CodeUnits} :
    ∀ pieces, Decidable (StandsOnly originalExpression reference pieces)
  | [] => inferInstanceAs (Decidable True)
  | _ :: later =>
    have : Decidable (StandsOnly originalExpression reference later) := decidableStandsOnly later
    inferInstanceAs (Decidable (_ ∧ _))

/-- The references by these expressions are replaced. -/
def replacedText (replacement : CodeUnits → CodeUnits) (done : List CodeUnits)
    (mapping : ExpressionMapping) : CodeUnits :=
  if mapping.originalExpression ∈ done then replacement mapping.originalExpression
  else mapping.originalExpression

/-- Once those before it are replaced, each expression is replaced by itself, or stands only where a
reference by it starts. -/
def StagesClear (replacement : CodeUnits → CodeUnits) (pieces : List Piece) :
    List CodeUnits → List CodeUnits → Prop
  | _, [] => True
  | done, originalExpression :: originals =>
    (replacement originalExpression = originalExpression ∨
      StandsOnly originalExpression (replacedText replacement done) pieces) ∧
    StagesClear replacement pieces (originalExpression :: done) originals

instance decidableStagesClear {replacement : CodeUnits → CodeUnits} {pieces : List Piece} :
    ∀ done originals, Decidable (StagesClear replacement pieces done originals)
  | _, [] => inferInstanceAs (Decidable True)
  | done, originalExpression :: originals =>
    have : Decidable (StagesClear replacement pieces (originalExpression :: done) originals) :=
      decidableStagesClear (originalExpression :: done) originals
    inferInstanceAs (Decidable ((_ ∨ _) ∧ _))

end Clear

namespace Selection

variable {Number : Type} (selection : Selection Number)

/-- The expressions to be replaced, the longest first. -/
def originalsOf (references : List ExpressionMapping) (node : ExtractedNode Number)
    (expression : CodeUnits) : List CodeUnits :=
  (((selection.parse node expression).map ExpressionMapping.originalExpression).filter
    (· ∈ references.map ExpressionMapping.originalExpression)).insertionSort
      fun a b => b.length ≤ a.length

/-- The references do not overlap, and whatever names they are given, each expression that is not
replaced by itself stands in the text only where a reference by it starts. -/
structure ClearExpression (references : List ExpressionMapping) (node : ExtractedNode Number)
    (expression : CodeUnits) : Prop where
  reads : ∀ reference ∈ selection.locateOutside node expression,
    .reference reference.1 reference.2 ∈ selection.piecesOf node expression
  stages : ∀ replacement : CodeUnits → CodeUnits,
    (∀ mapping ∈ references, ∃ mapping' name,
      Tried selection.nodeNames references mapping' name ∧
        mapping'.originalExpression = mapping.originalExpression ∧
        replacement mapping.originalExpression = mapping'.keyOf name) →
    StagesClear replacement (selection.piecesOf node expression) []
      (selection.originalsOf references node expression)

structure Clear (references : List ExpressionMapping) : Prop where
  nodup : selection.subGraphNames.Nodup
  separate : Separate selection.nodeNames references
  plain : ∀ mapping name, Tried selection.nodeNames references mapping name →
    IsPlain (mapping.keyOf name)
  expressions : ∀ node ∈ selection.subGraph, ∀ expression,
    (false, expression) ∈ expressionTextsOfObject false node.parameters →
      selection.ClearExpression references node expression
  hidden : ∀ node ∈ selection.subGraph, ∀ expression,
    (true, expression) ∈ expressionTextsOfObject false node.parameters →
      selection.locateOutside node expression = []

end Selection

end NodeReferenceParser

end N8n
