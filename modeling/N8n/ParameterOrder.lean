import N8n.ExportedGraph

/-!
# The order of parameters

The parameters of a node are resolved in an order in which the ones they depend on come first. The
indexes of those that have to wait are put back at the end of a queue.
-/

namespace N8n

/-- `INodeProperties`, with the parameters that each rule of its `displayOptions` names. -/
structure NodeProperties where
  name : String
  displayOptions : Option (List (List String)) := none

def isSpecialParameter (parameterName : String) : Bool := parameterName.toList.head? = some '@'

def isRootParameter (parameterName : String) : Bool := parameterName.toList.head? = some '/'

/-- The names that a property adds to those it depends on. -/
def addDependencies (dependencies : List String) (displayOptions : List (List String)) :
    List String :=
  displayOptions.flatten.foldl (fun dependencies parameterName =>
    if parameterName ∈ dependencies ∨ isSpecialParameter parameterName then dependencies
    else dependencies ++ [parameterName]) dependencies

/-- One turn of the loop. An inherited property of the table is taken for dependencies. -/
def dependenciesOf (dependencies : Dict String (List String)) (property : NodeProperties) :
    Except String (Dict String (List String)) :=
  let displayOptions := property.displayOptions.getD []
  match dependencies.get? property.name with
  | some names => .ok (dependencies.set property.name (addDependencies names displayOptions))
  | none =>
    if property.name ∈ inheritedKeys then
      if displayOptions.flatten = [] then .ok dependencies else .error typeError
    else .ok (dependencies.set property.name (addDependencies [] displayOptions))

def getParameterDependencies (nodePropertiesArray : List NodeProperties) :
    Except String (Dict String (List String)) :=
  nodePropertiesArray.foldlM dependenciesOf .empty

/-! ## The queue -/

/-- What `getParameterResolveOrder` ends with, if not with an order. -/
inductive ResolveError
  | unresolved
  /-- The table has nothing for a name. -/
  | noDependencies

structure ParameterQueue where
  indexToResolve : List ℕ
  executionOrder : List ℕ := []
  resolvedParameters : List String := []
  lastIndexLength : ℕ
  lastIndexReduction : ℤ := -1
  iterations : ℕ := 0

/-- The dependencies for which an index is put back, once for each of them. -/
def missingDependencies (resolvedParameters dependencies : List String) : List String :=
  dependencies.filter fun dependency =>
    dependency ∉ resolvedParameters ∧ !isRootParameter dependency

namespace ParameterQueue

variable (names : List String) (parameterDependencies : String → Option (List String))

/-- One turn of the `while` loop. None if the queue is empty. -/
def step (s : ParameterQueue) : Option (Except ResolveError ParameterQueue) :=
  match s.indexToResolve with
  | [] => none
  | index :: indexToResolve =>
    let name := names.getD index ""
    let iterations := s.iterations + 1
    let executionOrder := s.executionOrder ++ [index]
    let resolvedParameters := s.resolvedParameters ++ [name]
    match parameterDependencies name with
    | none => some (.error .noDependencies)
    | some [] =>
      some (.ok { s with indexToResolve, iterations, executionOrder, resolvedParameters })
    | some dependencies =>
      let missing := missingDependencies s.resolvedParameters dependencies
      let indexToResolve := indexToResolve ++ List.replicate missing.length index
      let lastIndexReduction :=
        if indexToResolve.length < s.lastIndexLength then (iterations : ℤ) else s.lastIndexReduction
      if lastIndexReduction + names.length < iterations then some (.error .unresolved)
      else
        some (.ok { indexToResolve, executionOrder, resolvedParameters,
                    lastIndexLength := indexToResolve.length, lastIndexReduction, iterations })

/-- The loop, where there is fuel for it. -/
def run : ℕ → ParameterQueue → Option (Except ResolveError (List ℕ))
  | 0, _ => none
  | fuel + 1, s =>
    match s.step names parameterDependencies with
    | none => some (.ok s.executionOrder)
    | some (.error error) => some (.error error)
    | some (.ok s) => run fuel s

/-- All indexes are to be resolved. -/
def start : ParameterQueue where
  indexToResolve := List.range names.length
  lastIndexLength := names.length

end ParameterQueue

def getParameterResolveOrder (fuel : ℕ) (nodePropertiesArray : List NodeProperties)
    (parameterDependencies : String → Option (List String)) :
    Option (Except ResolveError (List ℕ)) :=
  let names := nodePropertiesArray.map (·.name)
  (ParameterQueue.start names).run names parameterDependencies fuel

end N8n
