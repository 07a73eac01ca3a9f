import N8n.ExportedGraph

/-!
# Augmented objects

`augmentObject` puts a proxy before an object. What is set goes to another object, and what is
deleted of the original is kept in a set. The objects and arrays in it get proxies of their own when
they are first read.
-/

namespace N8n.Augment

/-- The keys that stand before all others, in increasing order. -/
def isElementKey (key : String) : Bool := isArrayIndex key && arrayIndex key < arrayLimit

/-- The order of the properties of an object. -/
def orderedKeys (keys : List String) : List String :=
  (keys.filter isElementKey).insertionSort (arrayIndex · ≤ arrayIndex ·) ++
    keys.filter (!isElementKey ·)

/-- The elements of an array, which may have holes, and its properties besides the length. -/
structure Slots (α : Type) where
  elements : List (Option α)
  others : List (String × α) := []

/-- A value without proxies in it. The primitive values other than `undefined` are given. -/
inductive Plain (P : Type)
  | undefined
  | leaf (value : P)
  | object (properties : List (String × Plain P))
  | array (slots : Slots (Plain P))

inductive Operation (P : Type)
  | get (key : String)
  | set (key : String) (newValue : Plain P)
  | delete (key : String)
  | has (key : String)
  | ownKeys

inductive Observation (P : Type)
  | undefined
  | leaf (value : P)
  | object
  | array
  | length (n : ℕ)
  /-- What every object or array has under the key. -/
  | inherited (key : String)
  | answer (value : Bool)
  | keys (keys : List String)
  | done
  | failed
  deriving DecidableEq

/-- `toLength` is the length that a value stands for when it is set as one, if any. -/
structure Language (P : Type) where
  toLength : Plain P → Option ℕ
  /-- The properties that every array inherits, besides those of every object. -/
  arrayKeys : List String

variable {P : Type} (lang : Language P)

/-! ## Values without proxies -/

namespace Slots

variable {α β : Type} (s : Slots α) (key : String)

def own : Option α :=
  if isElementKey key then s.elements.getD (arrayIndex key) none else s.others.lookup key

def put (value : α) : Slots α :=
  if isElementKey key then
    { s with elements := setAt s.elements (arrayIndex key) none (some value) }
  else { s with others := Dict.setEntry key value s.others }

def remove : Slots α :=
  if isElementKey key then { s with elements := s.elements.set (arrayIndex key) none }
  else { s with others := s.others.filter fun e => decide (e.1 ≠ key) }

def resize (n : ℕ) : Slots α :=
  { s with elements := s.elements.take n ++ List.replicate (n - s.elements.length) none }

def keys : List String :=
  ((List.range s.elements.length).filter fun i => (s.elements.getD i none).isSome).map toString ++
    "length" :: s.others.map Prod.fst

def map (f : α → β) : Slots β where
  elements := s.elements.map (·.map f)
  others := s.others.map (Prod.map id f)

def read (observe : α → Observation P) : Observation P :=
  if key = "length" then .length s.elements.length
  else
    match s.own key with
    | some value => observe value
    | none =>
      if key ∈ lang.arrayKeys ∨ key ∈ inheritedKeys then .inherited key else .undefined

/-- What is set is put in as `convert` makes it. -/
def perform (observe : α → Observation P) (convert : Plain P → α) (s : Slots α) :
    Operation P → Observation P × Slots α
  | .get key => (s.read lang key observe, s)
  | .set key newValue =>
    if key = "length" then
      match lang.toLength newValue with
      | some n => (.done, s.resize n)
      | none => (.failed, s)
    else (.done, s.put key (convert newValue))
  | .delete key =>
    if key = "length" then (.answer false, s) else (.answer true, s.remove key)
  | .has key =>
    (.answer (key = "length" ∨ (s.own key).isSome ∨ key ∈ lang.arrayKeys ∨ key ∈ inheritedKeys), s)
  | .ownKeys => (.keys s.keys, s)

end Slots

namespace Plain

def observe : Plain P → Observation P
  | .undefined => .undefined
  | .leaf value => .leaf value
  | .object _ => .object
  | .array _ => .array

def isObject : Plain P → Bool
  | .object _ | .array _ => true
  | _ => false

/-- To set a property to `undefined` stands for its deletion. -/
def performObject (properties : List (String × Plain P)) :
    Operation P → Observation P × List (String × Plain P)
  | .get key =>
    (match properties.lookup key with
      | some value => value.observe
      | none => if key ∈ inheritedKeys then .inherited key else .undefined, properties)
  | .set key .undefined => (.done, properties.filter fun e => decide (e.1 ≠ key))
  | .set key newValue => (.done, Dict.setEntry key newValue properties)
  | .delete key => (.answer true, properties.filter fun e => decide (e.1 ≠ key))
  | .has key => (.answer (key ∈ properties.map Prod.fst ∨ key ∈ inheritedKeys), properties)
  | .ownKeys => (.keys (orderedKeys (properties.map Prod.fst)), properties)

def own (key : String) : Plain P → Option (Plain P)
  | .object properties => properties.lookup key
  | .array slots => slots.own key
  | _ => none

def put (value : Plain P) (key : String) (child : Plain P) : Plain P :=
  match value with
  | .object properties => .object (Dict.setEntry key child properties)
  | .array slots => .array (slots.put key child)
  | value => value

/-- An operation on what is found along a path. -/
def performAt : List String → Operation P → Plain P → Observation P × Plain P
  | [], operation, .object properties =>
    let (observation, properties) := performObject properties operation
    (observation, .object properties)
  | [], operation, .array slots =>
    let (observation, slots) := slots.perform lang observe id operation
    (observation, .array slots)
  | [], _, value => (.failed, value)
  | key :: path, operation, value =>
    match value.own key with
    | some child =>
      if child.isObject then
        let (observation, child) := performAt path operation child
        (observation, value.put key child)
      else (.failed, value)
    | none => (.failed, value)

end Plain

/-! ## Proxies -/

inductive Augmented (P : Type)
  | plain (value : Plain P)
  | object (data : List (String × Plain P)) (newData : List (String × Augmented P))
      (deletedProperties : List String)
  | array (data : Slots (Plain P)) (newData : Option (Slots (Augmented P)))

def augmentArray (data : Slots (Plain P)) : Augmented P := .array data none

def augmentObject (data : List (String × Plain P)) : Augmented P := .object data [] []

def augment : Plain P → Augmented P
  | .object data => augmentObject data
  | .array data => augmentArray data
  | value => .plain value

namespace Augmented

def observe : Augmented P → Observation P
  | .plain value => value.observe
  | .object _ _ _ => .object
  | .array _ _ => .array

def isObject : Augmented P → Bool
  | .plain value => value.isObject
  | _ => true

section Object

variable (data : List (String × Plain P)) (newData : List (String × Augmented P))
  (deletedProperties : List String)

/-- What `get` finds but for `constructor`, and what it leaves in `newData`. No value of a JSON
object has a function `toJSON`. -/
def getObject (key : String) : Option (Augmented P) × List (String × Augmented P) :=
  if key ∈ deletedProperties then (none, newData)
  else
    match newData.lookup key with
    | some value => (some value, newData)
    | none =>
      match data.lookup key with
      | none => (none, newData)
      | some value =>
        if value.isObject then
          let newValue := augment value
          (some newValue, Dict.setEntry key newValue newData)
        else (some (.plain value), newData)

def performObject : Operation P → Observation P × Augmented P
  | .get key =>
    if key = "constructor" then (.inherited key, .object data newData deletedProperties)
    else
      let (value, newData) := getObject data newData deletedProperties key
      (match value with
        | some value => value.observe
        | none =>
          if key ∈ deletedProperties ∨ key ∉ inheritedKeys then .undefined else .inherited key,
        .object data newData deletedProperties)
  | .set key .undefined =>
    (.done, .object data (newData.filter fun e => decide (e.1 ≠ key))
      (if key ∈ data.map Prod.fst ∨ key ∈ inheritedKeys then deletedProperties.insert key
        else deletedProperties))
  | .set key newValue =>
    (.done, .object data (Dict.setEntry key (.plain newValue) newData)
      (deletedProperties.filter (· ≠ key)))
  | .delete key =>
    (.answer true, .object data (newData.filter fun e => decide (e.1 ≠ key))
      (if key ∈ data.map Prod.fst then deletedProperties.insert key else deletedProperties))
  | .has key =>
    (.answer (key ∉ deletedProperties ∧ (key ∈ newData.map Prod.fst ∨ key ∈ data.map Prod.fst ∨
      key ∈ inheritedKeys)), .object data newData deletedProperties)
  | .ownKeys =>
    (.keys ((orderedKeys (data.map Prod.fst) ++ orderedKeys (newData.map Prod.fst)).eraseDups.filter
      (· ∉ deletedProperties)), .object data newData deletedProperties)

end Object

section Array

variable (data : Slots (Plain P)) (newData : Option (Slots (Augmented P)))

def current : Slots (Augmented P) := newData.getD (data.map .plain)

/-- The elements are copied, holes as `undefined`. -/
def getData : Slots (Augmented P) :=
  newData.getD { elements := data.elements.map fun value => some (.plain (value.getD .undefined)) }

def getArray (key : String) : Option (Augmented P) × Option (Slots (Augmented P)) :=
  match (current data newData).own key with
  | some (.plain value) =>
    if value.isObject then
      let newValue := augment value
      (some newValue, some ((getData data newData).put key newValue))
    else (some (.plain value), newData)
  | value => (value, newData)

def performArray : Operation P → Observation P × Augmented P
  | .get key =>
    if key = "constructor" then (.inherited key, .array data newData)
    else
      ((current data newData).read lang key observe, .array data (getArray data newData key).2)
  | .set key newValue =>
    let (observation, slots) := (getData data newData).perform lang observe augment
      (.set key newValue)
    (observation, .array data (some slots))
  | .delete key =>
    let (observation, slots) := (getData data newData).perform lang observe augment (.delete key)
    (observation, .array data (some slots))
  | operation =>
    (((current data newData).perform lang observe augment operation).1, .array data newData)

end Array

/-- What is behind `constructor` is a function of the language, which is not looked at. -/
def performAt : List String → Operation P → Augmented P → Observation P × Augmented P
  | path, operation, .plain value =>
    let (observation, value) := value.performAt lang path operation
    (observation, .plain value)
  | [], operation, .object data newData deletedProperties =>
    performObject data newData deletedProperties operation
  | [], operation, .array data newData => performArray lang data newData operation
  | key :: path, operation, .object data newData deletedProperties =>
    if key = "constructor" then (.failed, .object data newData deletedProperties)
    else
      match getObject data newData deletedProperties key with
      | (some child, newData) =>
        if child.isObject then
          let (observation, child) := performAt path operation child
          (observation, .object data (Dict.setEntry key child newData) deletedProperties)
        else (.failed, .object data newData deletedProperties)
      | (none, newData) => (.failed, .object data newData deletedProperties)
  | key :: path, operation, .array data newData =>
    if key = "constructor" then (.failed, .array data newData)
    else
      match getArray data newData key with
      | (some child, newData) =>
        if child.isObject then
          let (observation, child) := performAt path operation child
          (observation, .array data (some ((getData data newData).put key child)))
        else (.failed, .array data newData)
      | (none, newData) => (.failed, .array data newData)

end Augmented

end N8n.Augment
