import Mathlib.Data.Finset.Insert
import Mathlib.Data.Fintype.Card
import Mathlib.Logic.Relation
import N8n.Library.Doubles

/-!
# JSON compatibility

`isJsonCompatible` walks through a graph of values and keeps the objects on the way to the current
one in a set, so as to find circular references.
-/

namespace N8n.JsonCompatible

open Doubles

/-! ## Heaps -/

/-- What `typeof` says of a value that has no place in JSON. -/
inductive OtherType
  | function
  | symbol
  | bigint
  deriving DecidableEq, Repr

def OtherType.text : OtherType → String
  | .function => "function"
  | .symbol => "symbol"
  | .bigint => "bigint"

/-- A value. An array or an object is at an address of the heap. -/
inductive GraphValue (n : ℕ)
  | null
  | undefined
  | boolean (value : Bool)
  | string (value : String)
  | number (value : Number)
  | other (type : OtherType)
  | reference (address : Fin n)

/-- A symbol is known by its description. -/
inductive PropertyKey
  | string (key : String)
  | symbol (description : String)
  deriving DecidableEq, Repr

inductive Prototype
  | plain
  | null
  | other (constructorName : Option String)
  deriving DecidableEq, Repr

/-- The elements of an array, with `undefined` for a hole; or the own properties of an object, in
the order in which `Reflect.ownKeys` lists them. -/
inductive HeapObject (n : ℕ)
  | array (elements : List (GraphValue n))
  | object (prototype : Prototype) (properties : List (PropertyKey × GraphValue n))

abbrev Heap (n : ℕ) := Fin n → HeapObject n

/-! ## Checking -/

inductive ErrorMessage
  | notFinite (value : Number)
  | otherType (type : OtherType)
  | circular
  | nonPlainPrototype (constructorName : String)
  | symbolKey (description : String)

def numberText : Number → String
  | .nan => "NaN"
  | .infinity negative => if negative then "-Infinity" else "Infinity"
  | .finite _ _ => ""

def symbolText (description : String) : String := "Symbol(" ++ description ++ ")"

def ErrorMessage.text : ErrorMessage → String
  | .notFinite value => "is " ++ numberText value ++ ", which is not JSON-compatible"
  | .otherType type => "is a " ++ type.text ++ ", which is not JSON-compatible"
  | .circular => "contains a circular reference"
  | .nonPlainPrototype constructorName => "has non-plain prototype (" ++ constructorName ++ ")"
  | .symbolKey description =>
    "has a symbol key (" ++ symbolText description ++ "), which is not JSON-compatible"

inductive Result
  | valid
  | invalid (errorPath : String) (errorMessage : ErrorMessage)

def isFinite : Number → Bool
  | .finite _ _ => true
  | _ => false

variable {n : ℕ}

/-- A check of a value at a path, and what it leaves in the set. None if it is not at its end. -/
abbrev Check (n : ℕ) :=
  String → Finset (Fin n) → GraphValue n → Option (Result × Finset (Fin n))

/-- The loop over an array, from an index on. -/
def checkElements (check : Check n) (path : String) :
    ℕ → List (GraphValue n) → Finset (Fin n) → Option (Result × Finset (Fin n))
  | _, [], stack => some (.valid, stack)
  | i, val :: elements, stack => do
    let (result, stack) ← check (path ++ "[" ++ toString i ++ "]") stack val
    match result with
    | .valid => checkElements check path (i + 1) elements stack
    | .invalid _ _ => some (result, stack)

/-- The loop over the own properties of an object. -/
def checkProperties (check : Check n) (keysToIgnore : List String) (path : String) :
    List (PropertyKey × GraphValue n) → Finset (Fin n) → Option (Result × Finset (Fin n))
  | [], stack => some (.valid, stack)
  | (.symbol description, _) :: _, stack =>
    some (.invalid (path ++ "." ++ symbolText description) (.symbolKey description), stack)
  | (.string key, subVal) :: properties, stack =>
    if key ∈ keysToIgnore then checkProperties check keysToIgnore path properties stack
    else do
      let (result, stack) ← check (path ++ "." ++ key) stack subVal
      match result with
      | .valid => checkProperties check keysToIgnore path properties stack
      | .invalid _ _ => some (result, stack)

/-- What is checked of an array or an object once it is in the set. -/
def checkObject (check : Check n) (keysToIgnore : List String) (path : String)
    (stack : Finset (Fin n)) : HeapObject n → Option (Result × Finset (Fin n))
  | .array elements => checkElements check path 0 elements stack
  | .object (.other constructorName) _ =>
    let name := (constructorName.filter (· ≠ "")).getD "unknown"
    some (.invalid path (.nonPlainPrototype name), stack)
  | .object _ properties => checkProperties check keysToIgnore path properties stack

/-- `stack.delete(val)`, unless the function has returned. -/
def leave (address : Fin n) : Result × Finset (Fin n) → Result × Finset (Fin n)
  | (.valid, stack) => (.valid, stack.erase address)
  | (result, stack) => (result, stack)

/-- The recursion may go as deep as the fuel. -/
def check (heap : Heap n) (keysToIgnore : List String) : ℕ → Check n
  | 0, _, _, _ => none
  | fuel + 1, path, stack, val =>
    match val with
    | .null | .boolean _ | .string _ | .undefined => some (.valid, stack)
    | .number value =>
      if isFinite value then some (.valid, stack)
      else some (.invalid path (.notFinite value), stack)
    | .other type => some (.invalid path (.otherType type), stack)
    | .reference address =>
      if address ∈ stack then some (.invalid path .circular, stack)
      else
        (checkObject (check heap keysToIgnore fuel) keysToIgnore path (insert address stack)
          (heap address)).map (leave address)

def isJsonCompatible (heap : Heap n) (fuel : ℕ) (value : GraphValue n)
    (keysToIgnore : List String) : Option Result :=
  (check heap keysToIgnore fuel "value" ∅ value).map Prod.fst

/-! ## Compatible graphs -/

/-- A primitive value of JSON, or a reference. -/
def GraphValue.IsAllowed : GraphValue n → Prop
  | .number value => isFinite value = true
  | .other _ => False
  | _ => True

/-- The values that are followed. -/
def HeapObject.children (keysToIgnore : List String) : HeapObject n → List (GraphValue n)
  | .array elements => elements
  | .object _ properties => properties.filterMap fun property =>
      match property.1 with
      | .string key => if key ∈ keysToIgnore then none else some property.2
      | .symbol _ => none

/-- An array, or an object with a plain prototype or none and without symbols for keys. -/
def HeapObject.IsAllowed : HeapObject n → Prop
  | .array _ => True
  | .object prototype properties =>
    (prototype = .plain ∨ prototype = .null) ∧
      ∀ property ∈ properties, ∃ key, property.1 = .string key

/-- One object is in the other, under a key that is not ignored. -/
def Follows (heap : Heap n) (keysToIgnore : List String) (address child : Fin n) : Prop :=
  .reference child ∈ (heap address).children keysToIgnore

/-- The object is reached from the value. -/
def Reaches (heap : Heap n) (keysToIgnore : List String) (value : GraphValue n)
    (address : Fin n) : Prop :=
  ∃ root, value = .reference root ∧
    Relation.ReflTransGen (Follows heap keysToIgnore) root address

/-- The object is on a cycle. -/
def IsCyclic (heap : Heap n) (keysToIgnore : List String) (address : Fin n) : Prop :=
  Relation.TransGen (Follows heap keysToIgnore) address address

/-- What is reached has no cycle and consists of nothing else than JSON. -/
structure Compatible (heap : Heap n) (keysToIgnore : List String) (value : GraphValue n) :
    Prop where
  root : value.IsAllowed
  objects : ∀ address, Reaches heap keysToIgnore value address → (heap address).IsAllowed
  values : ∀ address, Reaches heap keysToIgnore value address →
    ∀ child ∈ (heap address).children keysToIgnore, child.IsAllowed
  acyclic : ∀ address, Reaches heap keysToIgnore value address →
    ¬ IsCyclic heap keysToIgnore address

end N8n.JsonCompatible
