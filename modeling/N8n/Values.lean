import Mathlib.Data.List.Sort
import Mathlib.Data.Int.Notation
import N8n.Library.Dict

/-!
# The values the execution engine handles

JavaScript values as far as the engine looks into them: JSON, arrays with holes, the order in which
an object lists its keys, and the items that nodes hand on.
-/

namespace N8n

/-! ## JSON -/

/-- A JSON value. Arrays and objects are passed on unread, but for the message of an error. -/
inductive Value
  | undefined
  | null
  | boolean (value : Bool)
  | number (value : ℤ)
  | string (value : String)
  | object (message : Option String) (text : String)
  deriving DecidableEq, Repr, Inhabited

namespace Value

def truthy : Value → Bool
  | .undefined | .null => false
  | .boolean value => value
  | .number value => value ≠ 0
  | .string value => value ≠ ""
  | .object _ _ => true

/-- The property `message`. Reading it from `null` or `undefined` throws. -/
def message : Value → Option Value
  | .undefined | .null => none
  | .object (some message) _ => some (.string message)
  | _ => some .undefined

end Value

/-- A JSON object. -/
abbrev DataObject := Dict String Value

namespace DataObject

def read (json : DataObject) (key : String) : Value := (json.get? key).getD .undefined

/-- `{ ...json, ...more }` -/
def merge (json more : DataObject) : DataObject :=
  more.entries.foldl (fun json entry => json.set entry.1 entry.2) json

end DataObject

/-! ## Objects and arrays -/

/-- The key is an array index, in the form in which JavaScript puts it before all other keys. -/
def isArrayIndex (key : String) : Bool :=
  match key.toList with
  | [] => false
  | ['0'] => true
  | digit :: digits => digit ≠ '0' && (digit :: digits).all Char.isDigit

def arrayIndex (key : String) : ℕ :=
  key.toList.foldl (fun n digit => 10 * n + (digit.toNat - '0'.toNat)) 0

/-- `Object.keys`: the array indexes in increasing order, and then the other keys in the order in
which they were set. -/
def objectKeys (keys : List String) : List String :=
  (keys.filter isArrayIndex).insertionSort (arrayIndex · ≤ arrayIndex ·) ++
    keys.filter (!isArrayIndex ·)

theorem mem_objectKeys {keys : List String} {key : String} : key ∈ objectKeys keys ↔ key ∈ keys := by
  simp only [objectKeys, List.mem_append, List.mem_insertionSort, List.mem_filter]
  cases isArrayIndex key <;> simp

/-- `array[index] = value`; what is missing in between is a hole. -/
def setAt {α : Type*} (array : List α) (index : ℕ) (hole value : α) : List α :=
  (array ++ List.replicate (index + 1 - array.length) hole).set index value

theorem getD_setAt {α : Type*} {hole : α} (array : List α) (i j : ℕ) (value : α) :
    (setAt array i hole value).getD j hole = if j = i then value else array.getD j hole := by
  unfold setAt
  rw [List.getD_eq_getElem?_getD, List.getD_eq_getElem?_getD]
  by_cases hj : j = i
  · rw [if_pos hj, hj, List.getElem?_set_self (by simp; omega), Option.getD_some]
  · rw [if_neg hj, List.getElem?_set_ne (Ne.symm hj), List.getElem?_append]
    split_ifs with hlt
    · rfl
    · rw [List.getElem?_eq_none (not_lt.1 hlt), List.getElem?_replicate]
      split_ifs <;> rfl

/-! ## Items -/

inductive NodeConnectionType
  | aiAgent | aiChain | aiDocument | aiEmbedding | aiLanguageModel | aiMemory | aiOutputParser
  | aiRetriever | aiReranker | aiTextSplitter | aiTool | aiVectorStore | main
  deriving DecidableEq, Repr

/-- `ISourceData`; an absent output or run is `0`. -/
structure SourceData where
  previousNode : String
  previousNodeOutput : Option ℕ := none
  previousNodeRun : Option ℕ := none
  deriving DecidableEq, Repr

/-- `IPairedItemData` -/
structure PairedItemData where
  item : ℕ
  input : Option ℕ := none
  sourceOverwrite : Option SourceData := none
  deriving DecidableEq, Repr

/-- The `pairedItem` of an item: a number, an object or an array of objects. -/
inductive PairedItem
  | index (item : ℕ)
  | single (data : PairedItemData)
  | list (data : List PairedItemData)
  deriving DecidableEq, Repr

/-- `INodeExecutionData` -/
structure Item where
  json : DataObject
  pairedItem : Option PairedItem := none
  error : Value := .undefined
  deriving DecidableEq

/-- The items of one input or output, where there are any. A hole of an array is passed over by
`map`, `filter` and `forEach`, an `undefined` is not. -/
inductive Slot
  | hole
  | undefined
  | null
  | items (data : List Item)
  deriving DecidableEq

namespace Slot

/-- Arrays are truthy, the empty one too. -/
def truthy : Slot → Bool
  | .items _ => true
  | _ => false

/-- The items, or none. -/
def list : Slot → List Item
  | .items data => data
  | _ => []

end Slot

/-- `ITaskDataConnections` -/
abbrev TaskDataConnections := Dict NodeConnectionType (List Slot)

/-- `array[index]` -/
def slotAt (array : List Slot) (index : ℕ) : Slot :=
  match array[index]? with
  | none | some .hole => .undefined
  | some slot => slot

/-- `n || undefined` -/
def orUndefined (n : ℕ) : Option ℕ := if n = 0 then none else some n

@[simp] theorem orUndefined_getD (n : ℕ) : (orUndefined n).getD 0 = n := by
  unfold orUndefined
  split_ifs with h <;> simp [h]

end N8n
