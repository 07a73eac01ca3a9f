import N8n.Library.Fallible
import Mathlib.Order.WithBot

/-!
# Deduplication of items across executions

Per context the items seen so far are recorded, as their hashes or, where the items are numbered or
dated, as the latest of them. A check splits its items into those that are new and those that have
been processed, and records the new ones.
-/

namespace N8n

inductive DeduplicationMode
  | entries | latestIncrementalKey | latestDate
  deriving DecidableEq, Repr

structure CheckProcessedOptions where
  mode : DeduplicationMode
  maxEntries : Option ℕ := none

/-- `new` and `processed` -/
structure DeduplicationOutput (ι : Type) where
  new : List ι := []
  processed : List ι := []
  deriving DecidableEq, Repr

/-- An array of hashes, or the latest item, which may be undefined. -/
inductive RecordedData (ι η : Type)
  | entries (data : List η)
  | latest (data : Option ι)
  deriving DecidableEq, Repr

/-- The row of a context. -/
structure ProcessedData (ι η : Type) where
  mode : DeduplicationMode
  data : RecordedData ι η
  deriving DecidableEq, Repr

/-- How the values of items are read: as numbers, as dates (each `⊥` where they are none) and
hashed. -/
structure ItemReading (ι η κ : Type) where
  number : ι → WithBot κ
  tryToParseDateTime : ι → WithBot κ
  createValueHash : ι → η

namespace DeduplicationHelper

variable {ι η κ : Type} [DecidableEq η] [LinearOrder κ] (R : ItemReading ι η κ)

/-! ## Comparing -/

/-- The reading of a value in a mode; `undefined` is neither a number nor a date. -/
def reading (mode : DeduplicationMode) : Option ι → WithBot κ
  | none => ⊥
  | some value =>
    match mode with
    | .latestDate => R.tryToParseDateTime value
    | _ => R.number value

/-- Equal dates are two objects, which are not the same (`===`). -/
def compareValues (mode : DeduplicationMode) (value1 value2 : Option ι) : Except String Ordering :=
  match mode with
  | .latestIncrementalKey =>
    let num1 := reading R mode value1
    let num2 := reading R mode value2
    if num1 ≠ ⊥ ∧ num2 ≠ ⊥ then
      .ok (if num1 = num2 then .eq else if num1 > num2 then .gt else .lt)
    else .error "Invalid value. Only numbers are supported in mode \"latestIncrementalKey\""
  | .latestDate =>
    let date1 := reading R mode value1
    let date2 := reading R mode value2
    if date1 ≠ ⊥ ∧ date2 ≠ ⊥ then .ok (if date1 > date2 then .gt else .lt)
    else .error "Invalid value. Only valid dates are supported in mode \"latestDate\""
  | .entries =>
    .error "Invalid mode. Only 'latestIncrementalKey' and 'latestDate' are supported."

def sortEntries (items : List ι) (mode : DeduplicationMode) : Except String (List ι) :=
  FallibleSort.insertionSortM (fun a b => compareValues R mode (some a) (some b)) items

def validateMode (processedData : Option (ProcessedData ι η)) (options : CheckProcessedOptions) :
    Except String Unit :=
  match processedData with
  | some row =>
    if row.mode ≠ options.mode then
      .error ("Deduplication data was originally saved with an incompatible setting of the " ++
        "‘Keep Items Where’ parameter. Try ’Clean Database’ operation to reset.")
    else .ok ()
  | none => .ok ()

/-! ## Checking -/

/-- The output so far and the largest value, and the next item. -/
def checkLatest (mode : DeduplicationMode) (recorded : Option ι)
    (acc : DeduplicationOutput ι × Option ι) (item : ι) :
    Except String (DeduplicationOutput ι × Option ι) := do
  if (← compareValues R mode (some item) recorded) = .gt then
    let returnData := { acc.1 with new := acc.1.new ++ [item] }
    if (← compareValues R mode (some item) acc.2) = .gt then return (returnData, some item)
    else return (returnData, acc.2)
  else return ({ acc.1 with processed := acc.1.processed ++ [item] }, acc.2)

def handleLatestModes (items : List ι) (options : CheckProcessedOptions)
    (processedData : Option (ProcessedData ι η)) :
    Except String (DeduplicationOutput ι × Option (ProcessedData ι η)) := do
  let incomingItems ← sortEntries R items options.mode
  match processedData with
  | none =>
    return ({ new := items },
      some { mode := options.mode, data := .latest incomingItems.getLast? })
  | some row =>
    match row.data with
    | .entries _ => return ({}, some row)
    | .latest recorded =>
      let (returnData, largestValue) ←
        incomingItems.foldlM (checkLatest R options.mode recorded) ({}, recorded)
      return (returnData, some { row with data := .latest largestValue })

/-- `splice(0, length - maxEntries)` -/
def keepLast (maxEntries : Option ℕ) (data : List η) : List η :=
  match maxEntries with
  | some maxEntries => if maxEntries = 0 then data else data.drop (data.length - maxEntries)
  | none => data

def handleHashedItems (items : List ι) (options : CheckProcessedOptions)
    (processedData : Option (ProcessedData ι η)) :
    DeduplicationOutput ι × Option (ProcessedData ι η) :=
  match processedData with
  | none =>
    ({ new := items }, some {
      mode := options.mode
      data := .entries (keepLast options.maxEntries (items.map R.createValueHash)) })
  | some row =>
    match row.data with
    | .latest _ => ({}, some row)
    | .entries data =>
      let returnData : DeduplicationOutput ι := {
        new := items.filter (R.createValueHash · ∉ data)
        processed := items.filter (R.createValueHash · ∈ data) }
      (returnData, some { row with
        data := .entries
          (keepLast options.maxEntries (data ++ returnData.new.map R.createValueHash)) })

def checkProcessedAndRecord (items : List ι) (options : CheckProcessedOptions)
    (processedData : Option (ProcessedData ι η)) :
    Except String (DeduplicationOutput ι × Option (ProcessedData ι η)) := do
  validateMode processedData options
  match options.mode with
  | .entries => return handleHashedItems R items options processedData
  | _ => handleLatestModes R items options processedData

/-! ## Removing -/

def removeProcessed (items : List ι) (options : CheckProcessedOptions)
    (processedData : Option (ProcessedData ι η)) : Except String (Option (ProcessedData ι η)) :=
  match options.mode with
  | .entries =>
    match processedData with
    | none => .ok none
    | some row =>
      match row.data with
      | .latest _ => .ok (some row)
      | .entries data => .ok (some { row with
          data := .entries ((items.map R.createValueHash).foldl List.erase data) })
  | _ => .error "Removing processed data is not possible in mode \"latest\""

end DeduplicationHelper

end N8n
