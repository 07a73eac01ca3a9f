import N8n.Library.Dict
import N8n.Library.Positions
import N8n.Library.Runs

/-!
# The columns of a data table

Each column of a data table has a row with its index, and a column in the table of the user's rows.
Columns are added, moved and deleted in transactions; the column to move or to delete has been read
before, so that other requests may come in between.
-/

namespace N8n

inductive DataTableColumnType
  | string | number | boolean | date
  deriving DecidableEq, Repr

structure DataTableColumn where
  name : String
  type : DataTableColumnType
  index : ℤ
  deriving DecidableEq, Repr

structure DataTableCreateColumnSchema where
  name : String
  type : DataTableColumnType
  index : Option ℤ := none
  deriving DecidableEq, Repr

inductive DataTableError
  | systemColumnNameConflict (columnName : String) (type : String)
  | columnNameConflict (columnName : String)
  | columnNotFound (columnId : String)
  | validation (message : String)
  /-- The statement on the table of the rows fails, and the transaction is rolled back. -/
  | ddl
  deriving DecidableEq, Repr

def dataTableSystemColumns : List String := ["id", "createdAt", "updatedAt"]

def dataTableSystemTestingColumn : String := "dryRunState"

structure DataTableColumns where
  columns : Dict String DataTableColumn := .empty
  /-- The columns of the table of the rows, but for those of the system. -/
  userTable : List String := []
  /-- The columns that requests have read, with their ids. -/
  existingColumns : List (String × DataTableColumn) := []

namespace DataTableColumns

abbrev Outcome := DataTableColumns × Option DataTableError

variable (s : DataTableColumns)

/-- The database gives the rows in any order. -/
def getColumns (arrange : List (String × DataTableColumn) → List (String × DataTableColumn)) :
    List (String × DataTableColumn) :=
  (arrange s.columns.entries).mergeSort fun a b => a.2.index ≤ b.2.index

def existsByName (name : String) : Bool := s.columns.entries.any fun entry => entry.2.name = name

def shiftColumns (lowestIndex delta : ℤ) : DataTableColumns :=
  { s with columns := s.columns.mapValues fun column =>
      { column with index := Positions.shift lowestIndex delta column.index } }

def insertColumn (newId : String) (schema : DataTableCreateColumnSchema) : DataTableColumns :=
  let index := schema.index.getD s.columns.size
  let shifted := if schema.index.isNone then s else s.shiftColumns index 1
  { shifted with
    columns := shifted.columns.set newId { name := schema.name, type := schema.type, index }
    userTable := s.userTable ++ [schema.name] }

/-- `ddlFails` says whether the database refuses the statement on the table of the rows. -/
def addColumn (newId : String) (schema : DataTableCreateColumnSchema) (ddlFails : Bool) : Outcome :=
  if schema.name ∈ dataTableSystemColumns then
    (s, some (.systemColumnNameConflict schema.name "system"))
  else if schema.name = dataTableSystemTestingColumn then
    (s, some (.systemColumnNameConflict schema.name "testing"))
  else if s.existsByName schema.name then (s, some (.columnNameConflict schema.name))
  else if ddlFails || schema.name ∈ s.userTable then (s, some .ddl)
  else (s.insertColumn newId schema, none)

def removeColumn (columnId : String) (column : DataTableColumn) : DataTableColumns :=
  let removed : DataTableColumns :=
    { s with
      columns := s.columns.erase columnId
      userTable := s.userTable.filter (· ≠ column.name) }
  removed.shiftColumns column.index (-1)

/-- The column is given as it was read. -/
def deleteColumn (columnId : String) (column : DataTableColumn) (ddlFails : Bool) : Outcome :=
  if ddlFails || column.name ∉ s.userTable then (s, some .ddl)
  else (s.removeColumn columnId column, none)

def negativeIndexMessage : String := "tried to move column to negative index"

def largeIndexMessage : String := "tried to move column to an index larger than column count"

/-- `update(DataTableColumn, { id: columnId }, { index })` -/
def updateIndex (columnId : String) (index : ℤ) : DataTableColumns :=
  { s with columns := s.columns.mapEntries fun id column =>
      if id = columnId then { column with index } else column }

/-- The column is given as it was read. -/
def moveColumn (columnId : String) (column : DataTableColumn) (targetIndex : ℤ) : Outcome :=
  if targetIndex < 0 then (s, some (.validation negativeIndexMessage))
  else if s.columns.size ≤ targetIndex then (s, some (.validation largeIndexMessage))
  else (((s.shiftColumns column.index (-1)).shiftColumns targetIndex 1).updateIndex columnId
    targetIndex, none)

/-! ## Requests -/

inductive Event
  | addColumn (newId : String) (schema : DataTableCreateColumnSchema) (ddlFails : Bool)
  /-- `validateColumnExists` for a request that is to move or to delete the column -/
  | validateColumnExists (columnId : String)
  /-- The transaction of a request, by the place of the column that it has read. -/
  | deleteColumn (request : ℕ) (ddlFails : Bool)
  | moveColumn (request : ℕ) (targetIndex : ℤ)
  deriving DecidableEq, Repr

def dropRequest (request : ℕ) : DataTableColumns :=
  { s with existingColumns := s.existingColumns.eraseIdx request }

def handle : Event → Outcome
  | .addColumn newId schema ddlFails => s.addColumn newId schema ddlFails
  | .validateColumnExists columnId =>
    match s.columns.get? columnId with
    | none => (s, some (.columnNotFound columnId))
    | some column => ({ s with existingColumns := s.existingColumns ++ [(columnId, column)] }, none)
  | .deleteColumn request ddlFails =>
    match s.existingColumns[request]? with
    | none => (s, none)
    | some (columnId, column) => (s.dropRequest request).deleteColumn columnId column ddlFails
  | .moveColumn request targetIndex =>
    match s.existingColumns[request]? with
    | none => (s, none)
    | some (columnId, column) => (s.dropRequest request).moveColumn columnId column targetIndex

def step (e : Event) : DataTableColumns := (s.handle e).1

/-- The column that the transaction of a request has. -/
def held? : Event → Option (String × DataTableColumn)
  | .deleteColumn request _ | .moveColumn request _ => s.existingColumns[request]?
  | _ => none

/-- A new column has a new id, and an index no larger than there are columns; a column that is moved
or deleted is still as it was read. -/
structure Admissible (e : Event) : Prop where
  fresh : ∀ held ∈ s.held? e, s.columns.get? held.1 = some held.2
  newId : ∀ newId schema ddlFails, e = .addColumn newId schema ddlFails →
    s.columns.get? newId = none ∧ ∀ index ∈ schema.index, 0 ≤ index ∧ index ≤ s.columns.size

/-! ## The order of the columns -/

def indexOf (columnId : String) : Option ℤ := (s.columns.get? columnId).map (·.index)

def nameOf (columnId : String) : Option String := (s.columns.get? columnId).map (·.name)

/-- The columns have the indexes of the list, and different names, which are those of the table of
the rows. -/
structure Ordered (order : List String) : Prop where
  lists : Positions.Lists s.indexOf order
  names : ∀ id id' name, s.nameOf id = some name → s.nameOf id' = some name → id = id'
  table : ∀ name, name ∈ s.userTable ↔ ∃ id, s.nameOf id = some name

/-- What a request that goes through does to the order. -/
def reorder (order : List String) (e : Event) : List String :=
  if (s.handle e).2.isSome then order
  else
    match e with
    | .addColumn newId schema _ =>
      order.insertIdx (schema.index.getD order.length).toNat newId
    | .validateColumnExists _ => order
    | .deleteColumn request _ =>
      match s.existingColumns[request]? with
      | none => order
      | some (columnId, _) => order.erase columnId
    | .moveColumn request targetIndex =>
      match s.existingColumns[request]? with
      | none => order
      | some (columnId, _) => (order.erase columnId).insertIdx targetIndex.toNat columnId

/-- The order after a run. -/
def orderAfter : DataTableColumns → List String → List Event → List String
  | _, order, [] => order
  | s, order, e :: es => orderAfter (s.step e) (s.reorder order e) es

end DataTableColumns

end N8n
