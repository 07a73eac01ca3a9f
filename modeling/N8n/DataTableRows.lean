import N8n.Library.Precedence

/-!
# Queries for the rows of a data table

The conditions of a filter and of a search are added one by one to the `WHERE` clause of a query,
each with `AND` or `OR`, and the database reads the clause as a whole. A condition is text made of
comparisons, whose values the database works out for each row.
-/

namespace N8n

open Precedence

inductive DbType
  | sqlite | sqlitePooled | mysql | mariadb | postgres | other
  deriving DecidableEq, Repr

/-- What the column is compared with; `ν` are the values of cells. A `like` has text, as
`validateAndTransformFilters` ensures. -/
inductive FilterCondition (ν : Type)
  | eq (value : Option ν)
  | neq (value : Option ν)
  | gt (value : Option ν)
  | gte (value : Option ν)
  | lt (value : Option ν)
  | lte (value : Option ν)
  | like (value : String)
  | ilike (value : String)
  deriving DecidableEq, Repr

structure DataTableFilterRecord (ν : Type) where
  columnName : String
  condition : FilterCondition ν
  deriving DecidableEq, Repr

structure DataTableFilter (ν : Type) where
  type : Connective := .and
  filters : List (DataTableFilterRecord ν) := []

structure ListDataTableContentQueryDto (ν : Type) where
  take : Option ℕ := none
  skip : Option ℕ := none
  filter : Option (DataTableFilter ν) := none
  sortBy : Option (String × String) := none
  search : Option String := none

inductive Param (ν : Type)
  | value (v : Option ν)
  | text (s : String)
  deriving DecidableEq, Repr

/-- A comparison in SQL, with the parameter it names. -/
structure Comparison (ν : Type) where
  sql : String
  param : Option (String × Param ν) := none
  deriving DecidableEq, Repr

abbrev Condition (ν : Type) := List (Token (Comparison ν))

variable {ν : Type}

/-! ## SQL text -/

def quoteIdentifier (name : String) : DbType → String
  | .mysql | .mariadb => "`" ++ name ++ "`"
  | _ => "\"" ++ name ++ "\""

/-- `%` stays a wildcard. -/
def escapeLikeSpecials (input : String) : String :=
  String.join (input.toList.map fun c =>
    if c = '\\' then "\\\\" else if c = '_' then "\\_" else c.toString)

def toSqliteGlobFromPercent (input : String) : String :=
  String.join (input.toList.map fun c =>
    if c = '%' then "*" else if c = '[' then "[[]" else if c = ']' then "[]]"
    else if c = '*' then "[*]" else if c = '?' then "[?]" else c.toString)

def likeCondition (columnRef paramName value : String) : DbType → Comparison ν
  | .sqlite | .sqlitePooled =>
    ⟨columnRef ++ " GLOB :" ++ paramName, some (paramName, .text (toSqliteGlobFromPercent value))⟩
  | .mysql | .mariadb =>
    ⟨columnRef ++ " LIKE BINARY :" ++ paramName ++ " ESCAPE '\\\\'",
      some (paramName, .text (escapeLikeSpecials value))⟩
  | .postgres =>
    ⟨columnRef ++ " LIKE :" ++ paramName ++ " ESCAPE '\\'",
      some (paramName, .text (escapeLikeSpecials value))⟩
  | .other => ⟨columnRef ++ " LIKE :" ++ paramName, some (paramName, .text value)⟩

def ilikeCondition (columnRef paramName value : String) : DbType → Comparison ν
  | .sqlite | .sqlitePooled =>
    ⟨"UPPER(" ++ columnRef ++ ") LIKE UPPER(:" ++ paramName ++ ") ESCAPE '\\'",
      some (paramName, .text (escapeLikeSpecials value))⟩
  | .mysql | .mariadb =>
    ⟨"UPPER(" ++ columnRef ++ ") LIKE UPPER(:" ++ paramName ++ ") ESCAPE '\\\\'",
      some (paramName, .text (escapeLikeSpecials value))⟩
  | .postgres =>
    ⟨columnRef ++ " ILIKE :" ++ paramName ++ " ESCAPE '\\'",
      some (paramName, .text (escapeLikeSpecials value))⟩
  | .other =>
    ⟨"UPPER(" ++ columnRef ++ ") LIKE UPPER(:" ++ paramName ++ ")",
      some (paramName, .text value)⟩

def getConditionAndParams (filter : DataTableFilterRecord ν) (index : ℕ) (dbType : DbType)
    (tableReference : Option String) : Condition ν :=
  let paramName := "filter_" ++ toString index
  let columnRef := match tableReference with
    | some table => quoteIdentifier table dbType ++ "." ++ quoteIdentifier filter.columnName dbType
    | none => quoteIdentifier filter.columnName dbType
  let operator (sql : String) (value : Option ν) : Token (Comparison ν) :=
    .atom ⟨columnRef ++ " " ++ sql ++ " :" ++ paramName, some (paramName, .value value)⟩
  match filter.condition with
  | .eq none => [.atom ⟨columnRef ++ " IS NULL", none⟩]
  | .neq none => [.atom ⟨columnRef ++ " IS NOT NULL", none⟩]
  | .eq value => [operator "=" value]
  | .gt value => [operator ">" value]
  | .gte value => [operator ">=" value]
  | .lt value => [operator "<" value]
  | .lte value => [operator "<=" value]
  | .neq value => [.lpar, operator "!=" value, .connective .or,
      .atom ⟨columnRef ++ " IS NULL", none⟩, .rpar]
  | .like value => [.atom (likeCondition columnRef paramName value dbType)]
  | .ilike value => [.atom (ilikeCondition columnRef paramName value dbType)]

/-! ## The query -/

structure QueryBuilder (ν : Type) where
  /-- The conditions, each with the connective it has been added with. -/
  wheres : List (Clause (Comparison ν)) := []
  orderBy : Option (String × String) := none
  skip : ℕ := 0
  take : Option ℕ := none

namespace QueryBuilder

variable (query : QueryBuilder ν)

def andWhere (condition : Condition ν) : QueryBuilder ν :=
  { query with wheres := query.wheres ++ [⟨.and, condition⟩] }

def orWhere (condition : Condition ν) : QueryBuilder ν :=
  { query with wheres := query.wheres ++ [⟨.or, condition⟩] }

end QueryBuilder

def conditionsOf (filter : DataTableFilter ν) (dbType : DbType) (tableReference : Option String) :
    List (Condition ν) :=
  filter.filters.mapIdx fun i filter => getConditionAndParams filter i dbType tableReference

def applyFilters (query : QueryBuilder ν) (filter : DataTableFilter ν) (dbType : DbType)
    (tableReference : Option String) : QueryBuilder ν :=
  let conditionsAndParams := conditionsOf filter dbType tableReference
  match conditionsAndParams with
  | [condition] => query.andWhere condition
  | _ => conditionsAndParams.foldl (fun query condition =>
      match filter.type with
      | .or => query.orWhere condition
      | .and => query.andWhere condition) query

def searchTerm (rawSearch : String) : String :=
  if '%' ∈ rawSearch.toList then rawSearch else "%" ++ rawSearch ++ "%"

/-- The condition of a search on one column. -/
def searchCondition (rawSearch tableReference column : String) (dbType : DbType) : Comparison ν :=
  let colRef := quoteIdentifier tableReference dbType ++ "." ++ quoteIdentifier column dbType
  let search := some ("search", .text (escapeLikeSpecials (searchTerm rawSearch)))
  match dbType with
  | .sqlite | .sqlitePooled =>
    ⟨"UPPER(CAST(" ++ colRef ++ " AS TEXT)) LIKE UPPER(:search) ESCAPE '\\'", search⟩
  | .mysql | .mariadb =>
    ⟨"UPPER(CAST(" ++ colRef ++ " AS CHAR)) LIKE UPPER(:search) ESCAPE '\\\\'", search⟩
  | .postgres => ⟨"CAST(" ++ colRef ++ " AS TEXT) ILIKE :search ESCAPE '\\'", search⟩
  | .other => ⟨"UPPER(CAST(" ++ colRef ++ " AS TEXT)) LIKE UPPER(:search)", search⟩

def applySearch (query : QueryBuilder ν) (rawSearch tableReference : String)
    (columns : List String) (dbType : DbType) : QueryBuilder ν :=
  match columns with
  | [] => query
  | columns =>
    let conditions : List (Clause (Comparison ν)) := columns.map fun column =>
      ⟨.or, [.atom (searchCondition rawSearch tableReference column dbType)]⟩
    query.andWhere (.lpar :: join conditions ++ [.rpar])

def applySorting (query : QueryBuilder ν) (dto : ListDataTableContentQueryDto ν)
    (dbType : DbType) : QueryBuilder ν :=
  match dto.sortBy with
  | none => query
  | some (field, order) =>
    let quotedField := quoteIdentifier "dataTable" dbType ++ "." ++ quoteIdentifier field dbType
    { query with orderBy := some (quotedField, order) }

def applyPagination (query : QueryBuilder ν) (dto : ListDataTableContentQueryDto ν) :
    QueryBuilder ν :=
  { query with
    skip := dto.skip.getD 0
    take := match dto.take with
      | some take => if take ≠ 0 then some take else query.take
      | none => query.take }

/-- The characters `trim` removes. -/
def isWhiteSpace (c : Char) : Bool :=
  c.toNat ∈ [0x9, 0xA, 0xB, 0xC, 0xD, 0x20, 0xA0, 0x1680, 0x2028, 0x2029, 0x202F, 0x205F, 0x3000,
    0xFEFF] ∨ (0x2000 ≤ c.toNat ∧ c.toNat ≤ 0x200A)

/-- The search term, where it is not blank. -/
def ListDataTableContentQueryDto.searched (dto : ListDataTableContentQueryDto ν) : Option String :=
  dto.search.filter fun search => !search.toList.all isWhiteSpace

/-- The query that counts and the query for the rows. -/
def getManyQuery (dto : ListDataTableContentQueryDto ν) (columns : List String)
    (dbType : DbType) : QueryBuilder ν × QueryBuilder ν :=
  let tableReference := "dataTable"
  let query : QueryBuilder ν := {}
  let query := match dto.filter with
    | some filter => applyFilters query filter dbType (some tableReference)
    | none => query
  let query := match dto.searched with
    | some search => applySearch query search tableReference columns dbType
    | none => query
  (query, applyPagination (applySorting query dto dbType) dto)

/-! ## What is selected -/

section

-- the value of a comparison for a row, none where it is unknown
variable {ρ : Type} (value : Comparison ν → ρ → Option Bool)

/-- The row has a condition that is true. -/
def Satisfies (condition : Condition ν) (row : ρ) : Prop :=
  ∃ e, parse condition = some e ∧ e.truth (value · row) = some true

/-- A query without conditions selects every row. -/
def QueryBuilder.Selects (query : QueryBuilder ν) (row : ρ) : Prop :=
  query.wheres = [] ∨ Satisfies value (join query.wheres) row

/-- The row satisfies the filters, each on its own, as they are combined. No filters exclude no
row. -/
def Combined (type : Connective) (conditions : List (Condition ν)) (row : ρ) : Prop :=
  match type with
  | .and => ∀ condition ∈ conditions, Satisfies value condition row
  | .or => conditions = [] ∨ ∃ condition ∈ conditions, Satisfies value condition row

variable (dto : ListDataTableContentQueryDto ν) (columns : List String) (dbType : DbType)

def ListDataTableContentQueryDto.type : Connective :=
  (dto.filter.map (·.type)).getD .and

def ListDataTableContentQueryDto.conditions : List (Condition ν) :=
  (dto.filter.map fun filter => conditionsOf filter dbType (some "dataTable")).getD []

/-- One of the columns contains the term. -/
def Contains (search : String) (row : ρ) : Prop :=
  ∃ column ∈ columns,
    Satisfies value [.atom (searchCondition search "dataTable" column dbType)] row

/-- The row satisfies the filters and contains the term that is searched for. -/
def Wanted (row : ρ) : Prop :=
  Combined value dto.type (dto.conditions dbType) row ∧
    ∀ search, dto.searched = some search → Contains value columns dbType search row

/-- The filters before the last of a disjunction, and those of a table without columns, let no row
through that does not contain the term. -/
def SearchCovers (rows : List ρ) : Prop :=
  ∀ search, dto.searched = some search → ∀ row ∈ rows,
    (columns = [] → ¬ Combined value dto.type (dto.conditions dbType) row) ∧
    (dto.type = .or → ∀ condition ∈ (dto.conditions dbType).dropLast,
      Satisfies value condition row → Contains value columns dbType search row)

end

end N8n
