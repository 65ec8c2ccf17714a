import SchemaMigration.Store.Cell

/-!
# Commands of a store

The statements that a store understands: tables are created and dropped, rows inserted, updated, deleted and selected.
-/

namespace SchemaMigration.Store

/-- An expression. -/
inductive Expr where
  | cell (value : Cell)
  /-- The n-th parameter, counted from zero. -/
  | parameter (index : Nat)
  /-- A column; a name in double quotes that no column has is a text. -/
  | column (table : Option String) (name : String) (orText : Bool)
  | negative (e : Expr)
  /-- The present time. -/
  | now
  deriving Repr

/-- A column of a stored table. -/
structure Field where
  name : String
  type : String
  isPrimary : Bool := false
  notNull : Bool := false
  default : Expr := .cell .null
  deriving Repr

/-- Values for columns. -/
abbrev Assignments := List (String × Expr)

/-- Pairs of expressions that all have to be equal. -/
abbrev Condition := List (Expr × Expr)

/-- What an insertion does when a row with that key is there. -/
structure Conflict where
  columns : List String
  /-- What is assigned to the row that is there; nothing leaves it. -/
  assignments : Assignments
  deriving Repr

/-- A column of a result: all columns of the table, or a value. -/
inductive Item where
  | all
  | value (e : Expr)
  deriving Repr

/-- A command. -/
inductive Command where
  /-- `written` is the table's name as it stands in the statement. -/
  | create (ifMissing : Bool) (name written : String) (fields : List Field) (sql : String)
  | drop (ifThere : Bool) (name : String)
  | insert (table : String) (columns : Option (List String)) (rows : List (List Expr)) (conflict : Option Conflict)
  | update (table : String) (assignments : Assignments) (condition : Condition)
  | delete (table : String) (condition : Condition)
  | select (items : List Item) (table : Option String) (condition : Condition) (sortedBy : List Expr)
  deriving Repr

end SchemaMigration.Store
