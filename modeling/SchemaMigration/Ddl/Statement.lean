import SchemaMigration.Schema.Table

/-!
# Schema statements

The statements of a migration that comes from a schema difference: creating a table, dropping one, and the alterations
of one that stays. `Statement.sql` writes them for a MySQL server.
-/

namespace SchemaMigration.Ddl

open Text (quoteName)

/-- One alteration of a table. -/
inductive Alteration where
  | setEngine (engine : String)
  /-- The character set of the table and of all its text columns, with or without a collation. -/
  | convert (charset : String) (collation : Option String)
  | addColumn (column : Column) (tableCharset : String)
  | dropColumn (name : String)
  /-- A new definition under the same name. -/
  | changeColumn (column : Column) (tableCharset : String)
  | addIndex (index : Index)
  | dropPrimaryKey
  | dropIndex (name : String)
  | addRelation (relation : ForeignKey)
  | dropRelation (name : String)
  deriving Repr, DecidableEq

namespace Alteration

/-- What stands after the table's name. -/
def clause : Alteration → String
  | setEngine engine => "ENGINE = " ++ engine
  | convert charset none => "CONVERT TO CHARACTER SET " ++ charset
  | convert charset (some collation) => "CONVERT TO CHARACTER SET " ++ charset ++ " COLLATE " ++ collation
  | addColumn column charset => "ADD COLUMN " ++ column.definition charset
  | dropColumn name => "DROP COLUMN " ++ quoteName name
  | changeColumn column charset => "CHANGE COLUMN " ++ quoteName column.name ++ " " ++ column.definition charset
  | addIndex index => "ADD " ++ index.definition
  | dropPrimaryKey => "DROP PRIMARY KEY"
  | dropIndex name => "DROP KEY " ++ quoteName name
  | addRelation relation => "ADD " ++ relation.definition
  | dropRelation name => "DROP FOREIGN KEY " ++ quoteName name

/-- The alteration that takes an index away. -/
def removeIndex (index : Index) : Alteration :=
  if index.isPrimary then dropPrimaryKey else dropIndex index.name

/-- The alteration as a statement on a table. -/
def sql (table : String) (a : Alteration) : String :=
  "ALTER TABLE " ++ quoteName table ++ " " ++ a.clause ++ ";"

theorem sql_eq_iff {table : String} {a b : Alteration} : a.sql table = b.sql table ↔ a.clause = b.clause := by
  unfold sql
  rw [String.append_left_inj, String.append_right_inj]

end Alteration

/-- A line in the body of a table's definition. -/
inductive TableElement where
  | column (column : Column) (tableCharset : String)
  | index (index : Index)
  | relation (relation : ForeignKey)
  deriving Repr, DecidableEq

def TableElement.definition : TableElement → String
  | column c charset => c.definition charset
  | index i => i.definition
  | relation k => k.definition

/-- The body of a table's definition: its columns, its indexes, its foreign keys. A primary key is left out where a
column is already written as one. -/
def tableElements (t : Table) (d : Defaults) : List TableElement :=
  let inlinePrimary := t.columns.any Column.isAutoPrimaryKey
  t.columns.map (.column · (t.effectiveCharset d)) ++
    (t.indexes.filter fun i => !(inlinePrimary && i.isPrimary)).map .index ++
    t.relations.map .relation

/-- The options after a table's body; only those that the table itself gives. -/
def tableOptions (t : Table) : String :=
  (match t.engine with
    | some engine => " ENGINE=" ++ engine
    | none => "") ++
  (match t.charset with
    | some charset => " DEFAULT CHARSET=" ++ charset
    | none => "") ++
  (match t.collation with
    | some collation => " COLLATE=" ++ collation
    | none => "")

/-- The script that creates a table. Session checks are off around it, so that tables can be created in any order
whatever their foreign keys. -/
def createScript (t : Table) (d : Defaults) : String :=
  let name := quoteName t.name
  "SET AUTOCOMMIT = 0;\nSET FOREIGN_KEY_CHECKS = 0;\nSET UNIQUE_CHECKS = 0;\n" ++
    "DROP TABLE IF EXISTS " ++ name ++ ";\n" ++
    "CREATE TABLE " ++ name ++ " (\n  " ++
    ",\n  ".intercalate ((tableElements t d).map TableElement.definition) ++ "\n)" ++ tableOptions t ++ ";\n" ++
    "SET AUTOCOMMIT = 1;\nSET FOREIGN_KEY_CHECKS = 1;\nSET UNIQUE_CHECKS = 1;\n"

/-- A statement of a schema migration. -/
inductive Statement where
  | createTable (table : Table) (defaults : Defaults)
  | dropTable (name : String)
  | alterTable (name : String) (alteration : Alteration)
  deriving Repr, DecidableEq

def Statement.sql : Statement → String
  | createTable t d => createScript t d
  | dropTable name => "DROP TABLE " ++ quoteName name ++ ";"
  | alterTable name a => a.sql name

end SchemaMigration.Ddl
