import SchemaMigration.Schema.Column
import SchemaMigration.Schema.Key

/-!
# Tables and schemas

A table, the defaults of a server, and a schema: some tables and the defaults they fall back on. The same types describe
the schema that an application declares and the one observed on its server.
-/

namespace SchemaMigration

/-- A table. -/
structure Table where
  name : String
  columns : List Column := []
  indexes : List Index := []
  relations : List ForeignKey := []
  engine : Option String := none
  charset : Option String := none
  collation : Option String := none
  deriving Repr, DecidableEq

/-- What a server takes for a table option that is not given. -/
structure Defaults where
  engine : String := "InnoDB"
  charset : String := "utf8mb4"
  collation : String := "utf8mb4_general_ci"
  deriving Repr, DecidableEq

/-- A schema: the tables of a database and the defaults of its server. -/
structure Schema where
  tables : List Table := []
  defaults : Defaults := {}
  deriving Repr, DecidableEq

namespace Table

/-- The storage engine in force. -/
def effectiveEngine (t : Table) (d : Defaults) : String :=
  t.engine.getD d.engine

/-- The character set in force. -/
def effectiveCharset (t : Table) (d : Defaults) : String :=
  t.charset.getD d.charset

/-- The collation in force. -/
def effectiveCollation (t : Table) (d : Defaults) : String :=
  t.collation.getD d.collation

/-- The table with one more column, the last one. -/
def addColumn (t : Table) (c : Column) : Table :=
  { t with columns := t.columns ++ [c] }

/-- The table with one more index. -/
def addIndex (t : Table) (i : Index) : Table :=
  { t with indexes := t.indexes ++ [i] }

/-- The table with one more foreign key. -/
def addRelation (t : Table) (k : ForeignKey) : Table :=
  { t with relations := t.relations ++ [k] }

end Table

/-- The schema with one more table. -/
def Schema.addTable (s : Schema) (t : Table) : Schema :=
  { s with tables := s.tables ++ [t] }

end SchemaMigration
