import SchemaMigration.Text.Quoted

/-!
# Indexes and foreign keys

The indexes and foreign keys of a table and their definitions in SQL.
-/

namespace SchemaMigration

/-- Kinds of indexes. -/
inductive IndexKind where
  | primary | unique | key | fulltext | spatial
  deriving Repr, DecidableEq

def IndexKind.sql : IndexKind → String
  | .primary => "PRIMARY KEY"
  | .unique => "UNIQUE KEY"
  | .key => "KEY"
  | .fulltext => "FULLTEXT KEY"
  | .spatial => "SPATIAL KEY"

/-- An index of a table. The name of a primary key is never written. -/
structure Index where
  name : String := ""
  kind : IndexKind
  columns : List String
  deriving Repr, DecidableEq

namespace Index

/-- The name that every primary key has on the server. -/
def primaryName : String := "PRIMARY"

/-- The primary key over some columns. -/
def primary (columns : List String) : Index :=
  { name := primaryName, kind := .primary, columns }

def isPrimary (i : Index) : Bool :=
  i.kind == .primary

/-- What tells an index from the other indexes of its table. -/
def key (i : Index) : String :=
  if i.isPrimary then primaryName else i.name

/-- The definition of an index. -/
def definition (i : Index) : String :=
  i.kind.sql ++ " " ++ (if i.isPrimary then "" else Text.quoteName i.name ++ " ") ++
    "(" ++ Text.quoteNames i.columns ++ ")"

end Index

/-- What happens to a row when the row it refers to is deleted or updated. -/
inductive ReferenceAction where
  | restrict | cascade | setNull | noAction | setDefault
  deriving Repr, DecidableEq

namespace ReferenceAction

def sql : ReferenceAction → String
  | restrict => "RESTRICT"
  | cascade => "CASCADE"
  | setNull => "SET NULL"
  | noAction => "NO ACTION"
  | setDefault => "SET DEFAULT"

/-- The action in force: none given and `NO ACTION` are `RESTRICT`. -/
def effective : Option ReferenceAction → ReferenceAction
  | none | some restrict | some noAction => restrict
  | some action => action

end ReferenceAction

/-- A foreign key of a table. -/
structure ForeignKey where
  name : String
  columns : List String
  referencesTable : String
  referencesColumns : List String
  onDelete : Option ReferenceAction := none
  onUpdate : Option ReferenceAction := none
  deriving Repr, DecidableEq

namespace ForeignKey

/-- The definition of a foreign key; an action is written only where one is given. -/
def definition (k : ForeignKey) : String :=
  "CONSTRAINT " ++ Text.quoteName k.name ++ " FOREIGN KEY (" ++ Text.quoteNames k.columns ++ ") REFERENCES " ++
    Text.quoteName k.referencesTable ++ " (" ++ Text.quoteNames k.referencesColumns ++ ")" ++
    (match k.onDelete with
      | some action => " ON DELETE " ++ action.sql
      | none => "") ++
    (match k.onUpdate with
      | some action => " ON UPDATE " ++ action.sql
      | none => "")

end ForeignKey

end SchemaMigration
