import SchemaMigration.Calendar.Timestamp

/-!
# Migrations and their records

A migration has a file, a record of having been applied, or both; which of them it has is its state.
-/

namespace SchemaMigration

/-- A migration file. Its name is the file's name without the extension. -/
structure MigrationFile where
  name : String
  path : String
  deriving Repr, DecidableEq

/-- The record of an applied migration. -/
structure Record where
  name : String
  /-- When the migration was first applied. -/
  created : Instant
  /-- When it was last applied again. -/
  updated : Option Instant := none
  /-- What reverts the migration. -/
  down : String
  deriving Repr, DecidableEq

/-- The time of the last run of the migration. -/
def Record.lastRun (r : Record) : Instant :=
  r.updated.getD r.created

/-- The states of migrations. -/
inductive State where
  | new | applied | deleted
  deriving Repr, DecidableEq

def State.text : State → String
  | .new => "NEW"
  | .applied => "APPLIED"
  | .deleted => "DELETED"

/-- A migration. -/
inductive Migration where
  /-- A file without a record. -/
  | new (file : MigrationFile)
  /-- A file with a record. -/
  | applied (file : MigrationFile) (record : Record)
  /-- A record whose file is gone. -/
  | deleted (record : Record)
  deriving Repr, DecidableEq

namespace Migration

def name : Migration → String
  | new file | applied file _ => file.name
  | deleted record => record.name

def state : Migration → State
  | new _ => .new
  | applied .. => .applied
  | deleted _ => .deleted

def file? : Migration → Option MigrationFile
  | new file | applied file _ => some file
  | deleted _ => none

def record? : Migration → Option Record
  | new _ => none
  | applied _ record | deleted record => some record

end Migration

end SchemaMigration
