import SchemaMigration.Dialect
import SchemaMigration.Log
import SchemaMigration.Migration.Basic
import SchemaMigration.Host

/-!
# The table of records

The records of applied migrations in a table of the database, kept by the statements of a dialect.
-/

namespace SchemaMigration

/-- A table of records, and what becomes of log entries about it. -/
structure RecordTable where
  dialect : Dialect
  name : String
  log : Log.Entry → Program Host Unit := fun _ => pure ()

namespace RecordTable

/-- The name of the table unless another one is given. -/
def defaultName : String := "migrations"

/-! ## Reading rows -/

/-- The text of a cell; octets are read as text as far as they are. -/
def cellText : Store.Cell → Except MigrationError (Option String)
  | .null => .ok none
  | .text s => .ok (some s)
  | .blob octets => .ok (some (Text.decodeUtf8Lenient octets))
  | .int _ | .float _ => .error (.database .unreadable)

/-- The time that a record holds. -/
def timeOf (name text : String) : Except MigrationError Instant :=
  match Instant.parse? text with
  | some t => .ok t
  | none => .error (.invalidRecord name ("invalid timestamp '" ++ text ++ "'"))

/-- The record in a row: the name, both times and the down text. -/
def recordOf (row : List Store.Cell) : Except MigrationError Record := do
  let cell (i : Nat) : Except MigrationError (Option String) := cellText (row.getD i .null)
  let name := (← cell 0).getD ""
  let some created ← cell 1 | throw (.invalidRecord name "created_at is NULL")
  let created ← timeOf name created
  let updated ← match ← cell 2 with
    | some text => some <$> timeOf name text
    | none => pure none
  return { name, created, updated, down := (← cell 3).getD "" }

/-! ## Statements -/

/-- The table is there. -/
def isThere (t : RecordTable) : Program Host (Except DatabaseError Bool) := do
  return (← Host.execute t.dialect.existsSql (some [.text t.name])).map fun outcome => !outcome.rows.isEmpty

/-- Creates the table unless it is there. -/
def create (t : RecordTable) : Program Host (Except DatabaseError Unit) := do
  t.log (Log.debug "Creating record table" [("table", t.name), ("dialect", Text.debug t.dialect.name)])
  return (← Host.execute (t.dialect.createSql t.name) none).map fun _ => ()

/-- All records, by name. -/
def records (t : RecordTable) : Program Host (Except MigrationError (List Record)) := do
  match ← Host.execute (t.dialect.selectSql t.name) (some []) with
  | .ok outcome => return outcome.rows.mapM recordOf
  | .error e => return .error (.database e)

/-- Adds a record, or renews the one of that name. -/
def upsert (t : RecordTable) (name down : String) : Program Host (Except DatabaseError Unit) := do
  t.log (Log.debug "Recording migration" [("name", Text.debug name)])
  return (← Host.execute (t.dialect.upsertSql t.name) (some [.text name, .text down])).map fun _ => ()

/-- Removes a record; gives the number of those that were there. -/
def delete (t : RecordTable) (name : String) : Program Host (Except DatabaseError Nat) := do
  t.log (Log.debug "Removing migration record" [("name", Text.debug name)])
  return (← Host.execute (t.dialect.deleteSql t.name) (some [.text name])).map (·.affected)

end RecordTable

end SchemaMigration
