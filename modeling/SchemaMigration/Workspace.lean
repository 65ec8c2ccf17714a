import SchemaMigration.Files.Directory
import SchemaMigration.RecordTable
import SchemaMigration.Session

/-!
# Workspaces

A workspace is a migrations directory and a table of records: what a session needs to be carried out on a host.
-/

namespace SchemaMigration

/-- A migrations directory, a table of records, and what becomes of log entries. -/
structure Workspace where
  directory : String
  dialect : Dialect
  table : String
  log : Log.Entry → Program Host Unit := fun _ => pure ()

namespace Workspace

def files (w : Workspace) : Directory :=
  { path := w.directory, log := w.log }

def records (w : Workspace) : RecordTable :=
  { dialect := w.dialect, name := w.table, log := w.log }

/-- What a request of a session asks of the host. -/
def answer (w : Workspace) : (r : Session.Request) → Program Host (Session.Reply r)
  | .files => w.files.scan
  | .source file => Host.read file.path
  | .isTaken name => w.files.isTaken name
  | .create name content => w.files.create name content
  | .hasTable => w.records.isThere
  | .createTable => w.records.create
  | .records => w.records.records
  | .upsert name down => w.records.upsert name down
  | .delete name => w.records.delete name
  | .execute sql values => do return (← Host.execute sql values).map fun _ => ()
  | .now => Host.now
  | .log entry => w.log entry

/-- An action carried out on the host. -/
def perform {α : Type} (w : Workspace) (action : Action α) : Program Host (Except MigrationError α) :=
  Program.interpret (I := Session) w.answer action

end Workspace

end SchemaMigration
