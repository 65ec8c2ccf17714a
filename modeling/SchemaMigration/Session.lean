import SchemaMigration.Error
import SchemaMigration.Log
import SchemaMigration.Migration.Basic
import SchemaMigration.Program

/-!
# Sessions

What the work on migrations asks of its surroundings: the files of the migrations directory, the table of records, the
database that statements run against, the time, and a log. An action is a program over these requests that may end with
an error.
-/

namespace SchemaMigration

namespace Session

/-- What a session can be asked. -/
inductive Request where
  /-- The migration files, by name. -/
  | files
  /-- The text of a migration file. -/
  | source (file : MigrationFile)
  /-- Whether there is a migration file of that name. -/
  | isTaken (name : String)
  /-- A new migration file; one that is there stays as it is. -/
  | create (name content : String)
  | hasTable
  | createTable
  /-- All records, by name. -/
  | records
  /-- A new record, or the one of that name renewed. -/
  | upsert (name down : String)
  /-- No record of that name any more. -/
  | delete (name : String)
  /-- Statements, with values for their placeholders unless they bind none. -/
  | execute (sql : String) (values : Option (List BoundValue))
  | now
  | log (entry : Log.Entry)

/-- The type of the reply to each request. -/
def Reply : Request → Type
  | .files => Except MigrationError (List MigrationFile)
  | .source _ => Except FileError String
  | .isTaken _ => Bool
  -- the path of the file
  | .create .. => Except MigrationError String
  | .hasTable => Except DatabaseError Bool
  | .createTable => Except DatabaseError Unit
  | .records => Except MigrationError (List Record)
  | .upsert .. => Except DatabaseError Unit
  -- how many records there were
  | .delete _ => Except DatabaseError Nat
  | .execute .. => Except DatabaseError Unit
  | .now => Instant
  | .log _ => Unit

end Session

/-- What a session can be asked, and its replies. -/
def Session : Interface := ⟨Session.Request, Session.Reply⟩

/-- A program over a session that ends with a value or an error. -/
abbrev Action (α : Type) : Type := ExceptT MigrationError (Program Session) α

namespace Action

/-- A program that cannot fail. -/
def ofProgram {α : Type} (p : Program Session α) : Action α :=
  ExceptT.lift p

/-- A request whose reply may be an error. -/
def attempt {ε α : Type} (onError : ε → MigrationError) (p : Program Session (Except ε α)) : Action α :=
  ExceptT.mk (p >>= fun reply => pure (reply.mapError onError))

/-- A value or an error. -/
def ofExcept {ε α : Type} (onError : ε → MigrationError) (x : Except ε α) : Action α :=
  ExceptT.mk (pure (x.mapError onError))

def files : Action (List MigrationFile) :=
  attempt id (Program.request (I := Session) .files)

/-- The script of a migration file. -/
def script (file : MigrationFile) : Action Script := do
  let text ← attempt .file (Program.request (I := Session) (.source file))
  ofExcept (fun e => .invalidScript file.path e.message) (Script.ofDocument text)

def hasTable : Action Bool :=
  attempt .database (Program.request (I := Session) .hasTable)

def createTable : Action Unit :=
  attempt .database (Program.request (I := Session) .createTable)

/-- The table of records, created unless it is there. -/
def ensureTable : Action Unit := do
  unless ← hasTable do createTable

def records : Action (List Record) :=
  attempt id (Program.request (I := Session) .records)

def upsert (name down : String) : Action Unit :=
  attempt .database (Program.request (I := Session) (.upsert name down))

/-- Removes a record, which must be there. -/
def delete (name : String) : Action Unit := do
  let count ← attempt .database (Program.request (I := Session) (.delete name))
  if count == 0 then throw (.notRecorded name)

/-- Runs statements; `sql` is their text as it was given. -/
def execute (sql prepared : String) (values : Option (List BoundValue)) : Action Unit :=
  attempt (.ofStatement sql) (Program.request (I := Session) (.execute prepared values))

def log (entry : Log.Entry) : Action Unit :=
  ofProgram (Program.request (I := Session) (.log entry))

end Action

end SchemaMigration
