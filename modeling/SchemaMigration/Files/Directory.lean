import SchemaMigration.Log
import SchemaMigration.Migration.Basic
import SchemaMigration.Host

/-!
# The migrations directory

Migration files are the regular files with the extension `yaml`, by name. New ones are created and never written over.
-/

namespace SchemaMigration

/-- A directory of migration files, and what becomes of log entries about it. -/
structure Directory where
  path : String
  log : Log.Entry → Program Host Unit := fun _ => pure ()

namespace Directory

/-- The extension of migration files. -/
def extension : String := "yaml"

/-- The path of the file of a migration. -/
def filePath (d : Directory) (name : String) : String :=
  Path.join d.path (name ++ "." ++ extension)

/-- The migration files among the entries of a directory, sorted by name. -/
def migrationFiles (d : Directory) (entries : List (String × FileKind)) : List MigrationFile :=
  let files := entries.filterMap fun (entry, kind) =>
    if kind == .file then (Path.stem? extension entry).map fun name => { name, path := Path.join d.path entry }
    else none
  files.mergeSort fun a b => a.name ≤ b.name

/-- The migration files. A directory that is not there has none. -/
def scan (d : Directory) : Program Host (Except MigrationError (List MigrationFile)) := do
  match ← Host.kind d.path with
  | none =>
    d.log (Log.debug "Migrations directory does not exist" [("path", d.path)])
    return .ok []
  | some .file => return .error (.directoryNotFound d.path)
  | some .directory => return ((← Host.entries d.path).map d.migrationFiles).mapError .file

/-- Whether there is a file for a migration of that name. -/
def isTaken (d : Directory) (name : String) : Program Host Bool :=
  return (← Host.kind (d.filePath name)).isSome

/-- Creates a migration file, and the directory where it is missing; gives its path. -/
def create (d : Directory) (name content : String) : Program Host (Except MigrationError String) := do
  match ← Host.createDirectories d.path with
  | .error e => return .error (.file e)
  | .ok () =>
    let path := d.filePath name
    match ← Host.create path content with
    | .ok () => return .ok path
    | .error .exists => return .error (.migrationExists path)
    | .error e => return .error (.file e)

end Directory

end SchemaMigration
