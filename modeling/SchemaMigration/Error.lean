import SchemaMigration.Script.Document

/-!
# Errors

What can go wrong on the way from a schema to an applied migration: the causes, and the one text of each. `message` is
what a user reads; `causes` are the texts of the errors below it, outermost first.
-/

namespace SchemaMigration

/-- What the file system answers instead of doing what it was asked. -/
inductive FileError where
  | notFound
  | exists
  | notADirectory
  | isADirectory
  | nameTooLong
  /-- The name holds a character that ends every name. -/
  | nulInName
  /-- What a file holds is no text. -/
  | notText
  /-- Any other refusal, in the words of the file system. -/
  | refused (reason : String)
  deriving Repr, DecidableEq

def FileError.message : FileError → String
  | .notFound => "No such file or directory (os error 2)"
  | .exists => "File exists (os error 17)"
  | .notADirectory => "Not a directory (os error 20)"
  | .isADirectory => "Is a directory (os error 21)"
  | .nameTooLong => "File name too long (os error 36)"
  | .nulInName => "file name contained an unexpected NUL byte"
  | .notText => "stream did not contain valid UTF-8"
  | .refused reason => reason

/-- What a database, or the connection to it, answers instead of a result. -/
inductive DatabaseError where
  /-- The database refused, with its own code and text. -/
  | reported (code : Nat) (text : String)
  /-- A row was asked for and there is none. -/
  | rowNotFound
  /-- A cell holds a value of another type than the one asked for. -/
  | unreadable
  /-- A placeholder takes no value from a list. -/
  | unbindable
  /-- The address of the database cannot be understood. -/
  | configuration (text : String)
  /-- Nothing answers at the address of the database. -/
  | unreachable
  deriving Repr, DecidableEq

namespace DatabaseError

/-- The database's own words: the code in front of the text. -/
def reportedText (code : Nat) (text : String) : String :=
  "(code: " ++ toString code ++ ") " ++ text

def message : DatabaseError → String
  | reported code text => "error returned from database: " ++ reportedText code text
  | rowNotFound => "no rows returned by a query that expected to return at least one row"
  | unreadable => "a cell holds a value of another type"
  | unbindable => "a named placeholder takes no value from a list"
  | configuration text => "error with configuration: " ++ text
  | unreachable => "the server cannot be reached"

/-- The code, as far as the database gave one. -/
def code? : DatabaseError → Option String
  | reported code _ => some (toString code)
  | _ => none

/-- The texts of the errors below. -/
def causes : DatabaseError → List String
  | reported code text => [reportedText code text]
  | configuration text => [text]
  | rowNotFound | unreadable | unbindable | unreachable => []

end DatabaseError

/-- Everything that ends a run early. -/
inductive MigrationError where
  /-- The database failed outside the statements of a migration. -/
  | database (cause : DatabaseError)
  /-- The database failed on a statement of a migration. -/
  | statement (sql : String) (code : Option String) (cause : DatabaseError)
  /-- A named placeholder has no value. -/
  | missingBind (sql name : String)
  /-- A value has no literal. -/
  | invalidBind (sql value : String)
  | file (cause : FileError)
  | template (path reason : String)
  | schema (path reason : String)
  | unsupportedDatabase (url : String)
  | migrationExists (path : String)
  /-- Something other than a directory stands where the migrations should be. -/
  | directoryNotFound (path : String)
  | invalidScript (path reason : String)
  | invalidRecord (name reason : String)
  | migrationNotFound (name : String)
  /-- The migration is there and has never been applied. -/
  | notApplied (name : String)
  /-- The migration has no record that could be removed. -/
  | notRecorded (name : String)
  deriving Repr, DecidableEq

namespace MigrationError

/-- A database error on a statement, with the database's code. -/
def ofStatement (sql : String) (cause : DatabaseError) : MigrationError :=
  statement sql cause.code? cause

/-- What is wrong with the values of a statement. -/
def ofBindError : BindError → MigrationError
  | .missing sql name => missingBind sql name
  | .noLiteral sql value => invalidBind sql value.describe

def message : MigrationError → String
  | database cause => "Database error: " ++ cause.message
  | statement sql code cause =>
    "Statement failed" ++ (match code with
      | some code => " [" ++ code ++ "]"
      | none => "") ++ ": " ++ cause.message ++ "\n  " ++ sql
  | missingBind sql name => "No value bound for placeholder ':" ++ name ++ "' in: " ++ sql
  | invalidBind sql value => "Cannot render bound value " ++ value ++ " in: " ++ sql
  | file cause => "IO error: " ++ cause.message
  | template path reason => "Invalid migration template '" ++ path ++ "': " ++ reason
  | schema path reason => "Failed to read schema '" ++ path ++ "': " ++ reason
  | unsupportedDatabase url => "Unsupported database URL: " ++ url
  | migrationExists path => "Migration file already exists: " ++ path
  | directoryNotFound path => "Migrations directory not found: " ++ path
  | invalidScript path reason => "Failed to parse migration file '" ++ path ++ "': " ++ reason
  | invalidRecord name reason => "Invalid migration record '" ++ name ++ "': " ++ reason
  | migrationNotFound name => "Migration " ++ name ++ " not found"
  | notApplied name => "Migration " ++ name ++ " is not applied"
  | notRecorded name => "Migration " ++ name ++ " is not recorded"

/-- The texts of the errors below, outermost first. -/
def causes : MigrationError → List String
  | database cause | statement _ _ cause => cause.message :: cause.causes
  | file cause => [cause.message]
  | _ => []

end MigrationError

namespace ScriptError

/-- What is wrong with a document. -/
def message : ScriptError → String
  | notAScript => "expected \x60up\x60 and \x60down\x60 statement lists"
  | malformed => "the document cannot be read"

end ScriptError

end SchemaMigration
