import SchemaMigration.Cli.Report
import SchemaMigration.Migration.Planner
import SchemaMigration.Schema.Document
import SchemaMigration.Workspace

/-!
# Running commands

What each command does on a host, from its arguments to its exit code.
-/

namespace SchemaMigration.Cli

/-- A program of the command line, which may fail. -/
abbrev Task (α : Type) : Type := ExceptT Failure (Program Host) α

/-- How the program ended: its exit code and what it reported as an error. -/
structure Exit where
  code : Nat := 0
  report : String := ""
  deriving Repr, DecidableEq

namespace Task

/-- A program that cannot fail. -/
def ofProgram {α : Type} (p : Program Host α) : Task α :=
  ExceptT.lift p

/-- A program that may fail. -/
def attempt {ε α : Type} (onError : ε → Failure) (p : Program Host (Except ε α)) : Task α :=
  ExceptT.mk (p >>= fun reply => pure (reply.mapError onError))

def printLine (text : String) : Task Unit :=
  ofProgram (Host.print (text ++ "\n"))

end Task

namespace Settings

/-- Prints a log entry, unless it is of no interest. -/
def log (s : Settings) (entry : Log.Entry) : Program Host Unit :=
  if entry.level == .debug && !s.isVerbose then pure () else Host.print (entry.line ++ "\n")

def info (s : Settings) (text : String) : Task Unit :=
  Task.ofProgram (s.log (Log.info text))

/-- The workspace of the settings, its records in a dialect. -/
def workspace (s : Settings) (dialect : Dialect) : Workspace :=
  { directory := s.directory, dialect, table := s.table, log := s.log }

/-- An action on a workspace. -/
def perform {α : Type} (w : Workspace) (action : Action α) : Task α :=
  Task.attempt .ofError (w.perform action)

/-- Opens the database and gives the workspace with its records there. -/
def connect (s : Settings) : Task Workspace := do
  let some url := s.database
    | throw { message := "a database URL is required (--database or DATABASE_URL)" }
  let dialect ← Task.attempt .ofError (pure (Dialect.ofUrl url))
  let failed (e : DatabaseError) : Failure :=
    { message := "failed to connect to " ++ dialect.name, causes := e.message :: e.causes }
  Task.attempt failed (Host.connect url)
  return s.workspace dialect

/-- A planner with the template of the settings. -/
def planner (s : Settings) (ignored : List String) : Task Planner := do
  match s.template with
  | none => return { recordTable := s.table, ignored }
  | some path =>
    let failed (reason : String) : Failure := .ofError (.template path reason)
    let template ← Task.attempt (fun e : FileError => failed e.message) (Host.read path)
    if (Template.parse? template).isNone then throw (failed (Planner.faultText .badTemplate))
    return { template, origin := path, recordTable := s.table, ignored }

end Settings

/-- The schema in a file. -/
def loadSchema (path : String) : Task Schema := do
  let failed (reason : String) : Failure := .ofError (.schema path reason)
  let text ← Task.attempt (fun e : FileError => failed e.message) (Host.read path)
  match Schema.ofDocument? text with
  | some schema => return schema
  | none => throw (failed "the document is no schema")

/-- Whether an answer is yes: blanks around it and its case do not matter, and no answer is one. -/
def isYes (answer : String) : Bool :=
  ["", "y", "yes"].contains (Text.lowerText (Text.trim answer))

/-- Whether the user agrees. -/
def confirm (question : String) : Task Bool := do
  Task.ofProgram (Host.print (question ++ " [Y/n] "))
  return isYes (← Task.ofProgram Host.readLine)

/-- Tells what was run, or in a dry run what would have been. -/
def printReports (s : Settings) (verb : String) (isDry : Bool) (reports : List StepReport) : Task Unit := do
  if reports.isEmpty then s.info "No migrations to run."
  reports.forM fun r =>
    if isDry then (dryReport r).forM Task.printLine else s.info (verb ++ " " ++ r.name)

/-- The note in front of a dry run. -/
def noteDryRun (s : Settings) (isDry : Bool) : Task Unit := do
  if isDry then s.info "Dry run mode - SQL will be printed but not executed."

/-- Writes the migration from one schema to another, or shows it. -/
def generate (s : Settings) (name : Option String) (declared observed : String) (ignored : List String)
    (isDry : Bool) : Task Unit := do
  let declared ← loadSchema declared
  let planner ← s.planner ignored
  let observed ← loadSchema observed
  let w := s.workspace .mysql
  if isDry then
    match ← Settings.perform w (planner.query declared observed) with
    | some query =>
      (["-- up"] ++ query.up ++ ["\n-- down"] ++ query.down).forM Task.printLine
    | none => s.info "No diff queries found."
  else
    match ← Settings.perform w (planner.plan name declared observed) with
    | some path => Task.printLine ("Created migration: " ++ path)
    | none => s.info "No diff queries found."

/-- Carries out a command. -/
def execute (s : Settings) : Command → Task Unit
  | .init => do
    let w ← s.connect
    Settings.perform w Action.ensureTable
    s.info ("Record table \x60" ++ s.table ++ "\x60 is ready.")
  | .create name => do
    let planner ← s.planner []
    let path ← Settings.perform (s.workspace .mysql) (planner.planEmpty name)
    Task.printLine ("Created migration: " ++ path)
  | .generate name declared observed ignored isDry => generate s name declared observed ignored isDry
  | .info changesOnly => do
    let w ← s.connect
    let all ← Settings.perform w Migration.list
    let shown := if changesOnly then Migration.changes all else all
    if shown.isEmpty then s.info "No migrations found."
    else (migrationTable shown).forM Task.printLine
  | .migrate name count isDry => do
    let w ← s.connect
    noteDryRun s isDry
    printReports s "Applied" isDry (← Settings.perform w (Migration.upgrade isDry name count))
  | .downgrade name count isDry isSure => do
    let w ← s.connect
    let isEverything := name.isNone && count.getD 0 == 0
    let mayGo ← if isEverything && !isDry && !isSure then confirm "Are you sure to run all migrations?" else pure true
    if mayGo then
      noteDryRun s isDry
      printReports s "Reverted" isDry (← Settings.perform w (Migration.downgrade isDry name count))
    else s.info "Aborted."

/-- Carries out what a list of arguments asks for. -/
def run (environment : List (String × String)) (arguments : List String) : Program Host Exit := do
  match Invocation.read environment arguments with
  | .usage => return { code := 2 }
  | .version =>
    Host.print (programName ++ " " ++ version ++ "\n")
    return {}
  | .help command =>
    Host.print (helpText environment command)
    return {}
  | .run settings command =>
    match ← (execute settings command).run with
    | .ok () => return {}
    | .error failure => return { code := 1, report := failure.report }

end SchemaMigration.Cli
