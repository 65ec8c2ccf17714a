import SchemaMigration.Cli.Arguments
import SchemaMigration.RecordTable

/-!
# The command line

The commands of the program with their flags, and what a list of arguments asks for.
-/

namespace SchemaMigration.Cli

/-- The name of the program. -/
def programName : String := "sqlshift"

/-- What the program says that it does. -/
def about : String := "Reversible MySQL schema migrations generated from schema diffs"

/-- The version of the program. -/
def version : String := "0.1.0"

/-- What holds for every command. -/
structure Settings where
  database : Option String
  directory : String
  table : String
  template : Option String
  isVerbose : Bool

/-- A command. -/
inductive Command where
  /-- Creates the table of records. -/
  | init
  /-- Writes an empty migration. -/
  | create (name : Option String)
  /-- Writes the migration from one schema to another, or shows it. -/
  | generate (name : Option String) (declared observed : String) (ignored : List String) (isDry : Bool)
  /-- Shows the states of migrations. -/
  | info (changesOnly : Bool)
  | migrate (name : Option String) (count : Option Nat) (isDry : Bool)
  | downgrade (name : Option String) (count : Option Nat) (isDry isSure : Bool)
  deriving Repr, DecidableEq

/-! ## Flags -/

def databaseFlag : Flag :=
  { long := "database", short := some 'd', value := some ("DATABASE", .text), variableName := some "DATABASE_URL"
    help := "Database URL (mysql://, mariadb:// or sqlite:)" }

def directoryFlag : Flag :=
  { long := "migrations-dir", short := some 'm', value := some ("MIGRATIONS_DIR", .path)
    variableName := some "SQLSHIFT_MIGRATIONS_DIR", default := some "migrations", help := "Migrations directory" }

def tableFlag : Flag :=
  { long := "table", short := some 't', value := some ("TABLE", .text), variableName := some "SQLSHIFT_TABLE"
    default := some RecordTable.defaultName, help := "Name of the record table" }

def templateFlag : Flag :=
  { long := "template", value := some ("TEMPLATE", .path), variableName := some "SQLSHIFT_TEMPLATE"
    help := "Template used to render new migration files" }

def verboseFlag : Flag :=
  { long := "verbose", short := some 'v', help := "Enable verbose output" }

def dryRunFlag (help : String) : Flag :=
  { long := "dry-run", help }

def countFlag (help : String) : Flag :=
  { long := "count", short := some 'n', value := some ("COUNT", .count), help }

/-- The flags that stand before the command. -/
def mainForm : Form :=
  { flags := [databaseFlag, directoryFlag, tableFlag, templateFlag, verboseFlag], hasVersion := true
    endsAtName := true }

/-- What there is to know about a command before it is read. -/
structure CommandForm where
  name : String
  help : String
  /-- What the argument that is no flag stands for, if there may be one. -/
  nameHelp : Option String := none
  flags : List Flag := []

def CommandForm.form (c : CommandForm) : Form :=
  { flags := c.flags, hasName := c.nameHelp.isSome }

def commandForms : List CommandForm :=
  [{ name := "init", help := "Create the record table" },
    { name := "create", help := "Create an empty migration file", nameHelp := some "Migration name/description" },
    { name := "generate", help := "Generate a migration from the difference between two schemas"
      nameHelp := some "Migration name/description"
      flags := [
        { long := "schema", value := some ("SCHEMA", .path), isRequired := true, help := "Declared schema (JSON)" },
        { long := "observed", value := some ("OBSERVED", .path), isRequired := true
          help := "Observed schema snapshot (JSON)" },
        { long := "ignore-table", value := some ("IGNORE_TABLES", .text), isRepeatable := true
          help := "Tables to leave out of the comparison" },
        dryRunFlag "Print SQL without writing a file (dry run)"] },
    { name := "info", help := "Show migration states"
      flags := [{ long := "changes", help := "Only show NEW and DELETED migrations" }] },
    { name := "migrate", help := "Apply pending migrations", nameHelp := some "Apply only this migration"
      flags := [countFlag "Number of migrations to apply (all if not specified)",
        dryRunFlag "Show SQL without executing (dry run)"] },
    { name := "downgrade", help := "Revert applied migrations", nameHelp := some "Revert only this migration"
      flags := [countFlag "Number of migrations to revert (all if not specified)",
        dryRunFlag "Show SQL without executing (dry run)",
        { long := "yes", short := some 'y', help := "Skip the confirmation when reverting everything" }] }]

/-! ## Invocations -/

/-- What a list of arguments asks for. -/
inductive Invocation where
  | run (settings : Settings) (command : Command)
  /-- Help, for one command or for the program. -/
  | help (command : Option CommandForm)
  | version
  /-- The arguments cannot be read. -/
  | usage

/-- The command of a name with what was given for it. -/
def Command.ofGiven (name : String) (g : Given) : Option Command :=
  let count := (g.value? "count").bind count?
  let isDry := g.has "dry-run"
  match name with
  | "init" => some .init
  | "create" => some (.create g.name)
  | "generate" => do
    some (.generate g.name (← g.value? "schema") (← g.value? "observed") (g.values "ignore-table") isDry)
  | "info" => some (.info (g.has "changes"))
  | "migrate" => some (.migrate g.name count isDry)
  | "downgrade" => some (.downgrade g.name count isDry (g.has "yes"))
  | _ => none

/-- The settings that were given before the command or in the environment. -/
def Settings.ofGiven (environment : List (String × String)) (g : Given) : Except Refusal Settings := do
  let value := Form.valueOf environment g
  let database ← value databaseFlag
  let directory ← value directoryFlag
  let table ← value tableFlag
  let template ← value templateFlag
  return {
    database, directory := directory.getD "", table := table.getD "", template, isVerbose := g.has verboseFlag.long }

/-- The help that the arguments of the command `help` ask for. -/
def Invocation.ofHelp : List String → Invocation
  | [] => .help none
  | [name] =>
    match commandForms.find? (·.name == name) with
    | some c => .help (some c)
    | none => .usage
  | _ => .usage

/-- What a list of arguments asks for. -/
def Invocation.read (environment : List (String × String)) (arguments : List String) : Invocation :=
  match mainForm.read none {} arguments with
  | .error .help => .help none
  | .error .version => .version
  | .error .usage | .ok (_, []) => .usage
  | .ok (main, name :: rest) =>
    if name == "help" then ofHelp rest
    else
      match commandForms.find? (·.name == name) with
      | none => .usage
      | some c =>
        match c.form.read none {} rest with
        | .error .help => .help (some c)
        | .error _ => .usage
        | .ok (given, _) =>
          match Settings.ofGiven environment main, c.form.checkRequired given, Command.ofGiven name given with
          | .ok settings, .ok (), some command => .run settings command
          | _, _, _ => .usage

end SchemaMigration.Cli
