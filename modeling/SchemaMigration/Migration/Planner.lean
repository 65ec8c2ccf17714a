import SchemaMigration.Ddl.Compile
import SchemaMigration.Diff.Detect
import SchemaMigration.Naming
import SchemaMigration.Session
import SchemaMigration.Template.Migration

/-!
# Planning migrations

A migration is planned from the difference between a declared and an observed schema, in neither of which the table of
records counts: the difference is compiled to statements and written to a new file from a template.
-/

namespace SchemaMigration

/-- What planning needs to know. -/
structure Planner where
  /-- The template of new files. -/
  template : String := Template.standardSource
  /-- Where the template comes from, for messages. -/
  origin : String := "<bundled>"
  /-- The table of records. -/
  recordTable : String := "migrations"
  /-- Tables that are left out of the comparison. -/
  ignored : List String := []

namespace Planner

/-- What differs between two schemas. -/
def differences (p : Planner) (declared observed : Schema) : List TableDiff :=
  (declared.without [p.recordTable]).diff (observed.without [p.recordTable]) p.ignored

/-- The statements that make up for the differences; `none` if there are none. -/
def query? (p : Planner) (declared observed : Schema) : Option (Reversible String) :=
  let query := (compile (p.differences declared observed) observed.defaults).map (·.sql)
  if query.isEmpty then none else some query

/-- The statements that make up for the differences, with notes on the way. The table of records counts among the
declared tables and not among the observed ones. -/
def query (p : Planner) (declared observed : Schema) : Action (Option (Reversible String)) := do
  Action.log (Log.debug "Comparing schemas"
    [("declared", toString declared.tables.length),
      ("observed", toString (observed.without [p.recordTable]).tables.length)])
  (skippedTables (p.differences declared observed)).forM fun table =>
    Action.log (Log.warn "Skipping table without columns" [("table", Text.debug table)])
  return p.query? declared observed

/-- Why a template gives no file. -/
def faultText : Template.Fault → String
  | .badTemplate => "syntax error"
  | .rendering _ => "rendering failed"

/-- Writes a new migration file and gives its path. -/
def write (p : Planner) (name : Option String) (query : Reversible String) : Action String := do
  let now ← Action.ofProgram (Program.request (I := Session) .now)
  let isTaken (name : String) : Program Session Bool := Program.request (I := Session) (.isTaken name)
  let name ← Action.ofProgram (Naming.choose isTaken now name)
  let content ← Action.ofExcept (fun fault => .template p.origin (faultText fault))
    (Template.renderMigration p.template name query)
  let path ← Action.attempt id (Program.request (I := Session) (.create name content))
  Action.log (Log.info "Created migration"
    [("path", path), ("up", toString query.up.length), ("down", toString query.down.length)])
  return path

/-- Writes a migration for the differences between two schemas and gives its path; `none` if there are none. -/
def plan (p : Planner) (name : Option String) (declared observed : Schema) : Action (Option String) := do
  match ← p.query declared observed with
  | some query => some <$> p.write name query
  | none =>
    Action.log (Log.info "No schema changes detected")
    return none

/-- Writes a migration that does nothing, to be filled in. -/
def planEmpty (p : Planner) (name : Option String) : Action String :=
  p.write name {}

end Planner

end SchemaMigration
