import SchemaMigration.Session
import SchemaMigration.Text.Blank

/-!
# Running statements

The statements of one direction of a migration run in order up to the first that fails; those that ran before it stay. A
dry run sends nothing and gives the statements with their values written out.
-/

namespace SchemaMigration.Action

/-- Sends one statement: prepared, if it binds values, and otherwise as it was written. -/
def send (s : Statement) : Action Unit := do
  log (Log.debug "Executing statement" [("sql", s.display)])
  if s.hasBinds then
    let (sql, values) ← ofExcept .ofBindError s.prepare
    execute s.sql sql (some values)
  else execute s.sql s.sql none

/-- Sends statements one after the other. -/
def sendAll : List Statement → Action Unit
  | [] => pure ()
  | s :: rest => do
    send s
    sendAll rest

/-- Runs statements and gives their texts: as they were written, or in a dry run with their values. -/
def run (isDry : Bool) (statements : List Statement) : Action (List String) :=
  if isDry then ofExcept .ofBindError (statements.mapM Statement.render)
  else do
    sendAll statements
    log (Log.info "Executed statements" [("count", toString statements.length)])
    return statements.map (·.sql)

/-- Runs a stored text, which may hold several statements, and gives it back; a blank one is nothing to run. -/
def runText (isDry : Bool) (text : String) : Action (List String) := do
  let sql := Text.trim text
  if sql == "" then return []
  unless isDry do
    log (Log.debug "Executing stored statements" [("sql", Text.debug sql)])
    execute sql sql none
  return [sql]

end SchemaMigration.Action
