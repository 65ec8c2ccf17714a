import SchemaMigration.Migration.Execution
import SchemaMigration.Migration.Reconcile
import SchemaMigration.Migration.Selection

/-!
# Applying and reverting migrations

An upgrade applies the selected migrations in order: it runs what each script does and then records it with the text
that reverts it. A downgrade reverts the selected migrations: from the script of each one that has a file, and
otherwise from the text in its record, which it then removes. The first error ends either; the steps before it stay. A
dry run reads and reports, and changes nothing.
-/

namespace SchemaMigration

/-- What one step ran, or would run. -/
structure StepReport where
  name : String
  /-- The state of the migration before the step. -/
  state : State
  statements : List String
  deriving Repr, DecidableEq

namespace Migration

/-- All migrations with their states. -/
def list : Action (List Migration) := do
  let files ← Action.files
  if ← Action.hasTable then return reconcile files (← Action.records)
  else return reconcile files []

/-- The migrations that an upgrade would apply, in order. -/
def upgradePlan (target : Option String) (count : Option Nat) : Action (List Migration) := do
  Action.ofExcept id (toApply (← list) target count)

/-- The migrations that a downgrade would revert, in order. -/
def downgradePlan (target : Option String) (count : Option Nat) : Action (List Migration) := do
  Action.ofExcept id (toRevert (← list) target count)

/-- The fields of a log entry that name a migration. -/
def logFields (m : Migration) : List (String × String) :=
  [("name", m.name), ("state", m.state.text)]

/-- Applies a migration. What reverts it is written out first, so that a value without a literal fails before anything
runs. -/
def apply (isDry : Bool) (m : Migration) : Action StepReport := do
  let some file := m.file? | throw (.migrationNotFound m.name)
  let script ← Action.script file
  let down ← Action.ofExcept .ofBindError script.downText
  Action.log (Log.info "Applying migration" m.logFields)
  let statements ← Action.run isDry script.up
  unless isDry do Action.upsert m.name down
  return { name := m.name, state := m.state, statements }

/-- Runs what reverts a migration. -/
def runDown (isDry : Bool) : Migration → Action (List String)
  | new file => throw (.notApplied file.name)
  | applied file _ => do
    let script ← Action.script file
    Action.run isDry script.down
  | deleted record => do
    if Text.isAllBlank record.down then
      Action.log (Log.warn "Deleted migration has no stored down queries" [("name", record.name)])
    Action.runText isDry record.down

/-- Reverts a migration. -/
def revert (isDry : Bool) (m : Migration) : Action StepReport := do
  Action.log (Log.info "Reverting migration" m.logFields)
  let statements ← runDown isDry m
  unless isDry do Action.delete m.name
  return { name := m.name, state := m.state, statements }

/-- A step for each migration, in order. -/
def stepAll (step : Migration → Action StepReport) : List Migration → Action (List StepReport)
  | [] => pure []
  | m :: ms => do
    let report ← step m
    return report :: (← stepAll step ms)

/-- Applies the selected migrations. The table of records is created when there is something to apply. -/
def upgrade (isDry : Bool) (target : Option String) (count : Option Nat) : Action (List StepReport) := do
  let plan ← upgradePlan target count
  unless isDry || plan.isEmpty do Action.ensureTable
  stepAll (apply isDry) plan

/-- Reverts the selected migrations. -/
def downgrade (isDry : Bool) (target : Option String) (count : Option Nat) : Action (List StepReport) := do
  let plan ← downgradePlan target count
  stepAll (revert isDry) plan

end Migration

end SchemaMigration
