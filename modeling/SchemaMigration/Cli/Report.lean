import SchemaMigration.Cli.Help
import SchemaMigration.Migration.Runner

/-!
# Reports

What the program prints about migrations and about the errors that end it.
-/

namespace SchemaMigration.Cli

/-- The table of migrations with their states and the times of their last runs. Its first column is as wide as the
longest name has octets. -/
def migrationTable (ms : List Migration) : List String :=
  let width := ms.foldl (fun n m => max n m.name.utf8ByteSize) 4
  let line (name state time : String) : String := padEnd width name ++ "  " ++ padEnd 8 state ++ "  " ++ time
  line "Name" "State" "Last execution" :: String.ofList (List.replicate (width + 31) '-') ::
    ms.map fun m => line m.name m.state.text ((m.record?.map fun r => r.lastRun.text).getD "")

/-- What a dry run would have run. -/
def dryReport (r : StepReport) : List String :=
  ["-- " ++ r.name ++ " (" ++ r.state.text ++ ")"] ++ r.statements ++ [""]

/-- What ends the program early: a text, and the texts of the errors below it, outermost first. -/
structure Failure where
  message : String
  causes : List String := []
  deriving Repr, DecidableEq

namespace Failure

def ofError (e : MigrationError) : Failure :=
  { message := e.message, causes := e.causes }

/-- A text whose further lines stand below its first one. -/
def indented (first further text : String) : String :=
  first ++ ("\n" ++ further).intercalate (text.splitOn "\n")

/-- The failure as it is reported. Several causes are numbered. -/
def report (f : Failure) : String :=
  let causes := match f.causes with
    | [] => ""
    | [cause] => "\n\nCaused by:\n" ++ indented "    " "    " cause
    | causes => "\n\nCaused by:\n" ++ "\n".intercalate (causes.zipIdx.map fun (cause, i) =>
        indented ("    " ++ toString i ++ ": ") "       " cause)
  "Error: " ++ f.message ++ causes ++ "\n"

end Failure

end SchemaMigration.Cli
