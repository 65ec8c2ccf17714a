import SchemaMigration.Cli.Command

/-!
# Help

What the program prints when it is asked for help: what it is for, how it is called, and its commands and flags in
columns.
-/

namespace SchemaMigration.Cli

/-- A text with blanks behind it up to a width. -/
def padEnd (width : Nat) (s : String) : String :=
  s ++ String.ofList (List.replicate (width - s.length) ' ')

/-- Lines of two columns, the second one aligned. -/
def twoColumns (rows : List (String × String)) : List String :=
  let width := rows.foldl (fun n (left, _) => max n left.length) 0
  rows.map fun (left, right) => "  " ++ padEnd width left ++ "  " ++ right

/-- A flag as it is written, with the word for its value. -/
def Flag.shown (flag : Flag) : String :=
  (match flag.short with
    | some c => "-" ++ String.singleton c ++ ", "
    | none => "    ") ++
  "--" ++ flag.long ++
  (match flag.value with
    | some (word, _) => " <" ++ word ++ ">"
    | none => "")

/-- What a flag is for, its variable with the value that it has, and its default. -/
def Flag.description (environment : List (String × String)) (flag : Flag) : String :=
  " ".intercalate ([flag.help] ++
    (match flag.variableName with
      | some name => ["[env: " ++ name ++ "=" ++ (environment.lookup name).getD "" ++ "]"]
      | none => []) ++
    (match flag.default with
      | some value => ["[default: " ++ value ++ "]"]
      | none => []))

def flagLines (environment : List (String × String)) (form : Form) : List String :=
  "Options:" :: twoColumns (form.allFlags.map fun flag => (flag.shown, flag.description environment))

/-- The help of the program, or of one command. -/
def helpText (environment : List (String × String)) : Option CommandForm → String
  | none =>
    let commands := (commandForms.map fun c => (c.name, c.help)) ++
      [("help", "Print this message or the help of the given subcommand(s)")]
    String.join (([about, "", "Usage: " ++ programName ++ " [OPTIONS] <COMMAND>", "", "Commands:"] ++
      twoColumns commands ++ [""] ++ flagLines environment mainForm).map (· ++ "\n"))
  | some c =>
    let required := (c.flags.filter (·.isRequired)).map fun flag =>
      "--" ++ flag.long ++ (match flag.value with
        | some (word, _) => " <" ++ word ++ ">"
        | none => "")
    let options := if c.flags.any (!·.isRequired) then ["[OPTIONS]"] else []
    let name := if c.nameHelp.isSome then ["[NAME]"] else []
    let usage := " ".intercalate (["Usage:", programName, c.name] ++ options ++ required ++ name)
    let arguments := match c.nameHelp with
      | some help => ["Arguments:", "  [NAME]  " ++ help, ""]
      | none => []
    String.join (([c.help, "", usage, ""] ++ arguments ++ flagLines environment c.form).map (· ++ "\n"))

end SchemaMigration.Cli
