import SchemaMigration.Text.Debug

/-!
# Log lines

A log entry has a level, a text and named values, and is written on one line: the level to the right in five columns,
the text, then each value behind its name.
-/

namespace SchemaMigration

namespace Log

/-- Levels of log entries, from the least to the most urgent. -/
inductive Level where
  | debug | info | warn
  deriving Repr, DecidableEq

/-- The level in five columns. -/
def Level.text : Level → String
  | debug => "DEBUG"
  | info => " INFO"
  | warn => " WARN"

/-- A log entry. -/
structure Entry where
  level : Level
  text : String
  fields : List (String × String) := []
  deriving Repr, DecidableEq

/-- A log entry as one line, without its end. -/
def Entry.line (e : Entry) : String :=
  " ".intercalate (e.level.text :: e.text :: e.fields.map fun (name, value) => name ++ "=" ++ value)

def debug (text : String) (fields : List (String × String) := []) : Entry :=
  { level := .debug, text, fields }

def info (text : String) (fields : List (String × String) := []) : Entry :=
  { level := .info, text, fields }

def warn (text : String) (fields : List (String × String) := []) : Entry :=
  { level := .warn, text, fields }

end Log

end SchemaMigration
