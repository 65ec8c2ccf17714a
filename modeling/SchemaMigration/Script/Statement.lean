import SchemaMigration.Reversible
import SchemaMigration.Script.BoundValue
import SchemaMigration.Script.Placeholder
import SchemaMigration.Text.Blank

/-!
# Statements with bound values

One statement of a migration script. It can be rendered, with its values written into the text as literals, or prepared,
with `?` placeholders only and the values in their order, which is what a database takes.
-/

namespace SchemaMigration

/-- One statement of a migration script. -/
structure Statement where
  sql : String
  binds : Option Binds := none
  deriving Repr

/-- What can be wrong with the values of a statement. -/
inductive BindError where
  /-- A named placeholder has no value. -/
  | missing (sql : String) (name : String)
  /-- The value of a placeholder has no literal. -/
  | noLiteral (sql : String) (value : BoundValue)
  deriving Repr

namespace Statement

/-- The statement binds at least one value. -/
def hasBinds (s : Statement) : Bool :=
  match s.binds with
  | none => false
  | some binds => !binds.isEmpty

/-- The literal of a value in place of a placeholder; the state is the first value so far that has none. A placeholder
without a value stays. -/
def literalFor (value : Option BoundValue) (invalid : Option BoundValue) : Option (List Char) × Option BoundValue :=
  match value with
  | none => (none, invalid)
  | some v =>
    match v.literal? with
    | some text => (some text, invalid)
    | none => (none, invalid <|> some v)

/-- The value that binds give to a placeholder of their own kind. -/
def valueFor (binds : Binds) (p : Placeholder) : Option BoundValue :=
  match binds, p with
  | .positional values, .positional i => values[i]?
  | .named values, .named name => Binds.lookup? values (String.ofList name)
  | _, _ => none

/-- The statement with its values as literals. -/
def render (s : Statement) : Except BindError String :=
  match s.binds with
  | none => .ok s.sql
  | some binds =>
    match Placeholder.substitute (fun p invalid => literalFor (valueFor binds p) invalid) none s.sql.toList with
    | (_, some value) => .error (.noLiteral s.sql value)
    | (text, none) => .ok (String.ofList text)

/-- The statement as far as it can be rendered: as it was written if a value has no literal. -/
def display (s : Statement) : String :=
  match s.render with
  | .ok text => text
  | .error _ => s.sql

/-- What preparing collects: the values in the order of their placeholders, and the first name without one. -/
structure Collected where
  reversed : List BoundValue := []
  missing : Option (List Char) := none

/-- A `?` in place of a name; its value is collected. -/
def collect (values : List (String × BoundValue)) (p : Placeholder) (c : Collected) :
    Option (List Char) × Collected :=
  match p with
  | .positional _ => (none, c)
  | .named name =>
    match Binds.lookup? values (String.ofList name) with
    | some value => (some ['?'], { c with reversed := value :: c.reversed })
    | none => (some ['?'], { c with missing := c.missing <|> some name })

/-- The text with `?` placeholders only, and the values for them. -/
def prepare (s : Statement) : Except BindError (String × List BoundValue) :=
  match s.binds with
  | none => .ok (s.sql, [])
  | some (.positional values) => .ok (s.sql, values)
  | some (.named values) =>
    let (text, collected) := Placeholder.substitute (collect values) {} s.sql.toList
    match collected.missing with
    | some name => .error (.missing s.sql (String.ofList name))
    | none => .ok (String.ofList text, collected.reversed.reverse)

/-- A rendered statement as a line of a text that holds several: without blanks at its end and closed by a semicolon. -/
def terminated (sql : String) : String :=
  let trimmed := Text.trimEnd sql
  if trimmed.toList.getLast? == some ';' then trimmed else trimmed ++ ";"

end Statement

/-- A migration script: what it does and what undoes it. -/
abbrev Script := Reversible Statement

namespace Script

/-- What undoes the script as one text with literal values, a statement a line: what is kept with an applied migration,
so that it can be reverted without its file. -/
def downText (s : Script) : Except BindError String := do
  let lines ← s.down.mapM fun statement => Statement.terminated <$> statement.render
  return "\n".intercalate lines

end Script

end SchemaMigration
