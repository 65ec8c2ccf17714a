import SchemaMigration.Reversible
import SchemaMigration.Template.Basic

/-!
# Rendering migration files

A migration file is rendered from a template that gets the migration's name and its statements in either direction; the
standard template writes a script document with one double-quoted scalar a statement.
-/

namespace SchemaMigration.Template

/-- The standard template. -/
def standardSource : String :=
  "# Migration \x7b\x7b name \x7d\x7d\n" ++
  "#\n" ++
  "# Statements run from top to bottom. An entry may carry `binds`: a list for\n" ++
  "# `?` placeholders or a map for `:name` placeholders.\n" ++
  "up:\n" ++
  "\x7b%- for statement in up %\x7d\n" ++
  "  - run: \x7b\x7b statement|yaml \x7d\x7d\n" ++
  "\x7b%- else %\x7d []\n" ++
  "\x7b%- endfor %\x7d\n" ++
  "down:\n" ++
  "\x7b%- for statement in down %\x7d\n" ++
  "  - run: \x7b\x7b statement|yaml \x7d\x7d\n" ++
  "\x7b%- else %\x7d []\n" ++
  "\x7b%- endfor %\x7d\n"

/-- The variables of a migration file. -/
def migrationScope (name : String) (query : Reversible String) : Scope :=
  [("name", .text name), ("up", .list (query.up.map .text)), ("down", .list (query.down.map .text))]

/-- Why a template gives no migration file. -/
inductive Fault where
  /-- It cannot be read as a template. -/
  | badTemplate
  /-- It cannot be rendered. -/
  | rendering (e : RenderError)
  deriving Repr, DecidableEq

/-- The migration file that a template gives. -/
def renderMigration (source name : String) (query : Reversible String) : Except Fault String :=
  match parse? source with
  | none => .error .badTemplate
  | some nodes => (renderNodes (migrationScope name query) nodes).mapError .rendering

end SchemaMigration.Template
