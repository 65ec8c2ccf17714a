import SchemaMigration.Diff.Change
import SchemaMigration.Ddl.Statement
import SchemaMigration.Reversible

/-!
# From differences to statements

Each change becomes alterations for either direction; the alterations of a table are gathered, those that drop
something put first; the tables follow one another. An index or foreign key cannot be altered in place, so a changed
one is dropped and added again.
-/

namespace SchemaMigration

open Ddl (Alteration Statement)

/-- The alterations for a change of a column. -/
def Change.columnAlterations (change : Change Column) (tableCharset : String) : Reversible Alteration :=
  match change with
  | .added c => .pair (.addColumn c tableCharset) (.dropColumn c.name)
  | .removed c => .pair (.dropColumn c.name) (.addColumn c tableCharset)
  | .altered c d => .pair (.changeColumn c tableCharset) (.changeColumn d tableCharset)

/-- The alterations for a change of an index. -/
def Change.indexAlterations (change : Change Index) : Reversible Alteration :=
  match change with
  | .added i => .pair (.addIndex i) (.removeIndex i)
  | .removed i => .pair (.removeIndex i) (.addIndex i)
  | .altered i j => { up := [.removeIndex j, .addIndex i], down := [.removeIndex i, .addIndex j] }

/-- The alterations for a change of a foreign key. -/
def Change.relationAlterations (change : Change ForeignKey) : Reversible Alteration :=
  match change with
  | .added k => .pair (.addRelation k) (.dropRelation k.name)
  | .removed k => .pair (.dropRelation k.name) (.addRelation k)
  | .altered k l => { up := [.dropRelation l.name, .addRelation k], down := [.dropRelation k.name, .addRelation l] }

namespace TableChanges

/-- The alterations of the table's own options. -/
def optionAlterations (c : TableChanges) (d : Defaults) : Reversible Alteration :=
  let engine (t : Table) : Alteration := .setEngine (t.effectiveEngine d)
  let charset (t : Table) : Alteration := .convert (t.effectiveCharset d) none
  let collation (t : Table) : Alteration := .convert (t.effectiveCharset d) (some (t.effectiveCollation d))
  let ifChanged (changed : Bool) (f : Table → Alteration) : Reversible Alteration :=
    if changed then .pair (f c.declared) (f c.observed) else {}
  ifChanged c.engineChanged engine ++ ifChanged c.charsetChanged charset ++ ifChanged c.collationChanged collation

/-- The alterations of columns, indexes and foreign keys. Columns are written for the declared table's character set. -/
def nestedAlterations (c : TableChanges) (d : Defaults) : Reversible Alteration :=
  .concat (c.columns.map (·.columnAlterations (c.declared.effectiveCharset d)) ++
    c.indexes.map (·.indexAlterations) ++ c.relations.map (·.relationAlterations))

/-- All alterations of the table, those whose text says `DROP` first. -/
def alterations (c : TableChanges) (d : Defaults) : Reversible Alteration :=
  (c.optionAlterations d ++ c.nestedAlterations d).dropsFirst (·.sql c.declared.name)

end TableChanges

namespace TableDiff

/-- A table that would have to be created without columns, which no server does. -/
def isSkipped : TableDiff → Bool
  | added t | removed t => t.columns.isEmpty
  | altered _ => false

/-- The statements for the difference in one table. -/
def statements (d : Defaults) (diff : TableDiff) : Reversible Statement :=
  if diff.isSkipped then {}
  else
    match diff with
    | added t => .pair (.createTable t d) (.dropTable t.name)
    | removed t => .pair (.dropTable t.name) (.createTable t d)
    | altered changes => (changes.alterations d).map (.alterTable changes.declared.name)

end TableDiff

/-- The statements for the differences between two schemas, table by table. -/
def compile (diffs : List TableDiff) (d : Defaults) : Reversible Statement :=
  .concat (diffs.map (TableDiff.statements d))

/-- The names of the tables that `compile` leaves out. -/
def skippedTables (diffs : List TableDiff) : List String :=
  (diffs.filter TableDiff.isSkipped).map TableDiff.name

end SchemaMigration
