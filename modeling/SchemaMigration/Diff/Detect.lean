import SchemaMigration.Diff.Change

/-!
# Detecting changes

The changes that lead from an observed to a declared schema. Objects are matched by a key: columns and foreign keys by
name, indexes by `Index.key`, tables by name. Changes come in declared order, and after them, in observed order, what
is no longer declared.

Two columns are compared as they stand in the observed table, whose character set and collation they take where they
name none (`Column.resolved`).
-/

namespace SchemaMigration

/-- The last element with the given key. -/
def lastWithKey {α : Type} (key : α → String) (k : String) (xs : List α) : Option α :=
  xs.reverse.find? fun x => key x == k

/-- The changes from `observed` to `declared`, matched by `key` and compared by `same`. Where several observed elements
share a key, the last one counts. -/
def changesByKey {α : Type} (key : α → String) (same : α → α → Bool) (declared observed : List α) : List (Change α) :=
  (declared.filterMap fun x =>
    match lastWithKey key (key x) observed with
    | some y => if same x y then none else some (.altered x y)
    | none => some (.added x)) ++
  (observed.filter fun y => !(declared.any fun x => key x == key y)).map .removed

/-- A column as it stands in a table with the given character set and collation: both filled in where a text column
names none, and left out, with the binary attribute, where the type has no character set. A collation is taken from
the table only together with its character set. An empty comment is none. -/
def Column.resolved (charset collation : String) (c : Column) : Column :=
  let comment := nonempty? c.comment
  if c.type.isTextual then
    let own := c.charset.getD charset
    { c with
      charset := some own
      collate := some (c.collate.getD (if own == charset then collation else ""))
      comment }
  else { c with charset := none, collate := none, binary := false, comment }

/-- Two columns are the same in a table with the given character set and collation. -/
def Column.same (charset collation : String) (a b : Column) : Bool :=
  a.resolved charset collation == b.resolved charset collation

/-- Two indexes with the same key are the same. -/
def Index.same (a b : Index) : Bool :=
  a.kind == b.kind && a.columns == b.columns

/-- Two foreign keys with the same name are the same. -/
def ForeignKey.same (a b : ForeignKey) : Bool :=
  a.columns == b.columns && a.referencesTable == b.referencesTable && a.referencesColumns == b.referencesColumns &&
    ReferenceAction.effective a.onDelete == ReferenceAction.effective b.onDelete &&
    ReferenceAction.effective a.onUpdate == ReferenceAction.effective b.onUpdate

/-- The changes between two definitions of a table on a server with the given defaults. -/
def TableChanges.between (declared observed : Table) (d : Defaults) : TableChanges :=
  { declared, observed
    engineChanged := declared.effectiveEngine d != observed.effectiveEngine d
    charsetChanged := declared.effectiveCharset d != observed.effectiveCharset d
    collationChanged := declared.effectiveCollation d != observed.effectiveCollation d
    columns :=
      changesByKey Column.name (Column.same (observed.effectiveCharset d) (observed.effectiveCollation d))
        declared.columns observed.columns
    indexes := changesByKey Index.key Index.same declared.indexes observed.indexes
    relations := changesByKey ForeignKey.name ForeignKey.same declared.relations observed.relations }

namespace Schema

/-- A schema without the tables of the given names. -/
def without (s : Schema) (names : List String) : Schema :=
  { s with tables := s.tables.filter fun t => !names.contains t.name }

/-- The differences between a declared and an observed schema, some tables ignored on both sides. The defaults are those
of the observed server. -/
def diff (declared observed : Schema) (ignored : List String) : List TableDiff :=
  let there := (observed.without ignored).tables
  ((declared.without ignored).tables.filterMap fun t =>
    match lastWithKey Table.name t.name there with
    | some u =>
      let changes := TableChanges.between t u observed.defaults
      if changes.isEmpty then none else some (.altered changes)
    | none => some (.added t)) ++
  (there.filter fun u => !(declared.tables.any fun t => t.name == u.name)).map .removed

end Schema

end SchemaMigration
