import SchemaMigration.Migration.Basic

/-!
# Files against records

Which migrations are new, applied or deleted: files and records are paired by name. The migrations with files come
first, in the order of the files, then the records that no file has, in the order of the records.
-/

namespace SchemaMigration

/-- The records with `r` in the place of the one of its name, or at the end. -/
def Record.put (rs : List Record) (r : Record) : List Record :=
  if rs.any (·.name == r.name) then rs.map fun q => if q.name == r.name then r else q else rs ++ [r]

/-- One record for each name: the last one, in the place of the first. -/
def Record.distinct (rs : List Record) : List Record :=
  rs.foldl put []

namespace Migration

/-- Files paired with records of distinct names, each record with one file at most. -/
def pair : List MigrationFile → List Record → List Migration
  | [], rs => rs.map deleted
  | f :: fs, rs =>
    match rs.find? (·.name == f.name) with
    | some r => applied f r :: pair fs (rs.filter (·.name != f.name))
    | none => new f :: pair fs rs

/-- The migrations that files and records describe. -/
def reconcile (files : List MigrationFile) (records : List Record) : List Migration :=
  pair files (Record.distinct records)

/-- The migrations that are not in the state they should be in. -/
def changes (ms : List Migration) : List Migration :=
  ms.filter fun m => m.state != .applied

end Migration

end SchemaMigration
