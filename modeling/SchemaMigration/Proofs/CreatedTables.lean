import SchemaMigration.Proofs.PrimaryKeys

/-!
# Created tables

The body of a new table lists its columns, its indexes and its foreign keys, each of them once and in order. A primary
key is written by an index or with the column that numbers the rows, and as both may not stand there, an index that is
primary is left out beside such a column.

`createScript_declares` says what that costs: the table is created with its primary key exactly if the index that is
left out is over that column alone.
-/

namespace SchemaMigration

namespace Ddl

namespace TableElement

/-- The column that a line defines, and the character set it is written for. -/
def column? : TableElement → Option (Column × String)
  | column c charset => some (c, charset)
  | index _ | relation _ => none

/-- The index that a line defines. -/
def index? : TableElement → Option Index
  | index i => some i
  | column .. | relation _ => none

/-- The foreign key that a line defines. -/
def relation? : TableElement → Option ForeignKey
  | relation k => some k
  | column .. | index _ => none

/-- The columns of the primary key that a line declares. -/
def declaresKey? : TableElement → Option (List String)
  | column c _ => if c.isAutoPrimaryKey then some [c.name] else none
  | index i => if i.isPrimary then some i.columns else none
  | relation _ => none

end TableElement

/-- What a creation script says before the body of the table. -/
def scriptHead (t : Table) : String :=
  "SET AUTOCOMMIT = 0;\nSET FOREIGN_KEY_CHECKS = 0;\nSET UNIQUE_CHECKS = 0;\n" ++
    "DROP TABLE IF EXISTS " ++ Text.quoteName t.name ++ ";\n" ++
    "CREATE TABLE " ++ Text.quoteName t.name ++ " (\n  "

/-- What a creation script says after the body of the table. -/
def scriptTail (t : Table) : String :=
  "\n)" ++ tableOptions t ++ ";\n" ++ "SET AUTOCOMMIT = 1;\nSET FOREIGN_KEY_CHECKS = 1;\nSET UNIQUE_CHECKS = 1;\n"

theorem createScript_eq (t : Table) (d : Defaults) :
    createScript t d =
      scriptHead t ++ ",\n  ".intercalate ((tableElements t d).map TableElement.definition) ++ scriptTail t := by
  unfold createScript scriptHead scriptTail
  generalize tableElements t d = body
  generalize ",\n  ".intercalate (body.map TableElement.definition) = text
  generalize tableOptions t = options
  simp only [String.append_assoc]

variable (t : Table) (d : Defaults)

/-! ## What the body lists -/

theorem filterMap_column?_tableElements :
    (tableElements t d).filterMap TableElement.column? = t.columns.map (·, t.effectiveCharset d) := by
  simp [tableElements, List.filterMap_map, TableElement.column?, Function.comp_def]

theorem filterMap_index?_tableElements :
    (tableElements t d).filterMap TableElement.index? =
      t.indexes.filter fun i => !(t.columns.any Column.isAutoPrimaryKey && i.isPrimary) := by
  simp [tableElements, List.filterMap_map, TableElement.index?, Function.comp_def]

theorem filterMap_relation?_tableElements :
    (tableElements t d).filterMap TableElement.relation? = t.relations := by
  simp [tableElements, List.filterMap_map, TableElement.relation?, Function.comp_def]

/-- A key is declared by the columns that number rows, or else by the indexes that are primary. -/
theorem filterMap_declaresKey?_tableElements :
    (tableElements t d).filterMap TableElement.declaresKey? =
      ((t.columns.filter Column.isAutoPrimaryKey).map fun c => [c.name]) ++
        if t.columns.any Column.isAutoPrimaryKey then [] else (t.indexes.filter Index.isPrimary).map Index.columns := by
  have hcolumns (charset : String) : (t.columns.map (TableElement.column · charset)).filterMap
      TableElement.declaresKey? = (t.columns.filter Column.isAutoPrimaryKey).map fun c => [c.name] := by
    rw [List.filterMap_map, ← List.filterMap_eq_map, List.filterMap_filter]
    rfl
  have hindexes (indexes : List Index) : (indexes.map TableElement.index).filterMap TableElement.declaresKey? =
      (indexes.filter Index.isPrimary).map Index.columns := by
    rw [List.filterMap_map, ← List.filterMap_eq_map, List.filterMap_filter]
    rfl
  have hrelations : (t.relations.map TableElement.relation).filterMap TableElement.declaresKey? = [] := by
    simp [List.filterMap_map, TableElement.declaresKey?, Function.comp_def]
  simp only [tableElements, List.filterMap_append, hcolumns, hindexes, hrelations, List.append_nil, List.filter_filter]
  cases t.columns.any Column.isAutoPrimaryKey <;> simp

end Ddl

/-! ## The primary key -/

/-- An index that is primary and a column that is the primary key declare the same one. -/
def Table.DeclaresOneKey (t : Table) : Prop :=
  ∀ c ∈ t.columns, c.isAutoPrimaryKey → ∀ i ∈ t.indexes, i.isPrimary → i.columns = [c.name]

instance (t : Table) : Decidable t.DeclaresOneKey :=
  inferInstanceAs (Decidable (∀ c ∈ t.columns, _ → ∀ i ∈ t.indexes, _ → i.columns = [c.name]))

section

open Ddl

variable {t : Table}

/-- The key that is written is the table's unless a column that numbers the rows hides another one. -/
theorem filterMap_declaresKey?_eq_iff (d : Defaults) (hauto : (t.columns.filter Column.isAutoPrimaryKey).length ≤ 1)
    (hprimary : (t.indexes.filter Index.isPrimary).length ≤ 1) :
    ((tableElements t d).filterMap TableElement.declaresKey?).length ≤ 1 ∧
      ((tableElements t d).filterMap TableElement.declaresKey? = t.primaryKey?.toList ↔ t.DeclaresOneKey) := by
  have hone : t.DeclaresOneKey ↔ ∀ c ∈ t.columns.filter Column.isAutoPrimaryKey,
      ∀ i ∈ t.indexes.filter Index.isPrimary, i.columns = [c.name] := by
    simp [Table.DeclaresOneKey, List.mem_filter]
  have hany : t.columns.any Column.isAutoPrimaryKey = !(t.columns.filter Column.isAutoPrimaryKey).isEmpty := by
    rw [Bool.eq_iff_iff]
    simp
  rw [filterMap_declaresKey?_tableElements, hone, hany, Table.primaryKey?, ← List.head?_filter, ← List.head?_filter]
  generalize t.columns.filter Column.isAutoPrimaryKey = autos at hauto
  generalize t.indexes.filter Index.isPrimary = primaries at hprimary
  rcases autos with _ | ⟨c, _ | _⟩
  · rcases primaries with _ | ⟨i, _ | _⟩
    · simp
    · simp
    · simp at hprimary
  · rcases primaries with _ | ⟨i, _ | _⟩
    · simp
    · simp [eq_comm]
    · simp at hprimary
  · simp at hauto

/-- A table is created with its columns, all indexes that are not primary and its foreign keys, in order, and with at
most one primary key. That key is the one the table has exactly if no column that numbers the rows stands beside an
index that is primary and not over that column alone. -/
theorem createScript_declares (d : Defaults) (hauto : (t.columns.filter Column.isAutoPrimaryKey).length ≤ 1)
    (hprimary : (t.indexes.filter Index.isPrimary).length ≤ 1) :
    let body := tableElements t d
    createScript t d = scriptHead t ++ ",\n  ".intercalate (body.map TableElement.definition) ++ scriptTail t ∧
      body.filterMap TableElement.column? = t.columns.map (·, t.effectiveCharset d) ∧
      (body.filterMap TableElement.index?).filter (fun i => !i.isPrimary) = t.indexes.filter (fun i => !i.isPrimary) ∧
      body.filterMap TableElement.relation? = t.relations ∧
      (body.filterMap TableElement.declaresKey?).length ≤ 1 ∧
      (body.filterMap TableElement.declaresKey? = t.primaryKey?.toList ↔ t.DeclaresOneKey) := by
  intro body
  have hindexes : (body.filterMap TableElement.index?).filter (fun i => !i.isPrimary) =
      t.indexes.filter fun i => !i.isPrimary := by
    rw [filterMap_index?_tableElements, List.filter_filter]
    refine List.filter_congr fun i _ => ?_
    cases i.isPrimary <;> simp
  obtain ⟨honce, hkey⟩ := filterMap_declaresKey?_eq_iff d hauto hprimary
  exact ⟨createScript_eq t d, filterMap_column?_tableElements t d, hindexes, filterMap_relation?_tableElements t d,
    honce, hkey⟩

end

namespace Sample

/-- A table that numbers its rows, with a primary key over that number and other keys. -/
def article : Table :=
  { name := "article"
    columns := [rowNumber "id", { name := "author", type := .integer .standard 11 }]
    indexes := [.primary ["id"], { name := "by_author", kind := .key, columns := ["author"] }]
    relations := [{ name := "written_by", columns := ["author"], referencesTable := "person"
                    referencesColumns := ["id"] }] }

/-- A table that numbers its rows, with a primary key over that number and another column. -/
def translated : Table :=
  { name := "article"
    columns := [rowNumber "id", { name := "locale", type := .length .varChar 5, nullable := false }]
    indexes := [.primary ["id", "locale"]] }

end Sample

/-- The primary key over the number alone is written with the column. -/
theorem createScript_declares_article :
    (Sample.article.columns.filter Column.isAutoPrimaryKey).length ≤ 1 ∧
      (Sample.article.indexes.filter Index.isPrimary).length ≤ 1 ∧
      Sample.article.DeclaresOneKey ∧
      (Ddl.tableElements Sample.article {}).filterMap Ddl.TableElement.declaresKey? = [["id"]] ∧
      (Ddl.tableElements Sample.article {}).filterMap Ddl.TableElement.relation? = Sample.article.relations := by
  have hauto : (Sample.article.columns.filter Column.isAutoPrimaryKey).length ≤ 1 := by decide
  have hprimary : (Sample.article.indexes.filter Index.isPrimary).length ≤ 1 := by decide
  have hone : Sample.article.DeclaresOneKey := by decide
  obtain ⟨-, -, -, hrelations, -, hkey⟩ := createScript_declares (t := Sample.article) {} hauto hprimary
  exact ⟨hauto, hprimary, hone, (hkey.2 hone).trans (by decide), hrelations⟩

/-- A primary key over the number and another column is lost. -/
theorem not_createScript_declares :
    ¬ ∀ (t : Table) (d : Defaults), t.columns ≠ [] → t.NamesUnique →
      (t.columns.filter Column.isAutoPrimaryKey).length ≤ 1 → (t.indexes.filter Index.isPrimary).length ≤ 1 →
      (Ddl.tableElements t d).filterMap Ddl.TableElement.declaresKey? = t.primaryKey?.toList := by
  intro h
  have hkey := h Sample.translated {} (by decide) (by decide) (by decide) (by decide)
  revert hkey
  decide

end SchemaMigration
