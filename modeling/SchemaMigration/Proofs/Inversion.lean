import SchemaMigration.Ddl.Compile
import Mathlib.Data.List.Basic

/-!
# Inverted differences

Inverting a difference exchanges its two sides, and with them the two directions of its statements
(`compile_invert`): what was `up` is `down`, statement by statement. Drops go ahead by their text alone, so they do so
in either direction alike (`map_dropsFirst`).

The one thing that the two sides do not share is the character set that columns are written for: it is always the
declared table's. A binary column without a character set of its own takes it over into its definition
(`Column.usesTableCharset`), so such a column must not change together with the character set of its table; where it
does, the law fails (`not_compile_invert`).
-/

namespace SchemaMigration

open Ddl (Alteration Statement)

/-! ## Exchanging the directions -/

theorem mem_dropsToFront {α : Type} {text : α → String} {xs : List α} {x : α} :
    x ∈ dropsToFront text xs ↔ x ∈ xs := by
  rw [dropsToFront_eq, List.mem_append, List.mem_filter, List.mem_filter, ← and_or_left]
  simp

namespace Reversible

variable {α β : Type}

/-- The same statements in the other direction. -/
def swap (r : Reversible α) : Reversible α :=
  { up := r.down, down := r.up }

theorem swap_append (r s : Reversible α) : (r ++ s).swap = r.swap ++ s.swap := rfl

theorem swap_map (f : α → β) (r : Reversible α) : (r.map f).swap = r.swap.map f := rfl

theorem swap_dropsFirst (text : α → String) (r : Reversible α) : (r.dropsFirst text).swap = r.swap.dropsFirst text :=
  rfl

theorem map_append (f : α → β) (r s : Reversible α) : (r ++ s).map f = r.map f ++ s.map f :=
  congrArg₂ mk (List.map_append ..) (List.map_append ..)

theorem concat_eq (rs : List (Reversible α)) : concat rs = { up := rs.flatMap up, down := rs.flatMap down } := by
  simp [concat, foldl_append_eq]

theorem concat_append (rs ss : List (Reversible α)) : concat (rs ++ ss) = concat rs ++ concat ss := by
  simp only [concat_eq, List.flatMap_append]
  rfl

/-- All statements in either direction are those of the single lists. -/
theorem mem_concat {rs : List (Reversible α)} {x : α} :
    x ∈ (concat rs).up ++ (concat rs).down ↔ ∃ r ∈ rs, x ∈ r.up ++ r.down := by
  simp only [concat_eq, List.mem_append, List.mem_flatMap, and_or_left, exists_or]

theorem swap_concat (rs : List (Reversible α)) : (concat rs).swap = concat (rs.map swap) := by
  simp [concat_eq, swap, List.flatMap_map]

theorem map_concat (f : α → β) (rs : List (Reversible α)) : (concat rs).map f = concat (rs.map (map f)) := by
  simp [concat_eq, map, List.flatMap_map, List.map_flatMap]

/-- Which statements go ahead hangs on their texts alone. -/
theorem map_dropsFirst (text : α → String) (r : Reversible α) :
    (r.dropsFirst text).map text = (r.map text).dropsFirst id := by
  simp [dropsFirst, map, dropsToFront_eq, List.filter_map, Function.comp_def]

end Reversible

/-! ## One change -/

/-- The definition of the column names the character set of its table. -/
def Column.usesTableCharset (c : Column) : Bool :=
  c.type.isTextual && c.binary && (nonempty? c.charset).isNone

/-- Any other column is written alike in every table. -/
theorem Column.definition_eq {c : Column} (h : c.usesTableCharset = false) (charset charset' : String) :
    c.definition charset = c.definition charset' := by
  have hclause : c.charsetClause charset = c.charsetClause charset' := by
    unfold charsetClause writtenCharset writtenCollation
    cases ht : c.type.isTextual with
    | false => rfl
    | true =>
      cases hb : c.binary with
      | false => cases nonempty? c.charset <;> simp
      | true =>
        cases hc : nonempty? c.charset with
        | none => simp [usesTableCharset, ht, hb, hc] at h
        | some own => simp
  rw [definition, definition, hclause]

namespace Change

/-- The definitions on either side. -/
def sides {α : Type} (c : Change α) : List α :=
  c.declared?.toList ++ c.observed?.toList

section

variable {a : Alteration}

/-- For a change of a column, one of its sides is added, dropped or written anew. -/
theorem mem_columnAlterations {x : Change Column} {charset : String}
    (h : a ∈ (x.columnAlterations charset).up ++ (x.columnAlterations charset).down) :
    ∃ c ∈ x.sides, a = .addColumn c charset ∨ a = .dropColumn c.name ∨ a = .changeColumn c charset := by
  cases x with
  | added c | removed c | altered c e =>
    simp [columnAlterations, Reversible.pair, sides, declared?, observed?] at h ⊢
    tauto

/-- For a change of an index, its sides are added and removed. -/
theorem mem_indexAlterations {x : Change Index} (h : a ∈ x.indexAlterations.up ++ x.indexAlterations.down) :
    ∃ i ∈ x.sides, a = .addIndex i ∨ a = .removeIndex i := by
  cases x with
  | added i | removed i | altered i j =>
    simp [indexAlterations, Reversible.pair, sides, declared?, observed?] at h ⊢
    tauto

/-- For a change of a foreign key, its sides are added and dropped. -/
theorem mem_relationAlterations {x : Change ForeignKey}
    (h : a ∈ x.relationAlterations.up ++ x.relationAlterations.down) :
    ∃ k ∈ x.sides, a = .addRelation k ∨ a = .dropRelation k.name := by
  cases x with
  | added k | removed k | altered k l =>
    simp [relationAlterations, Reversible.pair, sides, declared?, observed?] at h ⊢
    tauto

end

theorem columnAlterations_invert (c : Change Column) (charset : String) :
    c.invert.columnAlterations charset = (c.columnAlterations charset).swap := by
  cases c <;> rfl

theorem indexAlterations_invert (c : Change Index) : c.invert.indexAlterations = c.indexAlterations.swap := by
  cases c <;> rfl

theorem relationAlterations_invert (c : Change ForeignKey) :
    c.invert.relationAlterations = c.relationAlterations.swap := by
  cases c <;> rfl

/-- A change is written alike for two character sets if its columns are. -/
theorem map_sql_columnAlterations {c : Change Column} {charset charset' : String}
    (h : ∀ x ∈ c.sides, x.definition charset = x.definition charset') (table : String) :
    (c.columnAlterations charset).map (Alteration.sql table) =
      (c.columnAlterations charset').map (Alteration.sql table) := by
  have hsql : ∀ a b : Alteration, a.clause = b.clause → a.sql table = b.sql table := fun _ _ hclause =>
    congrArg (fun clause => "ALTER TABLE " ++ Text.quoteName table ++ " " ++ clause ++ ";") hclause
  have hadd : ∀ x ∈ c.sides, (Alteration.addColumn x charset).sql table = (Alteration.addColumn x charset').sql table :=
    fun x hx => hsql _ _ (congrArg ("ADD COLUMN " ++ ·) (h x hx))
  have hchange : ∀ x ∈ c.sides,
      (Alteration.changeColumn x charset).sql table = (Alteration.changeColumn x charset').sql table :=
    fun x hx => hsql _ _ (congrArg ("CHANGE COLUMN " ++ Text.quoteName x.name ++ " " ++ ·) (h x hx))
  cases c with
  | added x =>
    have hx : x ∈ (added x).sides := List.mem_singleton_self x
    simp only [columnAlterations, Reversible.pair, Reversible.map, List.map_cons, List.map_nil, hadd x hx]
  | removed x =>
    have hx : x ∈ (removed x).sides := List.mem_singleton_self x
    simp only [columnAlterations, Reversible.pair, Reversible.map, List.map_cons, List.map_nil, hadd x hx]
  | altered x y =>
    have hx : x ∈ (altered x y).sides := List.mem_cons_self
    have hy : y ∈ (altered x y).sides := List.mem_cons_of_mem _ (List.mem_singleton_self y)
    simp only [columnAlterations, Reversible.pair, Reversible.map, List.map_cons, List.map_nil, hchange x hx,
      hchange y hy]

end Change

/-! ## One table -/

namespace TableChanges

/-- What inverting the changes of a table needs: one name on both sides, and no change of a column that is written for
the table's character set where that differs. -/
structure Invertible (c : TableChanges) (d : Defaults) : Prop where
  name : c.declared.name = c.observed.name
  charset : ∀ x ∈ c.columns, ∀ column ∈ x.sides, column.usesTableCharset →
    c.declared.effectiveCharset d = c.observed.effectiveCharset d

theorem Invertible.definition_eq {c : TableChanges} {d : Defaults} (h : c.Invertible d) {x : Change Column}
    (hx : x ∈ c.columns) {column : Column} (hcolumn : column ∈ x.sides) :
    column.definition (c.observed.effectiveCharset d) = column.definition (c.declared.effectiveCharset d) := by
  cases huses : column.usesTableCharset with
  | true => rw [h.charset x hx column hcolumn huses]
  | false => exact Column.definition_eq huses _ _

theorem mem_up_alterations {c : TableChanges} {d : Defaults} {a : Alteration} :
    a ∈ (c.alterations d).up ↔ a ∈ (c.optionAlterations d ++ c.nestedAlterations d).up :=
  mem_dropsToFront

theorem mem_down_alterations {c : TableChanges} {d : Defaults} {a : Alteration} :
    a ∈ (c.alterations d).down ↔ a ∈ (c.optionAlterations d ++ c.nestedAlterations d).down :=
  mem_dropsToFront

/-- The alterations of the parts of a table, by the kind of the part. -/
theorem mem_nestedAlterations {c : TableChanges} {d : Defaults} {a : Alteration}
    (h : a ∈ (c.nestedAlterations d).up ++ (c.nestedAlterations d).down) :
    (∃ x ∈ c.columns, ∃ column ∈ x.sides, a = .addColumn column (c.declared.effectiveCharset d) ∨
        a = .dropColumn column.name ∨ a = .changeColumn column (c.declared.effectiveCharset d)) ∨
      (∃ i, a = .addIndex i ∨ a = .removeIndex i) ∨ ∃ k, a = .addRelation k ∨ a = .dropRelation k.name := by
  obtain ⟨r, hr, ha⟩ := Reversible.mem_concat.1 h
  simp only [List.mem_append, List.mem_map] at hr
  rcases hr with (⟨x, hx, rfl⟩ | ⟨x, -, rfl⟩) | ⟨x, -, rfl⟩
  · exact .inl ⟨x, hx, Change.mem_columnAlterations ha⟩
  · obtain ⟨i, -, hi⟩ := Change.mem_indexAlterations ha
    exact .inr (.inl ⟨i, hi⟩)
  · obtain ⟨k, -, hk⟩ := Change.mem_relationAlterations ha
    exact .inr (.inr ⟨k, hk⟩)

theorem optionAlterations_invert (c : TableChanges) (d : Defaults) :
    c.invert.optionAlterations d = (c.optionAlterations d).swap := by
  simp only [optionAlterations, invert, Reversible.swap_append, apply_ite Reversible.swap]
  rfl

theorem map_sql_nestedAlterations_invert {c : TableChanges} {d : Defaults} (h : c.Invertible d) (table : String) :
    (c.invert.nestedAlterations d).map (Alteration.sql table) =
      ((c.nestedAlterations d).map (Alteration.sql table)).swap := by
  have hcolumns : ∀ x ∈ c.columns,
      (x.invert.columnAlterations (c.observed.effectiveCharset d)).map (Alteration.sql table) =
        ((x.columnAlterations (c.declared.effectiveCharset d)).map (Alteration.sql table)).swap := by
    intro x hx
    rw [Change.columnAlterations_invert, ← Reversible.swap_map,
      Change.map_sql_columnAlterations fun column hcolumn => h.definition_eq hx hcolumn]
  simp only [nestedAlterations, invert, Reversible.map_concat, Reversible.swap_concat, List.map_append, List.map_map,
    Function.comp_def, Change.indexAlterations_invert, Change.relationAlterations_invert, ← Reversible.swap_map]
  rw [List.map_congr_left hcolumns]

theorem map_sql_alterations_invert {c : TableChanges} {d : Defaults} (h : c.Invertible d) :
    (c.invert.alterations d).map (Alteration.sql c.observed.name) =
      ((c.alterations d).map (Alteration.sql c.declared.name)).swap := by
  rw [h.name]
  calc (c.invert.alterations d).map (Alteration.sql c.observed.name)
      = ((c.invert.optionAlterations d ++ c.invert.nestedAlterations d).map
          (Alteration.sql c.observed.name)).dropsFirst id := Reversible.map_dropsFirst _ _
    _ = ((c.optionAlterations d ++ c.nestedAlterations d).map (Alteration.sql c.observed.name)).swap.dropsFirst id := by
        rw [Reversible.map_append, Reversible.map_append, Reversible.swap_append, c.optionAlterations_invert,
          map_sql_nestedAlterations_invert h, ← Reversible.swap_map]
    _ = ((c.alterations d).map (Alteration.sql c.observed.name)).swap := by
        rw [← Reversible.swap_dropsFirst, ← Reversible.map_dropsFirst, alterations, h.name]

end TableChanges

/-! ## All tables -/

theorem TableDiff.map_sql_statements_altered (c : TableChanges) (d : Defaults) :
    ((altered c).statements d).map Statement.sql = (c.alterations d).map (Alteration.sql c.declared.name) := by
  simp [statements, isSkipped, Reversible.map, Function.comp_def, Statement.sql]

theorem TableDiff.map_sql_statements_invert {diff : TableDiff} {d : Defaults}
    (h : ∀ c, diff = .altered c → c.Invertible d) :
    (diff.invert.statements d).map Statement.sql = ((diff.statements d).map Statement.sql).swap := by
  cases diff with
  | added t => cases ht : t.columns <;> simp [invert, statements, isSkipped, ht] <;> rfl
  | removed t => cases ht : t.columns <;> simp [invert, statements, isSkipped, ht] <;> rfl
  | altered c =>
    rw [invert, map_sql_statements_altered, map_sql_statements_altered]
    exact TableChanges.map_sql_alterations_invert (h c rfl)

theorem compile_singleton (diff : TableDiff) (d : Defaults) : compile [diff] d = diff.statements d := by
  simp [compile, Reversible.concat_eq]

/-- The statements for inverted differences are those for the differences themselves, in the other direction. -/
theorem compile_invert {diffs : List TableDiff} {d : Defaults} (h : ∀ c, .altered c ∈ diffs → c.Invertible d) :
    (compile (diffs.map TableDiff.invert) d).map Statement.sql = ((compile diffs d).map Statement.sql).swap := by
  have htables : ∀ diff ∈ diffs,
      (diff.invert.statements d).map Statement.sql = ((diff.statements d).map Statement.sql).swap :=
    fun diff hdiff => TableDiff.map_sql_statements_invert fun c hc => h c (hc ▸ hdiff)
  simp only [compile, Reversible.map_concat, Reversible.swap_concat, List.map_map, Function.comp_def]
  rw [List.map_congr_left htables]

/-! ## A binary column whose table changes its character set -/

namespace Sample

/-- A binary text without a character set of its own. -/
def code : Column :=
  { name := "code", type := .text .standard, binary := true }

/-- A table that gets a binary column together with another character set. -/
def recoded : TableChanges :=
  { declared := { name := "post", columns := [code] }
    observed := { name := "post", charset := some "latin1", collation := some "latin1_swedish_ci" }
    charsetChanged := true
    collationChanged := true
    columns := [.added code] }

/-- The same column comes with another collation alone, in a table whose name says `DROP`; another table is new. -/
def recollated : List TableDiff :=
  [.altered
    { declared := { name := "DROP", columns := [code], charset := some "latin1", collation := some "latin1_bin" }
      observed := { name := "DROP", charset := some "latin1" }
      collationChanged := true
      columns := [.added code] },
    .added { name := "tag", columns := [code] }]

end Sample

theorem compile_invert_recollated :
    (∀ c, .altered c ∈ Sample.recollated → c.Invertible {}) ∧
      (compile (Sample.recollated.map TableDiff.invert) {}).map Statement.sql =
        ((compile Sample.recollated {}).map Statement.sql).swap := by
  have hinvertible : ∀ c, .altered c ∈ Sample.recollated → c.Invertible {} := by
    intro c hc
    cases hc with
    | head => exact { name := rfl, charset := fun _ _ _ _ _ => rfl }
    | tail _ hc => cases hc with | tail _ hc => cases hc
  exact ⟨hinvertible, compile_invert hinvertible⟩

/-- With the same names on both sides alone the law fails: the column is added in the one character set, and added back
in the other. -/
theorem not_compile_invert :
    ¬ ∀ (diffs : List TableDiff) (d : Defaults), (∀ c, .altered c ∈ diffs → c.declared.name = c.observed.name) →
      (compile (diffs.map TableDiff.invert) d).map Statement.sql = ((compile diffs d).map Statement.sql).swap := by
  intro h
  have hnames : ∀ c, TableDiff.altered c ∈ [.altered Sample.recoded] → c.declared.name = c.observed.name := by
    intro c hc
    cases List.mem_singleton.1 hc
    rfl
  have hswap := h [.altered Sample.recoded] {} hnames
  rw [List.map_singleton, compile_singleton, compile_singleton, TableDiff.invert, TableDiff.map_sql_statements_altered,
    TableDiff.map_sql_statements_altered] at hswap
  have hdown := congrArg Reversible.down hswap
  simp only [Reversible.map, Reversible.swap] at hdown
  have hadded : Alteration.addColumn Sample.code "utf8mb4" ∈ (Sample.recoded.alterations {}).up :=
    TableChanges.mem_up_alterations.2 (by decide)
  have hsql := List.mem_map_of_mem (f := Alteration.sql Sample.recoded.declared.name) hadded
  rw [← hdown] at hsql
  obtain ⟨a, ha, hsql⟩ := List.mem_map.1 hsql
  have hnone : ∀ a ∈ (Sample.recoded.invert.optionAlterations {} ++ Sample.recoded.invert.nestedAlterations {}).down,
      a.sql Sample.recoded.invert.declared.name ≠
        (Alteration.addColumn Sample.code "utf8mb4").sql Sample.recoded.declared.name := by decide
  exact hnone a (TableChanges.mem_down_alterations.1 ha) hsql

end SchemaMigration
