import SchemaMigration.Ddl.Compile
import SchemaMigration.Proofs.ColumnReading
import SchemaMigration.Proofs.ExactDiff
import SchemaMigration.Proofs.KeyReading

/-!
# Changes that show

A change shows if its statements in the one direction are not those in the other. A change of an index or a foreign key
always shows. Columns are compared by their attributes, and a definition leaves out those that the type cannot carry: a
change of a column shows exactly if the two sides differ in what their definitions say, which is so wherever neither
side sets an attribute that its definition does not show (`Schema.altered_shows`). The other changes of columns are made
again and again without an effect (`Schema.not_altered_shows`).
-/

namespace SchemaMigration

open Ddl (Alteration)

/-! ## Statements -/

/-- The statements on the table are not the same in both directions. -/
def Reversible.Shows (table : String) (r : Reversible Alteration) : Prop :=
  (r.map (·.sql table)).up ≠ (r.map (·.sql table)).down

instance (table : String) (r : Reversible Alteration) : Decidable (r.Shows table) :=
  inferInstanceAs (Decidable (_ ≠ _))

namespace Change

variable {table : String}

theorem shows_columnAlterations_iff {a b : Column} (hname : a.name = b.name) (charset : String) :
    ((altered a b).columnAlterations charset).Shows table ↔ a.definition charset ≠ b.definition charset := by
  have hclause : ∀ c : Column, c.name = b.name → (Alteration.changeColumn c charset).clause =
      "CHANGE COLUMN " ++ Text.quoteName b.name ++ " " ++ c.definition charset := by
    intro c hc
    rw [← hc]
    rfl
  have hsql : (Alteration.changeColumn a charset).sql table = (Alteration.changeColumn b charset).sql table ↔
      a.definition charset = b.definition charset := by
    rw [Ddl.Alteration.sql_eq_iff, hclause a hname, hclause b rfl, String.append_right_inj]
  simp [Reversible.Shows, Reversible.map, Reversible.pair, columnAlterations, hsql]

/-- What is dropped and added again shows by what is added. -/
theorem shows_of_added {x a y b : Alteration} (h : a.clause ≠ b.clause) :
    Reversible.Shows table { up := [x, a], down := [y, b] } := by
  intro heq
  have hadded : a.sql table = b.sql table := (List.cons.inj (List.cons.inj heq).2).1
  exact h (Ddl.Alteration.sql_eq_iff.1 hadded)

theorem shows_indexAlterations {i j : Index} (h : ¬ i.Equivalent j) : (altered i j).indexAlterations.Shows table := by
  apply shows_of_added
  intro hclause
  have hdefinition : i.definition = j.definition := (String.append_right_inj "ADD ").1 hclause
  exact h (Index.definition_eq_iff.1 hdefinition)

theorem shows_relationAlterations {k l : ForeignKey} (h : k ≠ l) : (altered k l).relationAlterations.Shows table := by
  apply shows_of_added
  intro hclause
  have hdefinition : k.definition = l.definition := (String.append_right_inj "ADD ").1 hclause
  exact h (ForeignKey.definition_inj hdefinition)

end Change

/-! ## Columns -/

namespace Column

/-- Every attribute is what the definition shows of it: none that the type cannot carry, no blanks around options, no
default null where it goes without saying, and of a text neither an empty name nor the binary attribute, which is
another way to write a collation. -/
structure IsCanonical (c : Column) : Prop where
  type : c.type.trimmed = c.type
  unsigned : (c.type.isNumeric && c.unsigned) = c.unsigned
  zerofill : (c.type.isNumeric && c.zerofill) = c.zerofill
  notNull : c.defaultValue = .null → c.nullable = false
  currentTimestamp : c.defaultValue = .currentTimestamp → c.type.isAutoTimestamp = true
  autoIncrement : c.isAutoPrimaryKey = c.autoIncrement
  onUpdateTimestamp : (c.onUpdateTimestamp && c.type.isAutoTimestamp) = c.onUpdateTimestamp
  text : c.type.isTextual = true →
    c.binary = false ∧ nonempty? c.charset = c.charset ∧ nonempty? c.collate = c.collate

theorem IsCanonical.effectiveDefault_eq {c : Column} (h : c.IsCanonical) :
    c.effectiveDefault = if c.nullable = true ∧ c.defaultValue = .none then .null else c.defaultValue := by
  unfold effectiveDefault
  cases hdefault : c.defaultValue with
  | none => cases c.nullable <;> rfl
  | null => simp
  | currentTimestamp => simp [h.currentTimestamp hdefault]
  | literal value => simp

/-- The default of a canonical column can be told from its definition. -/
theorem IsCanonical.defaultValue_eq {a b : Column} (ha : a.IsCanonical) (hb : b.IsCanonical)
    (hnullable : a.nullable = b.nullable) (h : a.effectiveDefault = b.effectiveDefault) :
    a.defaultValue = b.defaultValue := by
  rw [ha.effectiveDefault_eq, hb.effectiveDefault_eq, hnullable] at h
  -- no default is written as default null on a nullable column, where default null itself is not canonical
  split at h
  · next hnone =>
    split at h
    · next hnone' => rw [hnone.2, hnone'.2]
    · have hnull := hb.notNull h.symm
      rw [hnone.1] at hnull
      cases hnull
  · split at h
    · next hnone' =>
      have hnull := ha.notNull h
      rw [hnullable, hnone'.1] at hnull
      cases hnull
    · exact h

theorem IsCanonical.writtenCharset_eq {c : Column} (h : c.IsCanonical) (htext : c.type.isTextual = true)
    (tableCharset : String) : c.writtenCharset tableCharset = c.charset := by
  obtain ⟨hbinary, hcharset, -⟩ := h.text htext
  rw [writtenCharset, if_pos htext, hcharset, hbinary]
  cases c.charset <;> rfl

theorem IsCanonical.writtenCollation_eq {c : Column} (h : c.IsCanonical) (htext : c.type.isTextual = true)
    (tableCharset : String) : c.writtenCollation tableCharset = c.collate := by
  obtain ⟨hbinary, -, hcollate⟩ := h.text htext
  rw [writtenCollation, if_pos htext, hbinary, hcollate]
  rfl

/-- Canonical columns whose definitions say the same are defined alike. -/
theorem IsCanonical.equivalentIn {a b : Column} (ha : a.IsCanonical) (hb : b.IsCanonical) {tableCharset : String}
    (h : a.effective tableCharset = b.effective tableCharset) (p : TextSetting) : a.EquivalentIn p p b := by
  simp only [effective, EffectiveColumn.mk.injEq, ha.type, hb.type, ha.unsigned, hb.unsigned, ha.zerofill, hb.zerofill,
    ha.autoIncrement, hb.autoIncrement, ha.onUpdateTimestamp, hb.onUpdateTimestamp] at h
  obtain ⟨name, type, unsigned, zerofill, charset, collation, nullable, default, auto, onUpdate, comment⟩ := h
  refine ⟨name, type, nullable, ha.defaultValue_eq hb nullable default, onUpdate, unsigned, zerofill, auto,
    (nonempty?_eq_iff ..).1 comment, ?_⟩
  intro htext
  have htext' : b.type.isTextual = true := by rwa [← type]
  rw [ha.writtenCharset_eq htext, hb.writtenCharset_eq htext'] at charset
  rw [ha.writtenCollation_eq htext, hb.writtenCollation_eq htext'] at collation
  have hbinary : a.binary = b.binary := by rw [(ha.text htext).1, (hb.text htext').1]
  have hin : a.charsetIn p = b.charsetIn p := by rw [charsetIn, charsetIn, charset]
  exact ⟨hbinary, hin, by rw [collationIn, collationIn, collation, hin]⟩

end Column

/-! ## Differences -/

namespace Schema

variable {declared observed : Schema} {ignored : List String} {c : TableChanges}

/-- Altered indexes and foreign keys show. Altered columns show exactly if what their definitions say differs, and it
does if both are canonical. -/
theorem altered_shows (hd : declared.NamesUnique) (ho : observed.NamesUnique)
    (h : .altered c ∈ declared.diff observed ignored) (d : Defaults) :
    (∀ i j, .altered i j ∈ c.indexes → (Change.altered i j).indexAlterations.Shows c.declared.name) ∧
    (∀ k l, .altered k l ∈ c.relations → (Change.altered k l).relationAlterations.Shows c.declared.name) ∧
    (Text.isPlain (c.declared.effectiveCharset d) → ∀ a b, .altered a b ∈ c.columns →
      a.hasPlainSettings → b.hasPlainSettings →
        (((Change.altered a b).columnAlterations (c.declared.effectiveCharset d)).Shows c.declared.name ↔
          a.effective (c.declared.effectiveCharset d) ≠ b.effective (c.declared.effectiveCharset d)) ∧
        (a.IsCanonical → b.IsCanonical →
          a.effective (c.declared.effectiveCharset d) ≠ b.effective (c.declared.effectiveCharset d))) := by
  obtain ⟨-, -, hexact, -⟩ := justified_of_mem_diff hd ho h
  refine ⟨?_, ?_, ?_⟩
  · intro i j hmem
    obtain ⟨-, hne⟩ := hexact.indexes.needed _ hmem
    exact Change.shows_indexAlterations hne
  · intro k l hmem
    obtain ⟨-, hne⟩ := hexact.relations.needed _ hmem
    exact Change.shows_relationAlterations fun heq => hne (heq ▸ ForeignKey.Equivalent.refl k)
  · intro hcharset a b hmem ha hb
    obtain ⟨hname, hne⟩ := hexact.columns.needed _ hmem
    refine ⟨?_, fun hca hcb heq => hne (hca.equivalentIn hcb heq _)⟩
    rw [Change.shows_columnAlterations_iff hname]
    exact not_congr ⟨Column.effective_eq_of_definition_eq hcharset ha hb, Column.definition_eq_of_effective_eq⟩

end Schema

namespace Sample

/-- A title, declared with an attribute that no text carries. -/
def unsignedTitle : Column :=
  { name := "title", type := .length .varChar 200, unsigned := true }

/-- The title as the server has it. -/
def title : Column :=
  { unsignedTitle with unsigned := false }

/-- The body of a post as the server has it. -/
def body : Column :=
  { name := "body", type := .text .standard }

/-- The body of a post, which may not be missing. -/
def requiredBody : Column :=
  { body with nullable := false }

/-- Every post belongs to an author, and goes with its author. -/
def byAuthor : ForeignKey :=
  { name := "by_author", columns := ["author"], referencesTable := "author", referencesColumns := ["id"],
    onDelete := some .cascade }

/-- The declared table. -/
def posts : Table :=
  { name := "posts", columns := [unsignedTitle, requiredBody],
    indexes := [{ name := "by_title", kind := .unique, columns := ["title"] }], relations := [byAuthor] }

/-- The table on the server. -/
def servedPosts : Table :=
  { name := "posts", columns := [title, body], indexes := [{ name := "by_title", kind := .key, columns := ["title"] }],
    relations := [{ byAuthor with onDelete := none }] }

/-- All that differs between them. -/
def postChanges : TableChanges :=
  .between posts servedPosts {}

end Sample

namespace Schema

theorem altered_shows_posts :
    NamesUnique { tables := [Sample.posts] } ∧ NamesUnique { tables := [Sample.servedPosts] } ∧
      .altered Sample.postChanges ∈ diff { tables := [Sample.posts] } { tables := [Sample.servedPosts] } [] ∧
      (∀ c ∈ Sample.postChanges.indexes, c.indexAlterations.Shows "posts") ∧
      (∀ c ∈ Sample.postChanges.relations, c.relationAlterations.Shows "posts") ∧
      ¬ ((Change.altered Sample.unsignedTitle Sample.title).columnAlterations "utf8mb4").Shows "posts" ∧
      ((Change.altered Sample.requiredBody Sample.body).columnAlterations "utf8mb4").Shows "posts" := by
  have hd : NamesUnique { tables := [Sample.posts] } := by decide
  have ho : NamesUnique { tables := [Sample.servedPosts] } := by decide
  have h : .altered Sample.postChanges ∈ diff { tables := [Sample.posts] } { tables := [Sample.servedPosts] } [] := by
    decide
  obtain ⟨hindexes, hrelations, hcolumns⟩ := altered_shows hd ho h {}
  obtain ⟨htitle, -⟩ := hcolumns (by decide) Sample.unsignedTitle Sample.title (by decide) (by decide) (by decide)
  obtain ⟨hbody, hcanonical⟩ :=
    hcolumns (by decide) Sample.requiredBody Sample.body (by decide) (by decide) (by decide)
  refine ⟨hd, ho, h, ?_, ?_, fun hshows => htitle.1 hshows (by decide), hbody.2 (hcanonical ?_ ?_)⟩
  · intro c hc
    cases List.mem_singleton.1 hc
    exact hindexes _ _ hc
  · intro c hc
    cases List.mem_singleton.1 hc
    exact hrelations _ _ hc
  · constructor <;> decide
  · constructor <;> decide

/-- Not every altered column shows: the server's title will never be unsigned, whatever the migration. -/
theorem not_altered_shows :
    ¬ ∀ (declared observed : Schema) (ignored : List String) (d : Defaults) (c : TableChanges),
      declared.NamesUnique → observed.NamesUnique → .altered c ∈ declared.diff observed ignored →
        (∀ x y, .altered x y ∈ c.columns →
          ((Change.altered x y).columnAlterations (c.declared.effectiveCharset d)).Shows c.declared.name) ∧
        (∀ x y, .altered x y ∈ c.indexes → (Change.altered x y).indexAlterations.Shows c.declared.name) ∧
        ∀ x y, .altered x y ∈ c.relations → (Change.altered x y).relationAlterations.Shows c.declared.name := by
  intro h
  obtain ⟨hcolumns, -, -⟩ := h { tables := [Sample.posts] } { tables := [Sample.servedPosts] } [] {} Sample.postChanges
    (by decide) (by decide) (by decide)
  have hshows := hcolumns Sample.unsignedTitle Sample.title (by decide)
  have hname : Sample.unsignedTitle.name = Sample.title.name := rfl
  exact (Change.shows_columnAlterations_iff hname _).1 hshows (Column.definition_eq_of_effective_eq (by decide))

end Schema

end SchemaMigration
