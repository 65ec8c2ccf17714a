import SchemaMigration.Proofs.CharacterSets
import SchemaMigration.Proofs.ExactDiff
import SchemaMigration.Proofs.SealedStatements

/-!
# Collations of converted tables

A conversion of a table names a character set and may name a collation, which a server accepts only where it belongs to
that character set (`BelongsTo`). Both are those in force in one table, the declared one on the way up and the observed
one on the way down (`convert_mem_compile_iff`).

A table that gives its collation gives one of its own character set. One that gives none takes the default of the
server, also where it names a character set that the default collation does not belong to (`TakesForeignCollation`). So
conversions are in order exactly if no table whose collation changes is one of these (`collations_belong_iff`).
-/

namespace SchemaMigration

open Ddl (Alteration)

/-- The collation has the name of the character set and an underscore in front. -/
def BelongsTo (collation charset : String) : Prop :=
  (charset ++ "_").toList <+: collation.toList

instance (collation charset : String) : Decidable (BelongsTo collation charset) :=
  inferInstanceAs (Decidable (_ <+: _))

/-- The default collation is that of the default character set, with a name of its own. -/
def Defaults.IsConsistent (d : Defaults) : Prop :=
  BelongsTo d.collation d.charset ∧ d.collation ≠ d.charset ++ "_"

instance (d : Defaults) : Decidable d.IsConsistent :=
  inferInstanceAs (Decidable (_ ∧ _))

namespace Table

/-- A collation that the table gives is one of the character set in force, with a name of its own. -/
def IsConsistent (t : Table) (d : Defaults) : Prop :=
  ∀ collation ∈ t.collation, BelongsTo collation (t.effectiveCharset d) ∧ collation ≠ t.effectiveCharset d ++ "_"

instance (t : Table) (d : Defaults) : Decidable (t.IsConsistent d) :=
  match h : t.collation with
  | none => .isTrue fun _ hmem => by rw [h] at hmem; cases hmem
  | some collation =>
    decidable_of_iff (BelongsTo collation (t.effectiveCharset d) ∧ collation ≠ t.effectiveCharset d ++ "_") <| by
      simp [IsConsistent, h]

/-- The table names a character set and no collation, and the default collation of the server is one of another
character set. -/
def TakesForeignCollation (t : Table) (d : Defaults) : Prop :=
  t.collation = none ∧ ∃ charset ∈ t.charset, ¬ BelongsTo d.collation charset

instance (t : Table) (d : Defaults) : Decidable (t.TakesForeignCollation d) :=
  decidable_of_iff (t.collation = none ∧ t.charset.any fun charset => !decide (BelongsTo d.collation charset)) <| by
    cases h : t.charset <;> simp [TakesForeignCollation, h]

/-- The collation in force belongs to the character set in force, unless it is the default of the server. -/
theorem belongsTo_effective_iff {t : Table} {d : Defaults} (hd : d.IsConsistent) (ht : t.IsConsistent d) :
    BelongsTo (t.effectiveCollation d) (t.effectiveCharset d) ↔ ¬ t.TakesForeignCollation d := by
  cases hcollation : t.collation with
  | some collation =>
    have hown := (ht collation hcollation).1
    simpa [effectiveCollation, TakesForeignCollation, hcollation] using hown
  | none =>
    cases hcharset : t.charset with
    | none => simpa [effectiveCollation, effectiveCharset, TakesForeignCollation, hcollation, hcharset] using hd.1
    | some charset => simp [effectiveCollation, effectiveCharset, TakesForeignCollation, hcollation, hcharset]

end Table

/-! ## Conversions among the statements -/

namespace TableChanges

variable {c : TableChanges} {d : Defaults} {charset collation : String}

/-- Only the options of a table convert it. -/
theorem convert_mem_alterations_iff :
    .convert charset (some collation) ∈ (c.alterations d).up ++ (c.alterations d).down ↔
      c.collationChanged = true ∧ ∃ t ∈ [c.declared, c.observed],
        charset = t.effectiveCharset d ∧ collation = t.effectiveCollation d := by
  have hnested : ∀ a ∈ (c.nestedAlterations d).up ++ (c.nestedAlterations d).down,
      a ≠ .convert charset (some collation) := by
    rintro a ha hconvert
    have haction : a.action?.isSome := by
      rcases mem_nestedAlterations ha with ⟨_, -, _, -, rfl | rfl | rfl⟩ | ⟨_, rfl | rfl⟩ | ⟨_, rfl | rfl⟩
      any_goals rfl
      rw [Alteration.action?_removeIndex]
      rfl
    rw [hconvert] at haction
    cases haction
  have hoptions : .convert charset (some collation) ∈ (c.optionAlterations d).up ++ (c.optionAlterations d).down ↔
      c.collationChanged = true ∧ ∃ t ∈ [c.declared, c.observed],
        charset = t.effectiveCharset d ∧ collation = t.effectiveCollation d := by
    simp only [optionAlterations]
    cases c.engineChanged <;> cases c.charsetChanged <;> cases c.collationChanged <;> simp [Reversible.pair]
  rw [← hoptions, List.mem_append, List.mem_append, mem_up_alterations, mem_down_alterations, Reversible.up_append,
    Reversible.down_append, List.mem_append, List.mem_append]
  have hup := fun h => hnested _ (List.mem_append_left _ h) rfl
  have hdown := fun h => hnested _ (List.mem_append_right _ h) rfl
  tauto

end TableChanges

theorem TableDiff.convert_mem_statements_iff {diff : TableDiff} {d : Defaults} {name charset collation : String} :
    .alterTable name (.convert charset (some collation)) ∈ (diff.statements d).up ++ (diff.statements d).down ↔
      ∃ c, diff = .altered c ∧ c.declared.name = name ∧
        .convert charset (some collation) ∈ (c.alterations d).up ++ (c.alterations d).down := by
  cases diff with
  | added t | removed t => cases ht : t.columns <;> simp [statements, isSkipped, Reversible.pair, ht]
  | altered c =>
    have hstatements : ((altered c).statements d).up ++ ((altered c).statements d).down =
        ((c.alterations d).up ++ (c.alterations d).down).map (.alterTable c.declared.name) := List.map_append.symm
    rw [hstatements, List.mem_map]
    constructor
    · rintro ⟨a, ha, he⟩
      cases he
      exact ⟨c, rfl, rfl, ha⟩
    · rintro ⟨_, hc, rfl, ha⟩
      cases hc
      exact ⟨_, ha, rfl⟩

theorem mem_compile_iff {diffs : List TableDiff} {d : Defaults} {s : Ddl.Statement} :
    s ∈ (compile diffs d).up ++ (compile diffs d).down ↔
      ∃ diff ∈ diffs, s ∈ (diff.statements d).up ++ (diff.statements d).down := by
  simp only [compile, Reversible.up_concat, Reversible.down_concat, List.flatMap_map, List.mem_append,
    List.mem_flatMap, and_or_left, exists_or]

/-- A table is converted with a collation where its collation changes. -/
theorem convert_mem_compile_iff {diffs : List TableDiff} {d : Defaults} {name charset collation : String} :
    .alterTable name (.convert charset (some collation)) ∈ (compile diffs d).up ++ (compile diffs d).down ↔
      ∃ c, .altered c ∈ diffs ∧ c.declared.name = name ∧ c.collationChanged = true ∧ ∃ t ∈ [c.declared, c.observed],
        charset = t.effectiveCharset d ∧ collation = t.effectiveCollation d := by
  rw [mem_compile_iff]
  constructor
  · rintro ⟨diff, hdiff, hs⟩
    obtain ⟨c, rfl, hname, hconvert⟩ := TableDiff.convert_mem_statements_iff.1 hs
    exact ⟨c, hdiff, hname, TableChanges.convert_mem_alterations_iff.1 hconvert⟩
  · rintro ⟨c, hc, hname, hconvert⟩
    have halterations := TableChanges.convert_mem_alterations_iff.2 hconvert
    exact ⟨.altered c, hc, TableDiff.convert_mem_statements_iff.2 ⟨c, rfl, hname, halterations⟩⟩

/-- Two tables with one name and different collations are among the differences. -/
theorem Schema.recollated_mem_diff_iff {declared observed : Schema} {ignored : List String} {c : TableChanges}
    (hd : declared.NamesUnique) (ho : observed.NamesUnique) :
    (.altered c ∈ declared.diff observed ignored ∧ c.collationChanged = true) ↔
      ∃ t ∈ declared.tables, t.name ∉ ignored ∧ ∃ u ∈ observed.tables, u.name = t.name ∧
        t.effectiveCollation observed.defaults ≠ u.effectiveCollation observed.defaults ∧
        c = .between t u observed.defaults := by
  constructor
  · rintro ⟨hc, hchanged⟩
    obtain ⟨hignored, hat⟩ := (Schema.mem_diff_iff hd ho).1 hc
    cases ht : withKey? Table.name (TableDiff.altered c).name declared.tables with
    | none =>
      cases hu : withKey? Table.name (TableDiff.altered c).name observed.tables <;> rw [ht, hu] at hat <;> cases hat
    | some t =>
      cases hu : withKey? Table.name (TableDiff.altered c).name observed.tables with
      | none => rw [ht, hu] at hat; cases hat
      | some u =>
        rw [ht, hu] at hat
        simp only [differenceAt?, alteredTable?, Option.ite_none_left_eq_some, Option.some.injEq,
          TableDiff.altered.injEq] at hat
        obtain ⟨-, rfl⟩ := hat
        have hname : u.name = t.name := key_of_withKey? hu
        refine ⟨t, mem_of_withKey? ht, hignored, u, mem_of_withKey? hu, hname, ?_, rfl⟩
        simpa [TableChanges.between] using hchanged
  · rintro ⟨t, ht, hignored, u, hu, hname, hcollation, rfl⟩
    have hchanged : (TableChanges.between t u observed.defaults).collationChanged = true := by
      simpa [TableChanges.between] using hcollation
    have hempty : (TableChanges.between t u observed.defaults).isEmpty = false := by
      simp [TableChanges.isEmpty, hchanged]
    refine ⟨(Schema.mem_diff_iff hd ho).2 ⟨hignored, ?_⟩, hchanged⟩
    have htread := hd.tables.withKey?_key ht
    have huread := ho.tables.withKey?_key hu
    rw [hname] at huread
    have hname? : (TableDiff.altered (.between t u observed.defaults)).name = t.name := rfl
    rw [hname?, htread, huread]
    simp [differenceAt?, alteredTable?, hempty]

section

variable {declared observed : Schema} (hd : declared.NamesUnique) (ho : observed.NamesUnique)
  (hdefaults : observed.defaults.IsConsistent) (hdt : ∀ t ∈ declared.tables, t.IsConsistent observed.defaults)
  (hot : ∀ u ∈ observed.tables, u.IsConsistent observed.defaults)

include hd ho hdefaults hdt hot

/-- Every conversion with a collation names one of its character set, exactly if no table whose collation changes, on
either side, takes a default collation of another character set. -/
theorem collations_belong_iff (ignored : List String) :
    let statements := compile (declared.diff observed ignored) observed.defaults
    (∀ name charset collation, .alterTable name (.convert charset (some collation)) ∈ statements.up ++ statements.down →
        BelongsTo collation charset) ↔
      ∀ t ∈ declared.tables, t.name ∉ ignored → ∀ u ∈ observed.tables, u.name = t.name →
        t.effectiveCollation observed.defaults ≠ u.effectiveCollation observed.defaults →
        ¬ t.TakesForeignCollation observed.defaults ∧ ¬ u.TakesForeignCollation observed.defaults := by
  intro statements
  constructor
  · intro hall t ht hignored u hu hname hcollation
    obtain ⟨hmem, hchanged⟩ :=
      (Schema.recollated_mem_diff_iff hd ho).2 ⟨t, ht, hignored, u, hu, hname, hcollation, rfl⟩
    have hside : ∀ v ∈ [t, u],
        BelongsTo (v.effectiveCollation observed.defaults) (v.effectiveCharset observed.defaults) := fun v hv =>
      hall t.name _ _ (convert_mem_compile_iff.2 ⟨_, hmem, rfl, hchanged, v, hv, rfl, rfl⟩)
    exact ⟨(Table.belongsTo_effective_iff hdefaults (hdt t ht)).1 (hside t (by simp)),
      (Table.belongsTo_effective_iff hdefaults (hot u hu)).1 (hside u (by simp))⟩
  · intro hnone name charset collation hs
    obtain ⟨c, hmem, -, hchanged, v, hv, rfl, rfl⟩ := convert_mem_compile_iff.1 hs
    obtain ⟨t, ht, hignored, u, hu, hname, hcollation, rfl⟩ :=
      (Schema.recollated_mem_diff_iff hd ho).1 ⟨hmem, hchanged⟩
    obtain ⟨hown, hother⟩ := hnone t ht hignored u hu hname hcollation
    rcases List.mem_pair.1 hv with rfl | rfl
    · exact (Table.belongsTo_effective_iff hdefaults (hdt _ ht)).2 hown
    · exact (Table.belongsTo_effective_iff hdefaults (hot _ hu)).2 hother

end

namespace Sample

/-- Two tables in Latin 1, of which one leaves its collation to the server. -/
def archive : Schema :=
  { tables :=
    [{ name := "entry", columns := [{ name := "title", type := .text .standard }], charset := some "latin1",
       collation := some "latin1_bin" },
     { name := "scratch", columns := [{ name := "line", type := .text .standard }], charset := some "latin1" }] }

/-- The same tables, each in the default collation of Latin 1. -/
def swedishArchive : Schema :=
  { archive with tables := archive.tables.map ({ · with collation := some "latin1_swedish_ci" }) }

end Sample

/-- The table that leaves its collation to the server is ignored. -/
theorem collations_belong_iff_archive :
    Sample.archive.NamesUnique ∧ Sample.swedishArchive.NamesUnique ∧
      Sample.swedishArchive.defaults.IsConsistent ∧
      (∀ t ∈ Sample.archive.tables, t.IsConsistent Sample.swedishArchive.defaults) ∧
      (∀ u ∈ Sample.swedishArchive.tables, u.IsConsistent Sample.swedishArchive.defaults) ∧
      let statements := compile (Sample.archive.diff Sample.swedishArchive ["scratch"]) Sample.swedishArchive.defaults
      statements =
          .pair (.alterTable "entry" (.convert "latin1" (some "latin1_bin")))
            (.alterTable "entry" (.convert "latin1" (some "latin1_swedish_ci"))) ∧
        ∀ name charset collation,
          .alterTable name (.convert charset (some collation)) ∈ statements.up ++ statements.down →
            BelongsTo collation charset := by
  have hd : Sample.archive.NamesUnique := by decide
  have ho : Sample.swedishArchive.NamesUnique := by decide
  have hdefaults : Sample.swedishArchive.defaults.IsConsistent := by decide
  have hdt : ∀ t ∈ Sample.archive.tables, t.IsConsistent Sample.swedishArchive.defaults := by decide
  have hot : ∀ u ∈ Sample.swedishArchive.tables, u.IsConsistent Sample.swedishArchive.defaults := by decide
  refine ⟨hd, ho, hdefaults, hdt, hot, by decide +kernel, (collations_belong_iff hd ho hdefaults hdt hot _).2 ?_⟩
  decide

/-- Consistent tables are not enough: where no table is ignored, the second one is converted to Latin 1 with the default
collation of the server. -/
theorem not_collations_belong :
    ¬ ∀ declared observed : Schema, declared.NamesUnique → observed.NamesUnique → observed.defaults.IsConsistent →
      (∀ t ∈ declared.tables, t.IsConsistent observed.defaults) →
      (∀ u ∈ observed.tables, u.IsConsistent observed.defaults) →
      let statements := compile (declared.diff observed []) observed.defaults
      ∀ name charset collation,
        .alterTable name (.convert charset (some collation)) ∈ statements.up ++ statements.down →
          BelongsTo collation charset := by
  intro h
  have hscratch : BelongsTo "utf8mb4_general_ci" "latin1" :=
    h Sample.archive Sample.swedishArchive (by decide) (by decide) (by decide) (by decide) (by decide) "scratch" _ _
      (by decide +kernel)
  revert hscratch
  decide

end SchemaMigration
