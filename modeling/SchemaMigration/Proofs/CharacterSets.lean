import SchemaMigration.Proofs.Equivalence
import SchemaMigration.Proofs.Inversion
import SchemaMigration.Proofs.RoundTrip

/-!
# Character sets after a migration

What the alterations of a table do to the character set of the table and of its text columns (`Charsets`): a conversion
sets them all, a column that is written gets the character set that its definition names, or else the table's.

Conversions come ahead of the columns, so a column that is written has the character set that its declaration resolves
to (`Column.declaredCharset`). A column that is not written has it too, unless it names a character set of its own and
its table is converted to another one: the detector finds no difference, and the conversion takes the column along. The
same happens to a column whose statement says `DROP` and is moved ahead of the conversion. These are the only columns
that end with another character set than the declared one (`charset_afterAll_iff`).
-/

namespace SchemaMigration

open Ddl (Alteration)

/-! ## What alterations do -/

/-- The character set of a table and of its text columns, by their names. -/
structure Charsets where
  table : String
  column : String → Option String

namespace Column

/-- The character set that the declaration of a text column resolves to: its own, or that of the table. -/
def declaredCharset (c : Column) (tableCharset : String) : String :=
  (nonempty? c.charset).getD tableCharset

/-- The character set of a text column once its definition, written for one table's character set, is carried out in a
table that has another one. -/
def charsetOnceWritten (c : Column) (writtenFor tableCharset : String) : Option String :=
  if c.type.isTextual then some ((c.writtenCharset writtenFor).getD tableCharset) else none

/-- An empty character set is none, whichever side it stands on. -/
theorem declaredCharset_eq (c : Column) (tableCharset : String) :
    c.declaredCharset tableCharset =
      if c.charset.getD tableCharset = "" then tableCharset else c.charset.getD tableCharset := by
  cases h : c.charset with
  | none => by_cases ht : tableCharset = "" <;> simp [declaredCharset, nonempty?, h, ht]
  | some own => by_cases ho : own = "" <;> simp [declaredCharset, nonempty?, Option.filter, h, ho]

/-- Text columns that are the same in a table have the same character set there. -/
theorem declaredCharset_eq_of_same {p : TextSetting} {a b : Column} (h : a.same p.charset p.collation b)
    (ha : a.type.isTextual) : a.declaredCharset p.charset = b.declaredCharset p.charset := by
  obtain ⟨-, hcharset, -⟩ := ((same_iff p a b).1 h).text ha
  have hgetD : a.charset.getD p.charset = b.charset.getD p.charset := hcharset
  rw [declaredCharset_eq, declaredCharset_eq, hgetD]

theorem charsetOnceWritten_eq {c : Column} (h : c.type.isTextual) (tableCharset : String) :
    c.charsetOnceWritten tableCharset tableCharset = some (c.declaredCharset tableCharset) := by
  cases hown : nonempty? c.charset <;> cases hb : c.binary <;>
    simp [charsetOnceWritten, writtenCharset, declaredCharset, h, hown, hb]

end Column

/-- The character sets of a table as it stands on a server. -/
def Table.charsets (t : Table) (d : Defaults) : Charsets where
  table := t.effectiveCharset d
  column name :=
    (withKey? Column.name name t.columns).bind fun c =>
      if c.type.isTextual then some (c.declaredCharset (t.effectiveCharset d)) else none

namespace Charsets

/-- The character sets after an alteration. -/
def after (s : Charsets) : Alteration → Charsets
  | .convert charset _ => { table := charset, column := fun name => (s.column name).map fun _ => charset }
  | .addColumn c charset | .changeColumn c charset =>
    { s with column := Function.update s.column c.name (c.charsetOnceWritten charset s.table) }
  | .dropColumn name => { s with column := Function.update s.column name none }
  | .setEngine _ | .addIndex _ | .dropPrimaryKey | .dropIndex _ | .addRelation _ | .dropRelation _ => s

/-- The character sets after alterations in their order. -/
def afterAll (s : Charsets) (as : List Alteration) : Charsets :=
  as.foldl after s

@[simp]
theorem afterAll_nil (s : Charsets) : s.afterAll [] = s := rfl

@[simp]
theorem afterAll_cons (s : Charsets) (a : Alteration) (as : List Alteration) :
    s.afterAll (a :: as) = (s.after a).afterAll as := rfl

theorem afterAll_append (s : Charsets) (as bs : List Alteration) :
    s.afterAll (as ++ bs) = (s.afterAll as).afterAll bs :=
  List.foldl_append

end Charsets

/-! ## One column at a time -/

namespace Ddl.Alteration

/-- The alteration sets the character set of the table. -/
def isConversion : Alteration → Bool
  | convert .. => true
  | _ => false

/-- The alteration can change the character set of the column. -/
def bearsOn (name : String) (a : Alteration) : Bool :=
  a.isConversion || a.concerns ⟨.column, name⟩

theorem isConversion_eq_false {a : Alteration} (h : a.action?.isSome) : a.isConversion = false := by
  cases a with
  | convert => cases h
  | _ => rfl

end Ddl.Alteration

namespace Charsets

/-- The same table, as far as one column goes. -/
structure AgreeOn (name : String) (s s' : Charsets) : Prop where
  table : s.table = s'.table
  column : s.column name = s'.column name

variable {name : String} {s s' : Charsets}

/-- An alteration of anything else leaves the column as it is. -/
theorem agreeOn_after_left {a : Alteration} (h : a.bearsOn name = false) (hs : AgreeOn name s s') :
    AgreeOn name (s.after a) s' := by
  have hother : ∀ {written : String} (v : Option String), written ≠ name →
      Function.update s.column written v name = s'.column name := fun v hne => by
    rw [Function.update_of_ne (Ne.symm hne), hs.column]
  cases a with
  | convert => cases h
  | addColumn c | changeColumn c =>
    simp only [Alteration.bearsOn, Alteration.isConversion, Alteration.concerns, Alteration.action?] at h
    exact ⟨hs.table, hother _ (by simpa using h)⟩
  | dropColumn other =>
    simp only [Alteration.bearsOn, Alteration.isConversion, Alteration.concerns, Alteration.action?] at h
    exact ⟨hs.table, hother _ (by simpa using h)⟩
  | _ => exact hs

/-- What an alteration makes of a column hangs on the column and its table alone. -/
theorem agreeOn_after (a : Alteration) (hs : AgreeOn name s s') : AgreeOn name (s.after a) (s'.after a) := by
  have hupdate : ∀ (written : String) (v : Option String),
      Function.update s.column written v name = Function.update s'.column written v name := fun written v => by
    by_cases hw : name = written
    · subst hw
      simp
    · simp [Function.update_of_ne hw, hs.column]
  cases a with
  | convert charset => exact ⟨rfl, congrArg (Option.map fun _ => charset) hs.column⟩
  | addColumn c charset | changeColumn c charset =>
    exact ⟨hs.table, by simpa only [after, hs.table] using hupdate c.name (c.charsetOnceWritten charset s'.table)⟩
  | dropColumn other => exact ⟨hs.table, hupdate other none⟩
  | _ => exact hs

/-- Only the alterations that bear on a column matter for it. -/
theorem agreeOn_afterAll (as : List Alteration) (hs : AgreeOn name s s') :
    AgreeOn name (s.afterAll as) (s'.afterAll (as.filter (Alteration.bearsOn name))) := by
  induction as generalizing s s' with
  | nil => exact hs
  | cons a as ih =>
    cases ha : a.bearsOn name with
    | true =>
      rw [List.filter_cons_of_pos ha]
      exact ih (agreeOn_after a hs)
    | false =>
      rw [List.filter_cons_of_neg (by simp [ha])]
      exact ih (agreeOn_after_left ha hs)

/-- Conversions to one character set: the last one counts, and all are alike. -/
theorem afterAll_conversions {charset : String} {as : List Alteration}
    (h : ∀ a ∈ as, ∃ collation, a = .convert charset collation) (s : Charsets) :
    s.afterAll as =
      if as = [] then s else { table := charset, column := fun name => (s.column name).map fun _ => charset } := by
  induction as generalizing s with
  | nil => rfl
  | cons a as ih =>
    obtain ⟨⟨collation, rfl⟩, has⟩ := List.forall_mem_cons.1 h
    rw [afterAll_cons, ih has]
    by_cases hnil : as = [] <;> simp [hnil, after, Function.comp_def]

end Charsets

/-! ## The alterations that bear on a column -/

namespace TableChanges

/-- The conversions of the table. -/
def conversions (c : TableChanges) (d : Defaults) : List Alteration :=
  (c.optionAlterations d).up.filter Alteration.isConversion

/-- The statements that write or drop a column. -/
def columnStatements (c : TableChanges) (d : Defaults) (name : String) : List Alteration :=
  (c.columns.filter fun x => x.key Column.name == name).flatMap fun x =>
    (x.columnAlterations (c.declared.effectiveCharset d)).up

/-- The table is converted, and no statement of the column comes after the conversion. -/
def Recodes (c : TableChanges) (d : Defaults) (name : String) : Prop :=
  ∃ conversion ∈ c.conversions d, ∀ a ∈ c.columnStatements d name,
    saysDrop (a.sql c.declared.name) = true ∧ saysDrop (conversion.sql c.declared.name) = false

instance (c : TableChanges) (d : Defaults) (name : String) : Decidable (c.Recodes d name) :=
  inferInstanceAs (Decidable (∃ conversion ∈ c.conversions d, ∀ a ∈ c.columnStatements d name,
    saysDrop (a.sql c.declared.name) = true ∧ saysDrop (conversion.sql c.declared.name) = false))

theorem eq_convert_of_mem_conversions {c : TableChanges} {d : Defaults} {a : Alteration} (h : a ∈ c.conversions d) :
    ∃ collation, a = .convert (c.declared.effectiveCharset d) collation := by
  obtain ⟨hmem, hconversion⟩ := List.mem_filter.1 h
  simp only [optionAlterations, Reversible.up_append, List.mem_append] at hmem
  rcases hmem with (hengine | hcharset) | hcollation
  · cases he : c.engineChanged with
    | false => simp [he] at hengine
    | true =>
      simp only [he, ↓reduceIte, Reversible.pair, List.mem_singleton] at hengine
      subst hengine
      cases hconversion
  · cases hc : c.charsetChanged with
    | false => simp [hc] at hcharset
    | true =>
      simp only [hc, ↓reduceIte, Reversible.pair, List.mem_singleton] at hcharset
      exact ⟨none, hcharset⟩
  · cases hc : c.collationChanged with
    | false => simp [hc] at hcollation
    | true =>
      simp only [hc, ↓reduceIte, Reversible.pair, List.mem_singleton] at hcollation
      exact ⟨some _, hcollation⟩

/-- A table that is not converted keeps its character set. -/
theorem charsetChanged_eq_false {c : TableChanges} {d : Defaults} (h : c.conversions d = []) :
    c.charsetChanged = false := by
  cases hc : c.charsetChanged with
  | false => rfl
  | true => simp [conversions, optionAlterations, hc, Reversible.pair, Alteration.isConversion] at h

theorem bearsOn_option (c : TableChanges) (d : Defaults) (name : String) :
    (c.optionAlterations d).up.filter (Alteration.bearsOn name) = c.conversions d := by
  refine List.filter_congr fun a ha => ?_
  have hslot := List.filter_eq_nil_iff.1 (c.filter_concerns_optionAlterations d ⟨.column, name⟩).1 a ha
  simp [Alteration.bearsOn, hslot]

/-- Indexes have no character set. -/
theorem filter_bearsOn_index (x : Change Index) (name : String) :
    x.indexAlterations.up.filter (Alteration.bearsOn name) = [] := by
  refine List.filter_eq_nil_iff.2 fun a ha => ?_
  obtain ⟨i, -, rfl | rfl⟩ := Change.mem_indexAlterations (List.mem_append_left _ ha)
  · simp [Alteration.bearsOn, Alteration.isConversion, Alteration.concerns, Alteration.action?]
  · simp [Alteration.bearsOn, Alteration.isConversion_eq_false, Alteration.concerns]

/-- Nor have foreign keys. -/
theorem filter_bearsOn_relation (x : Change ForeignKey) (name : String) :
    x.relationAlterations.up.filter (Alteration.bearsOn name) = [] := by
  refine List.filter_eq_nil_iff.2 fun a ha => ?_
  obtain ⟨k, -, rfl | rfl⟩ := Change.mem_relationAlterations (List.mem_append_left _ ha) <;>
    simp [Alteration.bearsOn, Alteration.isConversion, Alteration.concerns, Alteration.action?]

/-- What bears on a column among its table's column alterations are the statements of the column. -/
theorem filter_bearsOn_columns {c : TableChanges} (h : ∀ x ∈ c.columns, x.Matched Column.name) (d : Defaults)
    (name : String) :
    (c.columns.flatMap fun x => (x.columnAlterations (c.declared.effectiveCharset d)).up).filter
      (Alteration.bearsOn name) = c.columnStatements d name := by
  have hslot : ∀ x ∈ c.columns, ∀ a ∈ (x.columnAlterations (c.declared.effectiveCharset d)).up,
      a.action?.map (·.1) = some ⟨.column, x.key Column.name⟩ := fun x hx a ha =>
    (exchanges_columnAlterations _).slot x (h x hx) a (List.mem_append_left _ ha)
  have hconcerns := filter_concerns_flatMap hslot ⟨.column, name⟩
  rw [if_pos rfl] at hconcerns
  rw [columnStatements, ← hconcerns]
  refine List.filter_congr fun a ha => ?_
  obtain ⟨x, hx, hax⟩ := List.mem_flatMap.1 ha
  have haction : a.action?.isSome := by
    rw [← Option.isSome_map, hslot x hx a hax]
    rfl
  simp [Alteration.bearsOn, Alteration.isConversion_eq_false haction]

/-- What bears on a column among all alterations of its table: conversions, then the statements of the column, but for
those that say `DROP`. -/
theorem filter_bearsOn_alterations {c : TableChanges} (h : ∀ x ∈ c.columns, x.Matched Column.name) (d : Defaults)
    (name : String) :
    (c.alterations d).up.filter (Alteration.bearsOn name) =
      dropsToFront (·.sql c.declared.name) (c.conversions d ++ c.columnStatements d name) := by
  simp only [alterations, Reversible.dropsFirst, filter_dropsToFront, Reversible.up_append, List.filter_append,
    bearsOn_option, nestedAlterations, Reversible.up_concat, List.flatMap_append, List.flatMap_map,
    filter_bearsOn_columns h d name, List.filter_flatMap, filter_bearsOn_index, filter_bearsOn_relation,
    List.flatMap_eq_nil_iff.2 fun _ _ => rfl, List.append_nil]

/-- A declared column is written by one statement at most; without one, it is the same as the observed column. -/
theorem columnStatements_between {t u : Table} (ht : KeysUnique Column.name t.columns)
    (hu : KeysUnique Column.name u.columns) (d : Defaults) {c : Column} (hc : c ∈ t.columns) :
    let charset := t.effectiveCharset d
    (∃ a ∈ [Alteration.addColumn c charset, .changeColumn c charset],
      (between t u d).columnStatements d c.name = [a]) ∨
    ((between t u d).columnStatements d c.name = [] ∧ ∃ e ∈ u.columns, e.name = c.name ∧
      c.same (u.effectiveCharset d) (u.effectiveCollation d) e) := by
  intro charset
  have hfilter : (between t u d).columns.filter (fun x => x.key Column.name == c.name) = _ :=
    filter_changesByKey ht hu c.name
  rw [columnStatements, hfilter, ht.withKey?_key hc]
  cases he : withKey? Column.name c.name u.columns with
  | none => exact .inl ⟨_, List.mem_cons_self, rfl⟩
  | some e =>
    cases hsame : c.same (u.effectiveCharset d) (u.effectiveCollation d) e with
    | true =>
      refine .inr ⟨?_, e, mem_of_withKey? he, key_of_withKey? he, hsame⟩
      simp [changeAt?, differenceAt?, alteredUnless, hsame]
    | false =>
      refine .inl ⟨_, List.mem_cons_of_mem _ List.mem_cons_self, ?_⟩
      simp [changeAt?, differenceAt?, alteredUnless, hsame, Change.columnAlterations, Reversible.pair]
      rfl

end TableChanges

/-! ## What a migration leaves -/

/-- Where the last element of a list goes: other elements come after it only if it says `DROP` and they do not. -/
theorem exists_dropsToFront_concat {α : Type} (text : α → String) (xs : List α) (x : α) :
    ∃ before after, dropsToFront text (xs ++ [x]) = before ++ x :: after ∧
      (∀ y, y ∈ before ++ after ↔ y ∈ xs) ∧
      (after ≠ [] ↔ saysDrop (text x) = true ∧ ∃ y ∈ xs, saysDrop (text y) = false) := by
  cases hx : saysDrop (text x) with
  | true =>
    refine ⟨xs.filter fun y => saysDrop (text y), xs.filter fun y => !saysDrop (text y), ?_, fun y => ?_, ?_⟩
    · simp [dropsToFront_eq, hx]
    · rw [← dropsToFront_eq, mem_dropsToFront]
    · simp [List.filter_eq_nil_iff]
  | false =>
    refine ⟨dropsToFront text xs, [], ?_, fun y => ?_, by simp⟩
    · simp [dropsToFront_eq, hx]
    · rw [List.append_nil, mem_dropsToFront]

section Declared

variable {t u : Table} {d : Defaults} {c : Column}

/-- A list of just the conversions of a table, in whatever order, converts to the declared character set. -/
theorem afterAll_conversions_between {as : List Alteration}
    (h : ∀ a ∈ as, a ∈ (TableChanges.between t u d).conversions d) (s : Charsets) :
    s.afterAll as =
      if as = [] then s
      else { table := t.effectiveCharset d, column := fun name => (s.column name).map fun _ => t.effectiveCharset d } :=
  Charsets.afterAll_conversions (fun a ha => TableChanges.eq_convert_of_mem_conversions (h a ha)) s

/-- Once all conversions are made, the table has the declared character set. -/
theorem table_afterAll_conversions {as : List Alteration}
    (h : ∀ a, a ∈ as ↔ a ∈ (TableChanges.between t u d).conversions d) :
    ((u.charsets d).afterAll as).table = t.effectiveCharset d := by
  rw [afterAll_conversions_between fun a => (h a).1]
  by_cases hnil : as = []
  · have hnone : (TableChanges.between t u d).conversions d = [] := by
      simpa [hnil, List.eq_nil_iff_forall_not_mem] using h
    have hsame : (t.effectiveCharset d != u.effectiveCharset d) = false := TableChanges.charsetChanged_eq_false hnone
    rw [if_pos hnil]
    exact (bne_eq_false_iff_eq.1 hsame).symm
  · rw [if_neg hnil]

/-- A column without a statement is left to the conversions. -/
theorem column_afterAll_unwritten {e : Column} (hu : KeysUnique Column.name u.columns) (he : e ∈ u.columns)
    (hname : e.name = c.name) (hsame : c.same (u.effectiveCharset d) (u.effectiveCollation d) e)
    (htext : c.type.isTextual) {as : List Alteration}
    (h : ∀ a, a ∈ as ↔ a ∈ (TableChanges.between t u d).conversions d) :
    ((u.charsets d).afterAll as).column c.name =
      some (if as = [] then c.declaredCharset (t.effectiveCharset d) else t.effectiveCharset d) := by
  have htype : e.type.isTextual := by
    rwa [← ((Column.same_iff ⟨u.effectiveCharset d, u.effectiveCollation d⟩ c e).1 hsame).type]
  have hcolumn : (u.charsets d).column c.name = some (c.declaredCharset (u.effectiveCharset d)) := by
    rw [Column.declaredCharset_eq_of_same (p := ⟨u.effectiveCharset d, u.effectiveCollation d⟩) hsame htext]
    simp [Table.charsets, hu.withKey?_eq_some_iff.2 ⟨he, hname⟩, htype]
  have htable := table_afterAll_conversions h
  rw [afterAll_conversions_between fun a => (h a).1] at htable ⊢
  by_cases hnil : as = []
  · rw [if_pos hnil] at htable ⊢
    rw [hcolumn, if_pos hnil]
    exact congrArg (fun charset => some (c.declaredCharset charset)) htable
  · simp [hnil, hcolumn]

/-- A column with a statement has the character set that it was written with, unless a conversion comes after it. -/
theorem column_afterAll_written {a : Alteration} (htext : c.type.isTextual)
    (hafter : ∀ s : Charsets, (s.after a).table = s.table ∧
      (s.after a).column c.name = c.charsetOnceWritten (t.effectiveCharset d) s.table)
    {before after : List Alteration}
    (h : ∀ a, a ∈ before ++ after ↔ a ∈ (TableChanges.between t u d).conversions d) :
    ((u.charsets d).afterAll (before ++ a :: after)).column c.name =
      some (if after = [] then c.declaredCharset (t.effectiveCharset d) else t.effectiveCharset d) := by
  rw [Charsets.afterAll_append, Charsets.afterAll_cons,
    afterAll_conversions_between fun a ha => (h a).1 (List.mem_append_right _ ha)]
  by_cases hnil : after = []
  · subst hnil
    rw [List.append_nil] at h
    rw [if_pos rfl, if_pos rfl, (hafter _).2, table_afterAll_conversions h, Column.charsetOnceWritten_eq htext]
  · simp [hnil, (hafter _).2, Column.charsetOnceWritten, htext]

/-- A declared text column ends with the declared table's character set where its table is converted after it, and with
the character set that its declaration resolves to elsewhere. -/
theorem charset_afterAll (ht : KeysUnique Column.name t.columns) (hu : KeysUnique Column.name u.columns)
    (hc : c ∈ t.columns) (htext : c.type.isTextual) :
    let changes := TableChanges.between t u d
    ((u.charsets d).afterAll (changes.alterations d).up).column c.name =
      some (if changes.Recodes d c.name then t.effectiveCharset d else c.declaredCharset (t.effectiveCharset d)) := by
  intro changes
  have hmatched : ∀ x ∈ changes.columns, x.Matched Column.name := fun _ => matched_of_mem_changesByKey ht hu
  have hagree : Charsets.AgreeOn c.name ((u.charsets d).afterAll (changes.alterations d).up) _ :=
    Charsets.agreeOn_afterAll _ ⟨rfl, rfl⟩
  rw [hagree.column, TableChanges.filter_bearsOn_alterations hmatched]
  rcases TableChanges.columnStatements_between ht hu d hc with ⟨a, ha, hstatements⟩ | ⟨hstatements, e, he, hname, hsame⟩
  · have hafter : ∀ s : Charsets, (s.after a).table = s.table ∧
        (s.after a).column c.name = c.charsetOnceWritten (t.effectiveCharset d) s.table := by
      simp only [List.mem_cons, List.not_mem_nil, or_false] at ha
      rcases ha with rfl | rfl <;> exact fun s => ⟨rfl, by simp [Charsets.after]⟩
    obtain ⟨before, after, hlist, hmem, hnil⟩ :=
      exists_dropsToFront_concat (·.sql changes.declared.name) (changes.conversions d) a
    have hrecodes : changes.Recodes d c.name ↔ after ≠ [] := by
      rw [hnil, TableChanges.Recodes, hstatements]
      simp only [List.forall_mem_singleton]
      exact ⟨fun ⟨b, hb, hdrop, hkeep⟩ => ⟨hdrop, b, hb, hkeep⟩, fun ⟨hdrop, b, hb, hkeep⟩ => ⟨b, hb, hdrop, hkeep⟩⟩
    rw [hstatements, hlist, column_afterAll_written htext hafter hmem]
    by_cases hempty : after = [] <;> simp [hrecodes, hempty]
  · have hrecodes : changes.Recodes d c.name ↔ changes.conversions d ≠ [] := by
      rw [TableChanges.Recodes, hstatements]
      refine ⟨fun ⟨a, ha, _⟩ => List.ne_nil_of_mem ha, fun h => ?_⟩
      obtain ⟨a, ha⟩ := List.exists_mem_of_ne_nil _ h
      exact ⟨a, ha, fun _ hb => absurd hb List.not_mem_nil⟩
    have hnil : dropsToFront (·.sql changes.declared.name) (changes.conversions d) = [] ↔
        changes.conversions d = [] := by
      simp [List.eq_nil_iff_forall_not_mem, mem_dropsToFront]
    rw [hstatements, List.append_nil,
      column_afterAll_unwritten hu he hname hsame htext fun a => mem_dropsToFront]
    by_cases hempty : changes.conversions d = []
    · rw [if_pos (hnil.2 hempty), if_neg fun h => hrecodes.1 h hempty]
    · rw [if_neg (mt hnil.1 hempty), if_pos (hrecodes.2 hempty)]

/-- A declared text column has the character set that its declaration resolves to after the migration, unless it names
one of its own and its table is converted to another one after it. -/
theorem charset_afterAll_iff (ht : KeysUnique Column.name t.columns) (hu : KeysUnique Column.name u.columns)
    (hc : c ∈ t.columns) (htext : c.type.isTextual) :
    let changes := TableChanges.between t u d
    ((u.charsets d).afterAll (changes.alterations d).up).column c.name =
        some (c.declaredCharset (t.effectiveCharset d)) ↔
      (changes.Recodes d c.name → c.declaredCharset (t.effectiveCharset d) = t.effectiveCharset d) := by
  intro changes
  rw [charset_afterAll ht hu hc htext, Option.some_inj]
  by_cases h : changes.Recodes d c.name
  · rw [if_pos h]
    exact ⟨fun heq _ => heq.symm, fun heq => (heq h).symm⟩
  · rw [if_neg h]
    exact ⟨fun _ hrecodes => absurd hrecodes h, fun _ => rfl⟩

end Declared

namespace Sample

/-- A code that is kept in a character set of its own. -/
def countryCode : Column :=
  { name := "code", type := .length .char 2, charset := some "latin1" }

/-- A table that is declared in the server's character set. -/
def country : Table :=
  { name := "country", columns := [countryCode, { name := "title", type := .text .standard }] }

/-- The same table in another character set. -/
def latinCountry : Table :=
  { country with charset := some "latin1", collation := some "latin1_swedish_ci" }

/-- A column with a character set of its own. -/
def dropNote : Column :=
  { name := "note", type := .text .standard, charset := some "latin1", comment := some "why we DROP" }

/-- A table whose statements all say `DROP`. -/
def dropLog : Table :=
  { name := "DROP_LOG", columns := [dropNote] }

/-- The same table in another character set, its column without the comment. -/
def oldDropLog : Table :=
  { dropLog with columns := [{ dropNote with comment := none }], charset := some "latin2" }

end Sample

/-- The conversion and the column's statement both say `DROP`, so neither overtakes the other. -/
theorem charset_afterAll_iff_dropLog :
    KeysUnique Column.name Sample.dropLog.columns ∧ KeysUnique Column.name Sample.oldDropLog.columns ∧
      Sample.dropNote ∈ Sample.dropLog.columns ∧ Sample.dropNote.type.isTextual ∧
      let changes := TableChanges.between Sample.dropLog Sample.oldDropLog {}
      changes.conversions {} = [.convert "utf8mb4" none] ∧
        ((Sample.oldDropLog.charsets {}).afterAll (changes.alterations {}).up).column Sample.dropNote.name =
          some "latin1" := by
  have ht : KeysUnique Column.name Sample.dropLog.columns := by decide
  have hu : KeysUnique Column.name Sample.oldDropLog.columns := by decide
  have hc : Sample.dropNote ∈ Sample.dropLog.columns := List.mem_singleton_self _
  have hrecodes : ¬ (TableChanges.between Sample.dropLog Sample.oldDropLog {}).Recodes {} Sample.dropNote.name := by
    decide +kernel
  exact ⟨ht, hu, hc, rfl, by decide, (charset_afterAll_iff ht hu hc rfl).2 fun h => absurd h hrecodes⟩

/-- With unique names alone it fails: nothing is left to say for a column that is the same on both sides, and the
conversion of its table takes it along. -/
theorem not_charset_afterAll :
    ¬ ∀ (t u : Table) (d : Defaults), t.name = u.name → KeysUnique Column.name t.columns →
      KeysUnique Column.name u.columns → ∀ c ∈ t.columns, c.type.isTextual →
        ((u.charsets d).afterAll ((TableChanges.between t u d).alterations d).up).column c.name =
          some (c.declaredCharset (t.effectiveCharset d)) := by
  intro h
  have hcode := h Sample.country Sample.latinCountry {} rfl (by decide) (by decide) Sample.countryCode
    List.mem_cons_self rfl
  revert hcode
  decide

end SchemaMigration
