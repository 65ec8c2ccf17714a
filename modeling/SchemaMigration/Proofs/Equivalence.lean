import SchemaMigration.Proofs.KeyedChanges

/-!
# When two definitions are the same

What it means, apart from how it is detected, that two columns, indexes, foreign keys or tables are defined alike. Each
side of a comparison brings the character set and the collation of a table (`TextSetting`), which stand in for what a
column leaves open; the two settings may differ.

* `Column.same_iff`, `Index.same_iff` and `ForeignKey.same_iff`: what the comparisons of `SchemaMigration.Diff.Detect`
  decide, columns being compared in one setting.
* `Table.equivalentIn_own_iff`: it makes no difference whether the observed table's setting is used on either side or
  each side's own.
-/

namespace SchemaMigration

/-! ## Columns, indexes and foreign keys -/

/-- What a table provides for columns that name no character set or collation. -/
structure TextSetting where
  charset : String
  collation : String

namespace Column

/-- The character set of a column in a table with the given setting. -/
def charsetIn (p : TextSetting) (c : Column) : String :=
  c.charset.getD p.charset

/-- The collation of a column in a table with the given setting: the table's goes with its character set only. -/
def collationIn (p : TextSetting) (c : Column) : String :=
  c.collate.getD (if c.charsetIn p = p.charset then p.collation else "")

/-- Two columns, each in a setting of its own, are defined alike. -/
structure EquivalentIn (p q : TextSetting) (a b : Column) : Prop where
  name : a.name = b.name
  type : a.type = b.type
  nullable : a.nullable = b.nullable
  defaultValue : a.defaultValue = b.defaultValue
  onUpdateTimestamp : a.onUpdateTimestamp = b.onUpdateTimestamp
  unsigned : a.unsigned = b.unsigned
  zerofill : a.zerofill = b.zerofill
  autoIncrement : a.autoIncrement = b.autoIncrement
  comment : a.comment.getD "" = b.comment.getD ""
  /-- What matters of a text only. -/
  text : a.type.isTextual = true →
    a.binary = b.binary ∧ a.charsetIn p = b.charsetIn q ∧ a.collationIn p = b.collationIn q

theorem EquivalentIn.refl (p : TextSetting) (a : Column) : a.EquivalentIn p p a :=
  ⟨rfl, rfl, rfl, rfl, rfl, rfl, rfl, rfl, rfl, fun _ => ⟨rfl, rfl, rfl⟩⟩

end Column

theorem nonempty?_eq_iff (a b : Option String) : nonempty? a = nonempty? b ↔ a.getD "" = b.getD "" := by
  have hsome : ∀ s : String, nonempty? (some s) = if s = "" then none else some s := fun s => by
    by_cases hs : s = "" <;> simp [nonempty?, Option.filter, hs]
  have hnone : nonempty? none = none := rfl
  cases a with
  | none =>
    cases b with
    | none => simp
    | some b => by_cases hb : b = "" <;> simp [hsome, hnone, hb, eq_comm]
  | some a =>
    cases b with
    | none => by_cases ha : a = "" <;> simp [hsome, hnone, ha]
    | some b => by_cases ha : a = "" <;> by_cases hb : b = "" <;> simp [hsome, ha, hb, eq_comm]

namespace Column

theorem resolved_of_isTextual (p : TextSetting) {c : Column} (h : c.type.isTextual = true) :
    c.resolved p.charset p.collation =
      { c with
        charset := some (c.charsetIn p)
        collate := some (c.collationIn p)
        comment := nonempty? c.comment } := by
  by_cases hp : c.charset.getD p.charset = p.charset <;> simp [resolved, h, charsetIn, collationIn, hp]

theorem resolved_of_not_isTextual (p : TextSetting) {c : Column} (h : c.type.isTextual = false) :
    c.resolved p.charset p.collation =
      { c with charset := none, collate := none, binary := false, comment := nonempty? c.comment } := by
  simp [resolved, h]

@[simp]
theorem type_resolved (charset collation : String) (c : Column) : (c.resolved charset collation).type = c.type := by
  cases h : c.type.isTextual <;> simp [resolved, h]

/-- Columns are compared as definitions in one setting. -/
theorem same_iff (p : TextSetting) (a b : Column) :
    Column.same p.charset p.collation a b = true ↔ a.EquivalentIn p p b := by
  rw [Column.same, beq_iff_eq]
  constructor
  · intro h
    have htype : a.type = b.type := by simpa using congrArg Column.type h
    cases ha : a.type.isTextual with
    | true =>
      rw [resolved_of_isTextual p ha, resolved_of_isTextual p (htype ▸ ha)] at h
      injection h with name type nullable default onUpdate unsigned zerofill auto binary charset collate comment
      exact ⟨name, type, nullable, default, onUpdate, unsigned, zerofill, auto, (nonempty?_eq_iff ..).1 comment,
        fun _ => ⟨binary, Option.some.inj charset, Option.some.inj collate⟩⟩
    | false =>
      rw [resolved_of_not_isTextual p ha, resolved_of_not_isTextual p (htype ▸ ha)] at h
      injection h with name type nullable default onUpdate unsigned zerofill auto _ _ _ comment
      exact ⟨name, type, nullable, default, onUpdate, unsigned, zerofill, auto, (nonempty?_eq_iff ..).1 comment,
        fun h => by rw [ha] at h; cases h⟩
  · intro h
    have hcomment := (nonempty?_eq_iff ..).2 h.comment
    cases ha : a.type.isTextual with
    | true =>
      obtain ⟨hbinary, hcharset, hcollate⟩ := h.text ha
      rw [resolved_of_isTextual p ha, resolved_of_isTextual p (h.type ▸ ha), Column.mk.injEq]
      exact ⟨h.name, h.type, h.nullable, h.defaultValue, h.onUpdateTimestamp, h.unsigned, h.zerofill, h.autoIncrement,
        hbinary, congrArg some hcharset, congrArg some hcollate, hcomment⟩
    | false =>
      rw [resolved_of_not_isTextual p ha, resolved_of_not_isTextual p (h.type ▸ ha), Column.mk.injEq]
      exact ⟨h.name, h.type, h.nullable, h.defaultValue, h.onUpdateTimestamp, h.unsigned, h.zerofill, h.autoIncrement,
        rfl, rfl, rfl, hcomment⟩

end Column

namespace Index

/-- Two indexes are defined alike; the name of a primary key does not count. -/
structure Equivalent (i j : Index) : Prop where
  kind : i.kind = j.kind
  columns : i.columns = j.columns
  name : i.isPrimary = false → i.name = j.name

theorem Equivalent.refl (i : Index) : i.Equivalent i :=
  ⟨rfl, rfl, fun _ => rfl⟩

theorem isPrimary_eq_of_kind_eq {i j : Index} (h : i.kind = j.kind) : i.isPrimary = j.isPrimary := by
  rw [isPrimary, isPrimary, h]

theorem Equivalent.key_eq {i j : Index} (h : i.Equivalent j) : i.key = j.key := by
  rw [key, key, ← isPrimary_eq_of_kind_eq h.kind]
  split
  · rfl
  · next hprimary => exact h.name (by simpa using hprimary)

theorem same_iff {i j : Index} (h : i.key = j.key) : Index.same i j = true ↔ i.Equivalent j := by
  simp only [Index.same, Bool.and_eq_true, beq_iff_eq]
  constructor
  · rintro ⟨hkind, hcolumns⟩
    refine ⟨hkind, hcolumns, fun hprimary => ?_⟩
    have hj : j.isPrimary = false := (isPrimary_eq_of_kind_eq hkind).symm.trans hprimary
    simpa [key, hprimary, hj] using h
  · exact fun h => ⟨h.kind, h.columns⟩

end Index

namespace ReferenceAction

/-- The action is to refuse, whether or not it is written out. -/
def Restricts (a : Option ReferenceAction) : Prop :=
  a = none ∨ a = some .restrict ∨ a = some .noAction

instance (a : Option ReferenceAction) : Decidable (Restricts a) :=
  inferInstanceAs (Decidable (_ ∨ _ ∨ _))

theorem effective_eq_iff (a b : Option ReferenceAction) :
    effective a = effective b ↔ a = b ∨ (Restricts a ∧ Restricts b) := by
  cases a with
  | none =>
    cases b with
    | none => decide
    | some b => cases b <;> decide
  | some a =>
    cases b with
    | none => cases a <;> decide
    | some b => cases a <;> cases b <;> decide

end ReferenceAction

namespace ForeignKey

/-- Two foreign keys are defined alike; all ways to refuse are one action. -/
structure Equivalent (k l : ForeignKey) : Prop where
  name : k.name = l.name
  columns : k.columns = l.columns
  referencesTable : k.referencesTable = l.referencesTable
  referencesColumns : k.referencesColumns = l.referencesColumns
  onDelete : k.onDelete = l.onDelete ∨ (ReferenceAction.Restricts k.onDelete ∧ ReferenceAction.Restricts l.onDelete)
  onUpdate : k.onUpdate = l.onUpdate ∨ (ReferenceAction.Restricts k.onUpdate ∧ ReferenceAction.Restricts l.onUpdate)

theorem Equivalent.refl (k : ForeignKey) : k.Equivalent k :=
  ⟨rfl, rfl, rfl, rfl, .inl rfl, .inl rfl⟩

theorem same_iff {k l : ForeignKey} (h : k.name = l.name) : ForeignKey.same k l = true ↔ k.Equivalent l := by
  simp only [ForeignKey.same, Bool.and_eq_true, beq_iff_eq, ReferenceAction.effective_eq_iff]
  constructor
  · rintro ⟨⟨⟨⟨hcolumns, htable⟩, hreferenced⟩, hdelete⟩, hupdate⟩
    exact ⟨h, hcolumns, htable, hreferenced, hdelete, hupdate⟩
  · exact fun h => ⟨⟨⟨⟨h.columns, h.referencesTable⟩, h.referencesColumns⟩, h.onDelete⟩, h.onUpdate⟩

end ForeignKey

/-! ## Tables -/

namespace Table

/-- What a table on a server with the given defaults provides for its columns. -/
def textSetting (t : Table) (d : Defaults) : TextSetting :=
  { charset := t.effectiveCharset d, collation := t.effectiveCollation d }

/-- Two tables on a server with the given defaults are defined alike: the same options, and the same columns, indexes
and foreign keys in whatever order, columns each in the setting of its side. -/
structure EquivalentIn (d : Defaults) (p q : TextSetting) (t u : Table) : Prop where
  name : t.name = u.name
  engine : t.effectiveEngine d = u.effectiveEngine d
  charset : t.effectiveCharset d = u.effectiveCharset d
  collation : t.effectiveCollation d = u.effectiveCollation d
  columns : SameByKey Column.name (Column.EquivalentIn p q) t.columns u.columns
  indexes : SameByKey Index.key Index.Equivalent t.indexes u.indexes
  relations : SameByKey ForeignKey.name ForeignKey.Equivalent t.relations u.relations

theorem EquivalentIn.refl {t : Table} (h : t.NamesUnique) (d : Defaults) (p : TextSetting) :
    t.EquivalentIn d p p t where
  name := rfl
  engine := rfl
  charset := rfl
  collation := rfl
  columns := .refl h.columns (Column.EquivalentIn.refl p)
  indexes := .refl h.indexes Index.Equivalent.refl
  relations := .refl h.relations ForeignKey.Equivalent.refl

/-- Equivalent tables have one setting: that of the second serves for both. -/
theorem equivalentIn_own_iff (d : Defaults) (t u : Table) :
    t.EquivalentIn d (t.textSetting d) (u.textSetting d) u ↔
      t.EquivalentIn d (u.textSetting d) (u.textSetting d) u := by
  have hsetting : t.effectiveCharset d = u.effectiveCharset d → t.effectiveCollation d = u.effectiveCollation d →
      t.textSetting d = u.textSetting d := fun hcharset hcollation => by
    rw [textSetting, textSetting, hcharset, hcollation]
  constructor
  · intro h
    rwa [hsetting h.charset h.collation] at h
  · intro h
    rwa [hsetting h.charset h.collation]

end Table

end SchemaMigration
