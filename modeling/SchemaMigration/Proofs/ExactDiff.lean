import SchemaMigration.Proofs.Equivalence
import SchemaMigration.Proofs.Replay

/-!
# The diff is exactly the difference

Replayed on the observed schema, the differences found between two schemas give the declared one, up to what counts as
the same definition; every part of a difference is taken from one of the schemas as it stands there, and none could be
left out (`Schema.exactDiff_diff`). Inside a table `TableChanges.Exact` says the same of its changes; there are none
exactly if the two tables are equivalent (`TableChanges.Exact.isEmpty_iff`).
-/

namespace SchemaMigration

/-! ## Inside a table -/

namespace TableChanges

/-- The observed table once the changes are made: options that changed are the declared ones. -/
def replayed (c : TableChanges) : Table :=
  { c.observed with
    engine := if c.engineChanged then c.declared.engine else c.observed.engine
    charset := if c.charsetChanged then c.declared.charset else c.observed.charset
    collation := if c.collationChanged then c.declared.collation else c.observed.collation
    columns := Change.replay c.columns c.observed.columns
    indexes := Change.replay c.indexes c.observed.indexes
    relations := Change.replay c.relations c.observed.relations }

/-- The changes are exactly those between the two tables, columns being compared in the observed one. -/
structure Exact (d : Defaults) (c : TableChanges) : Prop where
  name : c.declared.name = c.observed.name
  engine : c.engineChanged = true ↔ c.declared.effectiveEngine d ≠ c.observed.effectiveEngine d
  charset : c.charsetChanged = true ↔ c.declared.effectiveCharset d ≠ c.observed.effectiveCharset d
  collation : c.collationChanged = true ↔ c.declared.effectiveCollation d ≠ c.observed.effectiveCollation d
  columns : ExactChanges Column.name (Column.EquivalentIn (c.observed.textSetting d) (c.observed.textSetting d))
    c.declared.columns c.observed.columns c.columns
  indexes : ExactChanges Index.key Index.Equivalent c.declared.indexes c.observed.indexes c.indexes
  relations : ExactChanges ForeignKey.name ForeignKey.Equivalent c.declared.relations c.observed.relations c.relations

theorem exact_between {t u : Table} (ht : t.NamesUnique) (hu : u.NamesUnique) (hname : t.name = u.name)
    (d : Defaults) : (between t u d).Exact d where
  name := hname
  engine := bne_iff_ne
  charset := bne_iff_ne
  collation := bne_iff_ne
  columns := exactChanges_changesByKey ht.columns hu.columns (fun {a b} _ => Column.same_iff (u.textSetting d) a b)
    (Column.EquivalentIn.refl _)
  indexes := exactChanges_changesByKey ht.indexes hu.indexes Index.same_iff Index.Equivalent.refl
  relations := exactChanges_changesByKey ht.relations hu.relations ForeignKey.same_iff ForeignKey.Equivalent.refl

namespace Exact

variable {d : Defaults} {c : TableChanges}

/-- There are no changes if and only if the tables are equivalent. -/
theorem isEmpty_iff (h : c.Exact d) :
    c.isEmpty = true ↔
      c.declared.EquivalentIn d (c.observed.textSetting d) (c.observed.textSetting d) c.observed := by
  have hflag : ∀ {b : Bool} {x y : String}, (b = true ↔ x ≠ y) → (b = false ↔ x = y) := fun h => by
    rw [← Bool.not_eq_true, h, not_not]
  simp only [isEmpty, Bool.and_eq_true, Bool.not_eq_true', List.isEmpty_iff, hflag h.engine, hflag h.charset,
    hflag h.collation, h.columns.eq_nil_iff, h.indexes.eq_nil_iff, h.relations.eq_nil_iff]
  constructor
  · rintro ⟨⟨⟨⟨⟨hengine, hcharset⟩, hcollation⟩, hcolumns⟩, hindexes⟩, hrelations⟩
    exact ⟨h.name, hengine, hcharset, hcollation, hcolumns, hindexes, hrelations⟩
  · intro he
    exact ⟨⟨⟨⟨⟨he.engine, he.charset⟩, he.collation⟩, he.columns⟩, he.indexes⟩, he.relations⟩

/-- Once the changes are made, the table is the declared one. -/
theorem equivalentIn_replayed (h : c.Exact d) :
    c.declared.EquivalentIn d (c.observed.textSetting d) (c.observed.textSetting d) c.replayed := by
  -- an option that is not taken over is in force on either side already
  have hoption : ∀ {b : Bool} {x y : Option String} {z : String}, (b = true ↔ x.getD z ≠ y.getD z) →
      x.getD z = (if b then x else y).getD z := by
    intro b x y z hb
    cases b with
    | true => rfl
    | false => exact not_not.1 fun hne => Bool.noConfusion (hb.2 hne)
  exact
    { name := h.name
      engine := hoption h.engine
      charset := hoption h.charset
      collation := hoption h.collation
      columns := h.columns.complete
      indexes := h.indexes.complete
      relations := h.relations.complete }

end Exact

end TableChanges

/-! ## Between schemas -/

/-- The difference in a table as one change of the table. -/
def TableDiff.asChange : TableDiff → Change Table
  | added t => .added t
  | removed u => .removed u
  | altered c => .altered c.replayed c.observed

/-- A difference that is needed between two schemas, and whose tables stand there as they are in it. -/
def TableDiff.Justified (declared observed : Schema) : TableDiff → Prop
  | added t => t ∈ declared.tables ∧ ∀ u ∈ observed.tables, u.name ≠ t.name
  | removed u => u ∈ observed.tables ∧ ∀ t ∈ declared.tables, t.name ≠ u.name
  | altered c =>
    c.declared ∈ declared.tables ∧ c.observed ∈ observed.tables ∧ c.Exact observed.defaults ∧ c.isEmpty = false

namespace Schema

/-- The schema once the differences are made. -/
def replay (s : Schema) (diffs : List TableDiff) : Schema :=
  { s with tables := Change.replay (diffs.map TableDiff.asChange) s.tables }

/-- The setting of the table with a name, and that of the server where there is no such table. -/
def textSetting (s : Schema) (name : String) : TextSetting :=
  match withKey? Table.name name s.tables with
  | some t => t.textSetting s.defaults
  | none => { charset := s.defaults.charset, collation := s.defaults.collation }

/-- The differences are exactly those from `observed` to `declared`, some tables ignored on both sides. -/
structure ExactDiff (declared observed : Schema) (ignored : List String) (diffs : List TableDiff) : Prop where
  /-- No two differences are about one table. -/
  once : KeysUnique TableDiff.name diffs
  /-- None is about an ignored table. -/
  notIgnored : ∀ diff ∈ diffs, diff.name ∉ ignored
  /-- None could be left out, and all they say stands in one of the schemas. -/
  justified : ∀ diff ∈ diffs, diff.Justified declared observed
  /-- None is missing: once they are made, the tables are the declared ones. -/
  complete :
    SameByKey Table.name
      (fun t w => t.EquivalentIn observed.defaults (observed.textSetting t.name) (observed.textSetting t.name) w)
      (declared.without ignored).tables ((observed.replay diffs).without ignored).tables
  /-- Ignored tables are left alone. -/
  ignoredKept : ∀ t, t.name ∈ ignored → (t ∈ (observed.replay diffs).tables ↔ t ∈ observed.tables)

/-- The difference between two tables on a server with the given defaults, unless they are the same. -/
def alteredTable? (d : Defaults) (t u : Table) : Option TableDiff :=
  if (TableChanges.between t u d).isEmpty then none else some (.altered (TableChanges.between t u d))

theorem keepsKey_tableDiff (d : Defaults) :
    KeepsKey Table.name TableDiff.name (alteredTable? d) .added .removed where
  both := by
    intro t u diff _ h
    simp only [alteredTable?, Option.ite_none_left_eq_some, Option.some.injEq] at h
    obtain ⟨-, rfl⟩ := h
    rfl
  added _ := rfl
  removed _ := rfl

theorem without_tables (s : Schema) (names : List String) :
    (s.without names).tables = s.tables.filter fun t => !names.contains t.name := rfl

theorem withKey?_without (s : Schema) (names : List String) (k : String) :
    withKey? Table.name k (s.without names).tables =
      if names.contains k then none else withKey? Table.name k s.tables := by
  rw [without_tables, withKey?_filter fun n => !names.contains n]
  cases names.contains k <;> rfl

theorem diff_eq (declared observed : Schema) (ignored : List String) :
    declared.diff observed ignored =
      differencesByKey Table.name (alteredTable? observed.defaults) .added .removed
        (declared.without ignored).tables (observed.without ignored).tables := by
  rw [diff, differencesByKey]
  congr 1
  · refine List.filterMap_congr fun t _ => ?_
    cases lastWithKey Table.name t.name (observed.without ignored).tables <;> rfl
  · -- a table that is not ignored is declared if and only if it is declared and not ignored
    refine congrArg (List.map _) (List.filter_congr fun u hu => congrArg not ?_)
    have hu' : ignored.contains u.name = false := by simpa using (List.mem_filter.1 hu).2
    rw [without_tables, List.any_filter]
    refine List.any_congr rfl fun t => ?_
    cases h : t.name == u.name with
    | false => simp
    | true => rw [beq_iff_eq.1 h, hu']; rfl

section ExactDiff

variable {declared observed : Schema} {ignored : List String}

theorem NamesUnique.without {s : Schema} (h : s.NamesUnique) (names : List String) :
    (s.without names).NamesUnique where
  tables := h.tables.filter _
  inside t ht := h.inside t (List.mem_filter.1 ht).1

/-- The difference with a name, from what the two schemas hold under that name. -/
theorem withKey?_diff (hd : declared.NamesUnique) (ho : observed.NamesUnique) (k : String) :
    withKey? TableDiff.name k (declared.diff observed ignored) =
      if ignored.contains k then none
      else differenceAt? (alteredTable? observed.defaults) .added .removed (withKey? Table.name k declared.tables)
        (withKey? Table.name k observed.tables) := by
  rw [diff_eq, withKey?_differencesByKey (keepsKey_tableDiff _) (hd.without ignored).tables (ho.without ignored).tables,
    withKey?_without, withKey?_without]
  cases ignored.contains k <;> rfl

theorem diff_keysUnique (hd : declared.NamesUnique) (ho : observed.NamesUnique) :
    KeysUnique TableDiff.name (declared.diff observed ignored) := by
  rw [diff_eq]
  exact differencesByKey_keysUnique (keepsKey_tableDiff _) (hd.without ignored).tables (ho.without ignored).tables

/-- The differences are those between the tables with one name, for each name that is not ignored. -/
theorem mem_diff_iff (hd : declared.NamesUnique) (ho : observed.NamesUnique) {diff : TableDiff} :
    diff ∈ declared.diff observed ignored ↔
      diff.name ∉ ignored ∧
        differenceAt? (alteredTable? observed.defaults) .added .removed
          (withKey? Table.name diff.name declared.tables) (withKey? Table.name diff.name observed.tables) =
            some diff := by
  have hmem : diff ∈ declared.diff observed ignored ↔
      withKey? TableDiff.name diff.name (declared.diff observed ignored) = some diff := by
    rw [(diff_keysUnique hd ho).withKey?_eq_some_iff]
    exact (and_iff_left rfl).symm
  rw [hmem, withKey?_diff hd ho]
  by_cases hi : diff.name ∈ ignored <;> simp [hi]

/-- What there is between the tables with one name is needed. -/
theorem justified_of_differenceAt? (hd : declared.NamesUnique) (ho : observed.NamesUnique) {diff : TableDiff}
    (hat : differenceAt? (alteredTable? observed.defaults) .added .removed
      (withKey? Table.name diff.name declared.tables) (withKey? Table.name diff.name observed.tables) = some diff) :
    diff.Justified declared observed := by
  cases ht : withKey? Table.name diff.name declared.tables with
  | none =>
    cases hu : withKey? Table.name diff.name observed.tables with
    | none => rw [ht, hu] at hat; cases hat
    | some u =>
      rw [ht, hu] at hat
      cases hat
      exact ⟨mem_of_withKey? hu, withKey?_eq_none_iff.1 ht⟩
  | some t =>
    cases hu : withKey? Table.name diff.name observed.tables with
    | none =>
      rw [ht, hu] at hat
      cases hat
      exact ⟨mem_of_withKey? ht, withKey?_eq_none_iff.1 hu⟩
    | some u =>
      rw [ht, hu] at hat
      simp only [differenceAt?, alteredTable?, Option.ite_none_left_eq_some, Option.some.injEq] at hat
      obtain ⟨hempty, rfl⟩ := hat
      have hname : t.name = u.name := (key_of_withKey? ht).trans (key_of_withKey? hu).symm
      have htm := mem_of_withKey? ht
      have hum := mem_of_withKey? hu
      exact ⟨htm, hum, TableChanges.exact_between (hd.inside t htm) (ho.inside u hum) hname _,
        by simpa using hempty⟩

theorem justified_of_mem_diff (hd : declared.NamesUnique) (ho : observed.NamesUnique) {diff : TableDiff}
    (h : diff ∈ declared.diff observed ignored) : diff.Justified declared observed :=
  justified_of_differenceAt? hd ho ((mem_diff_iff hd ho).1 h).2

/-- The changes that the differences make of tables have the names of the tables. -/
theorem key_asChange (hd : declared.NamesUnique) (ho : observed.NamesUnique) {diff : TableDiff}
    (h : diff ∈ declared.diff observed ignored) : diff.asChange.key Table.name = diff.name := by
  have hj := justified_of_mem_diff hd ho h
  cases diff with
  | added _ | removed _ => rfl
  | altered c => exact hj.2.2.1.name.symm

theorem fits_asChange (hd : declared.NamesUnique) (ho : observed.NamesUnique) {diff : TableDiff}
    (h : diff ∈ declared.diff observed ignored) : diff.asChange.Fits Table.name observed.tables := by
  have hj := justified_of_mem_diff hd ho h
  cases diff with
  | added t => exact ⟨fun _ _ _ hy => (nomatch hy), (withKey?_eq_none_iff.2 hj.2).symm⟩
  | removed u => exact ⟨fun _ hx => (nomatch hx), (ho.tables.withKey?_key hj.1).symm⟩
  | altered c =>
    refine ⟨fun x hx y hy => ?_, (ho.tables.withKey?_key hj.2.1).symm⟩
    cases hx
    cases hy
    rfl

/-- Once the differences are made, a name reads what the difference in its table leaves, or the observed table where
there is none. -/
theorem withKey?_replay_diff (hd : declared.NamesUnique) (ho : observed.NamesUnique) (ignored : List String) :
    KeysUnique Table.name (observed.replay (declared.diff observed ignored)).tables ∧
      ∀ k, withKey? Table.name k (observed.replay (declared.diff observed ignored)).tables =
        match withKey? TableDiff.name k (declared.diff observed ignored) with
        | some diff => diff.asChange.declared?
        | none => withKey? Table.name k observed.tables := by
  have hkey : ∀ diff ∈ declared.diff observed ignored, diff.asChange.key Table.name = diff.name :=
    fun _ => key_asChange hd ho
  have hfits : ∀ c ∈ (declared.diff observed ignored).map TableDiff.asChange, c.Fits Table.name observed.tables :=
    List.forall_mem_map.2 fun _ => fits_asChange hd ho
  obtain ⟨hunique, hread⟩ := Change.withKey?_replay ((diff_keysUnique hd ho).map hkey) ho.tables hfits
  refine ⟨hunique, fun k => ?_⟩
  rw [replay, hread k, withKey?_map hkey]
  cases withKey? TableDiff.name k (declared.diff observed ignored) <;> rfl

/-- The differences that are found are exactly those between the two schemas. -/
theorem exactDiff_diff (hd : declared.NamesUnique) (ho : observed.NamesUnique) (ignored : List String) :
    ExactDiff declared observed ignored (declared.diff observed ignored) := by
  obtain ⟨hunique, hread⟩ := withKey?_replay_diff hd ho ignored
  refine ⟨diff_keysUnique hd ho, fun _ h => ((mem_diff_iff hd ho).1 h).1, fun _ => justified_of_mem_diff hd ho, ?_, ?_⟩
  · have hunique' : KeysUnique Table.name
        ((observed.replay (declared.diff observed ignored)).without ignored).tables := hunique.filter _
    refine (sameByKey_iff (hd.without ignored).tables hunique').2 fun k => ?_
    rw [withKey?_without, withKey?_without, hread, withKey?_diff hd ho]
    cases hi : ignored.contains k with
    | true => exact .none
    | false =>
      cases ht : withKey? Table.name k declared.tables with
      | none => cases withKey? Table.name k observed.tables <;> exact .none
      | some t =>
        obtain ⟨htm, rfl⟩ := hd.tables.withKey?_eq_some_iff.1 ht
        cases hu : withKey? Table.name t.name observed.tables with
        | none => exact .some (.refl (hd.inside t htm) _ _)
        | some u =>
          have hname : t.name = u.name := (key_of_withKey? hu).symm
          have hsetting : observed.textSetting t.name = u.textSetting observed.defaults := by rw [textSetting, hu]
          have hexact := TableChanges.exact_between (hd.inside t htm) (ho.inside u (mem_of_withKey? hu)) hname
            observed.defaults
          cases hempty : (TableChanges.between t u observed.defaults).isEmpty with
          | true =>
            simp only [differenceAt?, alteredTable?, hempty]
            refine .some ?_
            rw [hsetting]
            exact hexact.isEmpty_iff.1 hempty
          | false =>
            simp only [differenceAt?, alteredTable?, hempty]
            refine .some ?_
            rw [hsetting]
            exact hexact.equivalentIn_replayed
  · intro t ht
    have hat := hread t.name
    rw [withKey?_diff hd ho, if_pos (List.contains_iff_mem.2 ht)] at hat
    have hleft : t ∈ (observed.replay (declared.diff observed ignored)).tables ↔ _ :=
      (and_iff_left rfl).symm.trans (hunique.withKey?_eq_some_iff (k := t.name)).symm
    rw [hleft, hat, ho.tables.withKey?_eq_some_iff]
    exact and_iff_left rfl

end ExactDiff

/-- A declared schema: customers, their orders, and a table that is ignored. -/
def shop : Schema :=
  { tables := [
      { name := "customers"
        columns := [
          { name := "id", type := .integer .big 20, nullable := false },
          { name := "name", type := .length .varChar 80, charset := some "latin1", comment := some "" },
          { name := "born", type := .temporal .date }]
        indexes := [.primary ["id"], { name := "by_name", kind := .unique, columns := ["name"] }]
        charset := some "latin1" },
      { name := "orders"
        columns := [{ name := "customer", type := .integer .big 20 }]
        relations := [
          { name := "placed_by", columns := ["customer"], referencesTable := "customers", referencesColumns := ["id"],
            onDelete := some .noAction }] },
      { name := "cache", columns := [{ name := "entry", type := .json }] }] }

/-- What a server has instead: another index on the customers, and carts in place of orders. -/
def oldShop : Schema :=
  { tables := [
      { name := "carts", columns := [{ name := "customer", type := .integer .big 20 }] },
      { name := "customers"
        columns := [
          { name := "name", type := .length .varChar 80 },
          { name := "id", type := .integer .big 20, nullable := false, charset := some "ascii" }]
        indexes := [
          { name := "by_name", kind := .key, columns := ["name"] },
          { name := "pk", kind := .primary, columns := ["id"] }]
        charset := some "latin1" },
      { name := "cache", columns := [{ name := "entry", type := .blob .long }] }] }

/-- Tables to alter, add and remove, and one to ignore. -/
theorem exactDiff_diff_shop :
    shop.NamesUnique ∧ oldShop.NamesUnique ∧
      (shop.diff oldShop ["cache"]).map TableDiff.name = ["customers", "orders", "carts"] ∧
      ExactDiff shop oldShop ["cache"] (shop.diff oldShop ["cache"]) :=
  ⟨by decide, by decide, by decide, exactDiff_diff (by decide) (by decide) _⟩

end Schema

end SchemaMigration
