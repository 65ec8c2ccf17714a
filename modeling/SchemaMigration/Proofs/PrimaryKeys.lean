import SchemaMigration.Proofs.Inversion
import SchemaMigration.Proofs.RoundTrip

/-!
# Primary keys during a migration

A table has one primary key at most. It is declared by an index or by the definition of a column that numbers its rows,
and it ends when it is dropped or with the last of its columns (`Alteration.keyAfter`). A list of alterations declares
keys in turn if none of them declares a key while one is in force (`Alteration.KeysInTurn`).

The alterations of columns and those of indexes are put together without regard to each other, so they do not always
keep to this. They do exactly if the table's key is declared from one side only, and a key that was in force before has
ended by then (`keysInTurn_alterations_iff`).
-/

namespace SchemaMigration

open Ddl (Alteration)

/-! ## What alterations do to the key -/

/-- What is left of a key without one of its columns; nothing, if that was the last one. -/
def keyWithout (name : String) (key : List String) : Option (List String) :=
  if key ≠ [] ∧ key.filter (· ≠ name) = [] then none else some (key.filter (· ≠ name))

namespace Ddl.Alteration

/-- The columns of the primary key that an alteration declares. -/
def declaresKey? : Alteration → Option (List String)
  | addIndex i => if i.isPrimary then some i.columns else none
  | addColumn c _ | changeColumn c _ => if c.isAutoPrimaryKey then some [c.name] else none
  | setEngine _ | convert .. | dropColumn _ | dropPrimaryKey | dropIndex _ | addRelation _ | dropRelation _ => none

/-- The primary key in force after an alteration, by its columns. -/
def keyAfter (key : Option (List String)) : Alteration → Option (List String)
  | dropPrimaryKey => none
  | dropColumn name => key.bind (keyWithout name)
  | a => a.declaresKey?.or key

/-- The primary key in force after alterations in their order. -/
def keyAfterAll (key : Option (List String)) (as : List Alteration) : Option (List String) :=
  as.foldl keyAfter key

/-- None of the alterations, in their order, declares a primary key while one is in force. -/
def KeysInTurn : Option (List String) → List Alteration → Prop
  | _, [] => True
  | key, a :: as => (a.declaresKey?.isSome → key = none) ∧ KeysInTurn (keyAfter key a) as

instance decidableKeysInTurn : (key : Option (List String)) → (as : List Alteration) → Decidable (KeysInTurn key as)
  | _, [] => isTrue trivial
  | key, a :: as =>
    have := decidableKeysInTurn (keyAfter key a) as
    inferInstanceAs (Decidable ((a.declaresKey?.isSome → key = none) ∧ KeysInTurn (keyAfter key a) as))

/-- The alteration can begin or end a primary key. -/
def touchesKey : Alteration → Bool
  | dropPrimaryKey | dropColumn _ => true
  | a => a.declaresKey?.isSome

variable {key : Option (List String)}

theorem keyAfterAll_append (as bs : List Alteration) :
    keyAfterAll key (as ++ bs) = keyAfterAll (keyAfterAll key as) bs :=
  List.foldl_append

theorem keysInTurn_append (as bs : List Alteration) :
    KeysInTurn key (as ++ bs) ↔ KeysInTurn key as ∧ KeysInTurn (keyAfterAll key as) bs := by
  induction as generalizing key with
  | nil => simp [KeysInTurn, keyAfterAll]
  | cons a as ih => simp [KeysInTurn, keyAfterAll, ih, and_assoc]

theorem declaresKey?_of_not_touchesKey {a : Alteration} (h : a.touchesKey = false) : a.declaresKey? = none := by
  cases a with
  | dropPrimaryKey | dropColumn => rfl
  | _ => simpa [touchesKey] using h

theorem keyAfter_of_not_touchesKey {a : Alteration} (h : a.touchesKey = false) : keyAfter key a = key := by
  have hnone := declaresKey?_of_not_touchesKey h
  cases a with
  | dropPrimaryKey | dropColumn => cases h
  | _ => simp [keyAfter, hnone]

/-- Only the alterations that touch a key matter. -/
theorem keysInTurn_iff_filter (as : List Alteration) : KeysInTurn key as ↔ KeysInTurn key (as.filter touchesKey) := by
  induction as generalizing key with
  | nil => rfl
  | cons a as ih =>
    cases ha : a.touchesKey with
    | true => rw [List.filter_cons_of_pos ha, KeysInTurn, KeysInTurn, ih]
    | false =>
      rw [List.filter_cons_of_neg (by simp [ha]), KeysInTurn, declaresKey?_of_not_touchesKey ha,
        keyAfter_of_not_touchesKey ha, ih]
      simp

/-- Drops declare no key. -/
theorem keysInTurn_of_forall {as : List Alteration} (h : ∀ a ∈ as, a.declaresKey? = none) : KeysInTurn key as := by
  induction as generalizing key with
  | nil => trivial
  | cons a as ih =>
    obtain ⟨ha, has⟩ := List.forall_mem_cons.1 h
    exact ⟨by simp [ha], ih has⟩

/-- A key declared is in force. -/
theorem keyAfter_of_declaresKey {a : Alteration} {columns : List String} (h : a.declaresKey? = some columns) :
    keyAfter key a = some columns := by
  cases a with
  | dropPrimaryKey | dropColumn => cases h
  | _ => simp [keyAfter, h]

/-- A declaration after drops needs the key to have ended with them. -/
theorem keysInTurn_concat {as : List Alteration} {a : Alteration} (has : ∀ b ∈ as, b.declaresKey? = none)
    (ha : a.declaresKey?.isSome) : KeysInTurn key (as ++ [a]) ↔ keyAfterAll key as = none := by
  rw [keysInTurn_append]
  simp [keysInTurn_of_forall has, KeysInTurn, ha]

/-- Two declarations are one too many where nothing ends the first key. -/
theorem not_keysInTurn_two {as : List Alteration} {a b : Alteration} (ha : a.declaresKey?.isSome)
    (hb : b.declaresKey?.isSome) : ¬ KeysInTurn key (as ++ [a, b]) := by
  obtain ⟨columns, hcolumns⟩ := Option.isSome_iff_exists.1 ha
  rw [keysInTurn_append]
  rintro ⟨-, -, hnone, -⟩
  simpa [keyAfter_of_declaresKey hcolumns] using hnone hb

section DropsAhead

variable {text : Alteration → String} {as : List Alteration} {a b : Alteration}

/-- Drops stay between the declarations that say `DROP` and stand before them, and all others. -/
theorem dropsToFront_around (h : ∀ x ∈ as, saysDrop (text x) = true ∧ x.declaresKey? = none) (bs cs : List Alteration) :
    dropsToFront text (bs ++ as ++ cs) =
      bs.filter (fun x => saysDrop (text x)) ++ (as ++ (cs.filter (fun x => saysDrop (text x)) ++
        (bs.filter (fun x => !saysDrop (text x)) ++ cs.filter fun x => !saysDrop (text x)))) := by
  have hkeep : as.filter (fun x => saysDrop (text x)) = as := List.filter_eq_self.2 fun x hx => (h x hx).1
  have hnone : as.filter (fun x => !saysDrop (text x)) = [] :=
    List.filter_eq_nil_iff.2 fun x hx => by simp [(h x hx).1]
  simp only [dropsToFront_eq, List.filter_append, hkeep, hnone, List.nil_append, List.append_assoc]

theorem keysInTurn_drops (h : ∀ x ∈ as, saysDrop (text x) = true ∧ x.declaresKey? = none) :
    KeysInTurn key (dropsToFront text ([] ++ as ++ [])) := by
  rw [dropsToFront_around h]
  simpa using keysInTurn_of_forall fun x hx => (h x hx).2

/-- A declaration after the drops comes after them wherever it is moved. -/
theorem keysInTurn_drops_index (h : ∀ x ∈ as, saysDrop (text x) = true ∧ x.declaresKey? = none)
    (hb : b.declaresKey?.isSome) :
    KeysInTurn key (dropsToFront text ([] ++ as ++ [b])) ↔ keyAfterAll key as = none := by
  rw [dropsToFront_around h, ← keysInTurn_concat (fun x hx => (h x hx).2) hb]
  cases hdrop : saysDrop (text b) <;> simp [hdrop]

/-- A declaration before the drops is moved behind them unless it says `DROP` itself. -/
theorem keysInTurn_column_drops (h : ∀ x ∈ as, saysDrop (text x) = true ∧ x.declaresKey? = none)
    (ha : a.declaresKey?.isSome) :
    KeysInTurn key (dropsToFront text ([a] ++ as ++ [])) ↔
      (saysDrop (text a) = true → key = none) ∧ (saysDrop (text a) = false → keyAfterAll key as = none) := by
  have hnone : ∀ x ∈ as, x.declaresKey? = none := fun x hx => (h x hx).2
  rw [dropsToFront_around h]
  cases hdrop : saysDrop (text a) with
  | true => simp [hdrop, KeysInTurn, ha, keysInTurn_of_forall hnone]
  | false => simp [hdrop, keysInTurn_concat hnone ha]

/-- Two declarations are one too many, if no drop between them can end the first key. -/
theorem not_keysInTurn_column_drops_index (h : ∀ x ∈ as, saysDrop (text x) = true ∧ x.declaresKey? = none)
    (ha : a.declaresKey?.isSome) (hb : b.declaresKey?.isSome) (hbetween : ¬ KeysInTurn key (a :: (as ++ [b]))) :
    ¬ KeysInTurn key (dropsToFront text ([a] ++ as ++ [b])) := by
  rw [dropsToFront_around h]
  cases hdrop : saysDrop (text a) <;> cases hdrop' : saysDrop (text b)
  · simpa [hdrop, hdrop'] using not_keysInTurn_two ha hb
  · simpa [hdrop, hdrop'] using not_keysInTurn_two hb ha
  · simpa [hdrop, hdrop'] using hbetween
  · simpa [hdrop, hdrop'] using hbetween

end DropsAhead

/-- Dropping columns begins no key. -/
theorem keyAfterAll_none_dropColumns (names : List String) : keyAfterAll none (names.map dropColumn) = none := by
  induction names with
  | nil => rfl
  | cons _ names ih => exact ih

/-- Dropping columns ends a key that has no other columns. -/
theorem keyAfterAll_dropColumns (key : List String) (names : List String) :
    keyAfterAll (some key) (names.map dropColumn) = none ↔ key ≠ [] ∧ ∀ name ∈ key, name ∈ names := by
  induction names generalizing key with
  | nil =>
    refine iff_of_false (by simp [keyAfterAll]) fun ⟨hne, hall⟩ => ?_
    obtain ⟨name, hname⟩ := List.exists_mem_of_ne_nil key hne
    exact List.not_mem_nil (hall name hname)
  | cons name names ih =>
    have hstep : keyAfterAll (some key) ((name :: names).map dropColumn) =
        keyAfterAll (keyWithout name key) (names.map dropColumn) := rfl
    rw [hstep, keyWithout]
    by_cases hlast : key ≠ [] ∧ key.filter (· ≠ name) = []
    · rw [if_pos hlast]
      refine iff_of_true (keyAfterAll_none_dropColumns names) ⟨hlast.1, fun other hother => ?_⟩
      have heq : other = name := by simpa using List.filter_eq_nil_iff.1 hlast.2 other hother
      exact heq ▸ List.mem_cons_self
    · rw [if_neg hlast]
      rw [ih]
      constructor
      · rintro ⟨hrest, hall⟩
        refine ⟨?_, fun other hother => ?_⟩
        · rintro rfl
          exact hrest rfl
        · by_cases hname : other = name
          · exact hname ▸ List.mem_cons_self
          · exact List.mem_cons_of_mem _ (hall other (List.mem_filter.2 ⟨hother, by simpa using hname⟩))
      · rintro ⟨hne, hall⟩
        refine ⟨fun hrest => hlast ⟨hne, hrest⟩, fun other hother => ?_⟩
        obtain ⟨hmem, hname⟩ := List.mem_filter.1 hother
        exact (List.mem_cons.1 (hall other hmem)).resolve_left (by simpa using hname)

end Ddl.Alteration

/-- The primary key of a table as it stands on a server: that of its index, or the column that numbers its rows. -/
def Table.primaryKey? (t : Table) : Option (List String) :=
  match t.indexes.find? Index.isPrimary with
  | some i => some i.columns
  | none => (t.columns.find? Column.isAutoPrimaryKey).map fun c => [c.name]

/-! ## Statements that begin and end keys -/

/-- The name of a column that is dropped. -/
def Change.removedColumn? : Change Column → Option String
  | removed c => some c.name
  | added _ | altered .. => none

namespace TableChanges

/-- The names of the columns that are dropped. -/
def removedColumns (c : TableChanges) : List String :=
  c.columns.filterMap Change.removedColumn?

/-- The statements for columns that declare a primary key. -/
def columnDeclarations (c : TableChanges) (d : Defaults) : List Alteration :=
  (c.columns.flatMap fun x => (x.columnAlterations (c.declared.effectiveCharset d)).up).filter (·.declaresKey?.isSome)

/-- The statements for indexes that declare a primary key. -/
def indexDeclarations (c : TableChanges) : List Alteration :=
  (c.indexes.flatMap fun x => x.indexAlterations.up).filter (·.declaresKey?.isSome)

/-- The primary key is dropped. -/
def dropsKey (c : TableChanges) : Bool :=
  c.indexes.any fun x => x.observed?.any Index.isPrimary

/-- The statements that can end a key. -/
def keyDrops (c : TableChanges) : List Alteration :=
  c.removedColumns.map Alteration.dropColumn ++ if c.dropsKey then [Alteration.dropPrimaryKey] else []

/-- The key ends with what is dropped. -/
def EndsKey (c : TableChanges) (key : List String) : Prop :=
  c.dropsKey = true ∨ (key ≠ [] ∧ ∀ name ∈ key, name ∈ c.removedColumns)

instance (c : TableChanges) (key : List String) : Decidable (c.EndsKey key) :=
  inferInstanceAs (Decidable (c.dropsKey = true ∨ (key ≠ [] ∧ ∀ name ∈ key, name ∈ c.removedColumns)))

/-- The key is declared from one side only, and the one in force before ends in time. A column that says `DROP` is
written before anything is dropped. -/
structure DeclaresKeyInTurn (c : TableChanges) (d : Defaults) (key? : Option (List String)) : Prop where
  once : c.columnDeclarations d = [] ∨ c.indexDeclarations = []
  index : c.indexDeclarations ≠ [] → ∀ key ∈ key?, c.EndsKey key
  column : ∀ key ∈ key?, ∀ a ∈ c.columnDeclarations d, c.EndsKey key ∧ saysDrop (a.sql c.declared.name) = false

end TableChanges

theorem saysDrop_dropColumn (table name : String) : saysDrop ((Alteration.dropColumn name).sql table) = true :=
  saysDrop_of_heading (x := .dropColumn) rfl (by decide) table

theorem saysDrop_dropPrimaryKey (table : String) : saysDrop (Alteration.dropPrimaryKey.sql table) = true :=
  saysDrop_of_heading (x := .dropPrimaryKey) rfl (by decide) table

namespace Ddl.Alteration

@[simp]
theorem touchesKey_addIndex (i : Index) : (addIndex i).touchesKey = i.isPrimary := by
  cases h : i.isPrimary <;> simp [touchesKey, declaresKey?, h]

@[simp]
theorem touchesKey_removeIndex (i : Index) : (removeIndex i).touchesKey = i.isPrimary := by
  cases h : i.isPrimary <;> simp [removeIndex, touchesKey, declaresKey?, h]

@[simp]
theorem declaresKey?_removeIndex (i : Index) : (removeIndex i).declaresKey? = none := by
  cases h : i.isPrimary <;> simp [removeIndex, declaresKey?, h]

end Ddl.Alteration

/-! ## Columns -/

namespace Change

/-- A declared column has one statement, which declares a key if the column is one. -/
theorem up_columnAlterations {x : Change Column} {c : Column} (h : x.declared? = some c) (charset : String) :
    ∃ a, (x.columnAlterations charset).up = [a] ∧
      a.declaresKey? = (if c.isAutoPrimaryKey then some [c.name] else none) ∧
      a.touchesKey = c.isAutoPrimaryKey := by
  have htouches : ∀ a : Alteration, a = .addColumn c charset ∨ a = .changeColumn c charset →
      a.declaresKey? = (if c.isAutoPrimaryKey then some [c.name] else none) ∧ a.touchesKey = c.isAutoPrimaryKey := by
    rintro a (rfl | rfl) <;> cases hc : c.isAutoPrimaryKey <;>
      simp [Alteration.declaresKey?, Alteration.touchesKey, hc]
  cases x with
  | added e =>
    cases h
    exact ⟨_, rfl, htouches _ (.inl rfl)⟩
  | altered e _ =>
    cases h
    exact ⟨_, rfl, htouches _ (.inr rfl)⟩
  | removed _ => cases h

end Change

/-- Among the statements of columns that stay, those that declare a key are those that touch it. -/
theorem filter_touchesKey_declared (charset : String) {xs : List (Change Column)}
    (h : ∀ x ∈ xs, x.declared?.isSome) :
    (xs.flatMap fun x => (x.columnAlterations charset).up).filter Alteration.touchesKey =
        (xs.flatMap fun x => (x.columnAlterations charset).up).filter (·.declaresKey?.isSome) ∧
      xs.filterMap Change.removedColumn? = [] := by
  constructor
  · refine List.filter_congr fun a ha => ?_
    obtain ⟨x, hx, hax⟩ := List.mem_flatMap.1 ha
    obtain ⟨c, hc⟩ := Option.isSome_iff_exists.1 (h x hx)
    obtain ⟨b, hup, hdeclares, htouches⟩ := Change.up_columnAlterations hc charset
    rw [hup, List.mem_singleton] at hax
    subst hax
    rw [htouches, hdeclares]
    cases c.isAutoPrimaryKey <;> rfl
  · refine List.filterMap_eq_nil_iff.2 fun x hx => ?_
    have hdeclared := h x hx
    cases x with
    | removed _ => cases hdeclared
    | _ => rfl

/-- What touches the key among the statements of columns: those that declare one, then those that drop a column. -/
theorem filter_touchesKey_columns (c : TableChanges) (d : Defaults) {declared removed : List (Change Column)}
    (hcolumns : c.columns = declared ++ removed) (hdeclared : ∀ x ∈ declared, x.declared?.isSome)
    (hremoved : ∀ x ∈ removed, ∃ column, x = .removed column) :
    (c.columns.flatMap fun x => (x.columnAlterations (c.declared.effectiveCharset d)).up).filter
        Alteration.touchesKey =
      c.columnDeclarations d ++ c.removedColumns.map Alteration.dropColumn := by
  obtain ⟨htouches, hnone⟩ := filter_touchesKey_declared (c.declared.effectiveCharset d) hdeclared
  have hdrops : ∀ xs : List (Change Column), (∀ x ∈ xs, ∃ column, x = .removed column) →
      (xs.flatMap fun x => (x.columnAlterations (c.declared.effectiveCharset d)).up) =
        (xs.filterMap Change.removedColumn?).map Alteration.dropColumn := by
    intro xs hxs
    induction xs with
    | nil => rfl
    | cons x xs ih =>
      obtain ⟨⟨column, rfl⟩, hrest⟩ := List.forall_mem_cons.1 hxs
      rw [List.flatMap_cons, ih hrest]
      rfl
  have hkeep : ∀ names : List String,
      (names.map Alteration.dropColumn).filter Alteration.touchesKey = names.map Alteration.dropColumn := fun names =>
    List.filter_eq_self.2 fun a ha => by
      obtain ⟨name, -, rfl⟩ := List.mem_map.1 ha
      rfl
  have hdeclare : ∀ names : List String,
      (names.map Alteration.dropColumn).filter (·.declaresKey?.isSome) = [] := fun names =>
    List.filter_eq_nil_iff.2 fun a ha => by
      obtain ⟨name, -, rfl⟩ := List.mem_map.1 ha
      simp [Alteration.declaresKey?]
  rw [TableChanges.columnDeclarations, TableChanges.removedColumns, hcolumns, List.flatMap_append, List.filter_append,
    List.filter_append, List.filterMap_append, htouches, hnone, hdrops removed hremoved, hkeep, hdeclare,
    List.append_nil, List.nil_append]

/-- The statements that declare a key are no more than the declared columns that are one. -/
theorem length_filter_declaresKey_le {charset : String} {f : Column → Option (Change Column)}
    (h : ∀ c x, f c = some x → x.declared? = some c) (columns : List Column) :
    (((columns.filterMap f).flatMap fun x => (x.columnAlterations charset).up).filter (·.declaresKey?.isSome)).length ≤
      (columns.filter Column.isAutoPrimaryKey).length := by
  induction columns with
  | nil => simp
  | cons c columns ih =>
    cases hx : f c with
    | none =>
      rw [List.filterMap_cons_none hx]
      exact Nat.le_trans ih (((List.sublist_cons_self c columns).filter _).length_le)
    | some x =>
      obtain ⟨a, hup, hdeclares, -⟩ := Change.up_columnAlterations (h c x hx) charset
      rw [List.filterMap_cons_some hx, List.flatMap_cons, hup, List.filter_append, List.length_append]
      cases hauto : c.isAutoPrimaryKey with
      | true =>
        simp [hdeclares, hauto]
        omega
      | false => simpa [hdeclares, hauto] using ih

/-! ## Indexes -/

namespace Change

/-- What an index with another key than the primary key's does not touch. -/
theorem touches_nothing {x : Change Index} (h : x.Matched Index.key) (hkey : x.key Index.key ≠ Index.primaryName) :
    (∀ a ∈ x.indexAlterations.up, a.touchesKey = false) ∧ x.observed?.any Index.isPrimary = false := by
  have hother : ∀ i : Index, i.key ≠ Index.primaryName → i.isPrimary = false := fun i hi => by
    cases hp : i.isPrimary with
    | false => rfl
    | true => exact absurd (by simp [Index.key, hp]) hi
  cases x with
  | added i | removed i => simp [indexAlterations, Reversible.pair, observed?, hother i hkey]
  | altered i j =>
    have hj : j.key ≠ Index.primaryName := h i rfl j rfl ▸ hkey
    simp [indexAlterations, observed?, hother i hkey, hother j hj]

/-- What one index touches. -/
theorem filter_touchesKey_index (x : Change Index) :
    x.indexAlterations.up.filter Alteration.touchesKey =
        (if x.observed?.any Index.isPrimary then [Alteration.dropPrimaryKey] else []) ++
          x.indexAlterations.up.filter (·.declaresKey?.isSome) ∧
      (x.indexAlterations.up.filter (·.declaresKey?.isSome)).length ≤ 1 := by
  have hdrop : ∀ i : Index, [Alteration.removeIndex i].filter Alteration.touchesKey =
      if i.isPrimary then [Alteration.dropPrimaryKey] else [] := fun i => by
    cases hi : i.isPrimary <;> simp [hi, Alteration.removeIndex, Alteration.touchesKey, Alteration.declaresKey?]
  have hadd : ∀ i : Index, [Alteration.addIndex i].filter Alteration.touchesKey =
      [Alteration.addIndex i].filter (·.declaresKey?.isSome) := fun i => by
    cases hi : i.isPrimary <;> simp [hi, Alteration.touchesKey, Alteration.declaresKey?]
  cases x with
  | added i =>
    refine ⟨hadd i, ?_⟩
    exact List.length_filter_le _ [Alteration.addIndex i]
  | removed j => cases hj : j.isPrimary <;> simp [indexAlterations, Reversible.pair, observed?, hdrop, hj]
  | altered i j =>
    have hsplit : (altered i j).indexAlterations.up = [.removeIndex j] ++ [.addIndex i] := rfl
    have hnone : [Alteration.removeIndex j].filter (·.declaresKey?.isSome) = [] := by simp
    rw [hsplit, List.filter_append, List.filter_append, hdrop, hadd, hnone, List.nil_append]
    exact ⟨rfl, List.length_filter_le _ [Alteration.addIndex i]⟩

end Change

/-- What touches the key among the statements of indexes: dropping it, then declaring one. -/
theorem filter_touchesKey_indexes (xs : List (Change Index)) (h : ∀ x ∈ xs, x.Matched Index.key)
    (hunique : KeysUnique (Change.key Index.key) xs) :
    (xs.flatMap fun x => x.indexAlterations.up).filter Alteration.touchesKey =
        (if xs.any (fun x => x.observed?.any Index.isPrimary) then [Alteration.dropPrimaryKey] else []) ++
          (xs.flatMap fun x => x.indexAlterations.up).filter (·.declaresKey?.isSome) ∧
      ((xs.flatMap fun x => x.indexAlterations.up).filter (·.declaresKey?.isSome)).length ≤ 1 := by
  have hdeclares : ∀ a : Alteration, a.touchesKey = false → a.declaresKey?.isSome = false := fun a ha => by
    rw [Alteration.declaresKey?_of_not_touchesKey ha]
    rfl
  -- the changes with other keys are silent
  have hsilent : ∀ ys : List (Change Index), (∀ y ∈ ys, y.Matched Index.key ∧ y.key Index.key ≠ Index.primaryName) →
      (∀ a ∈ ys.flatMap fun x => x.indexAlterations.up, a.touchesKey = false) ∧
        ys.any (fun x => x.observed?.any Index.isPrimary) = false := by
    intro ys hys
    constructor
    · intro a ha
      obtain ⟨y, hy, hay⟩ := List.mem_flatMap.1 ha
      exact (Change.touches_nothing (hys y hy).1 (hys y hy).2).1 a hay
    · exact List.any_eq_false.2 fun y hy => by simp [(Change.touches_nothing (hys y hy).1 (hys y hy).2).2]
  induction xs with
  | nil => simp
  | cons x xs ih =>
    obtain ⟨hx, hxs⟩ := List.forall_mem_cons.1 h
    by_cases hkey : x.key Index.key = Index.primaryName
    · have hout : x.key Index.key ∉ xs.map (Change.key Index.key) := (List.nodup_cons.1 hunique).1
      obtain ⟨htouches, hany⟩ := hsilent xs fun y hy =>
        ⟨hxs y hy, fun hy' => hout (List.mem_map.2 ⟨y, hy, hy'.trans hkey.symm⟩)⟩
      obtain ⟨hself, hlength⟩ := x.filter_touchesKey_index
      have hrest : (xs.flatMap fun x => x.indexAlterations.up).filter Alteration.touchesKey = [] :=
        List.filter_eq_nil_iff.2 fun a ha => by simp [htouches a ha]
      have hrest' : (xs.flatMap fun x => x.indexAlterations.up).filter (·.declaresKey?.isSome) = [] :=
        List.filter_eq_nil_iff.2 fun a ha => by simp [hdeclares a (htouches a ha)]
      simp only [List.flatMap_cons, List.filter_append, hrest, hrest', List.append_nil, List.any_cons, hany,
        Bool.or_false]
      exact ⟨hself, hlength⟩
    · obtain ⟨htouches, hany⟩ := Change.touches_nothing hx hkey
      have hself : x.indexAlterations.up.filter Alteration.touchesKey = [] :=
        List.filter_eq_nil_iff.2 fun a ha => by simp [htouches a ha]
      have hself' : x.indexAlterations.up.filter (·.declaresKey?.isSome) = [] :=
        List.filter_eq_nil_iff.2 fun a ha => by simp [hdeclares a (htouches a ha)]
      simp only [List.flatMap_cons, List.filter_append, hself, hself', List.nil_append, List.any_cons, hany,
        Bool.false_or]
      exact ih hxs hunique.tail

/-! ## All alterations of a table -/

/-- Changes of declared objects come first, in their order; what is dropped comes after them. -/
theorem exists_changesByKey_eq {α : Type} (key : α → String) (same : α → α → Bool) (declared observed : List α) :
    ∃ (f : α → Option (Change α)) (removed : List α), (∀ x c, f x = some c → c.declared? = some x) ∧
      changesByKey key same declared observed = declared.filterMap f ++ removed.map .removed := by
  refine ⟨_, _, fun x c hc => ?_, rfl⟩
  cases hlast : lastWithKey key (key x) observed with
  | none =>
    simp only [hlast, Option.some_inj] at hc
    rw [← hc]
    rfl
  | some y =>
    simp only [hlast, Option.ite_none_left_eq_some, Option.some_inj] at hc
    rw [← hc.2]
    rfl

section Table

variable {t u : Table} {d : Defaults}

namespace TableChanges

/-- What touches the key among all alterations: statements of columns, then statements of indexes, drops ahead. -/
theorem filter_touchesKey_alterations (ht : t.NamesUnique) (hu : u.NamesUnique) :
    let c := between t u d
    (c.alterations d).up.filter Alteration.touchesKey =
      dropsToFront (·.sql t.name) (c.columnDeclarations d ++ c.keyDrops ++ c.indexDeclarations) := by
  intro c
  obtain ⟨f, removed, hf, hlist⟩ := exists_changesByKey_eq Column.name
    (Column.same (u.effectiveCharset d) (u.effectiveCollation d)) t.columns u.columns
  have hdeclared : ∀ x ∈ t.columns.filterMap f, x.declared?.isSome := fun x hx => by
    obtain ⟨column, -, hcolumn⟩ := List.mem_filterMap.1 hx
    simp [hf column x hcolumn]
  have hremoved : ∀ x ∈ removed.map Change.removed, ∃ column, x = .removed column := fun x hx => by
    obtain ⟨column, -, rfl⟩ := List.mem_map.1 hx
    exact ⟨column, rfl⟩
  have hcolumns := filter_touchesKey_columns c d hlist hdeclared hremoved
  have hindexes := (filter_touchesKey_indexes c.indexes (fun _ => matched_of_mem_changesByKey ht.indexes hu.indexes)
    (changesByKey_keysUnique ht.indexes hu.indexes)).1
  have hoptions : (c.optionAlterations d).up.filter Alteration.touchesKey = [] := by
    simp only [optionAlterations]
    cases c.engineChanged <;> cases c.charsetChanged <;> cases c.collationChanged <;> rfl
  have hrelations : (c.relations.flatMap fun x => x.relationAlterations.up).filter Alteration.touchesKey = [] := by
    rw [List.filter_flatMap]
    exact List.flatMap_eq_nil_iff.2 fun x _ => by cases x <;> rfl
  simp only [alterations, Reversible.dropsFirst, filter_dropsToFront, Reversible.up_append, List.filter_append,
    hoptions, List.nil_append, nestedAlterations, Reversible.up_concat, List.flatMap_append, List.flatMap_map, hcolumns,
    hindexes, hrelations, List.append_nil, keyDrops, List.append_assoc]
  rfl

/-- A table with one column that is its key has at most one statement for a column that declares one. -/
theorem length_columnDeclarations_le (h : (t.columns.filter Column.isAutoPrimaryKey).length ≤ 1) :
    ((between t u d).columnDeclarations d).length ≤ 1 := by
  obtain ⟨f, removed, hf, hlist⟩ := exists_changesByKey_eq Column.name
    (Column.same (u.effectiveCharset d) (u.effectiveCollation d)) t.columns u.columns
  have hnone : ∀ charset, ((removed.map Change.removed).flatMap fun x => (x.columnAlterations charset).up).filter
      (·.declaresKey?.isSome) = [] := fun charset => by
    refine List.filter_eq_nil_iff.2 fun a ha => ?_
    obtain ⟨x, hx, hax⟩ := List.mem_flatMap.1 ha
    obtain ⟨column, -, rfl⟩ := List.mem_map.1 hx
    obtain rfl : a = _ := List.mem_singleton.1 hax
    simp [Alteration.declaresKey?]
  show (List.filter _ (List.flatMap _ (changesByKey _ _ _ _))).length ≤ 1
  rw [hlist, List.flatMap_append, List.filter_append, hnone, List.append_nil]
  exact Nat.le_trans (length_filter_declaresKey_le hf t.columns) h

theorem mem_keyDrops {c : TableChanges} {a : Alteration} (h : a ∈ c.keyDrops) :
    (∃ name, a = .dropColumn name) ∨ a = .dropPrimaryKey := by
  rcases List.mem_append.1 h with h | h
  · obtain ⟨name, -, rfl⟩ := List.mem_map.1 h
    exact .inl ⟨name, rfl⟩
  · cases hdrop : c.dropsKey with
    | true =>
      rw [hdrop] at h
      exact .inr (List.mem_singleton.1 h)
    | false => simp [hdrop] at h

theorem declaresKey?_of_mem_keyDrops {c : TableChanges} : ∀ a ∈ c.keyDrops, a.declaresKey? = none := by
  intro a ha
  rcases mem_keyDrops ha with ⟨name, rfl⟩ | rfl <;> rfl

theorem saysDrop_of_mem_keyDrops {c : TableChanges} (table : String) :
    ∀ a ∈ c.keyDrops, saysDrop (a.sql table) = true := by
  intro a ha
  rcases mem_keyDrops ha with ⟨name, rfl⟩ | rfl
  · exact saysDrop_dropColumn table name
  · exact saysDrop_dropPrimaryKey table

/-- The drops end the key in force. -/
theorem keyAfterAll_keyDrops (c : TableChanges) (key? : Option (List String)) :
    Alteration.keyAfterAll key? c.keyDrops = none ↔ ∀ key ∈ key?, c.EndsKey key := by
  rw [keyDrops, Alteration.keyAfterAll_append]
  cases hdrop : c.dropsKey with
  | true => simp [Alteration.keyAfterAll, Alteration.keyAfter, EndsKey, hdrop]
  | false =>
    cases key? with
    | none => simpa [Alteration.keyAfterAll] using Alteration.keyAfterAll_none_dropColumns c.removedColumns
    | some key =>
      have hends := Alteration.keyAfterAll_dropColumns key c.removedColumns
      simpa [Alteration.keyAfterAll, EndsKey, hdrop] using hends

/-- A declared column is not dropped. -/
theorem not_mem_removedColumns (ht : KeysUnique Column.name t.columns) (hu : KeysUnique Column.name u.columns)
    {c : Column} (hc : c ∈ t.columns) : c.name ∉ (between t u d).removedColumns := by
  intro hmem
  obtain ⟨x, hx, hname⟩ := List.mem_filterMap.1 hmem
  cases x with
  | removed e =>
    have hkey : e.name = c.name := Option.some.inj hname
    have hnone : withKey? Column.name e.name t.columns = none := (sides_of_mem_changesByKey ht hu hx).1.symm
    exact withKey?_eq_none_iff.1 hnone c hc hkey.symm
  | _ => cases hname

theorem exists_of_mem_columnDeclarations (ht : KeysUnique Column.name t.columns)
    (hu : KeysUnique Column.name u.columns) {a : Alteration} (h : a ∈ (between t u d).columnDeclarations d) :
    ∃ c ∈ t.columns, a.declaresKey? = some [c.name] := by
  obtain ⟨hmem, hdeclares⟩ := List.mem_filter.1 h
  obtain ⟨x, hx, hax⟩ := List.mem_flatMap.1 hmem
  cases hdeclared : x.declared? with
  | none =>
    cases x with
    | removed e =>
      obtain rfl : a = _ := List.mem_singleton.1 hax
      cases hdeclares
    | _ => cases hdeclared
  | some c =>
    obtain ⟨b, hup, hb, -⟩ := Change.up_columnAlterations hdeclared ((between t u d).declared.effectiveCharset d)
    rw [hup, List.mem_singleton] at hax
    subst hax
    refine ⟨c, mem_of_withKey? ((sides_of_mem_changesByKey ht hu hx).1.symm.trans hdeclared), ?_⟩
    cases hauto : c.isAutoPrimaryKey with
    | true => rw [hb, hauto, if_pos rfl]
    | false => simp [hb, hauto] at hdeclares

end TableChanges

theorem isSome_primaryKey?_of_dropsKey (ht : KeysUnique Index.key t.indexes) (hu : KeysUnique Index.key u.indexes)
    (h : (TableChanges.between t u d).dropsKey = true) : u.primaryKey?.isSome := by
  obtain ⟨x, hx, hany⟩ := List.any_eq_true.1 h
  obtain ⟨i, hi, hprimary⟩ := (Option.any_eq_true ..).1 hany
  have hmem : i ∈ u.indexes := mem_of_withKey? ((sides_of_mem_changesByKey ht hu hx).2.symm.trans hi)
  have hfind : (u.indexes.find? Index.isPrimary).isSome := List.find?_isSome.2 ⟨i, hmem, hprimary⟩
  obtain ⟨j, hj⟩ := Option.isSome_iff_exists.1 hfind
  simp [Table.primaryKey?, hj]

/-- A column that declares a key ahead of all drops leaves no room for an index that does. -/
theorem not_keysInTurn_column_index (ht : t.NamesUnique) (hu : u.NamesUnique) {a b : Alteration}
    (ha : a ∈ (TableChanges.between t u d).columnDeclarations d) (hb : b.declaresKey?.isSome) :
    ¬ Alteration.KeysInTurn u.primaryKey? (a :: ((TableChanges.between t u d).keyDrops ++ [b])) := by
  obtain ⟨c, hc, hdeclares⟩ := TableChanges.exists_of_mem_columnDeclarations ht.columns hu.columns ha
  rintro ⟨hnone, hrest⟩
  rw [Alteration.keyAfter_of_declaresKey hdeclares,
    Alteration.keysInTurn_concat TableChanges.declaresKey?_of_mem_keyDrops hb,
    TableChanges.keyAfterAll_keyDrops] at hrest
  rcases hrest _ rfl with hdrops | ⟨-, hremoved⟩
  · have hsome := isSome_primaryKey?_of_dropsKey ht.indexes hu.indexes hdrops
    rw [hnone (by simp [hdeclares])] at hsome
    cases hsome
  · exact TableChanges.not_mem_removedColumns ht.columns hu.columns hc (hremoved c.name (List.mem_singleton_self _))

/-- The alterations from an observed table to a declared one declare keys in turn exactly if the key is declared from
one side only and any other one has ended by then. -/
theorem keysInTurn_alterations_iff (ht : t.NamesUnique) (hu : u.NamesUnique)
    (hauto : (t.columns.filter Column.isAutoPrimaryKey).length ≤ 1) :
    let changes := TableChanges.between t u d
    Alteration.KeysInTurn u.primaryKey? (changes.alterations d).up ↔ changes.DeclaresKeyInTurn d u.primaryKey? := by
  intro changes
  have hcolumns : (changes.columnDeclarations d).length ≤ 1 := TableChanges.length_columnDeclarations_le hauto
  have hindexes : changes.indexDeclarations.length ≤ 1 :=
    (filter_touchesKey_indexes changes.indexes (fun _ => matched_of_mem_changesByKey ht.indexes hu.indexes)
      (changesByKey_keysUnique ht.indexes hu.indexes)).2
  have hcolumn : ∀ a ∈ changes.columnDeclarations d, a.declaresKey?.isSome := fun a ha => (List.mem_filter.1 ha).2
  have hindex : ∀ a ∈ changes.indexDeclarations, a.declaresKey?.isSome := fun a ha => (List.mem_filter.1 ha).2
  have hdrops : ∀ a ∈ changes.keyDrops, saysDrop (a.sql t.name) = true ∧ a.declaresKey? = none := fun a ha =>
    ⟨TableChanges.saysDrop_of_mem_keyDrops t.name a ha, TableChanges.declaresKey?_of_mem_keyDrops a ha⟩
  have hends := changes.keyAfterAll_keyDrops u.primaryKey?
  rw [Alteration.keysInTurn_iff_filter, TableChanges.filter_touchesKey_alterations ht hu]
  rcases hc : changes.columnDeclarations d with _ | ⟨a, _ | _⟩
  · rcases hi : changes.indexDeclarations with _ | ⟨b, _ | _⟩
    · refine iff_of_true (Alteration.keysInTurn_drops hdrops) ⟨.inl hc, fun h => absurd hi h, ?_⟩
      exact fun _ _ a ha => by simp [hc] at ha
    · rw [Alteration.keysInTurn_drops_index hdrops (hindex b (by simp [hi])), hends]
      exact ⟨fun h => ⟨.inl hc, fun _ => h, fun _ _ a ha => by simp [hc] at ha⟩, fun h => h.index (by simp [hi])⟩
    · simp [hi] at hindexes
  · have ha : a ∈ changes.columnDeclarations d := by simp [hc]
    rcases hi : changes.indexDeclarations with _ | ⟨b, _ | _⟩
    · rw [Alteration.keysInTurn_column_drops hdrops (hcolumn a ha), hends]
      constructor
      · rintro ⟨hahead, hbehind⟩
        refine ⟨.inr hi, fun hne => absurd hi hne, fun key hkey b hb => ?_⟩
        rw [hc, List.mem_singleton] at hb
        subst hb
        cases hdrop : saysDrop (b.sql t.name) with
        | true =>
          rw [hahead hdrop] at hkey
          cases hkey
        | false => exact ⟨hbehind hdrop key hkey, hdrop⟩
      · intro h
        refine ⟨fun hdrop => Option.eq_none_iff_forall_ne_some.2 fun key hkey => ?_, fun _ key hkey => ?_⟩
        · have hkeep : saysDrop (a.sql t.name) = false := (h.column key hkey a ha).2
          rw [hkeep] at hdrop
          cases hdrop
        · exact (h.column key hkey a ha).1
    · have hb : b.declaresKey?.isSome := hindex b (by simp [hi])
      refine iff_of_false ?_ fun h => by simpa [hc, hi] using h.once
      exact Alteration.not_keysInTurn_column_drops_index hdrops (hcolumn a ha) hb
        (not_keysInTurn_column_index ht hu ha hb)
    · simp [hi] at hindexes
  · simp [hc] at hcolumns

end Table

namespace Sample

/-- A column that numbers the rows of its table. -/
def rowNumber (name : String) : Column :=
  { name, type := .integer .standard 11, nullable := false, autoIncrement := true }

/-- A table that numbers its rows, by its column and by its index. -/
def numbered : Table :=
  { name := "post", columns := [rowNumber "id", { name := "title", type := .text .standard }],
    indexes := [.primary ["id"]] }

/-- The same table without numbers. -/
def unnumbered : Table :=
  { name := "post", columns := [{ name := "title", type := .text .standard }] }

/-- A table whose rows are numbered by another column than before. -/
def renumbered : Table :=
  { name := "entry", columns := [rowNumber "id"] }

/-- The same table before. -/
def oldNumbered : Table :=
  { name := "entry", columns := [rowNumber "number"] }

end Sample

/-- The old key ends with its only column, just before the new one is declared. -/
theorem keysInTurn_alterations_iff_renumbered :
    Sample.renumbered.NamesUnique ∧ Sample.oldNumbered.NamesUnique ∧
      (Sample.renumbered.columns.filter Column.isAutoPrimaryKey).length ≤ 1 ∧
      let changes := TableChanges.between Sample.renumbered Sample.oldNumbered {}
      Sample.oldNumbered.primaryKey? = some ["number"] ∧
        changes.columnDeclarations {} = [.addColumn (Sample.rowNumber "id") "utf8mb4"] ∧
        Alteration.KeysInTurn Sample.oldNumbered.primaryKey? (changes.alterations {}).up := by
  have ht : Sample.renumbered.NamesUnique := by decide
  have hu : Sample.oldNumbered.NamesUnique := by decide
  have hauto : (Sample.renumbered.columns.filter Column.isAutoPrimaryKey).length ≤ 1 := by decide
  have hkey : Sample.oldNumbered.primaryKey? = some ["number"] := by decide
  have hcolumn : (TableChanges.between Sample.renumbered Sample.oldNumbered {}).columnDeclarations {} =
      [.addColumn (Sample.rowNumber "id") "utf8mb4"] := by decide
  have hindex : (TableChanges.between Sample.renumbered Sample.oldNumbered {}).indexDeclarations = [] := by decide
  have hends : (TableChanges.between Sample.renumbered Sample.oldNumbered {}).EndsKey ["number"] := by decide
  have hkeep : saysDrop ((Alteration.addColumn (Sample.rowNumber "id") "utf8mb4").sql "entry") = false := by decide
  refine ⟨ht, hu, hauto, hkey, hcolumn, (keysInTurn_alterations_iff ht hu hauto).2 ?_⟩
  refine { once := .inr hindex, index := fun h => absurd hindex h, column := fun key hmem a ha => ?_ }
  rw [hkey] at hmem
  rw [hcolumn, List.mem_singleton] at ha
  subst ha
  cases hmem
  exact ⟨hends, hkeep⟩

/-- Where a column and its index are both new, each of them declares the key. -/
theorem not_keysInTurn_alterations :
    ¬ ∀ (t u : Table) (d : Defaults), t.name = u.name → t.NamesUnique → u.NamesUnique →
      (∀ table ∈ [t, u], (table.columns.filter Column.isAutoPrimaryKey).length ≤ 1 ∧
        (table.indexes.filter Index.isPrimary).length ≤ 1 ∧
        ∀ c ∈ table.columns, c.isAutoPrimaryKey → ∀ i ∈ table.indexes, i.isPrimary → i.columns = [c.name]) →
      Alteration.KeysInTurn u.primaryKey? ((TableChanges.between t u d).alterations d).up := by
  intro h
  have hturn := h Sample.numbered Sample.unnumbered {} rfl (by decide) (by decide) (by decide)
  revert hturn
  decide

end SchemaMigration
