import SchemaMigration.Diff.Detect
import Mathlib.Data.List.Nodup
import Mathlib.Data.List.Perm.Basic

/-!
# Lists with keys

Objects of a schema are lists whose elements have a key: tables, columns and foreign keys their name, indexes
`Index.key`. Where no two elements share a key (`KeysUnique`) such a list is a map that happens to have an order:
`withKey?` reads it, `filter_key` says that a key is there once at most, and two lists hold the same objects
(`SameByKey`) exactly if they read the same at every key (`sameByKey_iff`).

The keys of a schema that is built up stay unique exactly as long as each key is new when it comes
(`Schema.namesUnique_addTable_iff`).
-/

namespace SchemaMigration

section Keyed

variable {α : Type} {key : α → String} {xs ys : List α} {k : String} {x : α}

/-- No two elements have the same key. -/
def KeysUnique (key : α → String) (xs : List α) : Prop :=
  (xs.map key).Nodup

instance : Decidable (KeysUnique key xs) :=
  inferInstanceAs (Decidable (xs.map key).Nodup)

/-- The first element with the given key. -/
def withKey? (key : α → String) (k : String) (xs : List α) : Option α :=
  xs.find? fun x => key x == k

@[simp]
theorem withKey?_nil : withKey? key k [] = none := rfl

theorem withKey?_cons : withKey? key k (x :: xs) = if key x = k then some x else withKey? key k xs := by
  by_cases hk : key x = k <;> simp [withKey?, hk]

theorem withKey?_eq_none_iff : withKey? key k xs = none ↔ ∀ x ∈ xs, key x ≠ k := by
  simp [withKey?]

theorem mem_of_withKey? (h : withKey? key k xs = some x) : x ∈ xs :=
  List.mem_of_find?_eq_some h

theorem key_of_withKey? (h : withKey? key k xs = some x) : key x = k := by
  simpa using List.find?_some h

/-- A filter that looks at keys keeps what a key reads or hides it. -/
theorem withKey?_filter (p : String → Bool) :
    withKey? key k (xs.filter fun x => p (key x)) = if p k then withKey? key k xs else none := by
  induction xs with
  | nil => simp
  | cons x xs ih =>
    by_cases hk : key x = k
    · subst hk
      cases hp : p (key x) <;> simp [withKey?_cons, hp, ih]
    · cases hp : p (key x) <;> simp [withKey?_cons, hp, ih, hk]

/-- A map that keeps keys keeps what they read. -/
theorem withKey?_map {β : Type} {f : α → β} {keyOf : β → String} (h : ∀ x ∈ xs, keyOf (f x) = key x) :
    withKey? keyOf k (xs.map f) = (withKey? key k xs).map f := by
  induction xs with
  | nil => rfl
  | cons x xs ih =>
    obtain ⟨hx, hxs⟩ := List.forall_mem_cons.1 h
    rw [List.map_cons, withKey?_cons, withKey?_cons, hx, ih hxs]
    by_cases hk : key x = k <;> simp [hk]

namespace KeysUnique

theorem map {β : Type} {f : α → β} {keyOf : β → String} (hx : KeysUnique key xs)
    (h : ∀ x ∈ xs, keyOf (f x) = key x) : KeysUnique keyOf (xs.map f) := by
  have hkeys : (xs.map f).map keyOf = xs.map key := by
    rw [List.map_map]
    exact List.map_congr_left h
  rw [KeysUnique, hkeys]
  exact hx

theorem tail {a : α} (h : KeysUnique key (a :: xs)) : KeysUnique key xs :=
  (List.nodup_cons.1 h).2

theorem filter (h : KeysUnique key xs) (p : α → Bool) : KeysUnique key (xs.filter p) :=
  List.Nodup.sublist (List.Sublist.map key List.filter_sublist) h

theorem reverse (h : KeysUnique key xs) : KeysUnique key xs.reverse := by
  rw [KeysUnique, List.map_reverse]
  exact List.nodup_reverse.2 h

/-- Elements with the same key are the same element. -/
theorem eq_of_key_eq (h : KeysUnique key xs) {a b : α} (ha : a ∈ xs) (hb : b ∈ xs) (hk : key a = key b) : a = b :=
  List.inj_on_of_nodup_map h ha hb hk

theorem withKey?_eq_some_iff (h : KeysUnique key xs) : withKey? key k xs = some x ↔ x ∈ xs ∧ key x = k := by
  constructor
  · exact fun hx => ⟨mem_of_withKey? hx, key_of_withKey? hx⟩
  · rintro ⟨hx, rfl⟩
    cases hf : withKey? key (key x) xs with
    | none => exact absurd rfl (withKey?_eq_none_iff.1 hf x hx)
    | some y => rw [h.eq_of_key_eq (mem_of_withKey? hf) hx (key_of_withKey? hf)]

theorem withKey?_key (h : KeysUnique key xs) (hx : x ∈ xs) : withKey? key (key x) xs = some x :=
  h.withKey?_eq_some_iff.2 ⟨hx, rfl⟩

/-- Each key is there once at most. -/
theorem filter_key (h : KeysUnique key xs) (k : String) :
    xs.filter (fun x => key x == k) = (withKey? key k xs).toList := by
  induction xs with
  | nil => rfl
  | cons a xs ih =>
    have hout : key a ∉ xs.map key := (List.nodup_cons.1 h).1
    by_cases hk : key a = k
    · subst hk
      have hnone : xs.filter (fun x => key x == key a) = [] := by
        refine List.filter_eq_nil_iff.2 fun x hx hxa => hout ?_
        exact List.mem_map.2 ⟨x, hx, by simpa using hxa⟩
      simp [withKey?_cons, hnone]
    · simpa [withKey?_cons, hk] using ih h.tail

/-- A list whose keys are each there once at most. -/
theorem of_filter_length_le (h : ∀ k, (xs.filter fun x => key x == k).length ≤ 1) : KeysUnique key xs := by
  induction xs with
  | nil => exact List.nodup_nil
  | cons a xs ih =>
    refine List.nodup_cons.2 ⟨fun ha => ?_, ih fun k => ?_⟩
    · obtain ⟨b, hb, hba⟩ := List.mem_map.1 ha
      have hlen := h (key a)
      have hpos : 0 < (xs.filter fun x => key x == key a).length :=
        List.length_pos_of_mem (List.mem_filter.2 ⟨hb, by simpa using hba⟩)
      simp only [List.filter_cons, beq_self_eq_true, ↓reduceIte, List.length_cons] at hlen
      omega
    · exact Nat.le_trans (((List.sublist_cons_self a xs).filter _).length_le) (h k)

theorem concat_iff : KeysUnique key (xs ++ [x]) ↔ KeysUnique key xs ∧ withKey? key (key x) xs = none := by
  rw [KeysUnique, KeysUnique, List.map_append, List.map_singleton, ← List.concat_eq_append, List.nodup_concat,
    withKey?_eq_none_iff, and_comm]
  simp only [List.mem_map, not_exists, not_and, ne_eq]

/-- Where keys are unique, the last element with a key is the first one. -/
theorem lastWithKey_eq (h : KeysUnique key xs) (k : String) : lastWithKey key k xs = withKey? key k xs := by
  ext x
  show withKey? key k xs.reverse = some x ↔ _
  rw [h.reverse.withKey?_eq_some_iff, h.withKey?_eq_some_iff, List.mem_reverse]

end KeysUnique

/-! ## The same objects -/

/-- The same keys on either side, in whatever order, and elements with the same key are related by `R`. -/
structure SameByKey (key : α → String) (R : α → α → Prop) (xs ys : List α) : Prop where
  keys : (xs.map key).Perm (ys.map key)
  related : ∀ x ∈ xs, ∀ y ∈ ys, key x = key y → R x y

theorem SameByKey.refl {R : α → α → Prop} (h : KeysUnique key xs) (hR : ∀ x, R x x) : SameByKey key R xs xs where
  keys := .refl _
  related x hx y hy hk := by
    cases h.eq_of_key_eq hx hy hk
    exact hR x

/-- Two lists with unique keys hold the same objects exactly if at each key they hold nothing or related ones. -/
theorem sameByKey_iff {R : α → α → Prop} (hx : KeysUnique key xs) (hy : KeysUnique key ys) :
    SameByKey key R xs ys ↔ ∀ k, Option.Rel R (withKey? key k xs) (withKey? key k ys) := by
  constructor
  · intro h k
    have hmem : k ∈ xs.map key ↔ k ∈ ys.map key := h.keys.mem_iff
    cases hxk : withKey? key k xs with
    | none =>
      have hout : k ∉ ys.map key := fun hk => by
        obtain ⟨x, hx', rfl⟩ := List.mem_map.1 (hmem.2 hk)
        exact withKey?_eq_none_iff.1 hxk x hx' rfl
      have hyk : withKey? key k ys = none :=
        withKey?_eq_none_iff.2 fun y hy' hk => hout (List.mem_map.2 ⟨y, hy', hk⟩)
      rw [hyk]
      exact .none
    | some x =>
      obtain ⟨hxm, rfl⟩ := hx.withKey?_eq_some_iff.1 hxk
      obtain ⟨y, hym, hyk⟩ := List.mem_map.1 (hmem.1 (List.mem_map_of_mem hxm))
      rw [hy.withKey?_eq_some_iff.2 ⟨hym, hyk⟩]
      exact .some (h.related x hxm y hym hyk.symm)
  · intro h
    refine ⟨(List.perm_ext_iff_of_nodup hx hy).2 fun k => ?_, fun x hxm y hym hk => ?_⟩
    · have hk := h k
      cases hxk : withKey? key k xs with
      | none =>
        rw [hxk] at hk
        cases hyk : withKey? key k ys with
        | none =>
          rw [withKey?_eq_none_iff] at hxk hyk
          simp only [List.mem_map]
          exact ⟨fun ⟨x, hm, he⟩ => absurd he (hxk x hm), fun ⟨y, hm, he⟩ => absurd he (hyk y hm)⟩
        | some y => rw [hyk] at hk; cases hk
      | some x =>
        rw [hxk] at hk
        cases hyk : withKey? key k ys with
        | none => rw [hyk] at hk; cases hk
        | some y =>
          obtain ⟨hxm, he⟩ := hx.withKey?_eq_some_iff.1 hxk
          obtain ⟨hym, he'⟩ := hy.withKey?_eq_some_iff.1 hyk
          exact ⟨fun _ => he' ▸ List.mem_map_of_mem hym, fun _ => he ▸ List.mem_map_of_mem hxm⟩
    · have hrel := h (key x)
      rw [hx.withKey?_key hxm, hy.withKey?_eq_some_iff.2 ⟨hym, hk.symm⟩] at hrel
      cases hrel with
      | some hr => exact hr

end Keyed

/-! ## Tables and schemas -/

/-- No two columns, indexes or foreign keys of a table have the same name. -/
structure Table.NamesUnique (t : Table) : Prop where
  columns : KeysUnique Column.name t.columns
  indexes : KeysUnique Index.key t.indexes
  relations : KeysUnique ForeignKey.name t.relations

instance (t : Table) : Decidable t.NamesUnique :=
  decidable_of_iff
    (KeysUnique Column.name t.columns ∧ KeysUnique Index.key t.indexes ∧ KeysUnique ForeignKey.name t.relations)
    ⟨fun ⟨hc, hi, hr⟩ => ⟨hc, hi, hr⟩, fun h => ⟨h.columns, h.indexes, h.relations⟩⟩

/-- No two tables of a schema have the same name, and no two columns, indexes or foreign keys of one table. -/
structure Schema.NamesUnique (s : Schema) : Prop where
  tables : KeysUnique Table.name s.tables
  inside : ∀ t ∈ s.tables, t.NamesUnique

instance (s : Schema) : Decidable s.NamesUnique :=
  decidable_of_iff (KeysUnique Table.name s.tables ∧ ∀ t ∈ s.tables, t.NamesUnique)
    ⟨fun ⟨ht, hi⟩ => ⟨ht, hi⟩, fun h => ⟨h.tables, h.inside⟩⟩

/-! ## Building schemas -/

namespace Table

variable {t : Table}

theorem namesUnique_addColumn_iff {c : Column} :
    (t.addColumn c).NamesUnique ↔ t.NamesUnique ∧ withKey? Column.name c.name t.columns = none := by
  constructor
  · intro h
    obtain ⟨hcolumns, hnew⟩ := KeysUnique.concat_iff.1 h.columns
    exact ⟨⟨hcolumns, h.indexes, h.relations⟩, hnew⟩
  · rintro ⟨h, hnew⟩
    exact ⟨KeysUnique.concat_iff.2 ⟨h.columns, hnew⟩, h.indexes, h.relations⟩

theorem namesUnique_addIndex_iff {i : Index} :
    (t.addIndex i).NamesUnique ↔ t.NamesUnique ∧ withKey? Index.key i.key t.indexes = none := by
  constructor
  · intro h
    obtain ⟨hindexes, hnew⟩ := KeysUnique.concat_iff.1 h.indexes
    exact ⟨⟨h.columns, hindexes, h.relations⟩, hnew⟩
  · rintro ⟨h, hnew⟩
    exact ⟨h.columns, KeysUnique.concat_iff.2 ⟨h.indexes, hnew⟩, h.relations⟩

theorem namesUnique_addRelation_iff {k : ForeignKey} :
    (t.addRelation k).NamesUnique ↔ t.NamesUnique ∧ withKey? ForeignKey.name k.name t.relations = none := by
  constructor
  · intro h
    obtain ⟨hrelations, hnew⟩ := KeysUnique.concat_iff.1 h.relations
    exact ⟨⟨h.columns, h.indexes, hrelations⟩, hnew⟩
  · rintro ⟨h, hnew⟩
    exact ⟨h.columns, h.indexes, KeysUnique.concat_iff.2 ⟨h.relations, hnew⟩⟩

end Table

/-- A schema that is built table by table has unique names exactly if each table has and its own name is new. -/
theorem Schema.namesUnique_addTable_iff {s : Schema} {t : Table} :
    (s.addTable t).NamesUnique ↔ s.NamesUnique ∧ t.NamesUnique ∧ withKey? Table.name t.name s.tables = none := by
  constructor
  · intro h
    obtain ⟨htables, hnew⟩ := KeysUnique.concat_iff.1 h.tables
    obtain ⟨hinside, ht⟩ := List.forall_mem_append.1 h.inside
    exact ⟨⟨htables, hinside⟩, ht t (List.mem_singleton_self t), hnew⟩
  · rintro ⟨h, ht, hnew⟩
    exact ⟨KeysUnique.concat_iff.2 ⟨h.tables, hnew⟩,
      List.forall_mem_append.2 ⟨h.inside, List.forall_mem_singleton.2 ht⟩⟩

end SchemaMigration
