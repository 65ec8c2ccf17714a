import SchemaMigration.Proofs.KeyedChanges
import SchemaMigration.Proofs.ObjectMaps

/-!
# Down undoes up

The alterations for the changes between two definitions of a table lead from the objects of the observed one to those of
the declared one, and back (`alterations_round_trip`).

* Alterations whose text says `DROP` are moved ahead (`dropsToFront`), whatever makes the text say so. What stays in its
  order is all that matters: the alterations of one slot (`filter_dropsToFront`), since the only slots with two of them,
  those of a changed index or foreign key, have the one that drops in front (`dropsToFront_eq_self`).
* The alterations of a slot are those of the change with its name (`filter_concerns_flatMap`), and they exchange the two
  definitions of that change.

What is said of alterations holds of the statements that are sent for them (`Alteration.runOn_eq_of_map_sql_eq`).
-/

namespace SchemaMigration

open Ddl (Alteration)

/-! ## Drops ahead -/

theorem containsText_append (a pattern b : List Char) : containsText pattern (a ++ (pattern ++ b)) = true := by
  induction a with
  | nil =>
    cases hs : pattern ++ b with
    | nil => simp [containsText, (List.append_eq_nil_iff.1 hs).1]
    | cons c r =>
      have hpre : pattern.isPrefixOf (c :: r) = true := by rw [← hs]; simp
      simp [containsText, hpre]
  | cons c a ih => simp [containsText, ih]

/-- An alteration whose heading starts with `DROP` says so. -/
theorem saysDrop_of_heading {a : Alteration} {x : Alteration.Heading} (ha : a.heading = x)
    (hx : "DROP".toList <+: x.text.toList) (table : String) : saysDrop (a.sql table) = true := by
  subst ha
  obtain ⟨rest, hrest⟩ := hx.trans a.heading_isPrefix_clause
  have htext : (a.sql table).toList =
      ("ALTER TABLE " ++ Text.quoteName table ++ " ").toList ++ ("DROP".toList ++ (rest ++ ";".toList)) := by
    show ("ALTER TABLE " ++ Text.quoteName table ++ " " ++ a.clause ++ ";").toList = _
    simp only [← hrest, String.toList_append, List.append_assoc]
  rw [saysDrop, htext]
  exact containsText_append ..

section DropsToFront

variable {α : Type} {text : α → String}

theorem filter_dropsToFront (p : α → Bool) (xs : List α) :
    (dropsToFront text xs).filter p = dropsToFront text (xs.filter p) := by
  simp only [dropsToFront_eq, List.filter_append, List.filter_filter, Bool.and_comm]

/-- Nothing moves where no text says `DROP` after one that does not. -/
theorem dropsToFront_eq_self {xs : List α}
    (h : xs.Pairwise fun x y => saysDrop (text y) = true → saysDrop (text x) = true) : dropsToFront text xs = xs := by
  rw [dropsToFront_eq]
  induction xs with
  | nil => rfl
  | cons x xs ih =>
    obtain ⟨hx, hxs⟩ := List.pairwise_cons.1 h
    cases hd : saysDrop (text x) with
    | true => simpa [hd] using ih hxs
    | false =>
      have hnone : ∀ y ∈ xs, saysDrop (text y) = false := fun y hy => by
        cases hy' : saysDrop (text y) with
        | false => rfl
        | true => rw [hx y hy hy'] at hd; cases hd
      have hfst : xs.filter (fun y => saysDrop (text y)) = [] :=
        List.filter_eq_nil_iff.2 fun y hy => by simp [hnone y hy]
      have hsnd : xs.filter (fun y => !saysDrop (text y)) = xs :=
        List.filter_eq_self.2 fun y hy => by simp [hnone y hy]
      simp [hd, hfst, hsnd]

end DropsToFront

/-! ## One change -/

theorem saysDrop_removeIndex (table : String) (i : Index) :
    saysDrop ((Alteration.removeIndex i).sql table) = true := by
  cases h : i.isPrimary with
  | true =>
    rw [Alteration.removeIndex, h]
    exact saysDrop_of_heading (x := .dropPrimaryKey) rfl (by decide) table
  | false =>
    rw [Alteration.removeIndex, h]
    exact saysDrop_of_heading (x := .dropIndex) rfl (by decide) table

theorem saysDrop_dropRelation (table name : String) :
    saysDrop ((Alteration.dropRelation name).sql table) = true :=
  saysDrop_of_heading (x := .dropRelation) rfl (by decide) table

/-- No alteration says `DROP` after one that does not. -/
def DropsAhead (table : String) (as : List Alteration) : Prop :=
  as.Pairwise fun a b => saysDrop (b.sql table) = true → saysDrop (a.sql table) = true

/-- The alterations for a change concern only the slot of its key, those that drop come first, and they lead from the
observed definition to the declared one and back. -/
structure Exchanges {α : Type} (kind : ObjectKind) (key define : α → String) (f : Change α → Reversible Alteration) :
    Prop where
  slot : ∀ c, c.Matched key → ∀ a ∈ (f c).up ++ (f c).down, a.action?.map (·.1) = some ⟨kind, c.key key⟩
  ahead : ∀ table c, DropsAhead table (f c).up ∧ DropsAhead table (f c).down
  up : ∀ c, Alteration.runAt (f c).up (c.observed?.map define) = some (c.declared?.map define)
  down : ∀ c, Alteration.runAt (f c).down (c.declared?.map define) = some (c.observed?.map define)

theorem exchanges_columnAlterations (charset : String) :
    Exchanges .column Column.name (·.definition charset) (·.columnAlterations charset) where
  slot c h := by
    cases c with
    | added c | removed c => simp [Change.columnAlterations, Reversible.pair, Change.key, Alteration.action?]
    | altered c d =>
      have hname : c.name = d.name := h c rfl d rfl
      simp [Change.columnAlterations, Reversible.pair, Change.key, Alteration.action?, hname]
  ahead table c := by cases c <;> simp [DropsAhead, Change.columnAlterations, Reversible.pair]
  up c := by cases c <;> rfl
  down c := by cases c <;> rfl

theorem exchanges_indexAlterations :
    Exchanges .index Index.key Index.definition Change.indexAlterations where
  slot c h := by
    -- an index that goes is dropped by its kind, but always in the slot of its key
    cases c with
    | added i | removed i =>
      simp only [Change.indexAlterations, Reversible.pair, Change.key, List.singleton_append, List.forall_mem_cons,
        Alteration.action?_removeIndex]
      simp [Alteration.action?]
    | altered i j =>
      have hkey : i.key = j.key := h i rfl j rfl
      simp only [Change.indexAlterations, Change.key, List.cons_append, List.nil_append, List.forall_mem_cons,
        Alteration.action?_removeIndex]
      simp [Alteration.action?, hkey]
  ahead table c := by cases c <;> simp [DropsAhead, Change.indexAlterations, Reversible.pair, saysDrop_removeIndex]
  up c := by
    cases c with
    | added i => rfl
    | removed i => simp [Change.indexAlterations, Reversible.pair, Change.observed?, Change.declared?]
    | altered _ i =>
      simp only [Change.indexAlterations, Change.observed?, Change.declared?, Option.map_some, Alteration.runAt_cons,
        Alteration.applyAt_removeIndex, Option.bind_some]
      rfl
  down c := by
    cases c with
    | removed i => rfl
    | added i => simp [Change.indexAlterations, Reversible.pair, Change.observed?, Change.declared?]
    | altered i _ =>
      simp only [Change.indexAlterations, Change.observed?, Change.declared?, Option.map_some, Alteration.runAt_cons,
        Alteration.applyAt_removeIndex, Option.bind_some]
      rfl

theorem exchanges_relationAlterations :
    Exchanges .relation ForeignKey.name ForeignKey.definition Change.relationAlterations where
  slot c h := by
    cases c with
    | added k | removed k => simp [Change.relationAlterations, Reversible.pair, Change.key, Alteration.action?]
    | altered k l =>
      have hname : k.name = l.name := h k rfl l rfl
      simp [Change.relationAlterations, Change.key, Alteration.action?, hname]
  ahead table c := by
    cases c <;> simp [DropsAhead, Change.relationAlterations, Reversible.pair, saysDrop_dropRelation]
  up c := by cases c <;> rfl
  down c := by cases c <;> rfl

/-! ## One slot -/

section OneSlot

variable {α : Type} {kind : ObjectKind} {key define : α → String} {f : Change α → Reversible Alteration}
  {same : α → α → Bool} {declared observed : List α}

/-- The alterations of a slot are those for the changes of its kind with its name. -/
theorem filter_concerns_flatMap {cs : List (Change α)} {g : Change α → List Alteration}
    (h : ∀ c ∈ cs, ∀ a ∈ g c, a.action?.map (·.1) = some ⟨kind, c.key key⟩) (s : Slot) :
    (cs.flatMap g).filter (Alteration.concerns s) =
      if s.kind = kind then (cs.filter fun c => c.key key == s.name).flatMap g else [] := by
  have hconcerns : ∀ c ∈ cs, ∀ a ∈ g c, a.concerns s = decide (s.kind = kind ∧ c.key key = s.name) := by
    intro c hc a ha
    obtain ⟨⟨s', e⟩, hact, rfl⟩ := Option.map_eq_some_iff.1 (h c hc a ha)
    rw [Alteration.concerns, hact, Option.any_some, Bool.eq_iff_iff, beq_iff_eq, decide_eq_true_eq, Slot.mk.injEq]
    exact and_congr_left fun _ => eq_comm
  induction cs with
  | nil => simp
  | cons c cs ih =>
    have hc := hconcerns c List.mem_cons_self
    have hrest := ih (fun c hc => h c (List.mem_cons_of_mem _ hc)) fun c hc => hconcerns c (List.mem_cons_of_mem _ hc)
    rw [List.flatMap_cons, List.filter_append, hrest]
    by_cases hs : s.kind = kind ∧ c.key key = s.name
    · rw [List.filter_eq_self.2 fun a ha => by rw [hc a ha]; simpa using hs]
      simp [hs.1, hs.2]
    · rw [List.filter_eq_nil_iff.2 fun a ha => by rw [hc a ha]; simpa using hs]
      by_cases hkind : s.kind = kind
      · simp [hkind, show ¬ c.key key = s.name from fun hn => hs ⟨hkind, hn⟩]
      · simp [hkind]

/-- Where no change has a key, both lists have it or neither has. -/
theorem isSome_withKey?_of_unchanged (hd : KeysUnique key declared) (ho : KeysUnique key observed) {k : String}
    (h : ((changesByKey key same declared observed).any fun c => c.key key == k) = false) :
    (withKey? key k declared).isSome = (withKey? key k observed).isSome := by
  have hnone : withKey? (Change.key key) k (changesByKey key same declared observed) = none := by
    simpa [withKey?] using h
  rw [withKey?_changesByKey hd ho] at hnone
  cases hx : withKey? key k declared <;> cases hy : withKey? key k observed <;>
    simp [hx, hy, changeAt?, differenceAt?] at hnone ⊢

/-- The alterations for the change with a key, however drops are moved ahead, put the declared object in the place of
the observed one, and back; without such a change they are none. -/
theorem Exchanges.runAt_changesByKey (h : Exchanges kind key define f) (hd : KeysUnique key declared)
    (ho : KeysUnique key observed) (table k : String) :
    let cs := changesByKey key same declared observed
    let before := (withKey? key k observed).map define
    let after := if cs.any (fun c => c.key key == k) then (withKey? key k declared).map define else before
    Alteration.runAt (dropsToFront (·.sql table) ((cs.filter fun c => c.key key == k).flatMap fun c => (f c).up))
        before = some after ∧
      Alteration.runAt (dropsToFront (·.sql table) ((cs.filter fun c => c.key key == k).flatMap fun c => (f c).down))
        after = some before := by
  intro cs before after
  have hfilter : cs.filter (fun c => c.key key == k) = _ := filter_changesByKey hd ho k
  cases hc : changeAt? same (withKey? key k declared) (withKey? key k observed) with
  | none =>
    rw [hc, Option.toList_none] at hfilter
    have hany : cs.any (fun c => c.key key == k) = false := by
      simpa [List.filter_eq_nil_iff] using hfilter
    have hafter : after = before := by simp [after, hany]
    rw [hfilter, hafter]
    exact ⟨rfl, rfl⟩
  | some c =>
    rw [hc, Option.toList_some] at hfilter
    have hmem : c ∈ cs.filter fun c => c.key key == k := by rw [hfilter]; exact List.mem_singleton_self c
    have hany : cs.any (fun c => c.key key == k) = true :=
      List.any_eq_true.2 ⟨c, (List.mem_filter.1 hmem).1, (List.mem_filter.1 hmem).2⟩
    obtain ⟨hx, hy⟩ := sides_of_changeAt? hc
    have hafter : after = c.declared?.map define := by simp [after, hany, hx]
    have hbefore : before = c.observed?.map define := by rw [hy]
    obtain ⟨hup, hdown⟩ := h.ahead table c
    rw [hfilter, hafter, hbefore, List.flatMap_singleton, List.flatMap_singleton, dropsToFront_eq_self hup,
      dropsToFront_eq_self hdown]
    exact ⟨h.up c, h.down c⟩

end OneSlot

/-! ## All slots -/

/-- The names of a table's objects of one kind. -/
def Table.names (t : Table) : ObjectKind → List String
  | .column => t.columns.map Column.name
  | .index => t.indexes.map Index.key
  | .relation => t.relations.map ForeignKey.name

theorem Table.isSome_objects (t : Table) (charset : String) (s : Slot) :
    (t.objects charset s).isSome ↔ s.name ∈ t.names s.kind := by
  obtain ⟨kind, name⟩ := s
  cases kind <;> simp [Table.objects, Table.names, withKey?]

namespace TableChanges

/-- The object in the slot is one that changes. -/
def alters (c : TableChanges) : Slot → Bool
  | ⟨.column, name⟩ => c.columns.any fun x => x.key Column.name == name
  | ⟨.index, key⟩ => c.indexes.any fun x => x.key Index.key == key
  | ⟨.relation, name⟩ => c.relations.any fun x => x.key ForeignKey.name == name

/-- The alterations for the changes with the name of a slot, of all that could be there. -/
def alterationsAt (c : TableChanges) (charset : String) : Slot → Reversible Alteration
  | ⟨.column, name⟩ => .concat ((c.columns.filter (·.key Column.name == name)).map (·.columnAlterations charset))
  | ⟨.index, key⟩ => .concat ((c.indexes.filter (·.key Index.key == key)).map (·.indexAlterations))
  | ⟨.relation, name⟩ => .concat ((c.relations.filter (·.key ForeignKey.name == name)).map (·.relationAlterations))

/-- Every change is one of an object that keeps its key. -/
structure Matched (c : TableChanges) : Prop where
  columns : ∀ x ∈ c.columns, x.Matched Column.name
  indexes : ∀ x ∈ c.indexes, x.Matched Index.key
  relations : ∀ x ∈ c.relations, x.Matched ForeignKey.name

theorem matched_between {t u : Table} (ht : t.NamesUnique) (hu : u.NamesUnique) (d : Defaults) :
    (between t u d).Matched where
  columns _ := matched_of_mem_changesByKey ht.columns hu.columns
  indexes _ := matched_of_mem_changesByKey ht.indexes hu.indexes
  relations _ := matched_of_mem_changesByKey ht.relations hu.relations

/-- An option of the table is in no slot. -/
theorem filter_concerns_optionAlterations (c : TableChanges) (d : Defaults) (s : Slot) :
    (c.optionAlterations d).up.filter (Alteration.concerns s) = [] ∧
      (c.optionAlterations d).down.filter (Alteration.concerns s) = [] := by
  simp only [optionAlterations]
  cases c.engineChanged <;> cases c.charsetChanged <;> cases c.collationChanged <;> exact ⟨rfl, rfl⟩

/-- What concerns a slot among all alterations of a table, in either direction. -/
theorem filter_concerns_alterations {c : TableChanges} (h : c.Matched) (d : Defaults) (s : Slot) :
    (c.alterations d).up.filter (Alteration.concerns s) =
        dropsToFront (·.sql c.declared.name) (c.alterationsAt (c.declared.effectiveCharset d) s).up ∧
      (c.alterations d).down.filter (Alteration.concerns s) =
        dropsToFront (·.sql c.declared.name) (c.alterationsAt (c.declared.effectiveCharset d) s).down := by
  obtain ⟨hup, hdown⟩ := c.filter_concerns_optionAlterations d s
  have hcolumns := (exchanges_columnAlterations (c.declared.effectiveCharset d)).slot
  have hindexes := exchanges_indexAlterations.slot
  have hrelations := exchanges_relationAlterations.slot
  obtain ⟨kind, name⟩ := s
  simp only [alterations, Reversible.dropsFirst, filter_dropsToFront, Reversible.up_append, Reversible.down_append,
    List.filter_append, hup, hdown, List.nil_append, nestedAlterations, Reversible.up_concat, Reversible.down_concat,
    List.flatMap_append, List.flatMap_map]
  constructor
  · rw [filter_concerns_flatMap fun x hx a ha => hcolumns x (h.columns x hx) a (List.mem_append_left _ ha),
      filter_concerns_flatMap fun x hx a ha => hindexes x (h.indexes x hx) a (List.mem_append_left _ ha),
      filter_concerns_flatMap fun x hx a ha => hrelations x (h.relations x hx) a (List.mem_append_left _ ha)]
    cases kind <;> simp [alterationsAt, Reversible.up_concat, List.flatMap_map]
  · rw [filter_concerns_flatMap fun x hx a ha => hcolumns x (h.columns x hx) a (List.mem_append_right _ ha),
      filter_concerns_flatMap fun x hx a ha => hindexes x (h.indexes x hx) a (List.mem_append_right _ ha),
      filter_concerns_flatMap fun x hx a ha => hrelations x (h.relations x hx) a (List.mem_append_right _ ha)]
    cases kind <;> simp [alterationsAt, Reversible.down_concat, List.flatMap_map]

/-- The objects once every change between two definitions has been made: the declared ones where there is a change, the
observed ones elsewhere. -/
def reached (c : TableChanges) (charset : String) : Objects := fun s =>
  if c.alters s then c.declared.objects charset s else c.observed.objects charset s

theorem runAt_alterationsAt {t u : Table} (ht : t.NamesUnique) (hu : u.NamesUnique) (d : Defaults)
    (table charset : String) (s : Slot) :
    let c := between t u d
    Alteration.runAt (dropsToFront (·.sql table) (c.alterationsAt charset s).up) (u.objects charset s) =
        some (c.reached charset s) ∧
      Alteration.runAt (dropsToFront (·.sql table) (c.alterationsAt charset s).down) (c.reached charset s) =
        some (u.objects charset s) := by
  obtain ⟨kind, name⟩ := s
  cases kind with
  | column =>
    simp only [alterationsAt, Reversible.up_concat, Reversible.down_concat, List.flatMap_map]
    exact (exchanges_columnAlterations charset).runAt_changesByKey ht.columns hu.columns table name
  | index =>
    simp only [alterationsAt, Reversible.up_concat, Reversible.down_concat, List.flatMap_map]
    exact exchanges_indexAlterations.runAt_changesByKey ht.indexes hu.indexes table name
  | relation =>
    simp only [alterationsAt, Reversible.up_concat, Reversible.down_concat, List.flatMap_map]
    exact exchanges_relationAlterations.runAt_changesByKey ht.relations hu.relations table name

/-- Where nothing changes, both sides have an object or neither has. -/
theorem isSome_objects_of_not_alters {t u : Table} (ht : t.NamesUnique) (hu : u.NamesUnique) (d : Defaults)
    (charset : String) {s : Slot} (h : (between t u d).alters s = false) :
    (t.objects charset s).isSome = (u.objects charset s).isSome := by
  obtain ⟨kind, name⟩ := s
  cases kind with
  | column =>
    simpa [Table.objects] using isSome_withKey?_of_unchanged ht.columns hu.columns h
  | index =>
    simpa [Table.objects] using isSome_withKey?_of_unchanged ht.indexes hu.indexes h
  | relation =>
    simpa [Table.objects] using isSome_withKey?_of_unchanged ht.relations hu.relations h

/-- The objects reached are those of the declared table, each name on its own. -/
theorem isSome_reached {t u : Table} (ht : t.NamesUnique) (hu : u.NamesUnique) (d : Defaults) (charset : String)
    (s : Slot) : ((between t u d).reached charset s).isSome ↔ s.name ∈ t.names s.kind := by
  rw [← t.isSome_objects charset, reached]
  cases h : (between t u d).alters s with
  | true => rfl
  | false => rw [isSome_objects_of_not_alters ht hu d charset h]; rfl

end TableChanges

/-- The alterations for the changes from an observed table to a declared one run from the objects of the observed table,
and end with those of the declared one, definitions differing only where a change lists them; from there the
alterations back run, and end where all began. -/
theorem alterations_round_trip {t u : Table} (ht : t.NamesUnique) (hu : u.NamesUnique) (d e : Defaults) :
    let c := TableChanges.between t u d
    let charset := t.effectiveCharset e
    ∃ reached : Objects,
      Alteration.runOn (c.alterations e).up (u.objects charset) = some reached ∧
        (∀ s, (reached s).isSome ↔ s.name ∈ t.names s.kind) ∧
        (∀ s, c.alters s → reached s = t.objects charset s) ∧
        (∀ s, ¬ c.alters s → reached s = u.objects charset s) ∧
        Alteration.runOn (c.alterations e).down reached = some (u.objects charset) := by
  intro c charset
  have hconcerns := TableChanges.filter_concerns_alterations (TableChanges.matched_between ht hu d) e
  have hrun := TableChanges.runAt_alterationsAt ht hu d t.name charset
  refine ⟨c.reached charset, ?_, TableChanges.isSome_reached ht hu d charset, ?_, ?_, ?_⟩
  · rw [Alteration.runOn_eq_some_iff]
    intro s
    rw [(hconcerns s).1]
    exact (hrun s).1
  · intro s hs
    exact if_pos hs
  · intro s hs
    exact if_neg hs
  · rw [Alteration.runOn_eq_some_iff]
    intro s
    rw [(hconcerns s).2]
    exact (hrun s).2

/-- A table in which names and comments say `DROP`, as it is declared. -/
def Table.dropLog : Table :=
  { name := "DROP_LOG"
    columns := [
      { name := "id", type := .integer .big 20, nullable := false },
      { name := "DROP", type := .text .standard, comment := some "why we DROP" },
      { name := "at", type := .temporal .dateTime }]
    indexes := [.primary ["id"], { name := "by DROP", kind := .unique, columns := ["at"] }]
    relations := [
      { name := "DROP by", columns := ["id"], referencesTable := "users", referencesColumns := ["id"],
        onDelete := some .cascade }] }

/-- An older form of the same table. -/
def Table.oldDropLog : Table :=
  { name := "DROP_LOG"
    columns := [
      { name := "old DROP", type := .json },
      { name := "DROP", type := .length .varChar 80 },
      { name := "id", type := .integer .big 20, nullable := false }]
    indexes := [{ name := "by DROP", kind := .key, columns := ["at"] }, .primary ["id", "DROP"]]
    relations := [
      { name := "DROP by", columns := ["id"], referencesTable := "users", referencesColumns := ["id"] }]
    charset := some "latin1" }

/-- Every kind of change, in a table whose alterations all say `DROP`. -/
theorem alterations_round_trip_dropLog :
    Table.dropLog.NamesUnique ∧ Table.oldDropLog.NamesUnique ∧
      let c := TableChanges.between .dropLog .oldDropLog {}
      ∃ reached : Objects,
        Alteration.runOn (c.alterations {}).up (Table.oldDropLog.objects "utf8mb4") = some reached ∧
          reached ⟨.index, "by DROP"⟩ = some "UNIQUE KEY `by DROP` (`at`)" ∧
          reached ⟨.column, "old DROP"⟩ = none ∧
          Alteration.runOn (c.alterations {}).down reached = some (Table.oldDropLog.objects "utf8mb4") := by
  have hdeclared : Table.dropLog.NamesUnique := by decide
  have hobserved : Table.oldDropLog.NamesUnique := by decide
  obtain ⟨reached, hup, -, haltered, -, hdown⟩ := alterations_round_trip hdeclared hobserved {} {}
  refine ⟨hdeclared, hobserved, reached, hup, ?_, ?_, hdown⟩
  · rw [haltered ⟨.index, "by DROP"⟩ (by decide)]
    decide
  · rw [haltered ⟨.column, "old DROP"⟩ (by decide)]
    decide

end SchemaMigration
