import SchemaMigration.Proofs.PrimaryKeys

/-!
# Drops ahead of all else

The alterations of a table are built part by part (`TableChanges.built`, in the order of `Alteration.stage`), and those
that drop something are meant to go ahead of all others, so that what is dropped makes room for what is added
(`Alteration.OnlyDropsMoved`). What goes ahead is told by the text of a statement alone, and names, defaults and
comments are part of it: an alteration that says `DROP` there is mistaken for a drop (`Alteration.isMistaken`).

`alterations_onlyDropsMoved_iff` says when that does no harm: when each alteration that is mistaken stands behind all
drops and ahead of whatever is not moved. It says as well when an index or a foreign key gets ahead of a column.
-/

namespace SchemaMigration

open Ddl (Alteration)

/-! ## Kinds of alterations -/

namespace Ddl.Alteration

/-- The alteration takes a column, an index, the primary key or a foreign key away. -/
def isDrop : Alteration → Bool
  | dropColumn _ | dropPrimaryKey | dropIndex _ | dropRelation _ => true
  | setEngine _ | convert .. | addColumn .. | changeColumn .. | addIndex _ | addRelation _ => false

/-- The alteration adds a column or changes one. -/
def writesColumn : Alteration → Bool
  | addColumn .. | changeColumn .. => true
  | _ => false

/-- The alteration adds an index or a foreign key. -/
def addsKey : Alteration → Bool
  | addIndex _ | addRelation _ => true
  | _ => false

/-- The place of an alteration in the order in which a table is altered: engine, character set, collation, columns,
indexes, foreign keys. -/
def stage : Alteration → Nat
  | setEngine _ => 0
  | convert _ none => 1
  | convert _ (some _) => 2
  | addColumn .. | dropColumn _ | changeColumn .. => 3
  | addIndex _ | dropPrimaryKey | dropIndex _ => 4
  | addRelation _ | dropRelation _ => 5

/-- The alteration drops nothing, and its text says `DROP` all the same. -/
def isMistaken (table : String) (a : Alteration) : Bool :=
  !a.isDrop && saysDrop (a.sql table)

theorem saysDrop_of_isDrop {a : Alteration} (h : a.isDrop) (table : String) : saysDrop (a.sql table) = true := by
  cases a with
  | dropColumn name => exact saysDrop_dropColumn table name
  | dropPrimaryKey => exact saysDrop_dropPrimaryKey table
  | dropIndex name => exact saysDrop_of_heading (x := .dropIndex) rfl (by decide) table
  | dropRelation name => exact saysDrop_dropRelation table name
  | setEngine | convert | addColumn | changeColumn | addIndex | addRelation => cases h

/-! ## Orders of alterations -/

/-- The alterations with the drops ahead: only drops have moved, and either group keeps its order. -/
def OnlyDropsMoved (built moved : List Alteration) : Prop :=
  moved = built.filter isDrop ++ built.filter fun a => !a.isDrop

instance (built moved : List Alteration) : Decidable (OnlyDropsMoved built moved) :=
  inferInstanceAs (Decidable (moved = _))

/-- What is mistaken for a drop comes after all drops and before all that does not say `DROP`. -/
def MistakesHarmless (table : String) (built : List Alteration) : Prop :=
  built.Pairwise fun a b =>
    (a.isMistaken table → b.isDrop = false) ∧ (b.isMistaken table → saysDrop (a.sql table) = true)

instance (table : String) (built : List Alteration) : Decidable (MistakesHarmless table built) :=
  inferInstanceAs (Decidable (built.Pairwise _))

/-- Every index and foreign key is added after all columns that are added or changed. -/
def KeysAfterColumns (as : List Alteration) : Prop :=
  as.Pairwise fun a b => a.addsKey → b.writesColumn = false

instance (as : List Alteration) : Decidable (KeysAfterColumns as) :=
  inferInstanceAs (Decidable (as.Pairwise _))

/-- An index or a foreign key that says `DROP` is added only where every column that is added or changed says so too. -/
def NoKeyMistaken (table : String) (built : List Alteration) : Prop :=
  ∀ a ∈ built, a.addsKey → saysDrop (a.sql table) = true →
    ∀ b ∈ built, b.writesColumn → saysDrop (b.sql table) = true

instance (table : String) (built : List Alteration) : Decidable (NoKeyMistaken table built) :=
  inferInstanceAs (Decidable (∀ a ∈ built, _ → _ → ∀ b ∈ built, _ → _))

end Ddl.Alteration

/-! ## Stable partitions -/

section

variable {α : Type} {p q : α → Bool}

/-- A group stands in two parts exactly if nothing of the second part comes before anything of the first. -/
theorem filter_eq_append_iff (h : ∀ x, p x → q x) (xs : List α) :
    xs.filter q = xs.filter p ++ xs.filter (fun x => q x && !p x) ↔
      xs.Pairwise fun x y => (q x && !p x) = true → p y = false := by
  induction xs with
  | nil => simp
  | cons x xs ih =>
    rw [List.pairwise_cons, ← ih]
    cases hp : p x with
    | true => simp [hp, h x hp]
    | false =>
      cases hq : q x with
      | false => simp [hp, hq]
      | true =>
        -- `x` heads the group, so the first part must be empty
        simp only [List.filter_cons, hp, hq, Bool.not_false, Bool.and_self, Bool.false_eq_true, if_true, if_false,
          true_imp_iff]
        constructor
        · intro heq
          cases hfst : xs.filter p with
          | nil =>
            rw [hfst, List.nil_append, List.cons_inj_right] at heq
            exact ⟨fun y hy => by simpa using List.filter_eq_nil_iff.1 hfst y hy, by rw [heq, List.nil_append]⟩
          | cons y ys =>
            rw [hfst, List.cons_append, List.cons.injEq] at heq
            have hy : p y = true := (List.mem_filter.1 (hfst ▸ List.mem_cons_self)).2
            rw [← heq.1, hp] at hy
            cases hy
        · rintro ⟨hnone, hrest⟩
          have hfst : xs.filter p = [] := List.filter_eq_nil_iff.2 fun y hy => by simp [hnone y hy]
          rw [hrest, hfst, List.nil_append, List.nil_append]

/-- A wider group moved ahead leaves a list as a narrower one does exactly if the elements by which they differ stand
between the narrower group and the rest. -/
theorem filter_append_filter_not_eq_iff (h : ∀ x, p x → q x) (xs : List α) :
    (xs.filter q ++ xs.filter (fun x => !q x) = xs.filter p ++ xs.filter fun x => !p x) ↔
      xs.Pairwise fun x y =>
        ((!p x && q x) = true → p y = false) ∧ ((!p y && q y) = true → q x = true) := by
  have hahead := filter_eq_append_iff h xs
  have hbehind := filter_eq_append_iff (p := fun x => q x && !p x) (q := fun x => !p x) (by simp) xs
  have hrest : ∀ x, (!p x && !(q x && !p x)) = !q x := fun x => by
    cases hp : p x with
    | true => simp [h x hp]
    | false => simp
  simp only [hrest] at hbehind
  have hsplit : (xs.filter q ++ xs.filter (fun x => !q x) = xs.filter p ++ xs.filter fun x => !p x) ↔
      xs.filter q = xs.filter p ++ xs.filter (fun x => q x && !p x) ∧
        xs.filter (fun x => !p x) = xs.filter (fun x => q x && !p x) ++ xs.filter fun x => !q x := by
    constructor
    · intro heq
      have hq := congrArg (List.filter q) heq
      have hp := congrArg (List.filter fun x => !p x) heq
      have hpq : ∀ x, (q x && p x) = p x := fun x => by
        cases hx : p x with
        | true => simp [h x hx]
        | false => simp
      have hnot : ∀ x, (!p x && !q x) = !q x := fun x => by
        cases hx : q x with
        | true => simp
        | false =>
          cases hy : p x with
          | true => rw [h x hy] at hx; cases hx
          | false => rfl
      simp only [List.filter_append, List.filter_filter, Bool.and_self, Bool.and_not_self, hpq] at hq
      simp only [List.filter_append, List.filter_filter, Bool.and_self, Bool.not_and_self, hnot] at hp
      simp only [List.filter_false, List.append_nil, List.nil_append] at hq hp
      refine ⟨hq, hp.symm.trans ?_⟩
      simp only [Bool.and_comm]
    · rintro ⟨hq, hp⟩
      rw [hq, hp, List.append_assoc]
  rw [hsplit, hahead, hbehind, ← List.pairwise_and_iff]
  refine List.Pairwise.iff fun x y => and_congr ?_ ?_
  · rw [Bool.and_comm]
  · cases q x <;> cases q y <;> cases p y <;> simp

end

/-! ## Alterations as they are built -/

/-- The alterations of a table before any of them is moved. -/
def TableChanges.built (c : TableChanges) (d : Defaults) : Reversible Alteration :=
  c.optionAlterations d ++ c.nestedAlterations d

namespace Ddl.Alteration

/-- The alterations stand in the order of their stages, none before the first and none after the last. -/
@[mk_iff]
structure InStages (first last : Nat) (as : List Alteration) : Prop where
  ordered : as.Pairwise fun a b => a.stage ≤ b.stage
  bounds : ∀ a ∈ as, first ≤ a.stage ∧ a.stage ≤ last

theorem InStages.append {i j k l : Nat} {as bs : List Alteration} (has : InStages i j as) (hbs : InStages k l bs)
    (hjk : j ≤ k) (hik : i ≤ k) (hjl : j ≤ l) : InStages i l (as ++ bs) where
  ordered := List.pairwise_append.2 ⟨has.ordered, hbs.ordered, fun a ha b hb =>
    Nat.le_trans (Nat.le_trans (has.bounds a ha).2 hjk) (hbs.bounds b hb).1⟩
  bounds := List.forall_mem_append.2
    ⟨fun a ha => ⟨(has.bounds a ha).1, Nat.le_trans (has.bounds a ha).2 hjl⟩,
      fun b hb => ⟨Nat.le_trans hik (hbs.bounds b hb).1, (hbs.bounds b hb).2⟩⟩

/-- Alterations of one stage are in order as they come. -/
theorem inStages_of_forall {n : Nat} {as : List Alteration} (h : ∀ a ∈ as, a.stage = n) : InStages n n as := by
  refine ⟨?_, fun a ha => by simp [h a ha]⟩
  induction as with
  | nil => exact .nil
  | cons a as ih =>
    obtain ⟨ha, has⟩ := List.forall_mem_cons.1 h
    exact .cons (fun b hb => by simp [ha, has b hb]) (ih has)

theorem le_stage_of_addsKey {a : Alteration} (h : a.addsKey) : 4 ≤ a.stage := by
  cases a with
  | addIndex | addRelation => simp [stage]
  | _ => cases h

theorem stage_of_writesColumn {a : Alteration} (h : a.writesColumn) : a.stage = 3 := by
  cases a with
  | addColumn | changeColumn => rfl
  | _ => cases h

theorem stage_removeIndex (i : Index) : (removeIndex i).stage = 4 := by
  cases h : i.isPrimary <;> simp [removeIndex, stage, h]

end Ddl.Alteration

namespace Reversible

variable {i j k l n : Nat} {r s : Reversible Alteration}

/-- The alterations stand in the order of their stages in either direction. -/
def InStages (first last : Nat) (r : Reversible Alteration) : Prop :=
  ∀ side ∈ [Reversible.up, Reversible.down], Alteration.InStages first last (side r)

theorem inStages_of_forall (h : ∀ a ∈ r.up ++ r.down, a.stage = n) : r.InStages n n := by
  intro side hside
  refine Alteration.inStages_of_forall fun a ha => h a ?_
  rcases List.mem_pair.1 hside with rfl | rfl
  · exact List.mem_append_left _ ha
  · exact List.mem_append_right _ ha

theorem InStages.append (hr : r.InStages i j) (hs : s.InStages k l) (hjk : j ≤ k) (hik : i ≤ k) (hjl : j ≤ l) :
    (r ++ s).InStages i l := by
  intro side hside
  have happend := (hr side hside).append (hs side hside) hjk hik hjl
  rcases List.mem_pair.1 hside with rfl | rfl
  · exact happend
  · exact happend

/-- An alteration for each of two tables, if they differ. -/
theorem inStages_ite {f : Table → Alteration} (h : ∀ t, (f t).stage = n) (changed : Bool) (t u : Table) :
    (if changed then pair (f t) (f u) else {} : Reversible Alteration).InStages n n := by
  refine inStages_of_forall fun a ha => ?_
  cases changed with
  | false => cases ha
  | true =>
    rcases List.mem_pair.1 ha with rfl | rfl
    · exact h t
    · exact h u

end Reversible

/-- Either list of alterations is built in the order of the stages: first the options of the table, then its parts. -/
theorem TableChanges.inStages_built (c : TableChanges) (d : Defaults) : (c.built d).InStages 0 5 := by
  have hcolumns : (Reversible.concat (c.columns.map (·.columnAlterations (c.declared.effectiveCharset d)))).InStages
      3 3 := by
    refine Reversible.inStages_of_forall fun a ha => ?_
    obtain ⟨_, hr, ha⟩ := Reversible.mem_concat.1 ha
    obtain ⟨x, -, rfl⟩ := List.mem_map.1 hr
    obtain ⟨_, -, rfl | rfl | rfl⟩ := Change.mem_columnAlterations ha <;> rfl
  have hindexes : (Reversible.concat (c.indexes.map (·.indexAlterations))).InStages 4 4 := by
    refine Reversible.inStages_of_forall fun a ha => ?_
    obtain ⟨_, hr, ha⟩ := Reversible.mem_concat.1 ha
    obtain ⟨x, -, rfl⟩ := List.mem_map.1 hr
    obtain ⟨i, -, rfl | rfl⟩ := Change.mem_indexAlterations ha
    · rfl
    · exact Alteration.stage_removeIndex i
  have hrelations : (Reversible.concat (c.relations.map (·.relationAlterations))).InStages 5 5 := by
    refine Reversible.inStages_of_forall fun a ha => ?_
    obtain ⟨_, hr, ha⟩ := Reversible.mem_concat.1 ha
    obtain ⟨x, -, rfl⟩ := List.mem_map.1 hr
    obtain ⟨_, -, rfl | rfl⟩ := Change.mem_relationAlterations ha <;> rfl
  have hengine := Reversible.inStages_ite (f := fun t => .setEngine (t.effectiveEngine d)) (fun _ => rfl)
    c.engineChanged c.declared c.observed
  have hcharset := Reversible.inStages_ite (f := fun t => .convert (t.effectiveCharset d) none) (fun _ => rfl)
    c.charsetChanged c.declared c.observed
  have hcollation := Reversible.inStages_ite
    (f := fun t => .convert (t.effectiveCharset d) (some (t.effectiveCollation d))) (fun _ => rfl)
    c.collationChanged c.declared c.observed
  have hoptions : (c.optionAlterations d).InStages 0 2 :=
    (hengine.append hcharset (by decide) (by decide) (by decide)).append hcollation (by decide) (by decide) (by decide)
  have hnested : (c.nestedAlterations d).InStages 3 5 := by
    rw [nestedAlterations, Reversible.concat_append, Reversible.concat_append]
    exact (hcolumns.append hindexes (by decide) (by decide) (by decide)).append hrelations (by decide) (by decide)
      (by decide)
  exact hoptions.append hnested (by decide) (by decide) (by decide)

/-! ## Alterations as they are moved -/

namespace Ddl.Alteration

/-- Drops are told by their text, so with the drops some others are moved. -/
theorem onlyDropsMoved_dropsToFront (table : String) (built : List Alteration) :
    OnlyDropsMoved built (dropsToFront (·.sql table) built) ↔ MistakesHarmless table built := by
  have hdrops : ∀ a : Alteration, a.isDrop → saysDrop (a.sql table) = true := fun _ h => saysDrop_of_isDrop h table
  simp only [OnlyDropsMoved, MistakesHarmless, isMistaken, dropsToFront_eq]
  exact filter_append_filter_not_eq_iff hdrops built

theorem InStages.keysAfterColumns {first last : Nat} {as : List Alteration} (h : InStages first last as) :
    KeysAfterColumns as := by
  refine h.ordered.imp fun {a b} hle hkey => ?_
  by_contra hcolumn
  have hstage : b.stage = 3 := stage_of_writesColumn (by simpa using hcolumn)
  have hlate : 4 ≤ a.stage := le_stage_of_addsKey hkey
  omega

/-- A key gets ahead of a column only if it says `DROP` and the column does not. -/
theorem keysAfterColumns_dropsToFront (table : String) {built : List Alteration} (h : KeysAfterColumns built) :
    KeysAfterColumns (dropsToFront (·.sql table) built) ↔ NoKeyMistaken table built := by
  rw [KeysAfterColumns, dropsToFront_eq, List.pairwise_append]
  constructor
  · rintro ⟨-, -, hacross⟩ a ha hkey hdrop b hb hcolumn
    by_contra hkeep
    have hstays : writesColumn b = false :=
      hacross a (List.mem_filter.2 ⟨ha, hdrop⟩) b (List.mem_filter.2 ⟨hb, by simpa using hkeep⟩) hkey
    rw [hcolumn] at hstays
    cases hstays
  · intro hmistaken
    refine ⟨h.sublist List.filter_sublist, h.sublist List.filter_sublist, fun a ha b hb hkey => ?_⟩
    obtain ⟨ha, hdrop⟩ := List.mem_filter.1 ha
    obtain ⟨hb, hkeep⟩ := List.mem_filter.1 hb
    cases hcolumn : b.writesColumn with
    | false => rfl
    | true => simp [hmistaken a ha hkey hdrop b hb hcolumn] at hkeep

end Ddl.Alteration

/-- In either direction the alterations are built in the order of the stages. Only drops are moved exactly if those that
are mistaken for drops stand between the drops and the rest, and keys stay behind columns exactly if no key is mistaken
where a column is not. -/
theorem alterations_onlyDropsMoved_iff (c : TableChanges) (d : Defaults) :
    ∀ side ∈ [Reversible.up, Reversible.down],
      let built := side (c.built d)
      let moved := side (c.alterations d)
      (built.Pairwise fun a b => a.stage ≤ b.stage) ∧
        (Alteration.OnlyDropsMoved built moved ↔ Alteration.MistakesHarmless c.declared.name built) ∧
        (Alteration.KeysAfterColumns moved ↔ Alteration.NoKeyMistaken c.declared.name built) := by
  intro side hside built moved
  have hstages : Alteration.InStages 0 5 built := c.inStages_built d side hside
  have hmoved : moved = dropsToFront (·.sql c.declared.name) built := by
    rcases List.mem_pair.1 hside with rfl | rfl <;> rfl
  rw [hmoved]
  exact ⟨hstages.ordered, Alteration.onlyDropsMoved_dropsToFront c.declared.name built,
    Alteration.keysAfterColumns_dropsToFront c.declared.name hstages.keysAfterColumns⟩

namespace Sample

/-- A new column and an index over it whose name holds the word. -/
def airdrops : TableChanges :=
  { declared := { name := "post", columns := [{ name := "code", type := .text .standard }] }
    observed := { name := "post" }
    columns := [.added { name := "code", type := .text .standard }]
    indexes := [.added { name := "by_AIRDROP", kind := .key, columns := ["code"] }] }

/-- A column as it stands on the server. -/
def note : Column :=
  { name := "note", type := .length .varChar 40 }

/-- An old column goes, another one gets a comment that holds the word, and an index over it comes. -/
def annotates : TableChanges :=
  let declared : Column := { note with comment := some "why we DROP" }
  { declared := { name := "post", columns := [declared] }
    observed := { name := "post", columns := [{ name := "old", type := .text .standard }, note] }
    columns := [.removed { name := "old", type := .text .standard }, .altered declared note]
    indexes := [.added { name := "by_note", kind := .key, columns := ["note"] }] }

end Sample

/-- The comment makes the change of its column pass for a drop, which moves it ahead of nothing. -/
theorem alterations_onlyDropsMoved_iff_annotates :
    Reversible.up ∈ [Reversible.up (α := Alteration), Reversible.down] ∧
      let built := (Sample.annotates.built {}).up
      let moved := (Sample.annotates.alterations {}).up
      built.countP (·.isMistaken "post") = 1 ∧
        Alteration.OnlyDropsMoved built moved ∧ Alteration.KeysAfterColumns moved := by
  have hside : Reversible.up ∈ [Reversible.up (α := Alteration), Reversible.down] := List.mem_cons_self
  obtain ⟨-, hdrops, hkeys⟩ := alterations_onlyDropsMoved_iff Sample.annotates {} Reversible.up hside
  exact ⟨hside, by decide +kernel, hdrops.2 (by decide +kernel), hkeys.2 (by decide +kernel)⟩

/-- An index whose name holds the word is added before the column that it is over. -/
theorem not_alterations_onlyDropsMoved :
    ¬ ∀ (c : TableChanges) (d : Defaults), ∀ side ∈ [Reversible.up, Reversible.down],
      Alteration.OnlyDropsMoved (side (c.built d)) (side (c.alterations d)) ∧
        Alteration.KeysAfterColumns (side (c.alterations d)) := by
  intro h
  have hmoved := h Sample.airdrops {} Reversible.up (List.mem_cons_self ..)
  revert hmoved
  decide

end SchemaMigration
