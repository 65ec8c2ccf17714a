import SchemaMigration.Ddl.Compile
import SchemaMigration.Proofs.ColumnReading
import SchemaMigration.Proofs.KeyReading
import Mathlib.Logic.Function.Basic

/-!
# Alterations as actions on maps

The named objects of a table are three maps, from the names of its columns, the keys of its indexes and the names of its
foreign keys to their definitions (`Objects`, read with a `Slot`). An alteration adds, changes or drops what stands in
one slot (`Alteration.action?`): adding needs an empty slot, changing and dropping a taken one. Options of the table
concern no slot.

What an alteration does is told by the statement that is sent for it (`action?_eq_of_sql_eq`): the words behind the
table's name tell what is done to which kind of object (`Heading`), and the quoted name or the definition that follows
tells the slot. So what a list of alterations makes of the maps is told by its statements
(`runOn_eq_of_map_sql_eq`).

A list of alterations runs on the maps exactly if for each slot the alterations of that slot, in their order, run on
what stands there (`runOn_eq_some_iff`): alterations of different slots can be put in any order.
-/

namespace SchemaMigration

/-- The kinds of named objects in a table. -/
inductive ObjectKind where
  | column | index | relation
  deriving DecidableEq

/-- Where an object stands in its table. -/
structure Slot where
  kind : ObjectKind
  name : String
  deriving DecidableEq

/-- The definitions of a table's columns, indexes and foreign keys by name. -/
abbrev Objects := Slot → Option String

/-- What happens to the object in a slot. -/
inductive Effect where
  | add (definition : String)
  | change (definition : String)
  | drop
  deriving DecidableEq

/-- The slot after the effect; `none` where the effect cannot be had. -/
def Effect.apply : Effect → Option String → Option (Option String)
  | .add definition, none => some (some definition)
  | .change definition, some _ => some (some definition)
  | .drop, some _ => some none
  | .add _, some _ | .change _, none | .drop, none => none

/-- The objects of a table whose columns are written for the given character set. -/
def Table.objects (t : Table) (charset : String) : Objects
  | ⟨.column, name⟩ => (withKey? Column.name name t.columns).map (·.definition charset)
  | ⟨.index, key⟩ => (withKey? Index.key key t.indexes).map (·.definition)
  | ⟨.relation, name⟩ => (withKey? ForeignKey.name name t.relations).map (·.definition)

namespace Ddl.Alteration

/-- The slot that an alteration concerns, and what happens there. -/
def action? : Alteration → Option (Slot × Effect)
  | setEngine _ | convert .. => none
  | addColumn c charset => some (⟨.column, c.name⟩, .add (c.definition charset))
  | dropColumn name => some (⟨.column, name⟩, .drop)
  | changeColumn c charset => some (⟨.column, c.name⟩, .change (c.definition charset))
  | addIndex i => some (⟨.index, i.key⟩, .add i.definition)
  | dropPrimaryKey => some (⟨.index, Index.primaryName⟩, .drop)
  | dropIndex name => some (⟨.index, name⟩, .drop)
  | addRelation k => some (⟨.relation, k.name⟩, .add k.definition)
  | dropRelation name => some (⟨.relation, name⟩, .drop)

@[simp]
theorem action?_removeIndex (i : Index) : (removeIndex i).action? = some (⟨.index, i.key⟩, .drop) := by
  cases h : i.isPrimary <;> simp [removeIndex, action?, Index.key, h]

/-! ## What the statement tells -/

/-- The words that the clause of an alteration starts with. -/
inductive Heading where
  | engine | convert | addColumn | dropColumn | changeColumn
  | addIndex (kind : IndexKind)
  | dropPrimaryKey | dropIndex | addRelation | dropRelation
  deriving DecidableEq

namespace Heading

def text : Heading → String
  | engine => "ENGINE = "
  | convert => "CONVERT TO CHARACTER SET "
  | addColumn => "ADD COLUMN "
  | dropColumn => "DROP COLUMN "
  | changeColumn => "CHANGE COLUMN "
  | addIndex kind => "ADD " ++ kind.sql
  | dropPrimaryKey => "DROP PRIMARY KEY"
  | dropIndex => "DROP KEY "
  | addRelation => "ADD CONSTRAINT "
  | dropRelation => "DROP FOREIGN KEY "

def all : List Heading :=
  [engine, convert, addColumn, dropColumn, changeColumn, addIndex .primary, addIndex .unique, addIndex .key,
    addIndex .fulltext, addIndex .spatial, dropPrimaryKey, dropIndex, addRelation, dropRelation]

theorem mem_all (x : Heading) : x ∈ all := by
  cases x with
  | addIndex kind => cases kind <;> simp [all]
  | _ => simp [all]

/-- No heading starts like another one. -/
theorem eq_of_isPrefix {x y : Heading} (h : x.text.toList <+: y.text.toList) : x = y := by
  have hall : ∀ x ∈ all, ∀ y ∈ all, x.text.toList <+: y.text.toList → x = y := by decide +kernel
  exact hall x (mem_all x) y (mem_all y) h

end Heading

/-- The heading of an alteration. -/
def heading : Alteration → Heading
  | setEngine _ => .engine
  | convert .. => .convert
  | addColumn .. => .addColumn
  | dropColumn _ => .dropColumn
  | changeColumn .. => .changeColumn
  | addIndex i => .addIndex i.kind
  | dropPrimaryKey => .dropPrimaryKey
  | dropIndex _ => .dropIndex
  | addRelation _ => .addRelation
  | dropRelation _ => .dropRelation

theorem toList_clause_changeColumn (c : Column) (charset : String) :
    (changeColumn c charset).clause.toList =
      "CHANGE COLUMN ".toList ++ (Text.nameChars c.name ++ ' ' :: (c.definition charset).toList) := by
  have hclause : (changeColumn c charset).clause =
      "CHANGE COLUMN " ++ Text.quoteName c.name ++ " " ++ c.definition charset := rfl
  have hblank : " ".toList = [' '] := rfl
  rw [hclause]
  simp only [String.toList_append, Text.toList_quoteName, hblank, List.append_assoc, List.singleton_append]

theorem heading_isPrefix_clause (a : Alteration) : a.heading.text.toList <+: a.clause.toList := by
  have happend : ∀ words rest : String, words.toList <+: (words ++ rest).toList := by
    intro words rest
    rw [String.toList_append]
    exact List.prefix_append ..
  cases a with
  | setEngine engine => exact happend "ENGINE = " engine
  | convert charset collation =>
    have hconvert := happend "CONVERT TO CHARACTER SET " charset
    cases collation with
    | none => exact hconvert
    | some collation =>
      have hcollate := happend ("CONVERT TO CHARACTER SET " ++ charset) " COLLATE "
      exact hconvert.trans (hcollate.trans (happend _ collation))
  | addColumn c charset => exact happend "ADD COLUMN " (c.definition charset)
  | dropColumn name => exact happend "DROP COLUMN " (Text.quoteName name)
  | changeColumn c charset =>
    rw [toList_clause_changeColumn]
    exact List.prefix_append ..
  | addIndex i =>
    show ("ADD " ++ i.kind.sql).toList <+: ("ADD " ++ i.definition).toList
    rw [String.toList_append, String.toList_append, Index.toList_definition]
    exact (List.prefix_append_right_inj _).2 (List.prefix_append ..)
  | dropPrimaryKey => exact List.prefix_rfl
  | dropIndex name => exact happend "DROP KEY " (Text.quoteName name)
  | addRelation k =>
    have hwords : "ADD CONSTRAINT " = "ADD " ++ "CONSTRAINT " := by decide
    show "ADD CONSTRAINT ".toList <+: ("ADD " ++ k.definition).toList
    rw [hwords, String.toList_append, String.toList_append, ForeignKey.toList_definition]
    exact (List.prefix_append_right_inj _).2 (List.prefix_append ..)
  | dropRelation name => exact happend "DROP FOREIGN KEY " (Text.quoteName name)

theorem heading_eq_of_clause_eq {a b : Alteration} (h : a.clause = b.clause) : a.heading = b.heading := by
  rcases List.prefix_or_prefix_of_prefix (h ▸ a.heading_isPrefix_clause) b.heading_isPrefix_clause with hab | hba
  · exact Heading.eq_of_isPrefix hab
  · exact (Heading.eq_of_isPrefix hba).symm

/-- The statement tells what an alteration does. -/
theorem action?_eq_of_sql_eq {table : String} {a b : Alteration} (h : a.sql table = b.sql table) :
    a.action? = b.action? := by
  have hclause := sql_eq_iff.1 h
  have hheading := heading_eq_of_clause_eq hclause
  -- what follows the heading is the same name or the same definition
  cases a with
  | setEngine | convert =>
    cases b with
    | setEngine | convert => rfl
    | _ => cases hheading
  | addColumn c charset =>
    cases b with
    | addColumn d =>
      have hdefinition := (String.append_right_inj "ADD COLUMN ").1 hclause
      rw [action?, action?, hdefinition, Column.name_eq_of_definition_eq hdefinition]
    | _ => cases hheading
  | dropColumn name =>
    cases b with
    | dropColumn => rw [Text.quoteName_injective ((String.append_right_inj "DROP COLUMN ").1 hclause)]
    | _ => cases hheading
  | changeColumn c charset =>
    cases b with
    | changeColumn d =>
      have hchars := congrArg String.toList hclause
      rw [toList_clause_changeColumn, toList_clause_changeColumn] at hchars
      obtain ⟨hname, hrest⟩ := Text.nameChars_append_inj rfl rfl (List.append_cancel_left hchars)
      rw [action?, action?, hname, String.toList_inj.1 (List.cons.inj hrest).2]
    | _ => cases hheading
  | addIndex i =>
    cases b with
    | addIndex j =>
      have hdefinition := (String.append_right_inj "ADD ").1 hclause
      rw [action?, action?, hdefinition, (Index.definition_eq_iff.1 hdefinition).key_eq]
    | _ => cases hheading
  | dropPrimaryKey =>
    cases b with
    | dropPrimaryKey => rfl
    | _ => cases hheading
  | dropIndex name =>
    cases b with
    | dropIndex => rw [Text.quoteName_injective ((String.append_right_inj "DROP KEY ").1 hclause)]
    | _ => cases hheading
  | addRelation k =>
    cases b with
    | addRelation => rw [ForeignKey.definition_inj ((String.append_right_inj "ADD ").1 hclause)]
    | _ => cases hheading
  | dropRelation name =>
    cases b with
    | dropRelation => rw [Text.quoteName_injective ((String.append_right_inj "DROP FOREIGN KEY ").1 hclause)]
    | _ => cases hheading

/-! ## Running alterations -/

/-- The alteration concerns the slot. -/
def concerns (s : Slot) (a : Alteration) : Bool :=
  a.action?.any (·.1 == s)

/-- The objects after an alteration; `none` where it cannot be applied. -/
def apply (a : Alteration) (m : Objects) : Option Objects :=
  match a.action? with
  | none => some m
  | some (s, e) => (e.apply (m s)).map (Function.update m s)

/-- What an alteration makes of the object in a slot that it concerns. -/
def applyAt (v : Option String) (a : Alteration) : Option (Option String) :=
  match a.action? with
  | none => some v
  | some (_, e) => e.apply v

@[simp]
theorem applyAt_removeIndex (i : Index) (definition : String) :
    (removeIndex i).applyAt (some definition) = some none := by
  rw [applyAt, action?_removeIndex]
  rfl

/-- The objects after alterations in their order; `none` where one of them cannot be applied. -/
def runOn (as : List Alteration) (m : Objects) : Option Objects :=
  as.foldlM (fun m a => a.apply m) m

/-- What alterations in their order make of the object in a slot that they all concern. -/
def runAt (as : List Alteration) (v : Option String) : Option (Option String) :=
  as.foldlM applyAt v

@[simp]
theorem runAt_nil (v : Option String) : runAt [] v = some v := rfl

@[simp]
theorem runAt_cons (a : Alteration) (as : List Alteration) (v : Option String) :
    runAt (a :: as) v = (a.applyAt v).bind (runAt as) := rfl

/-- The statements tell what alterations make of the objects. -/
theorem runOn_eq_of_map_sql_eq {table : String} {as bs : List Alteration}
    (h : as.map (·.sql table) = bs.map (·.sql table)) : runOn as = runOn bs := by
  induction as generalizing bs with
  | nil => rw [List.map_eq_nil_iff.1 h.symm]
  | cons a as ih =>
    cases bs with
    | nil => cases h
    | cons b bs =>
      obtain ⟨hsql, hrest⟩ := List.cons.inj h
      have happly : a.apply = b.apply := by
        funext m
        rw [apply, apply, action?_eq_of_sql_eq hsql]
      funext m
      show (a.apply m).bind (runOn as) = (b.apply m).bind (runOn bs)
      rw [happly, ih hrest]

/-- Each slot is altered on its own. -/
theorem runOn_eq_some_iff (as : List Alteration) (m m' : Objects) :
    runOn as m = some m' ↔ ∀ s, runAt (as.filter (concerns s)) (m s) = some (m' s) := by
  induction as generalizing m with
  | nil => simp [runOn, funext_iff]
  | cons a as ih =>
    have hstep : runOn (a :: as) m = (a.apply m).bind (runOn as) := rfl
    cases ha : a.action? with
    | none => simp [hstep, apply, ha, ih, concerns]
    | some se =>
      obtain ⟨s, e⟩ := se
      have happly : a.apply m = (e.apply (m s)).map (Function.update m s) := by simp [apply, ha]
      have hat : ∀ v, a.applyAt v = e.apply v := fun v => by simp [applyAt, ha]
      have hself : (a :: as).filter (concerns s) = a :: as.filter (concerns s) := by simp [concerns, ha]
      have hother : ∀ s', s ≠ s' → (a :: as).filter (concerns s') = as.filter (concerns s') := fun s' hs => by
        simp [concerns, ha, hs]
      rw [hstep, happly]
      cases he : e.apply (m s) with
      | none =>
        -- the slot of the first alteration is where both sides fail
        simp only [Option.map_none, Option.bind_none, reduceCtorEq, false_iff, not_forall]
        exact ⟨s, by simp [hself, hat, he]⟩
      | some v =>
        simp only [Option.map_some, Option.bind_some, ih]
        refine forall_congr' fun s' => ?_
        by_cases hs : s = s'
        · subst hs
          simp [hself, hat, he]
        · rw [hother s' hs, Function.update_of_ne (Ne.symm hs)]

end Ddl.Alteration

end SchemaMigration
