import SchemaMigration.Proofs.Equivalence
import SchemaMigration.Proofs.UniqueReading

/-!
# Reading index and foreign-key definitions back

The definition of an index tells its kind, its columns and its name, but for the name of a primary key, which is never
written: two indexes have one definition exactly if they are defined alike (`Index.definition_eq_iff`). The definition
of a foreign key tells all of it (`ForeignKey.definition_inj`), also what makes no difference to a server.
-/

namespace SchemaMigration

namespace Text

/-- A name between backticks. -/
def nameChars (name : String) : List Char :=
  enclosed backtick name.toList

theorem toList_quoteName (name : String) : (quoteName name).toList = nameChars name := by
  simp [quoteName, encloseName, nameChars]

theorem toList_quoteNames (names : List String) :
    (quoteNames names).toList = [','].intercalate (names.map nameChars) := by
  have hcomma : ",".toList = [','] := rfl
  simp [quoteNames, String.toList_intercalate, hcomma, Function.comp_def, toList_quoteName]

variable {m n : String} {ms ns : List String} {r s : List Char}

theorem nameChars_append_inj (hr : leaves (· == backtick) r) (hs : leaves (· == backtick) s)
    (h : nameChars m ++ r = nameChars n ++ s) : m = n ∧ r = s := by
  obtain ⟨hname, hrest⟩ := enclosed_append_inj hr hs h
  exact ⟨String.toList_inj.1 hname, hrest⟩

theorem quoteName_injective : Function.Injective quoteName := by
  intro m n h
  have hchars : nameChars m ++ [] = nameChars n ++ [] := by rw [← toList_quoteName, ← toList_quoteName, h]
  exact (nameChars_append_inj rfl rfl hchars).1

theorem isItem_nameChars : IsItem nameChars where
  closing_ne := by
    intro name r s h
    simp [nameChars, enclosed, backtick] at h
  append_inj := nameChars_append_inj (leaves_listRest rfl rfl nameChars _ _) (leaves_listRest rfl rfl nameChars _ _)

/-- A list of names ends with the parenthesis outside of all of them. -/
theorem quoteNames_append_inj (h : (quoteNames ms).toList ++ ')' :: r = (quoteNames ns).toList ++ ')' :: s) :
    ms = ns ∧ r = s := by
  rw [toList_quoteNames, toList_quoteNames] at h
  exact isItem_nameChars.intercalate_append_inj h

end Text

open Text (nameChars toList_quoteName nameChars_append_inj quoteNames_append_inj)

/-! ## Indexes -/

/-- The first letter tells the kind of an index. -/
theorem IndexKind.eq_of_head?_sql_eq {a b : IndexKind} (h : a.sql.toList.head? = b.sql.toList.head?) : a = b := by
  cases a <;> cases b <;> first | rfl | exact absurd h (by decide)

namespace Index

theorem toList_definition (i : Index) : i.definition.toList =
    i.kind.sql.toList ++ ' ' :: ((if i.isPrimary then [] else nameChars i.name ++ [' ']) ++
      '(' :: ((Text.quoteNames i.columns).toList ++ [')'])) := by
  cases h : i.isPrimary <;> simp [definition, h, toList_quoteName]

theorem kind_eq_of_definition_eq {i j : Index} (h : i.definition = j.definition) : i.kind = j.kind := by
  have hhead : ∀ k : Index, k.definition.toList.head? = k.kind.sql.toList.head? := by
    intro k
    rw [toList_definition]
    cases k.kind <;> rfl
  apply IndexKind.eq_of_head?_sql_eq
  rw [← hhead, ← hhead, h]

/-- An index is written just as the indexes that are defined alike. -/
theorem definition_eq_iff {i j : Index} : i.definition = j.definition ↔ i.Equivalent j := by
  constructor
  · intro h
    have hkind := kind_eq_of_definition_eq h
    have hprimary := isPrimary_eq_of_kind_eq hkind
    have hchars := congrArg String.toList h
    rw [toList_definition, toList_definition, hkind, hprimary] at hchars
    have hrest := (List.cons.inj (List.append_cancel_left hchars)).2
    cases hj : j.isPrimary with
    | true =>
      simp only [hj, if_true, List.nil_append] at hrest
      obtain ⟨hcolumns, -⟩ := quoteNames_append_inj (List.cons.inj hrest).2
      refine ⟨hkind, hcolumns, fun hi => ?_⟩
      rw [hprimary, hj] at hi
      cases hi
    | false =>
      simp only [hj, Bool.false_eq_true, if_false, List.append_assoc, List.singleton_append] at hrest
      obtain ⟨hname, hlist⟩ := nameChars_append_inj rfl rfl hrest
      obtain ⟨hcolumns, -⟩ := quoteNames_append_inj (List.cons.inj (List.cons.inj hlist).2).2
      exact ⟨hkind, hcolumns, fun _ => hname⟩
  · intro h
    have hprimary := isPrimary_eq_of_kind_eq h.kind
    cases hi : i.isPrimary with
    | true => simp [definition, h.kind, h.columns, hi, ← hprimary]
    | false => simp [definition, h.kind, h.columns, h.name hi, hi, ← hprimary]

end Index

/-! ## Foreign keys -/

namespace ForeignKey

/-- The actions as they are written. -/
def actionsText (onDelete onUpdate : Option ReferenceAction) : String :=
  (match onDelete with
    | some action => " ON DELETE " ++ action.sql
    | none => "") ++
  (match onUpdate with
    | some action => " ON UPDATE " ++ action.sql
    | none => "")

/-- The actions are told apart by how they are written. -/
theorem actionsText_inj {a b c d : Option ReferenceAction} (h : actionsText a b = actionsText c d) :
    a = c ∧ b = d := by
  let actions : List (Option ReferenceAction) :=
    [none, some .restrict, some .cascade, some .setNull, some .noAction, some .setDefault]
  have hmem : ∀ a : Option ReferenceAction, a ∈ actions := by
    rintro (_ | a)
    · decide
    · cases a <;> decide
  have hnodup : ((actions.product actions).map fun p => actionsText p.1 p.2).Nodup := by decide +kernel
  have hpair : (a, b) = (c, d) :=
    List.inj_on_of_nodup_map hnodup (List.pair_mem_product.2 ⟨hmem a, hmem b⟩)
      (List.pair_mem_product.2 ⟨hmem c, hmem d⟩) h
  exact Prod.mk.inj hpair

theorem toList_definition (k : ForeignKey) : k.definition.toList =
    "CONSTRAINT ".toList ++ (nameChars k.name ++ (" FOREIGN KEY (".toList ++ ((Text.quoteNames k.columns).toList ++
      ')' :: (" REFERENCES ".toList ++ (nameChars k.referencesTable ++ (" (".toList ++
        ((Text.quoteNames k.referencesColumns).toList ++ ')' :: (actionsText k.onDelete k.onUpdate).toList))))))) := by
  have hdefinition : k.definition = "CONSTRAINT " ++ Text.quoteName k.name ++ " FOREIGN KEY (" ++
      Text.quoteNames k.columns ++ ") REFERENCES " ++ Text.quoteName k.referencesTable ++ " (" ++
      Text.quoteNames k.referencesColumns ++ ")" ++ actionsText k.onDelete k.onUpdate := by
    unfold definition actionsText
    exact String.append_assoc ..
  have hreferences : ") REFERENCES ".toList = ')' :: " REFERENCES ".toList := rfl
  have hclose : ")".toList = [')'] := rfl
  rw [hdefinition]
  simp only [String.toList_append, toList_quoteName, hreferences, hclose, List.append_assoc, List.cons_append,
    List.nil_append]

/-- The definition tells all of the foreign key. -/
theorem definition_inj {k l : ForeignKey} (h : k.definition = l.definition) : k = l := by
  have hchars := congrArg String.toList h
  rw [toList_definition, toList_definition] at hchars
  obtain ⟨hname, hchars⟩ := nameChars_append_inj rfl rfl (List.append_cancel_left hchars)
  obtain ⟨hcolumns, hchars⟩ := quoteNames_append_inj (List.append_cancel_left hchars)
  obtain ⟨htable, hchars⟩ := nameChars_append_inj rfl rfl (List.append_cancel_left hchars)
  obtain ⟨hreferenced, hchars⟩ := quoteNames_append_inj (List.append_cancel_left hchars)
  obtain ⟨hdelete, hupdate⟩ := actionsText_inj (String.toList_inj.1 hchars)
  cases k
  cases l
  simp_all only

end ForeignKey

end SchemaMigration
