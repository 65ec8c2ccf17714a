import SchemaMigration.Proofs.ColumnClauses
import SchemaMigration.Proofs.Inversion
import SchemaMigration.Proofs.SealedTexts
import SchemaMigration.Proofs.ServerLiterals

/-!
# Schema statements keep to their quotes

Names, comments, defaults and options of a schema may be any text. They stand between quotes in the statements of a
migration, and the server reads them there: it finds as many statements as were written, and no comment
(`compile_sealed`). Only the names of engines, character sets and collations are written without quotes; they have to be
plain (`Text.isPlain`).

The parts of a statement are put together as they are written: each of them leads the lexer from where it may start to
where the next one may (`Server.Lexer.Leads`).
-/

namespace SchemaMigration

open Ddl (Alteration Statement TableElement)
open Server (Whole)
open Server.Lexer (Leads isBare isResting isSettled isWords leads_bare leads_words leads_intercalate leads_quoteName
  leads_quoteNames leads_literalChars)

theorem isBare_of_isPlainChar {c : Char} (h : Text.isPlainChar c) : isBare c := by
  simp only [Text.isPlainChar, Bool.or_eq_true] at h
  rcases h with (h | h) | h <;>
    simp [isBare, Server.isWordChar, Store.Token.isWordChar, Store.Token.isWordStart, h]

theorem all_isBare_of_isPlain {s : String} (h : Text.isPlain s) : s.toList.all isBare :=
  List.all_eq_true.2 fun c hc => isBare_of_isPlainChar (List.all_eq_true.1 h c hc)

section

variable {server : Dialect}

/-- Fixed words and a name without quotes. -/
theorem leads_named {words name : String} (hwords : words.toList.all isBare) (hname : name.toList.all isBare) :
    Leads server isSettled isSettled (words ++ name).toList :=
  leads_bare (by rw [String.toList_append, List.all_append, hwords, hname]; rfl)

/-- Fixed words and a quoted part. -/
theorem leads_quoted_after {words part : String} (hwords : isWords words.toList)
    (hpart : Leads server isResting isSettled part.toList) : Leads server isSettled isSettled (words ++ part).toList :=
  (leads_words hwords).append_toList hpart

/-- A text whose first character is that of a word. -/
def StartsWithWord (s : String) : Prop :=
  s.toList.head?.any Server.isWordChar

instance (s : String) : Decidable (StartsWithWord s) :=
  inferInstanceAs (Decidable (_ = true))

theorem StartsWithWord.append {s s' : String} (h : StartsWithWord s) : StartsWithWord (s ++ s') := by
  unfold StartsWithWord at *
  rw [String.toList_append]
  cases hs : s.toList with
  | nil => simp [hs] at h
  | cons c r => simpa [hs] using h

theorem whole_statement {s : String} (hstart : StartsWithWord s) (h : Leads server isSettled isSettled s.toList) :
    Whole server 1 (s.toList ++ [';']) :=
  .of_leads hstart h.of_isSettled

/-! ## Columns -/

theorem TypeArgument.leads_text (argument : TypeArgument) : Leads server isResting isSettled argument.text := by
  cases argument with
  | number n =>
    have hdigits : (Text.natText n.toNat).all isBare := List.all_eq_true.2 fun c hc => by
      simp [isBare, Server.isWordChar_of_mem_natText n.toNat c hc]
    exact (leads_bare hdigits).of_isSettled
  | option value => exact Server.Lexer.leads_literalChars value.toList

theorem TypeArgument.leads_parenthesized (arguments : Option (List TypeArgument)) :
    Leads server isSettled isSettled (parenthesized arguments) := by
  cases arguments with
  | none => exact .nil
  | some arguments =>
    have hopen : Leads server isSettled isResting ['('] := leads_words (by decide)
    have hcomma : Leads server isSettled isResting [','] := leads_words (by decide)
    have hclose : Leads server isSettled isSettled [')'] := leads_bare (by decide)
    refine hopen.append (.append (leads_intercalate hcomma fun part hpart => ?_) hclose)
    obtain ⟨argument, -, rfl⟩ := List.mem_map.1 hpart
    exact argument.leads_text

theorem ColumnType.leads_sql (type : ColumnType) : Leads server isSettled isSettled type.sql.toList := by
  have hkeyword : type.trimmed.keyword.toList.all isBare := List.all_eq_true.2 fun c hc => by
    refine isBare_of_isPlainChar ?_
    simp [Text.isPlainChar, List.all_eq_true.1 type.trimmed.isLetter_keyword c hc]
  rw [toList_sql]
  exact (leads_bare hkeyword).append (TypeArgument.leads_parenthesized _)

theorem ColumnClause.leads_text {clause : ColumnClause} (h : clause.isPlain) :
    Leads server isSettled isSettled clause.text := by
  cases clause with
  | charset name =>
    have hwords : " CHARACTER SET ".toList.all isBare := by decide
    exact (leads_bare hwords).append (leads_bare (all_isBare_of_isPlain h))
  | collation name =>
    have hwords : " COLLATE ".toList.all isBare := by decide
    exact (leads_bare hwords).append (leads_bare (all_isBare_of_isPlain h))
  | literalDefault value =>
    have htext : (literalDefault value).text = " DEFAULT ".toList ++ Text.literalChars value.toList := by
      simp [text, opening, ending, Text.literalChars]
    rw [htext]
    exact (leads_words (by decide)).append (leads_literalChars value.toList)
  | comment value =>
    have htext : (comment value).text = " COMMENT ".toList ++ Text.literalChars value.toList := by
      simp [text, opening, ending, Text.literalChars]
    rw [htext]
    exact (leads_words (by decide)).append (leads_literalChars value.toList)
  | _ => exact leads_bare (by decide)

theorem Column.leads_definition {c : Column} {tableCharset : String} (hcharset : Text.isPlain tableCharset)
    (hc : c.hasPlainSettings) : Leads server isResting isSettled (c.definition tableCharset).toList := by
  have hblank : Leads server isSettled isResting [' '] := leads_words (by decide)
  have hclauses : Leads server isSettled isSettled ((c.clauses tableCharset).flatMap ColumnClause.text) :=
    .flatMap fun clause h => ColumnClause.leads_text (isPlain_of_mem_clauses hcharset hc clause h)
  have hname : Leads server isResting isSettled (Text.quoteName c.name).toList := leads_quoteName c.name
  rw [Text.quoteName, Text.encloseName, String.toList_ofList] at hname
  rw [toList_definition]
  exact hname.append (hblank.append ((c.type.leads_sql.append hclauses).of_isSettled))

/-! ## Indexes and foreign keys -/

theorem Index.leads_definition (i : Index) : Leads server isSettled isSettled i.definition.toList := by
  have hkind : Leads server isSettled isSettled i.kind.sql.toList := leads_bare (by cases i.kind <;> decide)
  have hblank : Leads server isSettled isResting " ".toList := leads_words (by decide)
  have hopen : Leads server isSettled isResting "(".toList := leads_words (by decide)
  have hclose : Leads server isSettled isSettled ")".toList := leads_bare (by decide)
  have hname : Leads server isResting isResting (if i.isPrimary then "" else Text.quoteName i.name ++ " ").toList := by
    cases i.isPrimary with
    | true => exact .nil
    | false => exact (leads_quoteName i.name).append_toList hblank
  exact ((((hkind.append_toList hblank).append_toList hname).append_toList hopen.of_isSettled).append_toList
    (leads_quoteNames i.columns)).append_toList hclose

theorem leads_action (words : String) (hwords : words.toList.all isBare) (action : Option ReferenceAction) :
    Leads server isSettled isSettled (match action with | some action => words ++ action.sql | none => "").toList := by
  cases action with
  | none => exact .nil
  | some action => exact leads_named hwords (by cases action <;> decide)

theorem ForeignKey.leads_definition (k : ForeignKey) : Leads server isSettled isSettled k.definition.toList := by
  have hname : Leads server isSettled isSettled ("CONSTRAINT " ++ Text.quoteName k.name).toList :=
    leads_quoted_after (by decide) (leads_quoteName k.name)
  have hcolumns : Leads server isSettled isSettled (" FOREIGN KEY (" ++ Text.quoteNames k.columns).toList :=
    leads_quoted_after (by decide) (leads_quoteNames k.columns)
  have htable : Leads server isSettled isSettled (") REFERENCES " ++ Text.quoteName k.referencesTable).toList :=
    leads_quoted_after (by decide) (leads_quoteName k.referencesTable)
  have hreferenced : Leads server isSettled isSettled (" (" ++ Text.quoteNames k.referencesColumns).toList :=
    leads_quoted_after (by decide) (leads_quoteNames k.referencesColumns)
  have hclose : Leads server isSettled isSettled ")".toList := leads_bare (by decide)
  have hkey := ((hname.append_toList hcolumns).append_toList htable).append_toList hreferenced
  rw [← String.append_assoc, ← String.append_assoc, ← String.append_assoc] at hkey
  exact ((hkey.append_toList hclose).append_toList (leads_action " ON DELETE " (by decide) k.onDelete)).append_toList
    (leads_action " ON UPDATE " (by decide) k.onUpdate)

/-! ## Tables -/

/-- The character sets, collations and the engine of a table and its columns are plain names, empty or not given. -/
def Table.hasPlainSettings (t : Table) : Bool :=
  t.engine.all Text.isPlain && t.charset.all Text.isPlain && t.collation.all Text.isPlain &&
    t.columns.all Column.hasPlainSettings

/-- The defaults of the server are plain names. -/
def Defaults.isPlain (d : Defaults) : Bool :=
  Text.isPlain d.engine && Text.isPlain d.charset && Text.isPlain d.collation

theorem isPlain_getD {setting : Option String} {other : String} (h : setting.all Text.isPlain)
    (hother : Text.isPlain other) : Text.isPlain (setting.getD other) := by
  cases setting with
  | none => exact hother
  | some name => exact h

namespace Table

variable (t : Table) {d : Defaults}

theorem isPlain_effectiveEngine (hd : d.isPlain) (ht : t.hasPlainSettings) : Text.isPlain (t.effectiveEngine d) := by
  simp only [hasPlainSettings, Defaults.isPlain, Bool.and_eq_true] at ht hd
  exact isPlain_getD ht.1.1.1 hd.1.1

theorem isPlain_effectiveCharset (hd : d.isPlain) (ht : t.hasPlainSettings) : Text.isPlain (t.effectiveCharset d) := by
  simp only [hasPlainSettings, Defaults.isPlain, Bool.and_eq_true] at ht hd
  exact isPlain_getD ht.1.1.2 hd.1.2

theorem isPlain_effectiveCollation (hd : d.isPlain) (ht : t.hasPlainSettings) :
    Text.isPlain (t.effectiveCollation d) := by
  simp only [hasPlainSettings, Defaults.isPlain, Bool.and_eq_true] at ht hd
  exact isPlain_getD ht.1.2 hd.2

end Table

namespace Ddl

theorem TableElement.leads_definition {e : TableElement}
    (h : ∀ c charset, e = .column c charset → c.hasPlainSettings ∧ Text.isPlain charset) :
    Leads server isResting isSettled e.definition.toList := by
  cases e with
  | column c charset =>
    obtain ⟨hc, hcharset⟩ := h c charset rfl
    exact c.leads_definition hcharset hc
  | index i => exact i.leads_definition.of_isSettled
  | relation k => exact k.leads_definition.of_isSettled

theorem leads_setting (words : String) (hwords : words.toList.all isBare) {setting : Option String}
    (h : setting.all Text.isPlain) :
    Leads server isSettled isSettled (match setting with | some name => words ++ name | none => "").toList := by
  cases setting with
  | none => exact .nil
  | some name => exact leads_named hwords (all_isBare_of_isPlain h)

variable {t : Table} {d : Defaults}

theorem leads_tableOptions (ht : t.hasPlainSettings) :
    Leads server isSettled isSettled (tableOptions t).toList := by
  simp only [Table.hasPlainSettings, Bool.and_eq_true] at ht
  obtain ⟨⟨⟨hengine, hcharset⟩, hcollation⟩, -⟩ := ht
  exact ((leads_setting " ENGINE=" (by decide) hengine).append_toList
    (leads_setting " DEFAULT CHARSET=" (by decide) hcharset)).append_toList
    (leads_setting " COLLATE=" (by decide) hcollation)

theorem leads_tableElements (hd : d.isPlain) (ht : t.hasPlainSettings) : Leads server isResting isSettled
    (",\n  ".intercalate ((tableElements t d).map TableElement.definition)).toList := by
  have hcharset : Text.isPlain (t.effectiveCharset d) := t.isPlain_effectiveCharset hd ht
  simp only [Table.hasPlainSettings, Bool.and_eq_true, List.all_eq_true] at ht
  rw [String.toList_intercalate, List.map_map]
  refine leads_intercalate (leads_words (by decide)) fun part hpart => ?_
  obtain ⟨e, he, rfl⟩ := List.mem_map.1 hpart
  refine TableElement.leads_definition fun c charset hcolumn => ?_
  obtain ⟨hc, rfl⟩ : c ∈ t.columns ∧ t.effectiveCharset d = charset := by
    subst hcolumn
    simpa [tableElements] using he
  exact ⟨ht.2 c hc, hcharset⟩

/-- The statements that turn session checks off. -/
def checksOff : List String :=
  ["SET AUTOCOMMIT = 0", "SET FOREIGN_KEY_CHECKS = 0", "SET UNIQUE_CHECKS = 0"]

/-- The statements that turn session checks on again. -/
def checksOn : List String :=
  ["SET AUTOCOMMIT = 1", "SET FOREIGN_KEY_CHECKS = 1", "SET UNIQUE_CHECKS = 1"]

/-- The statement that creates a table, without its semicolon. -/
def creation (t : Table) (d : Defaults) : String :=
  "CREATE TABLE " ++ Text.quoteName t.name ++ " (\n  " ++
    ",\n  ".intercalate ((tableElements t d).map TableElement.definition) ++ "\n)" ++ tableOptions t

/-- The statements of the script that creates a table, without their semicolons. -/
def scriptStatements (t : Table) (d : Defaults) : List String :=
  checksOff ++ ["DROP TABLE IF EXISTS " ++ Text.quoteName t.name, creation t d] ++ checksOn

theorem toList_createScript (t : Table) (d : Defaults) : (createScript t d).toList =
    ((scriptStatements t d).map fun s => s.toList ++ [';']).flatMap (· ++ ['\n']) := by
  have hoff : "SET AUTOCOMMIT = 0;\nSET FOREIGN_KEY_CHECKS = 0;\nSET UNIQUE_CHECKS = 0;\n".toList =
      (checksOff.map fun s => s.toList ++ [';']).flatMap (· ++ ['\n']) := by decide +kernel
  have hon : "SET AUTOCOMMIT = 1;\nSET FOREIGN_KEY_CHECKS = 1;\nSET UNIQUE_CHECKS = 1;\n".toList =
      (checksOn.map fun s => s.toList ++ [';']).flatMap (· ++ ['\n']) := by decide +kernel
  have hend : ";\n".toList = [';', '\n'] := rfl
  have hcreation : (creation t d).toList = "CREATE TABLE ".toList ++ ((Text.quoteName t.name).toList ++
      (" (\n  ".toList ++ ((",\n  ".intercalate ((tableElements t d).map TableElement.definition)).toList ++
        ("\n)".toList ++ (tableOptions t).toList)))) := by
    unfold creation
    simp only [String.toList_append, List.append_assoc]
  unfold createScript scriptStatements
  simp only [List.map_append, List.flatMap_append, ← hoff, ← hon, hcreation, List.map_cons, List.flatMap_cons,
    String.toList_append, hend, List.append_assoc, List.cons_append, List.nil_append]

theorem whole_checks {s : String} (h : s ∈ checksOff ++ checksOn) : Whole server 1 (s.toList ++ [';']) := by
  have hstart : ∀ s ∈ checksOff ++ checksOn, StartsWithWord s := by decide
  have hbare : ∀ s ∈ checksOff ++ checksOn, s.toList.all isBare := by decide
  exact whole_statement (hstart s h) (leads_bare (hbare s h))

theorem whole_creation (hd : d.isPlain) (ht : t.hasPlainSettings) :
    Whole server 1 ((creation t d).toList ++ [';']) := by
  have hname : Leads server isSettled isSettled ("CREATE TABLE " ++ Text.quoteName t.name).toList :=
    leads_quoted_after (by decide) (leads_quoteName t.name)
  have hopen : Leads server isSettled isResting " (\n  ".toList := leads_words (by decide)
  have hclose : Leads server isSettled isSettled "\n)".toList := leads_bare (by decide)
  have hbody := (hname.append_toList hopen).append_toList (leads_tableElements hd ht)
  have hstart : StartsWithWord "CREATE TABLE " := by decide
  exact whole_statement hstart.append.append.append.append.append
    ((hbody.append_toList hclose).append_toList (leads_tableOptions ht))

theorem whole_createScript (hd : d.isPlain) (ht : t.hasPlainSettings) :
    Whole server 8 (createScript t d).toList := by
  have hdrop : Leads server isSettled isSettled ("DROP TABLE IF EXISTS " ++ Text.quoteName t.name).toList :=
    leads_quoted_after (by decide) (leads_quoteName t.name)
  have hstart : StartsWithWord "DROP TABLE IF EXISTS " := by decide
  have hall : ∀ s ∈ scriptStatements t d, Whole server 1 (s.toList ++ [';']) := by
    intro s hs
    simp only [scriptStatements, List.mem_append, List.mem_cons, List.not_mem_nil, or_false] at hs
    rcases hs with (hs | rfl | rfl) | hs
    · exact whole_checks (List.mem_append_left _ hs)
    · exact whole_statement hstart.append hdrop
    · exact whole_creation hd ht
    · exact whole_checks (List.mem_append_right _ hs)
  rw [toList_createScript]
  refine Whole.lines ((scriptStatements t d).map fun s => s.toList ++ [';']) fun line hline => ?_
  obtain ⟨s, hs, rfl⟩ := List.mem_map.1 hline
  exact hall s hs

namespace Alteration

/-- The names that an alteration writes without quotes are plain. -/
def isPlain : Alteration → Bool
  | setEngine engine => Text.isPlain engine
  | convert charset collation => Text.isPlain charset && collation.all Text.isPlain
  | addColumn c charset | changeColumn c charset => c.hasPlainSettings && Text.isPlain charset
  | _ => true

theorem leads_clause {a : Alteration} (h : a.isPlain) : Leads server isSettled isSettled a.clause.toList := by
  cases a with
  | setEngine engine => exact leads_named (by decide) (all_isBare_of_isPlain h)
  | convert charset collation =>
    obtain ⟨hcharset, hcollation⟩ := Bool.and_eq_true_iff.1 h
    have hconvert : Leads server isSettled isSettled ("CONVERT TO CHARACTER SET " ++ charset).toList :=
      leads_named (by decide) (all_isBare_of_isPlain hcharset)
    cases collation with
    | none => exact hconvert
    | some collation =>
      have hcollate : Leads server isSettled isSettled " COLLATE ".toList := leads_bare (by decide)
      exact (hconvert.append_toList hcollate).append_toList (leads_bare (all_isBare_of_isPlain hcollation))
  | addColumn c charset =>
    obtain ⟨hc, hcharset⟩ := Bool.and_eq_true_iff.1 h
    exact leads_quoted_after (by decide) (c.leads_definition hcharset hc)
  | dropColumn name => exact leads_quoted_after (by decide) (leads_quoteName name)
  | changeColumn c charset =>
    obtain ⟨hc, hcharset⟩ := Bool.and_eq_true_iff.1 h
    have hname : Leads server isSettled isSettled ("CHANGE COLUMN " ++ Text.quoteName c.name).toList :=
      leads_quoted_after (by decide) (leads_quoteName c.name)
    have hblank : Leads server isSettled isResting " ".toList := leads_words (by decide)
    exact (hname.append_toList hblank).append_toList (c.leads_definition hcharset hc)
  | addIndex i =>
    have hadd : Leads server isSettled isSettled "ADD ".toList := leads_bare (by decide)
    exact hadd.append_toList i.leads_definition
  | dropPrimaryKey => exact leads_bare (by decide)
  | dropIndex name => exact leads_quoted_after (by decide) (leads_quoteName name)
  | addRelation k =>
    have hadd : Leads server isSettled isSettled "ADD ".toList := leads_bare (by decide)
    exact hadd.append_toList k.leads_definition
  | dropRelation name => exact leads_quoted_after (by decide) (leads_quoteName name)

theorem whole_sql {a : Alteration} (h : a.isPlain) (table : String) : Whole server 1 (a.sql table).toList := by
  have hname : Leads server isSettled isSettled ("ALTER TABLE " ++ Text.quoteName table).toList :=
    leads_quoted_after (by decide) (leads_quoteName table)
  have hblank : Leads server isSettled isSettled " ".toList := leads_bare (by decide)
  have hstart : StartsWithWord "ALTER TABLE " := by decide
  unfold sql
  rw [String.toList_append]
  exact whole_statement hstart.append.append.append ((hname.append_toList hblank).append_toList (leads_clause h))

end Alteration

namespace Statement

/-- How many statements the server finds in the text. -/
def count : Statement → Nat
  | createTable .. => 8
  | dropTable _ | alterTable .. => 1

/-- The names that a statement writes without quotes are plain. -/
def isPlain : Statement → Bool
  | createTable t d => t.hasPlainSettings && d.isPlain
  | dropTable _ => true
  | alterTable _ a => a.isPlain

theorem whole_sql {s : Statement} (h : s.isPlain) : Whole server s.count s.sql.toList := by
  cases s with
  | createTable t d =>
    obtain ⟨ht, hd⟩ := Bool.and_eq_true_iff.1 h
    exact whole_createScript hd ht
  | dropTable name =>
    have hname : Leads server isSettled isSettled ("DROP TABLE " ++ Text.quoteName name).toList :=
      leads_quoted_after (by decide) (leads_quoteName name)
    have hstart : StartsWithWord "DROP TABLE " := by decide
    change Whole server 1 ("DROP TABLE " ++ Text.quoteName name ++ ";").toList
    rw [String.toList_append]
    exact whole_statement hstart.append hname
  | alterTable name a => exact a.whole_sql h name

end Statement

end Ddl

end

/-! ## Differences -/

namespace Reversible

variable {α β : Type} {p : α → Bool}

/-- All statements of either direction have the property. -/
def All (p : α → Bool) (r : Reversible α) : Prop :=
  ∀ x ∈ r.up ++ r.down, p x

theorem All.pair {x y : α} (hx : p x) (hy : p y) : (Reversible.pair x y).All p :=
  List.forall_mem_cons.2 ⟨hx, List.forall_mem_singleton.2 hy⟩

theorem All.append {r s : Reversible α} (hr : r.All p) (hs : s.All p) : (r ++ s).All p := by
  simp only [All, List.forall_mem_append, up_append, down_append] at *
  exact ⟨⟨hr.1, hs.1⟩, hr.2, hs.2⟩

theorem All.concat {rs : List (Reversible α)} (h : ∀ r ∈ rs, r.All p) : (Reversible.concat rs).All p := by
  intro x hx
  obtain ⟨r, hr, hx⟩ := mem_concat.1 hx
  exact h r hr x hx

theorem All.dropsFirst {r : Reversible α} (h : r.All p) (text : α → String) : (r.dropsFirst text).All p := by
  intro x hx
  rw [List.mem_append] at hx
  exact h x (List.mem_append.2 (hx.imp mem_dropsToFront.1 mem_dropsToFront.1))

theorem All.map {f : β → α} {r : Reversible β} (h : r.All (p ∘ f)) : (r.map f).All p := by
  intro x hx
  obtain ⟨y, hy, rfl⟩ : ∃ y ∈ r.up ++ r.down, f y = x := by
    rw [← List.mem_map, List.map_append]
    exact hx
  exact h y hy

end Reversible

/-- Both sides of the change have plain settings. -/
def Change.hasPlainSettings (change : Change Column) : Bool :=
  change.declared?.all Column.hasPlainSettings && change.observed?.all Column.hasPlainSettings

/-- All names of engines, character sets and collations on either side are plain, empty or not given. -/
def TableChanges.hasPlainSettings (c : TableChanges) : Bool :=
  c.declared.hasPlainSettings && c.observed.hasPlainSettings && c.columns.all Change.hasPlainSettings

/-- All names of engines, character sets and collations on either side are plain, empty or not given. -/
def TableDiff.hasPlainSettings : TableDiff → Bool
  | added t | removed t => t.hasPlainSettings
  | altered changes => changes.hasPlainSettings

theorem Change.hasPlainSettings_of_mem_sides {change : Change Column} (h : change.hasPlainSettings) {c : Column}
    (hc : c ∈ change.sides) : c.hasPlainSettings := by
  simp only [hasPlainSettings, Bool.and_eq_true, Option.all_eq_true] at h
  rcases List.mem_append.1 hc with hc | hc
  · exact h.1 c (Option.mem_toList.1 hc)
  · exact h.2 c (Option.mem_toList.1 hc)

theorem isPlain_removeIndex (i : Index) : (Alteration.removeIndex i).isPlain := by
  unfold Alteration.removeIndex
  split <;> rfl

namespace TableChanges

variable {c : TableChanges} {d : Defaults}

theorem all_isPlain_optionAlterations (hd : d.isPlain) (hc : c.hasPlainSettings) :
    (c.optionAlterations d).All Alteration.isPlain := by
  simp only [hasPlainSettings, Bool.and_eq_true] at hc
  obtain ⟨⟨hdeclared, hobserved⟩, -⟩ := hc
  have hpair : ∀ (changed : Bool) (f : Table → Alteration), (∀ t : Table, t.hasPlainSettings → (f t).isPlain) →
      (if changed then .pair (f c.declared) (f c.observed) else {} : Reversible Alteration).All Alteration.isPlain := by
    intro changed f hf
    cases changed with
    | true => exact .pair (hf _ hdeclared) (hf _ hobserved)
    | false => exact List.forall_mem_nil _
  have hengine := hpair c.engineChanged (fun t => .setEngine (t.effectiveEngine d))
    fun t ht => t.isPlain_effectiveEngine hd ht
  have hcharset := hpair c.charsetChanged (fun t => .convert (t.effectiveCharset d) none)
    fun t ht => Bool.and_eq_true_iff.2 ⟨t.isPlain_effectiveCharset hd ht, rfl⟩
  have hcollation := hpair c.collationChanged
    (fun t => .convert (t.effectiveCharset d) (some (t.effectiveCollation d)))
    fun t ht => Bool.and_eq_true_iff.2 ⟨t.isPlain_effectiveCharset hd ht, t.isPlain_effectiveCollation hd ht⟩
  exact (hengine.append hcharset).append hcollation

theorem all_isPlain_nestedAlterations (hd : d.isPlain) (hc : c.hasPlainSettings) :
    (c.nestedAlterations d).All Alteration.isPlain := by
  simp only [hasPlainSettings, Bool.and_eq_true, List.all_eq_true] at hc
  obtain ⟨⟨hdeclared, -⟩, hcolumns⟩ := hc
  have hcharset : Text.isPlain (c.declared.effectiveCharset d) := c.declared.isPlain_effectiveCharset hd hdeclared
  intro a ha
  rcases mem_nestedAlterations ha with ⟨x, hx, c, hc, rfl | rfl | rfl⟩ | ⟨i, rfl | rfl⟩ | ⟨k, rfl | rfl⟩
  · exact Bool.and_eq_true_iff.2 ⟨Change.hasPlainSettings_of_mem_sides (hcolumns x hx) hc, hcharset⟩
  · rfl
  · exact Bool.and_eq_true_iff.2 ⟨Change.hasPlainSettings_of_mem_sides (hcolumns x hx) hc, hcharset⟩
  · rfl
  · exact isPlain_removeIndex i
  · rfl
  · rfl

end TableChanges

theorem TableDiff.all_isPlain_statements {diff : TableDiff} {d : Defaults} (hd : d.isPlain)
    (h : diff.hasPlainSettings) : (diff.statements d).All Statement.isPlain := by
  unfold statements
  split
  · exact List.forall_mem_nil _
  · cases diff with
    | added t => exact .pair (Bool.and_eq_true_iff.2 ⟨h, hd⟩) rfl
    | removed t => exact .pair rfl (Bool.and_eq_true_iff.2 ⟨h, hd⟩)
    | altered c =>
      have hall : (c.alterations d).All Alteration.isPlain :=
        .dropsFirst (.append (c.all_isPlain_optionAlterations hd h) (c.all_isPlain_nestedAlterations hd h)) _
      exact .map hall

/-- No text of a schema escapes its quotes: a server reads each text of a migration to its end outside of quotes and
comments, finds as many statements in it as were written, and never sees a comment opened. -/
theorem compile_sealed (server : Dialect) {diffs : List TableDiff} {d : Defaults} (hd : d.isPlain)
    (hdiffs : ∀ diff ∈ diffs, diff.hasPlainSettings) :
    ∀ s ∈ (compile diffs d).up ++ (compile diffs d).down,
      (Server.Lexer.outside.read server s.sql.toList).2 = .outside ∧
      (Server.statements server s.sql.toList).length = s.count ∧
      Server.Lexer.outside.readsComment server s.sql.toList = false := by
  intro s hs
  have hall : (compile diffs d).All Statement.isPlain := .concat fun r hr => by
    obtain ⟨diff, hdiff, rfl⟩ := List.mem_map.1 hr
    exact diff.all_isPlain_statements hd (hdiffs diff hdiff)
  have hwhole : Whole server s.count s.sql.toList := s.whole_sql (hall s hs)
  exact ⟨hwhole.read_snd, hwhole.length_statements, hwhole.readsComment⟩

namespace Sample

/-- A column with quotes, backslashes and what looks like comments in all that it may hold. -/
def trap (note : String) : Column :=
  { name := "a\x60; --\\", type := .choice .one ["');", " /* ' ", "\\"], nullable := false, binary := true,
    defaultValue := .literal "\\'", comment := some note }

/-- A table with such columns and keys. -/
def trapTable : Table :=
  { name := "\x60\x60; DROP TABLE x; #", columns := [trap "it's \\"], engine := some "", charset := some "latin1",
    indexes := [{ name := "'\x60", kind := .unique, columns := ["\x60", "/*"] }],
    relations := [{ name := "--", columns := ["#"], referencesTable := "\\\x60", referencesColumns := ["';"] }] }

/-- The same column with another note. -/
def trapChanges : TableChanges :=
  { declared := trapTable, observed := trapTable, columns := [.altered (trap "# ';\n--") (trap "\\")] }

def trapDiffs : List TableDiff :=
  [.added trapTable, .altered trapChanges]

end Sample

theorem compile_sealed_trapTable :
    ({} : Defaults).isPlain ∧ (∀ diff ∈ Sample.trapDiffs, diff.hasPlainSettings) ∧
      ∀ s ∈ [Statement.createTable Sample.trapTable {},
          .alterTable Sample.trapTable.name (.changeColumn (Sample.trap "# ';\n--") "latin1")],
        s ∈ (compile Sample.trapDiffs {}).up ++ (compile Sample.trapDiffs {}).down ∧
        (Server.Lexer.outside.read .mysql s.sql.toList).2 = .outside ∧
        (Server.statements .mysql s.sql.toList).length = s.count ∧
        Server.Lexer.outside.readsComment .mysql s.sql.toList = false := by
  have hd : ({} : Defaults).isPlain := by decide
  have hdiffs : ∀ diff ∈ Sample.trapDiffs, diff.hasPlainSettings := by decide
  have hcolumns : Sample.trapTable.columns.isEmpty = false := rfl
  have hup : (compile Sample.trapDiffs {}).up = .createTable Sample.trapTable {} ::
      (Sample.trapChanges.alterations {}).up.map (.alterTable Sample.trapTable.name) := by
    simp [compile, Reversible.up_concat, Sample.trapDiffs, TableDiff.statements, TableDiff.isSkipped, hcolumns,
      Reversible.pair, Reversible.map, Sample.trapChanges]
  have hchange : .changeColumn (Sample.trap "# ';\n--") "latin1" ∈ (Sample.trapChanges.alterations {}).up :=
    mem_dropsToFront.2 (by decide)
  refine ⟨hd, hdiffs, fun s hs => ?_⟩
  have hmem : s ∈ (compile Sample.trapDiffs {}).up := by
    rw [hup]
    simp only [List.mem_cons, List.not_mem_nil, or_false] at hs
    rcases hs with rfl | rfl
    · exact List.mem_cons_self
    · exact List.mem_cons_of_mem _ (List.mem_map.2 ⟨_, hchange, rfl⟩)
  have hmem := List.mem_append_left (compile Sample.trapDiffs {}).down hmem
  exact ⟨hmem, compile_sealed .mysql hd hdiffs s hmem⟩

end SchemaMigration
