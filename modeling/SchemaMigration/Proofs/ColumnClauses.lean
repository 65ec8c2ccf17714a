import SchemaMigration.Schema.Column
import SchemaMigration.Text.Ascii
import Mathlib.Data.List.ReduceOption

/-!
# The clauses of a column definition

A column is written as its name, its type and some clauses. A type is a keyword, with arguments in parentheses or
without; a clause is a few words with a blank in front, and at most one text that is quoted or a plain name. The
definition is the concatenation of these parts (`Column.toList_definition`).
-/

namespace SchemaMigration

namespace Text

/-- A letter or a digit of ASCII, or an underscore. -/
def isPlainChar (c : Char) : Bool :=
  isLetter c || isDigit c || c == '_'

/-- Names that are written without quotes. -/
def isPlain (s : String) : Bool :=
  s.toList.all isPlainChar

end Text

/-! ## Types -/

/-- What a type has between its parentheses. -/
inductive TypeArgument where
  | number (n : UInt32)
  | option (value : String)
  deriving Repr, DecidableEq

namespace TypeArgument

def text : TypeArgument → List Char
  | number n => Text.natText n.toNat
  | option value => Text.literalChars value.toList

/-- Arguments in parentheses, if there are any parentheses. -/
def parenthesized : Option (List TypeArgument) → List Char
  | none => []
  | some arguments => '(' :: ([','].intercalate (arguments.map text) ++ [')'])

end TypeArgument

namespace ColumnType

/-- A type with its options trimmed, as they are written. -/
def trimmed : ColumnType → ColumnType
  | choice kind options => choice kind (options.map Text.trim)
  | type => type

/-- The arguments of a type. -/
def argumentList : ColumnType → Option (List TypeArgument)
  | integer _ width => some [.number width]
  | decimal precision scale => some [.number precision, .number scale]
  | float _ (some (precision, scale)) => some [.number precision, .number scale]
  | float _ none => none
  | length _ n => some [.number n]
  | choice _ options => some (options.map .option)
  | text _ | blob _ | temporal _ | json => none

@[simp]
theorem isTimestamp_trimmed (type : ColumnType) : type.trimmed.isTimestamp = type.isTimestamp := by
  cases type <;> rfl

theorem isLetter_keyword (type : ColumnType) : type.keyword.toList.all Text.isLetter := by
  cases type with
  | integer size _ | float size _ => rw [keyword]; cases size <;> rfl
  | length kind _ | choice kind _ | temporal kind => rw [keyword]; cases kind <;> rfl
  | text capacity | blob capacity => rw [keyword]; cases capacity <;> rfl
  | decimal | json => rw [keyword]; rfl

theorem toList_optionList (options : List String) :
    (optionList options).toList =
      [','].intercalate (((options.map Text.trim).map TypeArgument.option).map TypeArgument.text) := by
  have hcomma : ",".toList = [','] := rfl
  simp [optionList, String.toList_intercalate, hcomma, Text.quoteLiteral, TypeArgument.text, Function.comp_def]

theorem toList_sql (type : ColumnType) :
    type.sql.toList = type.trimmed.keyword.toList ++ TypeArgument.parenthesized type.trimmed.argumentList := by
  rcases type with _ | _ | ⟨_, _ | ⟨_, _⟩⟩ | _ | _ | _ | _ | _ | _ <;>
    simp [sql, keyword, arguments, trimmed, argumentList, TypeArgument.parenthesized, TypeArgument.text, Text.natText,
      toList_optionList, Function.comp_def]

end ColumnType

/-! ## Clauses -/

/-- A clause that follows the type. -/
inductive ColumnClause where
  | unsigned
  | zerofill
  | charset (name : String)
  | collation (name : String)
  | notNull
  | null
  | nullDefault
  | timeDefault
  | literalDefault (value : String)
  | autoKey
  | onUpdateTime
  | comment (value : String)
  deriving Repr, DecidableEq

namespace ColumnClause

/-- What a clause starts with: all that does not depend on its name or text. -/
def opening : ColumnClause → String
  | unsigned => " UNSIGNED"
  | zerofill => " ZEROFILL"
  | charset _ => " CHARACTER SET "
  | collation _ => " COLLATE "
  | notNull => " NOT NULL"
  | null => " NULL"
  | nullDefault => " DEFAULT NULL"
  | timeDefault => " DEFAULT current_timestamp()"
  -- without the quote, this would be how the other defaults start too
  | literalDefault _ => " DEFAULT '"
  | autoKey => " AUTO_INCREMENT PRIMARY KEY"
  | onUpdateTime => " ON UPDATE current_timestamp()"
  | comment _ => " COMMENT '"

/-- What a clause ends with: its name, or its text and the quote that closes it. -/
def ending : ColumnClause → List Char
  | charset name | collation name => name.toList
  | literalDefault value | comment value => Text.doubleWhere Text.isLiteralSpecial value.toList ++ ['\'']
  | _ => []

def text (clause : ColumnClause) : List Char :=
  clause.opening.toList ++ clause.ending

/-- The text of a clause that may be missing. -/
def textOrNone (clause : Option ColumnClause) : List Char :=
  clause.elim [] text

@[simp]
theorem textOrNone_none : textOrNone none = [] := rfl

@[simp]
theorem textOrNone_some (clause : ColumnClause) :
    textOrNone (some clause) = clause.opening.toList ++ clause.ending := rfl

theorem flatMap_reduceOption (clauses : List (Option ColumnClause)) :
    clauses.reduceOption.flatMap text = clauses.flatMap textOrNone := by
  induction clauses with
  | nil => rfl
  | cons clause clauses ih => cases clause <;> simp [List.reduceOption_cons_of_some, text, ih]

/-- A name that the clause writes without quotes is a plain one. -/
def isPlain : ColumnClause → Bool
  | charset name | collation name => Text.isPlain name
  | _ => true

end ColumnClause

/-- The clause that gives a default. -/
def DefaultValue.clause? : DefaultValue → Option ColumnClause
  | none => Option.none
  | null => some .nullDefault
  | currentTimestamp => some .timeDefault
  | literal value => some (.literalDefault value)

theorem DefaultValue.some_eq_clause?_iff {v : DefaultValue} {clause : ColumnClause} : some clause = v.clause? ↔
    clause = .nullDefault ∧ v = .null ∨ clause = .timeDefault ∧ v = .currentTimestamp ∨
      ∃ value, clause = .literalDefault value ∧ v = .literal value := by
  cases v <;> simp [DefaultValue.clause?]

namespace Column

/-- The clause that says whether the column is nullable. -/
def nullness? (c : Column) : Option ColumnClause :=
  if !c.nullable then some .notNull else if c.type.isTimestamp then some .null else none

theorem some_eq_nullness?_iff {c : Column} {clause : ColumnClause} : some clause = c.nullness? ↔
    clause = .notNull ∧ c.nullable = false ∨ clause = .null ∧ c.nullable ∧ c.type.isTimestamp := by
  cases hnullable : c.nullable <;> simp [nullness?, hnullable, and_comm]

/-- The clauses that a column has in a table with the given character set. -/
def clauses (c : Column) (tableCharset : String) : List ColumnClause :=
  List.reduceOption [
    if c.type.isNumeric && c.unsigned then some .unsigned else none,
    if c.type.isNumeric && c.zerofill then some .zerofill else none,
    (c.writtenCharset tableCharset).map .charset,
    (c.writtenCollation tableCharset).map .collation,
    c.nullness?,
    c.effectiveDefault.clause?,
    if c.isAutoPrimaryKey then some .autoKey else none,
    if c.onUpdateTimestamp && c.type.isAutoTimestamp then some .onUpdateTime else none,
    (nonempty? c.comment).map .comment]

variable (c : Column) (tableCharset : String)

/-- The clause is one of the column's. -/
def HasClause : ColumnClause → Prop
  | .unsigned => c.type.isNumeric && c.unsigned
  | .zerofill => c.type.isNumeric && c.zerofill
  | .charset name => c.writtenCharset tableCharset = some name
  | .collation name => c.writtenCollation tableCharset = some name
  | .notNull => c.nullable = false
  | .null => c.nullable && c.type.isTimestamp
  | .nullDefault => c.effectiveDefault = .null
  | .timeDefault => c.effectiveDefault = .currentTimestamp
  | .literalDefault value => c.effectiveDefault = .literal value
  | .autoKey => c.isAutoPrimaryKey
  | .onUpdateTime => c.onUpdateTimestamp && c.type.isAutoTimestamp
  | .comment value => nonempty? c.comment = some value

theorem mem_clauses {clause : ColumnClause} : clause ∈ c.clauses tableCharset ↔ c.HasClause tableCharset clause := by
  have hmap : ∀ {f : String → ColumnClause} {o : Option String},
      some clause = o.map f ↔ ∃ s, o = some s ∧ f s = clause := fun {f o} =>
    eq_comm.trans Option.map_eq_some_iff
  rw [clauses, List.reduceOption_mem_iff]
  cases clause <;>
    simp [HasClause, hmap, some_eq_nullness?_iff, DefaultValue.some_eq_clause?_iff]

/-- The column's own character set and collation are plain names, empty or not given. -/
def hasPlainSettings : Bool :=
  c.charset.all Text.isPlain && c.collate.all Text.isPlain

variable {c tableCharset}

theorem isPlain_of_nonempty? {setting : Option String} {name : String} (hsetting : setting.all Text.isPlain)
    (h : nonempty? setting = some name) : Text.isPlain name := by
  obtain ⟨rfl, -⟩ := Option.filter_eq_some_iff.1 h
  exact hsetting

theorem isPlain_of_writtenCharset (hcharset : Text.isPlain tableCharset) (hc : c.hasPlainSettings) {name : String}
    (h : c.writtenCharset tableCharset = some name) : Text.isPlain name := by
  have hown : c.charset.all Text.isPlain := (Bool.and_eq_true_iff.1 hc).1
  simp only [writtenCharset, Option.ite_none_right_eq_some] at h
  cases hset : nonempty? c.charset with
  | none =>
    obtain ⟨-, -, rfl⟩ : _ ∧ c.binary ∧ tableCharset = name := by simpa [hset] using h
    exact hcharset
  | some own =>
    obtain ⟨-, rfl⟩ : _ ∧ own = name := by simpa [hset] using h
    exact isPlain_of_nonempty? hown hset

theorem isPlain_of_writtenCollation (hcharset : Text.isPlain tableCharset) (hc : c.hasPlainSettings) {name : String}
    (h : c.writtenCollation tableCharset = some name) : Text.isPlain name := by
  obtain ⟨hown, hcollate⟩ := Bool.and_eq_true_iff.1 hc
  simp only [writtenCollation, Option.ite_none_right_eq_some] at h
  obtain ⟨-, h⟩ := h
  cases hbinary : c.binary with
  | false => exact isPlain_of_nonempty? hcollate (by simpa [hbinary] using h)
  | true =>
    obtain rfl : (nonempty? c.charset).getD tableCharset ++ "_bin" = name := by simpa [hbinary] using h
    have hset : Text.isPlain ((nonempty? c.charset).getD tableCharset) := by
      cases hset : nonempty? c.charset with
      | none => exact hcharset
      | some own => exact isPlain_of_nonempty? hown hset
    have hsuffix : "_bin".toList.all Text.isPlainChar := rfl
    rw [Text.isPlain, String.toList_append, List.all_append, hsuffix, Bool.and_true]
    exact hset

theorem isPlain_of_mem_clauses (hcharset : Text.isPlain tableCharset) (hc : c.hasPlainSettings) :
    ∀ clause ∈ c.clauses tableCharset, clause.isPlain := by
  intro clause h
  rw [mem_clauses] at h
  cases clause with
  | charset name => exact isPlain_of_writtenCharset hcharset hc h
  | collation name => exact isPlain_of_writtenCollation hcharset hc h
  | _ => rfl

variable (c tableCharset)

theorem toList_numericClause : c.numericClause.toList =
    ColumnClause.textOrNone (if c.type.isNumeric && c.unsigned then some .unsigned else none) ++
      ColumnClause.textOrNone (if c.type.isNumeric && c.zerofill then some .zerofill else none) := by
  cases hnumeric : c.type.isNumeric <;> cases hunsigned : c.unsigned <;> cases hzerofill : c.zerofill <;>
    simp [numericClause, ColumnClause.opening, ColumnClause.ending, *]

theorem toList_charsetClause : (c.charsetClause tableCharset).toList =
    ColumnClause.textOrNone ((c.writtenCharset tableCharset).map .charset) ++
      ColumnClause.textOrNone ((c.writtenCollation tableCharset).map .collation) := by
  cases hcharset : c.writtenCharset tableCharset <;> cases hcollation : c.writtenCollation tableCharset <;>
    simp [charsetClause, ColumnClause.opening, ColumnClause.ending, *]

theorem toList_nullClause : c.nullClause.toList = ColumnClause.textOrNone c.nullness? := by
  cases hnullable : c.nullable <;> cases htimestamp : c.type.isTimestamp <;>
    simp [nullClause, nullness?, ColumnClause.opening, ColumnClause.ending, *]

theorem toList_defaultClause : c.defaultClause.toList = ColumnClause.textOrNone c.effectiveDefault.clause? := by
  cases hdefault : c.effectiveDefault <;>
    simp [defaultClause, DefaultValue.clause?, ColumnClause.opening, ColumnClause.ending, Text.quoteLiteral,
      Text.literalChars, *]

theorem toList_keyClause : c.keyClause.toList =
    ColumnClause.textOrNone (if c.isAutoPrimaryKey then some .autoKey else none) := by
  cases hkey : c.isAutoPrimaryKey <;> simp [keyClause, ColumnClause.opening, ColumnClause.ending, hkey]

theorem toList_onUpdateClause : c.onUpdateClause.toList =
    ColumnClause.textOrNone (if c.onUpdateTimestamp && c.type.isAutoTimestamp then some .onUpdateTime else none) := by
  cases htime : c.onUpdateTimestamp && c.type.isAutoTimestamp <;>
    simp [onUpdateClause, ColumnClause.opening, ColumnClause.ending, htime]

theorem toList_commentClause : c.commentClause.toList =
    ColumnClause.textOrNone ((nonempty? c.comment).map .comment) := by
  cases hcomment : nonempty? c.comment <;>
    simp [commentClause, ColumnClause.opening, ColumnClause.ending, Text.quoteLiteral, Text.literalChars, hcomment]

theorem toList_definition : (c.definition tableCharset).toList =
    Text.enclosed Text.backtick c.name.toList ++ ' ' ::
      (c.type.sql.toList ++ (c.clauses tableCharset).flatMap ColumnClause.text) := by
  simp [definition, clauses, ColumnClause.flatMap_reduceOption, toList_numericClause, toList_charsetClause,
    toList_nullClause, toList_defaultClause, toList_keyClause, toList_onUpdateClause, toList_commentClause,
    Text.quoteName, Text.encloseName]

end Column

end SchemaMigration
