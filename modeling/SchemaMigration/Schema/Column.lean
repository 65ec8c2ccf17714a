import SchemaMigration.Schema.ColumnType

/-!
# Columns

A column of a table and its definition in SQL. An attribute that the column's type cannot carry is kept in the value but
never written: `UNSIGNED` on a text, a character set on a number.
-/

namespace SchemaMigration

/-- The default value of a column. -/
inductive DefaultValue where
  /-- No default is given. -/
  | none
  | null
  | currentTimestamp
  /-- Written as a quoted string, whatever the column's type. -/
  | literal (value : String)
  deriving Repr, DecidableEq

/-- A column of a table. -/
structure Column where
  name : String
  type : ColumnType
  nullable : Bool := true
  defaultValue : DefaultValue := .none
  onUpdateTimestamp : Bool := false
  unsigned : Bool := false
  zerofill : Bool := false
  autoIncrement : Bool := false
  /-- The binary collation of the column's character set. -/
  binary : Bool := false
  charset : Option String := none
  collate : Option String := none
  comment : Option String := none
  deriving Repr, DecidableEq

/-- An optional text that counts as unset when it is empty. -/
def nonempty? (s : Option String) : Option String :=
  s.filter (· ≠ "")

namespace Column

/-- The column is written as the table's primary key. -/
def isAutoPrimaryKey (c : Column) : Bool :=
  c.autoIncrement && c.type.isInteger

/-- `UNSIGNED` and `ZEROFILL`. -/
def numericClause (c : Column) : String :=
  if c.type.isNumeric then
    (if c.unsigned then " UNSIGNED" else "") ++ (if c.zerofill then " ZEROFILL" else "")
  else ""

/-- The character set that the definition names: the column's own, or, for a binary column, the table's. -/
def writtenCharset (c : Column) (tableCharset : String) : Option String :=
  if c.type.isTextual then
    match nonempty? c.charset with
    | some charset => some charset
    | none => if c.binary then some tableCharset else none
  else none

/-- The collation that the definition names: the binary one of the column's character set, or the column's own. -/
def writtenCollation (c : Column) (tableCharset : String) : Option String :=
  if c.type.isTextual then
    if c.binary then some ((nonempty? c.charset).getD tableCharset ++ "_bin") else nonempty? c.collate
  else none

/-- `CHARACTER SET` and `COLLATE`. -/
def charsetClause (c : Column) (tableCharset : String) : String :=
  (match c.writtenCharset tableCharset with
    | some charset => " CHARACTER SET " ++ charset
    | none => "") ++
  (match c.writtenCollation tableCharset with
    | some collation => " COLLATE " ++ collation
    | none => "")

/-- `NOT NULL`, or the `NULL` that only a timestamp needs. -/
def nullClause (c : Column) : String :=
  if !c.nullable then " NOT NULL" else if c.type.isTimestamp then " NULL" else ""

/-- The default as the column's type takes it: the current time only where the type knows it, and `NULL` for a nullable
column without a default. -/
def effectiveDefault (c : Column) : DefaultValue :=
  match c.defaultValue with
  | .literal value => .literal value
  | .null => .null
  | .currentTimestamp =>
    if c.type.isAutoTimestamp then .currentTimestamp else if c.nullable then .null else .none
  | .none => if c.nullable then .null else .none

/-- `DEFAULT`. -/
def defaultClause (c : Column) : String :=
  match c.effectiveDefault with
  | .none => ""
  | .null => " DEFAULT NULL"
  | .currentTimestamp => " DEFAULT current_timestamp()"
  | .literal value => " DEFAULT " ++ Text.quoteLiteral value

/-- `AUTO_INCREMENT PRIMARY KEY`. -/
def keyClause (c : Column) : String :=
  if c.isAutoPrimaryKey then " AUTO_INCREMENT PRIMARY KEY" else ""

/-- `ON UPDATE`. -/
def onUpdateClause (c : Column) : String :=
  if c.onUpdateTimestamp && c.type.isAutoTimestamp then " ON UPDATE current_timestamp()" else ""

/-- `COMMENT`. -/
def commentClause (c : Column) : String :=
  match nonempty? c.comment with
  | some comment => " COMMENT " ++ Text.quoteLiteral comment
  | none => ""

/-- The definition of a column in a table with the given character set. -/
def definition (c : Column) (tableCharset : String) : String :=
  Text.quoteName c.name ++ " " ++ c.type.sql ++ c.numericClause ++ c.charsetClause tableCharset ++ c.nullClause ++
    c.defaultClause ++ c.keyClause ++ c.onUpdateClause ++ c.commentClause

end Column

end SchemaMigration
