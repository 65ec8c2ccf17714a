import SchemaMigration.Text.Blank
import SchemaMigration.Text.Quoted

/-!
# Column types

The types a column of a MySQL table may have, how each is written, and which attributes a column of the type can carry:
`UNSIGNED` and `ZEROFILL` (`isNumeric`), `AUTO_INCREMENT` (`isInteger`), a character set (`isTextual`) and the current
time as a default (`isAutoTimestamp`).
-/

namespace SchemaMigration

/-- Integer types by size. -/
inductive IntegerSize where
  | tiny | small | medium | standard | big
  deriving Repr, DecidableEq

/-- Floating point types by precision. -/
inductive FloatSize where
  | single | double
  deriving Repr, DecidableEq

/-- Types whose only parameter is a length. -/
inductive LengthType where
  | bit | char | varChar | binary | varBinary
  deriving Repr, DecidableEq

/-- Text and blob types by capacity. -/
inductive Capacity where
  | tiny | standard | medium | long
  deriving Repr, DecidableEq

/-- Types that list their options: one of them, or a set of them. -/
inductive ChoiceType where
  | one | many
  deriving Repr, DecidableEq

/-- Types of dates and times. -/
inductive TemporalType where
  | date | time | dateTime | timestamp | year
  deriving Repr, DecidableEq

/-- The type of a column. The number of an integer type is its display width. -/
inductive ColumnType where
  | integer (size : IntegerSize) (width : UInt32)
  | decimal (precision scale : UInt32)
  | float (size : FloatSize) (precision : Option (UInt32 × UInt32))
  | length (kind : LengthType) (length : UInt32)
  | text (capacity : Capacity)
  | blob (capacity : Capacity)
  | choice (kind : ChoiceType) (options : List String)
  | temporal (kind : TemporalType)
  | json
  deriving Repr, DecidableEq

def IntegerSize.keyword : IntegerSize → String
  | .tiny => "TINYINT"
  | .small => "SMALLINT"
  | .medium => "MEDIUMINT"
  | .standard => "INT"
  | .big => "BIGINT"

def FloatSize.keyword : FloatSize → String
  | .single => "FLOAT"
  | .double => "DOUBLE"

def LengthType.keyword : LengthType → String
  | .bit => "BIT"
  | .char => "CHAR"
  | .varChar => "VARCHAR"
  | .binary => "BINARY"
  | .varBinary => "VARBINARY"

/-- What stands in front of `TEXT` or `BLOB`. -/
def Capacity.keyword : Capacity → String
  | .tiny => "TINY"
  | .standard => ""
  | .medium => "MEDIUM"
  | .long => "LONG"

def ChoiceType.keyword : ChoiceType → String
  | .one => "ENUM"
  | .many => "SET"

def TemporalType.keyword : TemporalType → String
  | .date => "DATE"
  | .time => "TIME"
  | .dateTime => "DATETIME"
  | .timestamp => "TIMESTAMP"
  | .year => "YEAR"

namespace ColumnType

/-- The word that names the type. -/
def keyword : ColumnType → String
  | integer size _ => size.keyword
  | decimal .. => "DECIMAL"
  | float size _ => size.keyword
  | length kind _ => kind.keyword
  | text capacity => capacity.keyword ++ "TEXT"
  | blob capacity => capacity.keyword ++ "BLOB"
  | choice kind _ => kind.keyword
  | temporal kind => kind.keyword
  | json => "JSON"

/-- The option list of an `ENUM` or `SET`: each option trimmed and quoted. -/
def optionList (options : List String) : String :=
  ",".intercalate (options.map fun o => Text.quoteLiteral (Text.trim o))

/-- What stands in parentheses after the keyword, if anything does. -/
def arguments : ColumnType → Option String
  | integer _ width => some (toString width.toNat)
  | decimal precision scale => some (toString precision.toNat ++ "," ++ toString scale.toNat)
  | float _ (some (precision, scale)) => some (toString precision.toNat ++ "," ++ toString scale.toNat)
  | float _ none => none
  | length _ n => some (toString n.toNat)
  | choice _ options => some (optionList options)
  | text _ | blob _ | temporal _ | json => none

/-- The type as it is written in a column definition: `VARCHAR(100)`, `ENUM('a','b')`, `TEXT`. -/
def sql (type : ColumnType) : String :=
  match type.arguments with
  | some arguments => type.keyword ++ "(" ++ arguments ++ ")"
  | none => type.keyword

/-- Types that take `UNSIGNED` and `ZEROFILL`. -/
def isNumeric : ColumnType → Bool
  | integer .. | decimal .. | float .. => true
  | _ => false

/-- Types that take `AUTO_INCREMENT`. -/
def isInteger : ColumnType → Bool
  | integer .. => true
  | _ => false

/-- Types with a character set and a collation. -/
def isTextual : ColumnType → Bool
  | length .char _ | length .varChar _ | text _ | choice .. => true
  | _ => false

/-- Types that take the current time as a default and on update. -/
def isAutoTimestamp : ColumnType → Bool
  | temporal .dateTime | temporal .timestamp => true
  | _ => false

/-- `TIMESTAMP`, which some servers take for `NOT NULL` unless `NULL` is written out. -/
def isTimestamp : ColumnType → Bool
  | temporal .timestamp => true
  | _ => false

end ColumnType

end SchemaMigration
