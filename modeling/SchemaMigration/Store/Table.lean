import SchemaMigration.Error
import SchemaMigration.Calendar.Timestamp
import SchemaMigration.Store.Command

/-!
# Stored tables

A table of a store: its columns and its rows. A row is kept only if no column that must not be null is, and if no other
row has its key; a table whose key is a whole number keeps its rows in the order of their keys, every other one in the
order of their insertion. Names are the same in any case of their ASCII letters.
-/

namespace SchemaMigration.Store

/-- Names of tables and columns are compared without regard to case. -/
def sameName (a b : String) : Bool :=
  Text.lowerText a == Text.lowerText b

def Field.affinity (f : Field) : Affinity :=
  Affinity.ofType f.type

/-- The column numbers the rows of its table. -/
def Field.isRowKey (f : Field) : Bool :=
  f.isPrimary && sameName f.type "integer"

/-- A stored table. -/
structure StoredTable where
  name : String
  fields : List Field
  rows : List (List Cell) := []
  /-- The statement that made the table. -/
  sql : String := ""
  deriving Repr

/-! ## Expressions -/

/-- A place to look for columns: a table with the cells of one row. -/
structure Source where
  table : String
  fields : List Field
  cells : List Cell

/-- What an expression may depend on. -/
structure Context where
  now : Instant
  parameters : List Cell := []
  sources : List Source := []

namespace Source

/-- The column of a name. -/
def column? (s : Source) (name : String) : Option (Field × Cell) :=
  (s.fields.zip s.cells).find? fun (f, _) => sameName f.name name

end Source

namespace Expr

/-- The column that a name stands for. -/
def column? (sources : List Source) (table : Option String) (name : String) : Option (Field × Cell) :=
  sources.findSome? fun s => if table.all (sameName s.table) then s.column? name else none

/-- Every name in the expression stands for something. -/
def check (sources : List Source) : Expr → Except DatabaseError Unit
  | column table name orText =>
    if (column? sources table name).isSome || orText then .ok ()
    else .error (.reported 1 ("no such column: " ++ (match table with
      | some t => t ++ "." ++ name
      | none => name)))
  | negative e => e.check sources
  | cell _ | parameter _ | now => .ok ()

/-- The opposite of a number; a text counts as the number it spells, or as zero. -/
def oppositeOf : Cell → Cell
  | .null => .null
  | .int n => .int (-n)
  | .float x => .float (-x)
  | c =>
    match Affinity.numeric.convert c with
    | .int n => .int (-n)
    | .float x => .float (-x)
    | _ => .int 0

/-- The value of an expression. -/
def eval (c : Context) : Expr → Cell
  | cell value => value
  | parameter i => (c.parameters[i]?).getD .null
  | column table name _ =>
    match column? c.sources table name with
    | some (_, value) => value
    | none => .text name
  | negative e => oppositeOf (e.eval c)
  | now => .text c.now.text

/-- What the type of a column makes of the values that it is compared with. -/
def affinity? (c : Context) : Expr → Option Affinity
  | column table name _ => (column? c.sources table name).map (·.1.affinity)
  | _ => none

/-- A value as it is compared with an expression of some affinity. -/
def comparable (a : Option Affinity) (value : Cell) : Cell :=
  match a with
  | some .text => Affinity.text.convert value
  | some .numeric | some .integer | some .real => Affinity.numeric.convert value
  | some .blob | none => value

/-- Two expressions have the same value. -/
def equals (c : Context) (left right : Expr) : Bool :=
  (comparable (right.affinity? c) (left.eval c)).same (comparable (left.affinity? c) (right.eval c))

end Expr

/-- All equalities hold. -/
def Condition.holds (c : Context) (condition : Condition) : Bool :=
  condition.all fun (left, right) => left.equals c right

/-- Every name in the condition stands for something. -/
def Condition.check (sources : List Source) (condition : Condition) : Except DatabaseError Unit :=
  condition.forM fun (left, right) => do
    left.check sources
    right.check sources

namespace StoredTable

/-- The table as a source, with some cells. -/
def source (t : StoredTable) (cells : List Cell) : Source :=
  { table := t.name, fields := t.fields, cells }

/-- The table as a source of names only. -/
def blankSource (t : StoredTable) : Source :=
  t.source (t.fields.map fun _ => .null)

/-- The place of a column. -/
def place? (t : StoredTable) (column : String) : Option Nat :=
  t.fields.findIdx? fun f => sameName f.name column

/-- The name of a column in messages. -/
def columnText (t : StoredTable) (f : Field) : String :=
  t.name ++ "." ++ f.name

/-- The key of a row, if the table has one. -/
def key? (t : StoredTable) (row : List Cell) : Option (Field × Cell) :=
  (t.fields.zip row).find? (·.1.isPrimary)

/-- The number of the row that a row has for its key. -/
def number? (t : StoredTable) (row : List Cell) : Option Int :=
  match t.key? row with
  | some (_, .int k) => some k.toInt
  | _ => none

/-- The number of a new row: one more than the greatest there is, and one in an empty table. -/
def nextNumber (t : StoredTable) : Int :=
  ((t.rows.filterMap t.number?).max?.getD 0) + 1

/-- A row of converted cells, its number filled in where the table numbers its rows. -/
def numbered (t : StoredTable) (row : List Cell) : List Cell :=
  (t.fields.zip row).map fun (f, c) =>
    match f.isRowKey, c with
    | true, .null => .int (Int64.ofInt t.nextNumber)
    | _, c => c

/-- The number of a row is a whole number. -/
def checkNumber (t : StoredTable) (row : List Cell) : Except DatabaseError Unit :=
  (t.fields.zip row).forM fun (f, c) =>
    match f.isRowKey, c with
    | false, _ | true, .int _ => .ok ()
    | true, _ => .error (.reported 20 "datatype mismatch")

/-- The first column that must not be null and is. -/
def checkNulls (t : StoredTable) (row : List Cell) : Except DatabaseError Unit :=
  (t.fields.zip row).forM fun (f, c) =>
    match f.notNull, c with
    | true, .null => .error (.reported 1299 ("NOT NULL constraint failed: " ++ t.columnText f))
    | _, _ => .ok ()

/-- The place of the row that has the key of another one. -/
def holder? (t : StoredTable) (row : List Cell) : Option Nat :=
  (t.key? row).bind fun (_, key) => t.rows.findIdx? fun other => (t.key? other).any fun (_, k) => k.same key

/-- The error of a second row with the same key. -/
def keyTaken (t : StoredTable) : DatabaseError :=
  let column := match t.fields.find? (·.isPrimary) with
    | some f => t.columnText f
    | none => t.name
  .reported 1555 ("UNIQUE constraint failed: " ++ column)

/-- The rows in the order that the table keeps. -/
def sorted (t : StoredTable) (rows : List (List Cell)) : List (List Cell) :=
  if t.fields.any (·.isRowKey) then
    rows.mergeSort fun a b =>
      match t.key? a, t.key? b with
      | some (_, x), some (_, y) => x.order y != .gt
      | _, _ => true
  else rows

/-- The table with other rows. -/
def withRows (t : StoredTable) (rows : List (List Cell)) : StoredTable :=
  { t with rows := t.sorted rows }

/-- A row as the columns store it. -/
def converted (t : StoredTable) (row : List Cell) : List Cell :=
  (t.fields.zip row).map fun (f, c) => f.affinity.convert c

/-- A row with some columns assigned. -/
def assigned (t : StoredTable) (c : Context) (assignments : Assignments) (row : List Cell) : List Cell :=
  t.converted (assignments.foldl (fun cells (column, e) =>
    match t.place? column with
    | some i => cells.set i (e.eval c)
    | none => cells) row)

/-- The table with the `n`-th row replaced in its place. -/
def replaceRow (t : StoredTable) (n : Nat) (row : List Cell) : Except DatabaseError StoredTable := do
  t.checkNumber row
  t.checkNulls row
  let others := { t with rows := t.rows.eraseIdx n }
  if (others.holder? row).isSome then throw t.keyTaken
  return { t with rows := t.rows.set n row }

/-- The table with one more row; where its key is taken, the conflict decides. -/
def insertRow (t : StoredTable) (c : Context) (conflict : Option Conflict) (row : List Cell) :
    Except DatabaseError StoredTable := do
  let row := t.numbered (t.converted row)
  t.checkNumber row
  t.checkNulls row
  match t.holder? row, conflict with
  | none, _ => return t.withRows (t.rows ++ [row])
  | some _, none => throw t.keyTaken
  | some n, some conflict =>
    if conflict.assignments.isEmpty then return t
    let there := (t.rows[n]?).getD []
    let excluded : Source := { table := "excluded", fields := t.fields, cells := row }
    let t ← t.replaceRow n (t.assigned { c with sources := [t.source there, excluded] } conflict.assignments there)
    return t.withRows t.rows

/-- The row that an insertion describes: values in the order of the columns, or for some of them, where the first value
for a column counts; all others have their default, but the number of a row has none. -/
def describedRow (t : StoredTable) (c : Context) (columns : Option (List String)) (values : List Expr) : List Cell :=
  let cells := values.map (·.eval c)
  match columns with
  | none => cells
  | some names =>
    (names.zip cells).foldr (fun (column, value) row =>
      match t.place? column with
      | some i => row.set i value
      | none => row) (t.fields.map fun f => if f.isRowKey then .null else f.default.eval c)

/-- The statements that make the table again. -/
def script (t : StoredTable) : List String :=
  t.sql :: t.rows.map fun row =>
    "INSERT INTO " ++ Text.encloseName '"' t.name ++ " VALUES (" ++ ", ".intercalate (row.map Cell.literal) ++ ")"

end StoredTable

end SchemaMigration.Store
