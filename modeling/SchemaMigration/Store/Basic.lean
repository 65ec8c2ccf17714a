import SchemaMigration.Store.Reader
import SchemaMigration.Store.Table

/-!
# Stores

A store is a list of tables. `Store.execute` runs the statements of a text one after the other: each is read, checked
against the tables, given its values and run, and either changes the store as a whole or fails and leaves it as it
was. The first failure ends the text; the statements before it have run.
-/

namespace SchemaMigration

/-- A store of tables. -/
structure Store where
  tables : List Store.StoredTable := []
  deriving Repr

namespace Store

/-- What a text gives: the rows of its selections, and how many rows it inserted, changed or deleted. -/
structure Outcome where
  rows : List (List Cell) := []
  affected : Nat := 0
  deriving Repr

/-- The list of all tables, which can be selected from like a table. -/
def catalog (s : Store) : StoredTable :=
  { name := "sqlite_master"
    fields := ["type", "name", "tbl_name", "rootpage", "sql"].map fun name => { name, type := "" }
    rows := s.tables.zipIdx.map fun (t, i) =>
      [.text "table", .text t.name, .text t.name, .int (Int64.ofNat (i + 2)), .text t.sql] }

/-- The table of a name. -/
def table? (s : Store) (name : String) : Option StoredTable :=
  s.tables.find? fun t => sameName t.name name

/-- The table of a name, which must be there. -/
def table (s : Store) (name : String) : Except DatabaseError StoredTable :=
  match s.table? name with
  | some t => .ok t
  | none => .error (.reported 1 ("no such table: " ++ name))

/-- The table or the catalog. -/
def readable (s : Store) (name : String) : Except DatabaseError StoredTable :=
  if sameName name "sqlite_master" || sameName name "sqlite_schema" then .ok s.catalog else s.table name

/-- The store with a table in the place of the one of its name. -/
def replace (s : Store) (t : StoredTable) : Store :=
  { s with tables := s.tables.map fun u => if sameName u.name t.name then t else u }

/-! ## Checking -/

/-- No two columns of a new table have the same name, and at most one is the key. -/
def checkFields (table : String) (fields : List Field) : Except DatabaseError Unit := do
  fields.zipIdx.forM fun (f, i) =>
    if (fields.take i).any fun g => sameName g.name f.name then
      .error (.reported 1 ("duplicate column name: " ++ f.name))
    else .ok ()
  if 1 < (fields.filter (·.isPrimary)).length then
    throw (.reported 1 ("table \"" ++ table ++ "\" has more than one primary key"))

/-- Every assigned column is there, and every name in the values stands for something. -/
def checkAssignments (t : StoredTable) (sources : List Source) (assignments : Assignments) :
    Except DatabaseError Unit :=
  assignments.forM fun (column, e) => do
    e.check sources
    if (t.place? column).isNone then throw (.reported 1 ("no such column: " ++ column))

/-- An insertion into a table, under the name it is given in the statement, names columns that are there and has a
value for each. -/
def checkInsertion (name : String) (t : StoredTable) (columns : Option (List String)) (rows : List (List Expr))
    (conflict : Option Conflict) : Except DatabaseError Unit := do
  (columns.getD []).forM fun column =>
    if (t.place? column).isNone then
      .error (.reported 1 ("table " ++ name ++ " has no column named " ++ column))
    else .ok ()
  rows.forM fun row => row.forM fun e => e.check []
  rows.forM fun row =>
    match columns with
    | none =>
      if row.length != t.fields.length then
        .error (.reported 1 ("table " ++ name ++ " has " ++ toString t.fields.length ++ " columns but " ++
          toString row.length ++ " values were supplied"))
      else .ok ()
    | some names =>
      if row.length != names.length then
        .error (.reported 1 (toString row.length ++ " values for " ++ toString names.length ++ " columns"))
      else .ok ()
  match conflict with
  | none => return ()
  | some conflict =>
    let isKey (column : String) : Bool := t.fields.any fun f => f.isPrimary && sameName f.name column
    unless conflict.columns.length == 1 && conflict.columns.all isKey do
      throw (.reported 1 "ON CONFLICT clause does not match any PRIMARY KEY or UNIQUE constraint")
    let excluded : Source := { t.blankSource with table := "excluded" }
    checkAssignments t [t.blankSource, excluded] conflict.assignments

/-- A table of that name is there. -/
def alreadyExists (written : String) : DatabaseError :=
  .reported 1 ("table " ++ written ++ " already exists")

/-- A command fits the tables of the store. -/
def check (s : Store) : Command → Except DatabaseError Unit
  | .create ifMissing name written fields _ =>
    if (s.table? name).isSome then
      if ifMissing then .ok () else .error (alreadyExists written)
    else checkFields name fields
  | .drop ifThere name => if ifThere then .ok () else (s.table name).map fun _ => ()
  | .insert table columns rows conflict => do checkInsertion table (← s.table table) columns rows conflict
  | .update table assignments condition => do
    let t ← s.table table
    checkAssignments t [t.blankSource] assignments
    condition.check [t.blankSource]
  | .delete table condition => do
    let t ← s.table table
    condition.check [t.blankSource]
  | .select items table condition sortedBy => do
    let sources ← match table with
      | some name => do pure [(← s.readable name).blankSource]
      | none => pure []
    items.forM fun item =>
      match item with
      | .all => if sources.isEmpty then .error (.reported 1 "no tables specified") else .ok ()
      | .value e => e.check sources
    condition.check sources
    sortedBy.forM fun e => e.check sources

/-! ## Running -/

/-- Changes each row that a condition holds of, in order; the number of such rows comes with the table. -/
def updateRows (c : Context) (assignments : Assignments) (condition : Condition) (t : StoredTable) :
    Except DatabaseError (StoredTable × Nat) := do
  let (t, n) ← t.rows.zipIdx.foldlM (fun (u, n) (row, i) =>
    let c := { c with sources := [t.source row] }
    if condition.holds c then do return (← u.replaceRow i (u.assigned c assignments row), n + 1)
    else return (u, n)) (t, 0)
  return (t.withRows t.rows, n)

/-- The rows that a selection gives. -/
def selectRows (c : Context) (items : List Item) (t : Option StoredTable) (condition : Condition)
    (sortedBy : List Expr) : List (List Cell) :=
  let contexts := match t with
    | some t => t.rows.map fun row => { c with sources := [t.source row] }
    | none => [c]
  let chosen := contexts.filter condition.holds
  let key (c : Context) : List Cell := sortedBy.map (·.eval c)
  let notAfter (a b : Context) : Bool :=
    match ((key a).zip (key b)).find? fun (x, y) => x.order y != .eq with
    | some (x, y) => x.order y == .lt
    | none => true
  (chosen.mergeSort notAfter).map fun c => items.flatMap fun item =>
    match item with
    | .all => c.sources.flatMap (·.cells)
    | .value e => [e.eval c]

/-- Runs a command that fits the store. -/
def run (s : Store) (c : Context) : Command → Except DatabaseError (Outcome × Store)
  | .create _ name _ fields sql =>
    if (s.table? name).isSome then .ok ({}, s)
    else .ok ({}, { s with tables := s.tables ++ [{ name, fields, sql }] })
  | .drop _ name => .ok ({}, { s with tables := s.tables.filter fun t => !sameName t.name name })
  | .insert table columns rows conflict => do
    let t ← rows.foldlM (fun (t : StoredTable) row => t.insertRow c conflict (t.describedRow c columns row))
      (← s.table table)
    return ({ affected := rows.length }, s.replace t)
  | .update table assignments condition => do
    let (t, n) ← updateRows c assignments condition (← s.table table)
    return ({ affected := n }, s.replace t)
  | .delete table condition => do
    let t ← s.table table
    let (gone, kept) := t.rows.partition fun row => condition.holds { c with sources := [t.source row] }
    return ({ affected := gone.length }, s.replace (t.withRows kept))
  | .select items table condition sortedBy => do
    let t ← match table with
      | some name => do pure (some (← s.readable name))
      | none => pure none
    return ({ rows := selectRows c items t condition sortedBy }, s)

/-! ## Texts -/

/-- Values for the parameters of one statement, from the list at `used`, and how much of it is used then. A parameter
without a value is null; one with a name takes no value from a list. -/
def bindFrom (values : List BoundValue) : Nat → List (Option String) → Except DatabaseError (List Cell × Nat)
  | used, [] => .ok ([], used)
  | used, none :: rest =>
    match values[used]? with
    | none => .ok ([], used)
    | some v => do
      let (cells, used) ← bindFrom values (used + 1) rest
      return (Cell.ofBoundValue v :: cells, used)
  | _, some _ :: _ => .error .unbindable

/-- Values for the parameters of one statement; without a list all of them are null. -/
def bind (values : Option (List BoundValue)) (used : Nat) (parameters : List (Option String)) :
    Except DatabaseError (List Cell × Nat) :=
  match values with
  | none => .ok ([], used)
  | some values => bindFrom values used parameters

/-- The next command of a text. That a table is there already is found before a mistake in its columns. -/
def nextCommand? (s : Store) (text : List Lexeme) :
    Except DatabaseError (Option (Command × List (Option String) × List Lexeme)) :=
  match Reader.next? text, Reader.newTable? text with
  | .error e, some (name, written) => .error (if (s.table? name).isSome then alreadyExists written else e)
  | r, _ => r

/-- One statement of a text: what it gives, the store after it, how many values are used then, and the statements that
follow; `none` if there is no more. -/
def step (s : Store) (now : Instant) (values : Option (List BoundValue)) (used : Nat) (text : List Lexeme) :
    Except DatabaseError (Option (Outcome × Store × Nat × List Lexeme)) := do
  let some (command, parameters, rest) ← s.nextCommand? text | return none
  s.check command
  let (cells, used) ← bind values used parameters
  let (outcome, s) ← s.run { now, parameters := cells } command
  return some (outcome, s, used, rest)

/-- The statements of a text of at most `fuel` tokens. -/
def executeFrom (now : Instant) (values : Option (List BoundValue)) :
    Nat → Nat → List Lexeme → Outcome → Store → Except DatabaseError Outcome × Store
  | 0, _, _, outcome, s => (.ok outcome, s)
  | fuel + 1, used, text, outcome, s =>
    match s.step now values used text with
    | .error e => (.error e, s)
    | .ok none => (.ok outcome, s)
    | .ok (some (new, s, used, rest)) =>
      executeFrom now values fuel used rest
        { rows := outcome.rows ++ new.rows, affected := outcome.affected + new.affected } s

/-- Runs the statements of a text, with values for its parameters. -/
def execute (s : Store) (now : Instant) (sql : String) (values : Option (List BoundValue)) :
    Except DatabaseError Outcome × Store :=
  let text := Token.scan sql
  executeFrom now values (text.length + 1) 0 text {} s

/-- A text that makes the store again. -/
def script (s : Store) : String :=
  String.join ((s.tables.flatMap StoredTable.script).map (· ++ ";\n"))

/-- The store that a text makes. -/
def ofScript (sql : String) : Except DatabaseError Store :=
  match execute {} { seconds := 0 } sql none with
  | (.ok _, s) => .ok s
  | (.error _, _) => .error (.reported 26 "file is not a database")

end Store

end SchemaMigration
