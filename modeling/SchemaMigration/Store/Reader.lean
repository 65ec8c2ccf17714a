import SchemaMigration.Error
import SchemaMigration.Store.Command
import SchemaMigration.Store.Token

/-!
# Reading commands

Recursive descent over the tokens of a text, one statement at a time. The first token that no statement can have in its
place is an error, in the words of the database; what stands behind it is not looked at.
-/

namespace SchemaMigration.Store

/-- What is still to be read, and the names of the parameters so far; a `?` has none. -/
structure ReaderState where
  rest : List Lexeme
  parameters : List (Option String) := []

abbrev Reader := StateT ReaderState (Except DatabaseError)

namespace Reader

/-- The error at a place. -/
def errorAt : List Lexeme → DatabaseError
  | [] => .reported 1 "incomplete input"
  | l :: _ =>
    if l.token == .bad then .reported 1 ("unrecognized token: \"" ++ l.raw ++ "\"")
    else .reported 1 ("near \"" ++ l.raw ++ "\": syntax error")

/-- Fails at the next token. -/
def fail {α : Type} : Reader α := do
  throw (errorAt (← get).rest)

/-- The next token stays. -/
def peek : Reader (Option Lexeme) :=
  return (← get).rest.head?

def skip : Reader Unit :=
  modify fun s => { s with rest := s.rest.drop 1 }

/-- Whether a token is the given keyword. -/
def isKeyword (word : String) (l : Lexeme) : Bool :=
  l.token == .word && Text.lowerText l.raw == word

def isSymbol (symbol : String) (l : Lexeme) : Bool :=
  l.token == .symbol && l.raw == symbol

/-- Takes the next token if it has a property. -/
def accept (p : Lexeme → Bool) : Reader Bool := do
  if (← peek).any p then
    skip
    return true
  else return false

/-- Takes the next token, which must have a property. -/
def expect (p : Lexeme → Bool) : Reader Unit := do
  unless ← accept p do fail

def acceptWord (word : String) : Reader Bool := accept (isKeyword word)

def acceptSymbol (symbol : String) : Reader Bool := accept (isSymbol symbol)

/-- Takes keywords, one after the other. -/
def expectWords : List String → Reader Unit
  | [] => pure ()
  | w :: ws => do
    expect (isKeyword w)
    expectWords ws

def expectSymbol (symbol : String) : Reader Unit := expect (isSymbol symbol)

/-- Words that are no names. -/
def reserved : List String :=
  ["add", "all", "alter", "and", "as", "autoincrement", "between", "case", "check", "collate", "commit", "constraint",
    "create", "default", "deferrable", "delete", "distinct", "drop", "else", "escape", "exists", "foreign", "from",
    "group", "having", "in", "index", "insert", "into", "is", "isnull", "limit", "not", "nothing", "notnull", "null",
    "on", "or", "order", "primary", "references", "returning", "select", "set", "table", "then", "to", "transaction",
    "union", "unique", "update", "using", "values", "when", "where"]

/-- The name that a token is, quoted or plain. -/
def nameOf? (l : Lexeme) : Option String :=
  match l.token with
  | .word => if reserved.contains (Text.lowerText l.raw) then none else some l.raw
  | .name value _ | .text value => some value
  | _ => none

/-- A name and the way it was written. -/
def name : Reader (String × String) := do
  let some l ← peek | fail
  let some value := nameOf? l | fail
  skip
  return (value, l.raw)

/-- Items between commas, at least one; at most `fuel` of them. -/
def separated {α : Type} (item : Reader α) : Nat → Reader (List α)
  | 0 => fail
  | fuel + 1 => do
    let x ← item
    if ← acceptSymbol "," then return x :: (← separated item fuel)
    else return [x]

/-- Items between commas. -/
def items {α : Type} (item : Reader α) : Reader (List α) := do
  separated item (← get).rest.length

/-- Items between commas, in brackets. -/
def bracketed {α : Type} (item : Reader α) : Reader (List α) := do
  expectSymbol "("
  let xs ← items item
  expectSymbol ")"
  return xs

/-! ## Expressions -/

/-- The number that a token spells. -/
def numberCell (raw : String) : Cell :=
  ((Affinity.number? raw).getD (.int 0))

/-- The opposite of a literal. -/
def negated : Expr → Expr
  | .cell (.int n) => .cell (.int (-n))
  | .cell (.float x) => if x == 9223372036854775808.0 then .cell (.int Int64.minValue) else .cell (.float (-x))
  | e => .negative e

/-- The parameter of a name: the one there is, or a new one. -/
def namedParameter (raw : String) : Reader Expr := do
  let s ← get
  match s.parameters.findIdx? (· == some raw) with
  | some i => return .parameter i
  | none =>
    set { s with parameters := s.parameters ++ [some raw] }
    return .parameter s.parameters.length

/-- What follows a name that starts an expression: a call, a column of a table, or nothing. -/
def afterName (value : String) (orText : Bool) : Reader Expr := do
  if !orText && Text.lowerText value == "datetime" && (← peek).any (isSymbol "(") then
    let _ ← bracketed (expect fun l => l.token == .text "now")
    return .now
  else if ← acceptSymbol "." then
    let (column, _) ← name
    return .column (some value) column false
  else return .column none value orText

/-- An expression; brackets and signs are nested at most `fuel` deep. -/
def exprFrom : Nat → Reader Expr
  | 0 => fail
  | fuel + 1 => do
    let some l ← peek | fail
    match l.token with
    | .number =>
      skip
      return .cell (numberCell l.raw)
    | .text value =>
      skip
      return .cell (.text value)
    | .blob octets =>
      skip
      return .cell (.blob octets)
    | .parameter =>
      skip
      let s ← get
      set { s with parameters := s.parameters ++ [none] }
      return .parameter s.parameters.length
    | .named =>
      skip
      namedParameter l.raw
    | .name value inDoubleQuotes =>
      skip
      afterName value inDoubleQuotes
    | .word =>
      let word := Text.lowerText l.raw
      if word == "null" then
        skip
        return .cell .null
      else if word == "true" || word == "false" then
        skip
        return .cell (.int (if word == "true" then 1 else 0))
      else if word == "current_timestamp" then
        skip
        return .now
      else
        let (value, _) ← name
        afterName value false
    | .symbol =>
      if ← acceptSymbol "-" then return negated (← exprFrom fuel)
      else if ← acceptSymbol "+" then exprFrom fuel
      else if ← acceptSymbol "(" then
        let e ← exprFrom fuel
        expectSymbol ")"
        return e
      else fail
    | .bad => fail

def expr : Reader Expr := do
  exprFrom (← get).rest.length

/-- Two expressions that have to be equal. -/
def equality : Reader (Expr × Expr) := do
  let left ← expr
  expect fun l => isSymbol "=" l || isSymbol "==" l
  return (left, ← expr)

/-- Equalities joined by `AND`; at most `fuel` of them. -/
def equalities : Nat → Reader Condition
  | 0 => fail
  | fuel + 1 => do
    let e ← equality
    if ← acceptWord "and" then return e :: (← equalities fuel) else return [e]

/-- An optional condition. -/
def condition : Reader Condition := do
  if ← acceptWord "where" then equalities (← get).rest.length else return []

def assignment : Reader (String × Expr) := do
  let (column, _) ← name
  expectSymbol "="
  return (column, ← expr)

/-! ## Statements -/

/-- The words of a type; at most `fuel` of them. -/
def typeWords : Nat → Reader (List String)
  | 0 => return []
  | fuel + 1 => do
    match (← peek).bind nameOf? with
    | some w =>
      skip
      return w :: (← typeWords fuel)
    | none => return []

/-- A number with an optional sign. -/
def sizeOfType : Reader Unit := do
  let _ ← accept fun l => isSymbol "+" l || isSymbol "-" l
  expect (·.token == .number)

/-- The declared type of a column, which may be missing. -/
def fieldType : Reader String := do
  let words ← typeWords (← get).rest.length
  if !words.isEmpty && (← peek).any (isSymbol "(") then
    let _ ← bracketed sizeOfType
  return " ".intercalate words

/-- What follows the type of a column; at most `fuel` constraints. -/
def constraints : Nat → Field → Reader Field
  | 0, f => return f
  | fuel + 1, f => do
    if ← acceptWord "primary" then
      expectWords ["key"]
      constraints fuel { f with isPrimary := true }
    else if ← acceptWord "not" then
      expectWords ["null"]
      constraints fuel { f with notNull := true }
    else if ← acceptWord "null" then constraints fuel f
    else if ← acceptWord "default" then
      let e ← expr
      constraints fuel { f with default := e }
    else return f

/-- A column of a new table. -/
def field : Reader Field := do
  let (column, _) ← name
  let type ← fieldType
  constraints (← get).rest.length { name := column, type }

/-- What was read between two places. -/
def textBetween (start stop : List Lexeme) : String :=
  " ".intercalate ((start.take (start.length - stop.length)).map (·.raw))

/-- The beginning of the creation of a table: whether the table may be there, its name, and how the name was written. -/
def creation : Reader (Bool × String × String) := do
  expectWords ["create", "table"]
  let ifMissing ← acceptWord "if"
  if ifMissing then expectWords ["not", "exists"]
  return (ifMissing, ← name)

def createTable : Reader Command := do
  let start := (← get).rest
  let (ifMissing, value, written) ← creation
  let fields ← bracketed field
  return .create ifMissing value written fields (textBetween start (← get).rest)

def dropTable : Reader Command := do
  expectWords ["drop", "table"]
  let ifThere ← acceptWord "if"
  if ifThere then expectWords ["exists"]
  let (value, _) ← name
  return .drop ifThere value

def conflict : Reader (Option Conflict) := do
  if ← acceptWord "on" then
    expectWords ["conflict"]
    let columns ← bracketed (Prod.fst <$> name)
    expectWords ["do"]
    if ← acceptWord "nothing" then return some { columns, assignments := [] }
    expectWords ["update", "set"]
    return some { columns, assignments := ← items assignment }
  else return none

def insert : Reader Command := do
  expectWords ["insert", "into"]
  let (table, _) ← name
  let columns ← if (← peek).any (isSymbol "(") then some <$> bracketed (Prod.fst <$> name) else pure none
  expectWords ["values"]
  let rows ← items (bracketed expr)
  return .insert table columns rows (← conflict)

def update : Reader Command := do
  expectWords ["update"]
  let (table, _) ← name
  expectWords ["set"]
  let assignments ← items assignment
  return .update table assignments (← condition)

def delete : Reader Command := do
  expectWords ["delete", "from"]
  let (table, _) ← name
  return .delete table (← condition)

def item : Reader Item := do
  if ← acceptSymbol "*" then return .all
  let e ← expr
  if ← acceptWord "as" then
    let _ ← name
  else
    let _ ← accept fun l => (nameOf? l).isSome
  return .value e

def select : Reader Command := do
  expectWords ["select"]
  let shown ← items item
  let table ← if ← acceptWord "from" then some <$> Prod.fst <$> name else pure none
  let condition ← condition
  let sortedBy ← if ← acceptWord "order" then
      expectWords ["by"]
      items expr
    else pure []
  return .select shown table condition sortedBy

/-- The command that starts with the next token. -/
def command : Reader Command := do
  match (← peek).map fun l => Text.lowerText l.raw with
  | some "create" => createTable
  | some "drop" => dropTable
  | some "insert" => insert
  | some "update" => update
  | some "delete" => delete
  | some "select" => select
  | _ => fail

/-- The name of the table, and how it was written, that a text begins to create if it is not there; the bracket behind
the name was read. -/
def newTable? (lexemes : List Lexeme) : Option (String × String) :=
  match (creation <* expectSymbol "(").run { rest := lexemes.dropWhile (isSymbol ";") } with
  | .ok ((false, value, written), _) => some (value, written)
  | _ => none

/-- The first command of a text, with the names of its parameters, and what follows it; `none` if there is no more. -/
def next? (lexemes : List Lexeme) :
    Except DatabaseError (Option (Command × List (Option String) × List Lexeme)) :=
  match lexemes.dropWhile (isSymbol ";") with
  | [] => .ok none
  | rest => do
    let (c, s) ← command.run { rest }
    match s.rest with
    | [] => return some (c, s.parameters, [])
    | l :: rest => if isSymbol ";" l then return some (c, s.parameters, rest) else throw (errorAt (l :: rest))

end Reader

end SchemaMigration.Store
