import SchemaMigration.Text.Ascii
import SchemaMigration.Text.Blank
import SchemaMigration.Text.Debug
import SchemaMigration.Text.Upper

/-!
# Expressions of templates

What stands between the braces of a template: variables, literals, attributes, items, filters, `~` and `not`. An
expression is read from the tokens between the braces and evaluated among the variables in scope.

A variable that is not defined, an attribute or an item that a value lacks is undefined, which is written as nothing;
only asking an undefined value for more is an error.
-/

namespace SchemaMigration.Template

/-! ## Tokens -/

/-- A token between braces. -/
inductive Token where
  | word (name : String)
  | text (value : String)
  | number (value : Nat)
  | mark (c : Char)
  deriving Repr, DecidableEq

/-- A character that a word may start with. -/
def isWordStart (c : Char) : Bool :=
  Text.isLetter c || c == '_'

/-- A character of a word. -/
def isWordChar (c : Char) : Bool :=
  isWordStart c || Text.isDigit c

/-- The character that a backslash and a letter stand for in a quoted text. -/
def escaped (c : Char) : Char :=
  match c with
  | 'n' => '\n'
  | 'r' => '\r'
  | 't' => '\t'
  | 'b' => Char.ofNat 8
  | 'f' => Char.ofNat 12
  | c => c

/-- A quoted text after its opening quote, and what follows its closing one. -/
def readText (quote : Char) : List Char → Option (List Char × List Char)
  | [] => none
  | '\\' :: c :: r => (readText quote r).map fun (s, r) => (escaped c :: s, r)
  | c :: r => if c == quote then some ([], r) else (readText quote r).map fun (s, r) => (c :: s, r)

/-- The characters that are tokens of their own. -/
def isMark (c : Char) : Bool :=
  c == '.' || c == '[' || c == ']' || c == '(' || c == ')' || c == '|' || c == '~' || c == ',' || c == '-'

/-- Where tokens end: the sign that closes a tag or an output, which a `-` or a `+` may precede. -/
def closes (close : Char) : List Char → Option (Bool × List Char)
  | '-' :: c :: '\x7d' :: r => if c == close then some (true, r) else none
  | '+' :: c :: '\x7d' :: r => if c == close then some (false, r) else none
  | c :: '\x7d' :: r => if c == close then some (false, r) else none
  | _ => none

/-- Tokens up to the closing sign of a tag (`%`) or an output (a brace), whether that strips what follows, and what
follows; one call a token. -/
def readTokens (close : Char) : Nat → List Char → Option (List Token × Bool × List Char)
  | 0, _ => none
  | fuel + 1, s =>
    match closes close s with
    | some (strip, r) => some ([], strip, r)
    | none =>
      let more (t : Token) (r : List Char) : Option (List Token × Bool × List Char) :=
        (readTokens close fuel r).map fun (ts, strip, r) => (t :: ts, strip, r)
      match s with
      | [] => none
      | c :: r =>
        if Text.isBlank c then readTokens close fuel r
        else if isWordStart c then more (.word (String.ofList (s.takeWhile isWordChar))) (s.dropWhile isWordChar)
        else if Text.isDigit c then
          more (.number (Text.decimalValue 0 (s.takeWhile Text.isDigit))) (s.dropWhile Text.isDigit)
        else if c == '\'' || c == '"' then
          match readText c r with
          | some (text, r) => more (.text (String.ofList text)) r
          | none => none
        else if isMark c then more (.mark c) r
        else none

/-! ## Expressions -/

/-- An expression. -/
inductive Expr where
  | reference (name : String)
  | text (value : String)
  | number (value : Int)
  | bool (value : Bool)
  | property (e : Expr) (name : String)
  | item (e : Expr) (index : Expr)
  | filtered (e : Expr) (filter : String)
  | concat (a b : Expr)
  | negated (e : Expr)
  | not (e : Expr)
  deriving Repr, DecidableEq

/-- Words that are no variables. -/
def reservedWords : List String :=
  ["not", "and", "or", "in", "is", "if", "else", "elif", "for", "endfor", "endif"]

mutual

/-- An expression in front of some tokens; every call takes one from the fuel. -/
def readExpr : Nat → List Token → Option (Expr × List Token)
  | 0, _ => none
  | fuel + 1, ts =>
    match ts with
    | .word "not" :: ts => (readExpr fuel ts).map fun (e, ts) => (.not e, ts)
    | ts => (readUnary fuel ts).bind fun (e, ts) => readConcat fuel e ts

/-- Operands joined to `e` by `~`. -/
def readConcat : Nat → Expr → List Token → Option (Expr × List Token)
  | 0, _, _ => none
  | fuel + 1, e, ts =>
    match ts with
    | .mark '~' :: ts => (readUnary fuel ts).bind fun (f, ts) => readConcat fuel (.concat e f) ts
    | ts => some (e, ts)

/-- An operand: a minus sign or none, a variable or literal, and what is asked of it. -/
def readUnary : Nat → List Token → Option (Expr × List Token)
  | 0, _ => none
  | fuel + 1, ts =>
    match ts with
    | .mark '-' :: ts => (readPrimary fuel ts).bind fun (e, ts) => readPostfix fuel (.negated e) ts
    | ts => (readPrimary fuel ts).bind fun (e, ts) => readPostfix fuel e ts

/-- A variable, a literal or an expression in parentheses. -/
def readPrimary : Nat → List Token → Option (Expr × List Token)
  | 0, _ => none
  | fuel + 1, ts =>
    match ts with
    | .word name :: ts =>
      if name == "true" || name == "True" then some (.bool true, ts)
      else if name == "false" || name == "False" then some (.bool false, ts)
      else if reservedWords.contains name then none
      else some (.reference name, ts)
    | .text s :: ts => some (.text s, ts)
    | .number n :: ts => some (.number n, ts)
    | .mark '(' :: ts =>
      match readExpr fuel ts with
      | some (e, .mark ')' :: ts) => some (e, ts)
      | _ => none
    | _ => none

/-- Attributes and items of `e`, then filters. -/
def readPostfix : Nat → Expr → List Token → Option (Expr × List Token)
  | 0, _, _ => none
  | fuel + 1, e, ts =>
    match ts with
    | .mark '.' :: .word name :: ts => readPostfix fuel (.property e name) ts
    | .mark '[' :: ts =>
      match readExpr fuel ts with
      | some (i, .mark ']' :: ts) => readPostfix fuel (.item e i) ts
      | _ => none
    | ts => readFilters fuel e ts

/-- Filters on `e`. -/
def readFilters : Nat → Expr → List Token → Option (Expr × List Token)
  | 0, _, _ => none
  | fuel + 1, e, ts =>
    match ts with
    | .mark '|' :: .word name :: .mark '(' :: .mark ')' :: ts => readFilters fuel (.filtered e name) ts
    | .mark '|' :: .word name :: ts => readFilters fuel (.filtered e name) ts
    | ts => some (e, ts)

end

/-- The expression that all of some tokens make. -/
def Expr.ofTokens? (ts : List Token) : Option Expr :=
  match readExpr (4 * ts.length + 4) ts with
  | some (e, []) => some e
  | _ => none

/-! ## Values -/

/-- A value in a template. -/
inductive Value where
  | undefined
  | text (value : String)
  | number (value : Int)
  | bool (value : Bool)
  | list (items : List Value)
  /-- The state of a loop: the place of its item, counted from zero, and the number of items. -/
  | loop (index length : Nat)
  deriving Repr, Inhabited

namespace Value

/-- A number in decimal. -/
def numberText (n : Int) : String :=
  (if n < 0 then "-" else "") ++ String.ofList (Text.natText n.natAbs)

mutual

/-- A value inside a list: texts are quoted. -/
def nested : Value → String
  | undefined => "undefined"
  | text s => Text.debug s
  | number n => numberText n
  | bool b => if b then "true" else "false"
  | list items => "[" ++ ", ".intercalate (nestedItems items) ++ "]"
  | loop .. => "<loop>"

def nestedItems : List Value → List String
  | [] => []
  | v :: vs => nested v :: nestedItems vs

end

/-- A value as it is written out. -/
def display : Value → String
  | undefined => ""
  | text s => s
  | v => v.nested

/-- A value as a condition. -/
def isTrue : Value → Bool
  | undefined => false
  | text s => s ≠ ""
  | number n => n ≠ 0
  | bool b => b
  | list items => !items.isEmpty
  | loop .. => true

/-- The items of a value that can be looped over. -/
def items? : Value → Option (List Value)
  | undefined => some []
  | text s => some (s.toList.map fun c => text (String.ofList [c]))
  | list items => some items
  | _ => none

/-- The attribute of a value. -/
def property (v : Value) (name : String) : Value :=
  match v, name with
  | loop index _, "index" => number (index + 1)
  | loop index _, "index0" => number index
  | loop _ length, "length" => number length
  | loop index _, "first" => bool (index == 0)
  | loop index length, "last" => bool (index + 1 == length)
  | loop index length, "revindex" => number (length - index)
  | loop index length, "revindex0" => number (length - index - 1)
  | _, _ => undefined

/-- The item of a list at an index; a negative one counts from the end. -/
def itemAt (items : List Value) (i : Int) : Value :=
  let n := if i < 0 then items.length + i else i
  if n < 0 then undefined else (items[n.toNat]?).getD undefined

/-- The item of a value. -/
def item (v index : Value) : Value :=
  match v, index with
  | list items, number i => itemAt items i
  | text s, number i => itemAt (s.toList.map fun c => text (String.ofList [c])) i
  | v, text name => v.property name
  | _, _ => undefined

end Value

/-- Why a template cannot be rendered. -/
inductive RenderError where
  /-- An undefined value is asked for an attribute or an item. -/
  | undefinedValue
  /-- A filter that does not exist. -/
  | unknownFilter (name : String)
  /-- An operation that a value does not have. -/
  | invalidOperation
  deriving Repr, DecidableEq

/-- A character inside a double-quoted YAML scalar. -/
def yamlChar (c : Char) : List Char :=
  if c == '\\' then ['\\', '\\']
  else if c == '"' then ['\\', '"']
  else if c == '\n' then ['\\', 'n']
  else if c == '\r' then ['\\', 'r']
  else if c == '\t' then ['\\', 't']
  else [c]

/-- A text as a double-quoted YAML scalar. -/
def yamlQuote (s : String) : String :=
  String.ofList ('"' :: (s.toList.flatMap yamlChar ++ ['"']))

/-- A filter applied to a value. -/
def applyFilter (name : String) (v : Value) : Except RenderError Value :=
  match name with
  | "yaml" => .ok (.text (yamlQuote v.display))
  | "upper" => .ok (.text (Text.upper v.display))
  | "length" =>
    match v with
    | .text s => .ok (.number s.length)
    | .list items => .ok (.number items.length)
    | _ => .error .invalidOperation
  | name => .error (.unknownFilter name)

/-- The variables in scope, the innermost first. -/
abbrev Scope := List (String × Value)

/-- The value of an expression. -/
def Expr.eval (scope : Scope) : Expr → Except RenderError Value
  | reference name => .ok ((scope.lookup name).getD .undefined)
  | text s => .ok (.text s)
  | number n => .ok (.number n)
  | bool b => .ok (.bool b)
  | property e name => do
    match ← e.eval scope with
    | .undefined => .error .undefinedValue
    | v => .ok (v.property name)
  | item e index => do
    let v ← e.eval scope
    let i ← index.eval scope
    match v with
    | .undefined => .error .undefinedValue
    | v => .ok (v.item i)
  | filtered e name => do applyFilter name (← e.eval scope)
  | concat a b => do
    let a ← a.eval scope
    let b ← b.eval scope
    .ok (.text (a.display ++ b.display))
  | negated e => do
    match ← e.eval scope with
    | .number n => .ok (.number (-n))
    | _ => .error .invalidOperation
  | not e => do .ok (.bool !(← e.eval scope).isTrue)

end SchemaMigration.Template
