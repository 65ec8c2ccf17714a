import SchemaMigration.Text.Ascii

/-!
# JSON values

A JSON document as it was written: numbers keep their literal, members of an object keep their order and may repeat a
name. The printer writes a value without spaces.
-/

namespace SchemaMigration

/-- A JSON value. A string whose escapes leave a surrogate without its partner is no text: it is kept as `none`. -/
inductive Json where
  | null
  | bool (value : Bool)
  | number (literal : String)
  | string (text : Option String)
  | array (items : List Json)
  | object (members : List (Option String × Json))
  deriving Repr, Inhabited

namespace Json

/-- The string value of a text. -/
def ofText (s : String) : Json :=
  string (some s)

/-- The number value of a natural number. -/
def ofNat (n : Nat) : Json :=
  number (String.ofList (Text.natText n))

/-- The array value of a list. -/
def ofList {α : Type} (f : α → Json) (xs : List α) : Json :=
  array (xs.map f)

/-- An object with the given members, those without a value left out. -/
def ofMembers (members : List (String × Option Json)) : Json :=
  object (members.filterMap fun (name, value) => value.map fun v => (some name, v))

/-- A hexadecimal digit in lower case. -/
def hexDigit (n : Nat) : Char :=
  if n < 10 then Char.ofNat (48 + n) else Char.ofNat (87 + n)

/-- A character inside a string: quote, backslash and control characters are escaped. -/
def escapeChar (c : Char) : List Char :=
  if c == '"' then ['\\', '"']
  else if c == '\\' then ['\\', '\\']
  else if c == '\n' then ['\\', 'n']
  else if c == '\r' then ['\\', 'r']
  else if c == '\t' then ['\\', 't']
  else if c.toNat == 8 then ['\\', 'b']
  else if c.toNat == 12 then ['\\', 'f']
  else if c.toNat < 32 then ['\\', 'u', '0', '0', hexDigit (c.toNat / 16), hexDigit (c.toNat % 16)]
  else [c]

/-- A string with its quotes. -/
def quote (s : List Char) : List Char :=
  '"' :: (s.flatMap escapeChar ++ ['"'])

/-- A string that may be no text; an ill-formed one is written as a surrogate alone. -/
def quoteText : Option String → List Char
  | some s => quote s.toList
  | none => "\"\\ud800\"".toList

mutual

/-- A value as text. -/
def render : Json → List Char
  | null => "null".toList
  | bool true => "true".toList
  | bool false => "false".toList
  | number literal => literal.toList
  | string text => quoteText text
  | array items => '[' :: renderItems items
  | object members => '{' :: renderMembers members

/-- The items of an array and its closing bracket. -/
def renderItems : List Json → List Char
  | [] => [']']
  | [v] => render v ++ [']']
  | v :: vs => render v ++ ',' :: renderItems vs

/-- The members of an object and its closing brace. -/
def renderMembers : List (Option String × Json) → List Char
  | [] => ['}']
  | [(name, v)] => quoteText name ++ ':' :: (render v ++ ['}'])
  | (name, v) :: ms => quoteText name ++ ':' :: (render v ++ ',' :: renderMembers ms)

end

end Json

end SchemaMigration
