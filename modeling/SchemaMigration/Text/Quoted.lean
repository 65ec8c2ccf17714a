/-!
# Quoted names and literals

A name stands between two quote characters, with that character written twice inside. A string literal stands between
single quotes, with single quotes and backslashes written twice, which is how a server that reads a backslash as an
escape takes the value back.
-/

namespace SchemaMigration.Text

/-- Every character with the property `p` written twice, all others once. -/
def doubleWhere (p : Char → Bool) (s : List Char) : List Char :=
  s.flatMap fun c => if p c then [c, c] else [c]

@[simp]
theorem doubleWhere_nil (p : Char → Bool) : doubleWhere p [] = [] := rfl

theorem doubleWhere_cons (p : Char → Bool) (c : Char) (s : List Char) :
    doubleWhere p (c :: s) = (if p c then [c, c] else [c]) ++ doubleWhere p s := rfl

@[simp]
theorem doubleWhere_append (p : Char → Bool) (s t : List Char) :
    doubleWhere p (s ++ t) = doubleWhere p s ++ doubleWhere p t := by
  simp [doubleWhere]

/-- A name between two characters `q`, where `q` inside the name is written twice. -/
def enclosed (q : Char) (name : List Char) : List Char :=
  q :: (doubleWhere (· == q) name ++ [q])

/-- The characters that a string literal writes twice: the single quote and the backslash. -/
def isLiteralSpecial (c : Char) : Bool :=
  c == '\'' || c == '\\'

/-- A string literal: single quotes around the text, single quotes and backslashes in it written twice. -/
def literalChars (value : List Char) : List Char :=
  '\'' :: (doubleWhere isLiteralSpecial value ++ ['\''])

/-- A name between two characters `q`. -/
def encloseName (q : Char) (name : String) : String :=
  String.ofList (enclosed q name.toList)

/-- The string literal of a text. -/
def quoteLiteral (value : String) : String :=
  String.ofList (literalChars value.toList)

/-- The character around a name in the schema's statements. -/
def backtick : Char := '\x60'

/-- A name as a backtick identifier. -/
def quoteName (name : String) : String :=
  encloseName backtick name

/-- Backtick identifiers joined by commas. -/
def quoteNames (names : List String) : String :=
  ",".intercalate (names.map quoteName)

end SchemaMigration.Text
