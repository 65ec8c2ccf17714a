import SchemaMigration.Text.Ascii

/-!
# Positions in a YAML document

A cursor is what is left of a document together with the position of its first character. Line breaks are a line feed, a
carriage return, the two together, U+0085, U+2028 and U+2029; inside a scalar the last two stand for themselves and all
others for a line feed.
-/

namespace SchemaMigration.Yaml

/-- A position: how many characters stand before it, in the document, in lines and in its own line. -/
structure Position where
  index : Nat := 0
  line : Nat := 0
  column : Nat := 0
  deriving Repr, DecidableEq

/-- The position after `n` characters of the same line. -/
def Position.advance (p : Position) (n : Nat) : Position :=
  { p with index := p.index + n, column := p.column + n }

/-- The position after a line break of `n` characters. -/
def Position.newLine (p : Position) (n : Nat) : Position :=
  { index := p.index + n, line := p.line + 1, column := 0 }

/-- What is left of a document, and where it starts. -/
structure Cursor where
  rest : List Char
  position : Position := {}
  deriving Repr

/-- A space or a tab. -/
def isBlank (c : Char) : Bool :=
  c == ' ' || c == '\t'

/-- A character that breaks a line. -/
def isBreak (c : Char) : Bool :=
  c == '\n' || c == '\r' || c == '\u0085' || c == '\u2028' || c == '\u2029'

/-- A line break as it stands in the text of a scalar. -/
def breakText (c : Char) : Char :=
  if c == '\u2028' || c == '\u2029' then c else '\n'

/-- A character of the names of anchors, directives and tag handles. -/
def isWordChar (c : Char) : Bool :=
  Text.isLetter c || Text.isDigit c || c == '_' || c == '-'

/-- The characters that a document may hold. -/
def isPrintable (c : Char) : Bool :=
  let n := c.toNat
  n == 0x09 || n == 0x0A || n == 0x0D || (0x20 ≤ n && n ≤ 0x7E) || n == 0x85 || (0xA0 ≤ n && n ≤ 0xFFFD) || 0x10000 ≤ n

/-- The text starts with a blank or a line break, or is at its end. -/
def startsBlankOrEnd : List Char → Bool
  | [] => true
  | c :: _ => isBlank c || isBreak c

/-- The text starts with a line break, or is at its end. -/
def startsBreakOrEnd : List Char → Bool
  | [] => true
  | c :: _ => isBreak c

/-- The text starts with `---` or `...`, followed by a blank, a line break or its end. -/
def startsDocumentMark : List Char → Bool
  | '-' :: '-' :: '-' :: r => startsBlankOrEnd r
  | '.' :: '.' :: '.' :: r => startsBlankOrEnd r
  | _ => false

namespace Cursor

/-- The cursor after `n` characters, none of which breaks a line. -/
def advance (c : Cursor) (n : Nat) : Cursor :=
  { rest := c.rest.drop n, position := c.position.advance n }

/-- The cursor after the characters in front that have a property. -/
def skipWhile (p : Char → Bool) (c : Cursor) : Cursor :=
  c.advance (c.rest.takeWhile p).length

/-- The cursor after a comment and a line break, as far as they are there. -/
def skipComment (c : Cursor) : Cursor :=
  match c.rest with
  | '#' :: _ => c.skipWhile fun d => !isBreak d
  | _ => c

/-- The cursor after the line break in front, if there is one. -/
def skipBreak? (c : Cursor) : Option Cursor :=
  match c.rest with
  | '\r' :: '\n' :: r => some { rest := r, position := c.position.newLine 2 }
  | d :: r => if isBreak d then some { rest := r, position := c.position.newLine 1 } else none
  | [] => none

end Cursor

end SchemaMigration.Yaml
