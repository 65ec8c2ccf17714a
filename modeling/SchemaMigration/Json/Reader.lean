import SchemaMigration.Json.Basic
import SchemaMigration.Text.Ascii

/-!
# Reading JSON

The strict grammar: no comment, no trailing comma, no leading zero, no control character in a string, nothing but white
space around the document. An escape of a surrogate without its partner is lexically valid.
-/

namespace SchemaMigration.Json

open Text (isDigit hexNumber?)

/-- White space between tokens. -/
def isSpace (c : Char) : Bool :=
  c == ' ' || c == '\n' || c == '\t' || c == '\r'

/-- A text without the white space in front. -/
def skipSpace (s : List Char) : List Char :=
  s.dropWhile isSpace

/-- The value of four hexadecimal digits. -/
def unitValue? (a b c d : Char) : Option Nat :=
  hexNumber? [a, b, c, d]

/-- The first half of a surrogate pair. -/
def isHighSurrogate (n : Nat) : Bool :=
  0xD800 ≤ n && n < 0xDC00

/-- The second half of a surrogate pair. -/
def isLowSurrogate (n : Nat) : Bool :=
  0xDC00 ≤ n && n < 0xE000

/-- The character of an escape with one letter. -/
def simpleEscape? (c : Char) : Option Char :=
  if c == '"' || c == '\\' || c == '/' then some c
  else if c == 'b' then some (Char.ofNat 8)
  else if c == 'f' then some (Char.ofNat 12)
  else if c == 'n' then some '\n'
  else if c == 'r' then some '\r'
  else if c == 't' then some '\t'
  else none

/-- What a string and the text after it become when `c` stands in front of the string's content. -/
def consChar (c : Char) (r : Option (Option (List Char) × List Char)) : Option (Option (List Char) × List Char) :=
  r.map fun (content, rest) => (content.map (c :: ·), rest)

/-- What they become when a lone surrogate stands in front. -/
def consIllFormed (r : Option (Option (List Char) × List Char)) : Option (Option (List Char) × List Char) :=
  r.map fun (_, rest) => (none, rest)

/-- The content of a string after its opening quote, and the text after its closing one. The content is `none` if a
surrogate stands alone in it. -/
def readString : List Char → Option (Option (List Char) × List Char)
  | [] => none
  | '"' :: r => some (some [], r)
  | '\\' :: 'u' :: a :: b :: c :: d :: '\\' :: 'u' :: e :: f :: g :: h :: r =>
    match unitValue? a b c d, unitValue? e f g h with
    | some m, some n =>
      if isHighSurrogate m && isLowSurrogate n then
        consChar (Char.ofNat (0x10000 + (m - 0xD800) * 1024 + (n - 0xDC00))) (readString r)
      else
        let tail := readString ('\\' :: 'u' :: e :: f :: g :: h :: r)
        if isHighSurrogate m || isLowSurrogate m then consIllFormed tail else consChar (Char.ofNat m) tail
    | _, _ => none
  | '\\' :: 'u' :: a :: b :: c :: d :: r =>
    match unitValue? a b c d with
    | some m =>
      if isHighSurrogate m || isLowSurrogate m then consIllFormed (readString r)
      else consChar (Char.ofNat m) (readString r)
    | none => none
  | '\\' :: c :: r =>
    match simpleEscape? c with
    | some d => consChar d (readString r)
    | none => none
  | c :: r => if c == '\\' || c.toNat < 32 then none else consChar c (readString r)

/-- Digits in front of a text, at least one. -/
def readDigits (s : List Char) : Option (List Char × List Char) :=
  if (s.takeWhile isDigit).isEmpty then none else some (s.takeWhile isDigit, s.dropWhile isDigit)

/-- The whole part of a number: a zero alone, or digits that do not start with one. -/
def readWhole : List Char → Option (List Char × List Char)
  | '0' :: r => some (['0'], r)
  | s => readDigits s

/-- The fraction of a number, which may be missing. -/
def readFraction : List Char → Option (List Char × List Char)
  | '.' :: r => (readDigits r).map fun (ds, r) => ('.' :: ds, r)
  | s => some ([], s)

/-- The exponent of a number, which may be missing. -/
def readExponent : List Char → Option (List Char × List Char)
  | c :: r =>
    if c == 'e' || c == 'E' then
      match r with
      | '+' :: r => (readDigits r).map fun (ds, r) => (c :: '+' :: ds, r)
      | '-' :: r => (readDigits r).map fun (ds, r) => (c :: '-' :: ds, r)
      | r => (readDigits r).map fun (ds, r) => (c :: ds, r)
    else some ([], c :: r)
  | [] => some ([], [])

/-- A number in front of a text. -/
def readNumber (s : List Char) : Option (List Char × List Char) := do
  let (sign, r) := match s with
    | '-' :: r => (['-'], r)
    | r => ([], r)
  let (whole, r) ← readWhole r
  let (fraction, r) ← readFraction r
  let (exponent, r) ← readExponent r
  return (sign ++ whole ++ fraction ++ exponent, r)

mutual

/-- A value in front of a text. Every call takes one from the fuel. -/
def readValue : Nat → List Char → Option (Json × List Char)
  | 0, _ => none
  | fuel + 1, s =>
    match skipSpace s with
    | '{' :: r =>
      match skipSpace r with
      | '}' :: r => some (.object [], r)
      | r => (readMembers fuel r).map fun (ms, r) => (.object ms, r)
    | '[' :: r =>
      match skipSpace r with
      | ']' :: r => some (.array [], r)
      | r => (readItems fuel r).map fun (vs, r) => (.array vs, r)
    | '"' :: r => (readString r).map fun (content, r) => (.string (content.map String.ofList), r)
    | 'n' :: 'u' :: 'l' :: 'l' :: r => some (.null, r)
    | 't' :: 'r' :: 'u' :: 'e' :: r => some (.bool true, r)
    | 'f' :: 'a' :: 'l' :: 's' :: 'e' :: r => some (.bool false, r)
    | r => (readNumber r).map fun (literal, r) => (.number (String.ofList literal), r)

/-- The items of an array, at least one, with its closing bracket. -/
def readItems : Nat → List Char → Option (List Json × List Char)
  | 0, _ => none
  | fuel + 1, s => do
    let (v, r) ← readValue fuel s
    match skipSpace r with
    | ',' :: r =>
      let (vs, r) ← readItems fuel r
      return (v :: vs, r)
    | ']' :: r => return ([v], r)
    | _ => none

/-- The members of an object, at least one, with its closing brace. -/
def readMembers : Nat → List Char → Option (List (Option String × Json) × List Char)
  | 0, _ => none
  | fuel + 1, s =>
    match skipSpace s with
    | '"' :: r => do
      let (name, r) ← readString r
      match skipSpace r with
      | ':' :: r =>
        let (v, r) ← readValue fuel r
        let member := (name.map String.ofList, v)
        match skipSpace r with
        | ',' :: r =>
          let (ms, r) ← readMembers fuel r
          return (member :: ms, r)
        | '}' :: r => return ([member], r)
        | _ => none
      | _ => none
    | _ => none

end

/-- The value that a document holds. The fuel covers two calls for every character. -/
def parse? (text : String) : Option Json := do
  let s := text.toList
  let (v, r) ← readValue (2 * s.length + 2) s
  if (skipSpace r).isEmpty then some v else none

end SchemaMigration.Json
