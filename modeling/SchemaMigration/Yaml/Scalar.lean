import SchemaMigration.Yaml.Cursor

/-!
# Scalars of a YAML document

The text of a scalar in each of its five styles, read off the document one character at a time. A single line break
inside a flow scalar is folded into a space, and of several the first is dropped (`Fold.text`); block scalars fold or
keep their breaks as their header says.
-/

namespace SchemaMigration.Yaml

/-- The blanks and line breaks since the last character of a flow scalar, all reversed. -/
structure Fold where
  /-- Blanks before any line break. -/
  blanks : List Char := []
  /-- A line break was passed, written or escaped. -/
  broken : Bool := false
  /-- The first line break, if it was written out. -/
  first : Option Char := none
  /-- The line breaks after the first. -/
  more : List Char := []

namespace Fold

/-- What the blanks and breaks come to in the text, reversed. -/
def text (f : Fold) : List Char :=
  if f.broken then
    match f.first with
    | none => f.more
    | some c => if c == '\n' then if f.more.isEmpty then [' '] else f.more else f.more ++ [c]
  else f.blanks

/-- One more blank; after a line break it does not count. -/
def blank (f : Fold) (c : Char) : Fold :=
  if f.broken then f else { f with blanks := c :: f.blanks }

/-- One more line break. -/
def lineBreak (f : Fold) (c : Char) : Fold :=
  if f.broken then { f with more := breakText c :: f.more }
  else { blanks := [], broken := true, first := some (breakText c), more := [] }

end Fold

/-- A scalar that was read: its text, what follows, and whether blanks after its last character ran over a line
break. -/
structure ScalarRead where
  text : List Char
  next : Cursor
  broken : Bool := false

/-! ## Plain scalars -/

/-- The end of a plain scalar before `c`: a colon with a blank after it or, in a flow collection, one of its
indicators. -/
def endsPlain (inFlow : Bool) (c : Char) (r : List Char) : Bool :=
  (c == ':' && startsBlankOrEnd r) ||
    (inFlow && (c == ',' || c == '[' || c == ']' || c == '{' || c == '}'))

/-- In a flow collection, a colon right before an indicator. -/
def isStrayColon (inFlow : Bool) (c : Char) (r : List Char) : Bool :=
  inFlow && c == ':' &&
    match r with
    | d :: _ => d == ',' || d == '?' || d == '[' || d == ']' || d == '{' || d == '}'
    | [] => false

/-- A plain scalar. `indent` is the least column of its further lines outside flow collections, `acc` its text so far
reversed, `afterBlank` says that `f` holds blanks or breaks. -/
def readPlain (inFlow : Bool) (indent : Nat) (acc : List Char) (f : Fold) (afterBlank : Bool) (p : Position) :
    List Char → Option ScalarRead
  | [] => some ⟨acc.reverse, ⟨[], p⟩, f.broken⟩
  | '\r' :: '\n' :: r => readPlain inFlow indent acc (f.lineBreak '\n') true (p.newLine 2) r
  | c :: r =>
    if isBlank c then
      if f.broken && p.column < indent && c == '\t' then none
      else readPlain inFlow indent acc (f.blank c) true (p.advance 1) r
    else if isBreak c then readPlain inFlow indent acc (f.lineBreak c) true (p.newLine 1) r
    else
      let stop := some ⟨acc.reverse, ⟨c :: r, p⟩, f.broken⟩
      if afterBlank && ((!inFlow && p.column < indent) || c == '#' ||
          (p.column == 0 && startsDocumentMark (c :: r))) then stop
      else if isStrayColon inFlow c r then none
      else if endsPlain inFlow c r then stop
      else readPlain inFlow indent (c :: (f.text ++ acc)) {} false (p.advance 1) r

/-! ## Quoted scalars -/

/-- The document marks may not start a line of a quoted scalar. -/
def isUnexpectedMark (atLineStart : Bool) (p : Position) (s : List Char) : Bool :=
  atLineStart && p.column == 0 && startsDocumentMark s

/-- A single-quoted scalar after its opening quote. -/
def readSingle (acc : List Char) (f : Fold) (afterBlank : Bool) (p : Position) : List Char → Option ScalarRead
  | [] => none
  | '\r' :: '\n' :: r => readSingle acc (f.lineBreak '\n') true (p.newLine 2) r
  | '\'' :: '\'' :: r => readSingle ('\'' :: (f.text ++ acc)) {} false (p.advance 2) r
  | c :: r =>
    if isBlank c then readSingle acc (f.blank c) true (p.advance 1) r
    else if isBreak c then readSingle acc (f.lineBreak c) true (p.newLine 1) r
    else if c == '\'' then some ⟨(f.text ++ acc).reverse, ⟨r, p.advance 1⟩, false⟩
    else if isUnexpectedMark afterBlank p (c :: r) then none
    else readSingle (c :: (f.text ++ acc)) {} false (p.advance 1) r

/-- The character that a backslash and one letter stand for. -/
def escapeChar? (c : Char) : Option Char :=
  match c with
  | '0' => some (Char.ofNat 0)
  | 'a' => some (Char.ofNat 7)
  | 'b' => some (Char.ofNat 8)
  | 't' | '\t' => some '\t'
  | 'n' => some '\n'
  | 'v' => some (Char.ofNat 11)
  | 'f' => some (Char.ofNat 12)
  | 'r' => some '\r'
  | 'e' => some (Char.ofNat 27)
  | ' ' => some ' '
  | '"' => some '"'
  | '/' => some '/'
  | '\\' => some '\\'
  | 'N' => some '\u0085'
  | '_' => some '\u00A0'
  | 'L' => some '\u2028'
  | 'P' => some '\u2029'
  | _ => none

/-- The character with the code point that hexadecimal digits spell. -/
def codePoint? (digits : List Char) : Option Char :=
  (Text.hexNumber? digits).bind fun n =>
    if h : n.isValidChar then some (Char.ofNatAux n h) else none

/-- A double-quoted scalar after its opening quote. -/
def readDouble (acc : List Char) (f : Fold) (afterBlank : Bool) (p : Position) : List Char → Option ScalarRead
  | [] => none
  | '\r' :: '\n' :: r => readDouble acc (f.lineBreak '\n') true (p.newLine 2) r
  | '\\' :: '\r' :: '\n' :: r => readDouble (f.text ++ acc) { broken := true } true (p.newLine 3) r
  | '\\' :: 'x' :: a :: b :: r =>
    match codePoint? [a, b] with
    | some c => readDouble (c :: (f.text ++ acc)) {} false (p.advance 4) r
    | none => none
  | '\\' :: 'u' :: a :: b :: c :: d :: r =>
    match codePoint? [a, b, c, d] with
    | some c => readDouble (c :: (f.text ++ acc)) {} false (p.advance 6) r
    | none => none
  | '\\' :: 'U' :: a :: b :: c :: d :: e :: g :: h :: i :: r =>
    match codePoint? [a, b, c, d, e, g, h, i] with
    | some c => readDouble (c :: (f.text ++ acc)) {} false (p.advance 10) r
    | none => none
  | '\\' :: c :: r =>
    if isBreak c then readDouble (f.text ++ acc) { broken := true } true (p.newLine 2) r
    else
      match escapeChar? c with
      | some d => readDouble (d :: (f.text ++ acc)) {} false (p.advance 2) r
      | none => none
  | c :: r =>
    if isBlank c then readDouble acc (f.blank c) true (p.advance 1) r
    else if isBreak c then readDouble acc (f.lineBreak c) true (p.newLine 1) r
    else if c == '"' then some ⟨(f.text ++ acc).reverse, ⟨r, p.advance 1⟩, false⟩
    else if c == '\\' || isUnexpectedMark afterBlank p (c :: r) then none
    else readDouble (c :: (f.text ++ acc)) {} false (p.advance 1) r

/-! ## Block scalars -/

/-- What happens to the line breaks at the end of a block scalar: none is kept, one, or all. -/
inductive Chomping where
  | strip | clip | keep
  deriving Repr, DecidableEq

/-- The header of a block scalar: its chomping, and its indentation if that is given. -/
structure BlockHeader where
  chomping : Chomping := .clip
  increment : Option Nat := none

/-- The chomping that an indicator asks for. -/
def chomping? (c : Char) : Option Chomping :=
  if c == '+' then some .keep else if c == '-' then some .strip else none

/-- The indentation that an indicator asks for: one digit, not zero. -/
def increment? (c : Char) : Option Nat :=
  if '1' ≤ c && c ≤ '9' then some (c.toNat - 48) else none

/-- The indicators after `|` or `>`, in either order; a zero is none. -/
def readBlockHeader (s : List Char) : Option (BlockHeader × List Char) :=
  match s with
  | '0' :: _ => none
  | c :: r =>
    match chomping? c with
    | some chomping =>
      match r with
      | '0' :: _ => none
      | d :: r' =>
        match increment? d with
        | some n => some (⟨chomping, some n⟩, r')
        | none => some (⟨chomping, none⟩, r)
      | [] => some (⟨chomping, none⟩, [])
    | none =>
      match increment? c with
      | some n =>
        match r with
        | d :: r' =>
          match chomping? d with
          | some chomping => some (⟨chomping, some n⟩, r')
          | none => some (⟨.clip, some n⟩, r)
        | [] => some (⟨.clip, some n⟩, [])
      | none => some ({}, s)
  | [] => some ({}, [])

/-- A block scalar while it is read: all texts reversed. -/
structure Block where
  literal : Bool
  chomping : Chomping
  /-- The column its lines start at, once that is known. -/
  indent : Option Nat
  /-- The least column they may start at. -/
  least : Nat
  /-- The widest margin so far. -/
  widest : Nat := 0
  text : List Char := []
  /-- The break after the last line. -/
  first : Option Char := none
  /-- The breaks after that one. -/
  more : List Char := []
  /-- The last line started with a blank. -/
  blankLine : Bool := false
  /-- Inside a line, and not in the margin before it. -/
  inLine : Bool := false

namespace Block

/-- The text with the breaks before a line that starts with `c`: folded between two lines that do not start with a
blank. -/
def startLine (b : Block) (c : Char) (indent : Nat) : Block :=
  let joined :=
    if !b.literal && b.first == some '\n' && !b.blankLine && !isBlank c then
      if b.more.isEmpty then ' ' :: b.text else b.more ++ b.text
    else b.more ++ (b.first.toList ++ b.text)
  { b with
    indent := some indent, text := c :: joined, first := none, more := [], blankLine := isBlank c, inLine := true }

/-- The whole text. -/
def finish (b : Block) : List Char :=
  let text := if b.chomping == .strip then b.text else b.first.toList ++ b.text
  (if b.chomping == .keep then b.more ++ text else text).reverse

/-- A column in the margin of the lines. -/
def isMargin (b : Block) (column : Nat) : Bool :=
  match b.indent with
  | none => true
  | some n => column < n

/-- A line break in the line or in the margin. -/
def lineBreak (b : Block) (c : Char) (column : Nat) : Block :=
  if b.inLine then { b with first := some (breakText c), inLine := false }
  else { b with more := breakText c :: b.more, widest := max b.widest column }

end Block

/-- A block scalar after the line of its header. -/
def readBlock (b : Block) (p : Position) : List Char → Option ScalarRead
  | [] => some ⟨b.finish, ⟨[], p⟩, false⟩
  | '\r' :: '\n' :: r => readBlock (b.lineBreak '\n' p.column) (p.newLine 2) r
  | c :: r =>
    if isBreak c then readBlock (b.lineBreak c p.column) (p.newLine 1) r
    else if b.inLine then readBlock { b with text := c :: b.text } (p.advance 1) r
    else if b.isMargin p.column && c == ' ' then readBlock b (p.advance 1) r
    else if b.isMargin p.column && c == '\t' then none
    else
      let indent := b.indent.getD (max (max b.widest p.column) b.least)
      if p.column == indent then readBlock (b.startLine c indent) (p.advance 1) r
      else some ⟨b.finish, ⟨c :: r, p⟩, false⟩

/-- A block scalar after its `|` or `>`. `parent` is one more than the indentation of the collection around it. -/
def readBlockScalar (literal : Bool) (parent : Nat) (c : Cursor) : Option ScalarRead := do
  let (header, r) ← readBlockHeader c.rest
  let c := (c.advance (c.rest.length - r.length)).skipWhile isBlank
  let c := c.skipComment
  if !startsBreakOrEnd c.rest then none
  else
    let c := c.skipBreak?.getD c
    let indent := header.increment.map fun n => (parent - 1) + n
    readBlock { literal, chomping := header.chomping, indent, least := max parent 1 } c.position c.rest

end SchemaMigration.Yaml
