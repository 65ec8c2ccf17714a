import SchemaMigration.Yaml.Scalar

/-!
# Tokens of a YAML document

A document as a list of tokens: indicators, scalars, and the start and end of block collections, which indentation alone
shows. A key that is not marked by `?` is known as a key only once its `:` is reached; the scanner keeps the place where
it may have started (`SimpleKey`) and puts the key's token there afterwards.
-/

namespace SchemaMigration.Yaml

/-- How a scalar was written, as far as its meaning hangs on it. -/
inductive ScalarStyle where
  | plain | quoted
  deriving Repr, DecidableEq

/-- A token. -/
inductive Token where
  | versionDirective (major minor : Nat)
  | tagDirective (handle tagPrefix : List Char)
  | documentStart
  | documentEnd
  | streamEnd
  | blockSequenceStart
  | blockMappingStart
  | blockEnd
  | flowSequenceStart
  | flowSequenceEnd
  | flowMappingStart
  | flowMappingEnd
  | blockEntry
  | flowEntry
  | key
  | value
  | alias (name : List Char)
  | anchor (name : List Char)
  /-- A tag with the handle in front of its suffix; a verbatim tag has none. -/
  | tag (handle suffix : List Char)
  | scalar (text : List Char) (style : ScalarStyle)
  deriving Repr, DecidableEq

namespace Token

/-- A place where a key may have started: the number of tokens before it, and its position. A required one stands where
a block mapping expects a key. -/
structure SimpleKey where
  tokens : Nat
  position : Position
  required : Bool
  deriving Repr

/-- The scanner between two tokens. -/
structure Scanner where
  cursor : Cursor
  /-- The tokens so far, reversed. -/
  tokens : List Token := []
  count : Nat := 0
  /-- The columns of the open block collections, the innermost first. -/
  indents : List Nat := []
  /-- The possible key of each open flow collection, the innermost first, and last the one outside. -/
  keys : List (Option SimpleKey) := [none]
  /-- A key may start here. -/
  keyAllowed : Bool := true
  deriving Repr

namespace Scanner

/-- How many flow collections are open. -/
def flowLevel (s : Scanner) : Nat :=
  s.keys.length - 1

/-- Outside flow collections. -/
def inBlock (s : Scanner) : Bool :=
  s.flowLevel == 0

/-- One more than the column of the innermost block collection; zero outside all of them. -/
def indent (s : Scanner) : Nat :=
  match s.indents with
  | [] => 0
  | n :: _ => n + 1

def push (s : Scanner) (t : Token) : Scanner :=
  { s with tokens := t :: s.tokens, count := s.count + 1 }

/-- A token put in after the first `n` ones. -/
def insert (s : Scanner) (n : Nat) (t : Token) : Scanner :=
  let after := s.count - n
  { s with tokens := s.tokens.take after ++ t :: s.tokens.drop after, count := s.count + 1 }

/-- The possible key of the innermost flow collection. -/
def simpleKey (s : Scanner) : Option SimpleKey :=
  s.keys.head?.join

def setKey (s : Scanner) (start : Option SimpleKey) : Scanner :=
  { s with keys := start :: s.keys.tail }

/-- No key starts at the remembered place any more; fails if one had to. -/
def dropKey (s : Scanner) : Option Scanner :=
  match s.simpleKey with
  | some start => if start.required then none else some (s.setKey none)
  | none => some (s.setKey none)

/-- Remembers that a key may start here. -/
def saveKey (s : Scanner) : Option Scanner :=
  if s.keyAllowed then do
    let required := s.inBlock && s.indent == s.cursor.position.column + 1
    let s ← s.dropKey
    return s.setKey (some ⟨s.count, s.cursor.position, required⟩)
  else some s

/-- A key stands in one line and is at most 1024 characters long. -/
def isStale (p : Position) (start : SimpleKey) : Bool :=
  start.position.line < p.line || start.position.index + 1024 < p.index

/-- Forgets the keys that can no longer be; fails if one of them had to be a key. -/
def dropStaleKeys (s : Scanner) : Option Scanner :=
  let stale (start : Option SimpleKey) : Bool := start.any (isStale s.cursor.position)
  if s.keys.any fun start => stale start && start.any SimpleKey.required then none
  else some { s with keys := s.keys.map fun start => if stale start then none else start }

/-- Closes the open block collections from the given list that start right of `column`; all of them if `column` is
`none`. -/
def closeBlocks (column : Option Nat) (s : Scanner) : List Nat → Scanner
  | [] => { s with indents := [] }
  | n :: ns =>
    if column.all (· < n) then closeBlocks column (s.push .blockEnd) ns else { s with indents := n :: ns }

/-- Closes the open block collections right of `column`, if that is not inside a flow collection. -/
def unroll (s : Scanner) (column : Option Nat) : Scanner :=
  if s.inBlock then s.closeBlocks column s.indents else s

/-- Opens a block collection at `column` after the first `n` tokens, unless one is open there. -/
def roll (s : Scanner) (column n : Nat) (t : Token) : Scanner :=
  if s.inBlock && s.indent ≤ column then { s.insert n t with indents := column :: s.indents } else s

/-- The blanks in front of a token. A tab may not stand where a key may start. -/
def skipBlanks (s : Scanner) : Scanner :=
  { s with cursor := s.cursor.skipWhile fun c => c == ' ' || ((!s.inBlock || !s.keyAllowed) && c == '\t') }

/-- A byte order mark at the start of a line. -/
def skipMark (s : Scanner) : Scanner :=
  match s.cursor.rest with
  | '\uFEFF' :: _ => if s.cursor.position.column == 0 then { s with cursor := s.cursor.advance 1 } else s
  | _ => s

/-- What stands in front of the next token: blanks, comments and line breaks, of which at most `fuel` are passed. A new
line outside flow collections may start with a key. -/
def skipToToken : Nat → Scanner → Scanner
  | 0, s => s
  | fuel + 1, s =>
    let s := s.skipMark.skipBlanks
    let cursor := s.cursor.skipComment
    match cursor.skipBreak? with
    | some next => skipToToken fuel { s with cursor := next, keyAllowed := s.keyAllowed || s.inBlock }
    | none => { s with cursor }

/-! ## One token -/

/-- A token of `n` characters. -/
def pushIndicator (s : Scanner) (n : Nat) (t : Token) : Scanner :=
  { s with cursor := s.cursor.advance n }.push t

/-- The end of the document's text. -/
def fetchEnd (s : Scanner) : Option Scanner := do
  let s ← (s.unroll none).dropKey
  return { s with keyAllowed := false }.push .streamEnd

/-- `---` or `...`. -/
def fetchDocumentMark (s : Scanner) (t : Token) : Option Scanner := do
  let s ← (s.unroll none).dropKey
  return { s with keyAllowed := false }.pushIndicator 3 t

/-- `[` or a brace that opens. -/
def fetchFlowStart (s : Scanner) (t : Token) : Option Scanner := do
  let s ← s.saveKey
  return { s with keys := none :: s.keys, keyAllowed := true }.pushIndicator 1 t

/-- `]` or a brace that closes. -/
def fetchFlowEnd (s : Scanner) (t : Token) : Option Scanner := do
  let s ← s.dropKey
  let keys := if s.keys.length ≤ 1 then s.keys else s.keys.tail
  return { s with keys, keyAllowed := false }.pushIndicator 1 t

/-- `,`. -/
def fetchFlowEntry (s : Scanner) : Option Scanner := do
  let s ← s.dropKey
  return { s with keyAllowed := true }.pushIndicator 1 .flowEntry

/-- `-` before an entry of a block sequence. -/
def fetchBlockEntry (s : Scanner) : Option Scanner :=
  if s.inBlock && !s.keyAllowed then none
  else do
    let s ← (s.roll s.cursor.position.column s.count .blockSequenceStart).dropKey
    return { s with keyAllowed := true }.pushIndicator 1 .blockEntry

/-- `?` before a key. -/
def fetchKey (s : Scanner) : Option Scanner :=
  if s.inBlock && !s.keyAllowed then none
  else do
    let s ← (s.roll s.cursor.position.column s.count .blockMappingStart).dropKey
    return { s with keyAllowed := s.inBlock }.pushIndicator 1 .key

/-- `:` before a value. The tokens since the remembered place are its key; without one the key is marked or missing. -/
def fetchValue (s : Scanner) : Option Scanner :=
  match s.simpleKey with
  | some start =>
    let s := (s.insert start.tokens .key).roll start.position.column start.tokens .blockMappingStart
    some ({ s.setKey none with keyAllowed := false }.pushIndicator 1 .value)
  | none =>
    if s.inBlock && !s.keyAllowed then none
    else
      let s := s.roll s.cursor.position.column s.count .blockMappingStart
      some ({ s with keyAllowed := s.inBlock }.pushIndicator 1 .value)

/-- What may follow the name of an anchor or alias. -/
def endsAnchor : List Char → Bool
  | [] => true
  | c :: _ => isBlank c || isBreak c || c == '?' || c == ':' || c == ',' || c == ']' || c == '\x7d' || c == '%' ||
      c == '@' || c == '\x60'

/-- `*` or `&` and a name. -/
def fetchAnchor (s : Scanner) (t : List Char → Token) : Option Scanner := do
  let s ← s.saveKey
  let name := (s.cursor.rest.drop 1).takeWhile isWordChar
  let cursor := s.cursor.advance (name.length + 1)
  if name.isEmpty || !endsAnchor cursor.rest then none
  else some ({ s with cursor, keyAllowed := false }.push (t name))

/-- A character of a tag; the last three only in a verbatim one. -/
def isTagChar (verbatim : Bool) (c : Char) : Bool :=
  isWordChar c || c == ';' || c == '/' || c == '?' || c == ':' || c == '@' || c == '&' || c == '=' || c == '+' ||
    c == '$' || c == '.' || c == '%' || c == '!' || c == '~' || c == '*' || c == '\'' || c == '(' || c == ')' ||
    (verbatim && (c == ',' || c == '[' || c == ']'))

/-- The octet that two hexadecimal digits after a percent sign spell. -/
def percentOctet? : List Char → Option (Nat × List Char)
  | '%' :: a :: b :: r => (Text.hexNumber? [a, b]).map fun n => (n, r)
  | _ => none

/-- The octets after the first one of a character, `n` of them. -/
def percentTail : Nat → Nat → List Char → Option (Nat × List Char)
  | 0, bits, r => some (bits, r)
  | n + 1, bits, r => do
    let (octet, r) ← percentOctet? r
    if octet / 64 == 2 then percentTail n (bits * 64 + octet % 64) r else none

/-- A character written as octets after percent signs. -/
def percentChar? (s : List Char) : Option (Char × List Char) := do
  let (octet, r) ← percentOctet? s
  let (bits, r) ←
    if octet < 0x80 then some (octet, r)
    else if octet / 32 == 6 then percentTail 1 (octet % 32) r
    else if octet / 16 == 14 then percentTail 2 (octet % 16) r
    else if octet / 8 == 30 then percentTail 3 (octet % 8) r
    else none
  return (Char.ofNat bits, r)

/-- The characters of a tag in front of a text, with those behind percent signs decoded; one call a character. -/
def readTagText (verbatim : Bool) : Nat → List Char → Option (List Char × List Char)
  | 0, s => some ([], s)
  | fuel + 1, s =>
    match s with
    | [] => some ([], [])
    | c :: r =>
      if c == '%' then do
        let (d, r) ← percentChar? s
        let (text, r) ← readTagText verbatim fuel r
        return (d :: text, r)
      else if isTagChar verbatim c then do
        let (text, r) ← readTagText verbatim fuel r
        return (c :: text, r)
      else some ([], s)

/-- A tag handle in front of a text: `!`, `!!` or `!name!`; or the start of a tag without one. -/
def readHandle (s : List Char) : List Char × List Char :=
  let r := s.drop 1
  let name := r.takeWhile isWordChar
  match r.dropWhile isWordChar with
  | '!' :: r => ('!' :: (name ++ ['!']), r)
  | r => ('!' :: name, r)

/-- A tag in front of a text: its handle, its suffix and what follows. -/
def readTag (s : List Char) : Option (List Char × List Char × List Char) :=
  match s with
  | '!' :: '<' :: r => do
    let (text, r) ← readTagText true r.length r
    match r with
    | '>' :: r => if text.isEmpty then none else some ([], text, r)
    | _ => none
  | s => do
    let (handle, r) := readHandle s
    let (text, r) ← readTagText false r.length r
    if 2 ≤ handle.length && handle.getLast? == some '!' then
      if text.isEmpty then none else some (handle, text, r)
    else
      let suffix := handle.drop 1 ++ text
      if suffix.isEmpty then some ([], ['!'], r) else some (['!'], suffix, r)

/-- `!` and a tag. -/
def fetchTag (s : Scanner) : Option Scanner := do
  let s ← s.saveKey
  let (handle, suffix, r) ← readTag s.cursor.rest
  let cursor := s.cursor.advance (s.cursor.rest.length - r.length)
  if startsBlankOrEnd r || (!s.inBlock && r.head? == some ',') then
    some ({ s with cursor, keyAllowed := false }.push (.tag handle suffix))
  else none

/-- A number of a version: one to nine digits. -/
def readVersionNumber (s : List Char) : Option (Nat × List Char) :=
  let digits := s.takeWhile Text.isDigit
  if digits.isEmpty || 9 < digits.length then none
  else some (Text.decimalValue 0 digits, s.dropWhile Text.isDigit)

/-- The version that a directive names. -/
def readVersion (s : List Char) : Option (Token × List Char) := do
  let (major, r) ← readVersionNumber (s.dropWhile isBlank)
  match r with
  | '.' :: r =>
    let (minor, r) ← readVersionNumber r
    return (.versionDirective major minor, r)
  | _ => none

/-- The handle and the prefix that a directive names. -/
def readTagDirective (s : List Char) : Option (Token × List Char) := do
  let s := s.dropWhile isBlank
  if s.head? != some '!' then none
  else
    let (handle, r) := readHandle s
    if handle.length != 1 && handle.getLast? != some '!' then none
    else if !r.head?.any isBlank then none
    else
      let r := r.dropWhile isBlank
      let (text, r) ← readTagText true r.length r
      if text.isEmpty || !startsBlankOrEnd r then none else some (.tagDirective handle text, r)

/-- `%` and a directive, to the end of its line. -/
def fetchDirective (s : Scanner) : Option Scanner := do
  let s ← (s.unroll none).dropKey
  let s := { s with keyAllowed := false }
  let r := s.cursor.rest.drop 1
  let name := r.takeWhile isWordChar
  let r := r.dropWhile isWordChar
  if name.isEmpty || !startsBlankOrEnd r then none
  else
    let (t, r) ←
      if name == "YAML".toList then readVersion r
      else if name == "TAG".toList then readTagDirective r
      else none
    let cursor := (s.cursor.advance (s.cursor.rest.length - r.length)).skipWhile isBlank
    let cursor := cursor.skipComment
    if startsBreakOrEnd cursor.rest then
      some ({ s with cursor := cursor.skipBreak?.getD cursor }.push t)
    else none

/-- `|` or `>` and a block scalar. -/
def fetchBlockScalar (s : Scanner) (literal : Bool) : Option Scanner := do
  let s ← s.dropKey
  let scalar ← readBlockScalar literal s.indent (s.cursor.advance 1)
  return { s with cursor := scalar.next, keyAllowed := true }.push (.scalar scalar.text .quoted)

/-- A quote and a quoted scalar. -/
def fetchQuoted (s : Scanner)
    (read : List Char → Fold → Bool → Position → List Char → Option ScalarRead) : Option Scanner := do
  let s ← s.saveKey
  let scalar ← read [] {} false (s.cursor.position.advance 1) (s.cursor.rest.drop 1)
  return { s with cursor := scalar.next, keyAllowed := false }.push (.scalar scalar.text .quoted)

/-- A plain scalar. -/
def fetchPlain (s : Scanner) : Option Scanner := do
  let s ← s.saveKey
  let scalar ← readPlain (!s.inBlock) s.indent [] {} false s.cursor.position s.cursor.rest
  return { s with cursor := scalar.next, keyAllowed := scalar.broken }.push (.scalar scalar.text .plain)

/-- Characters that start no plain scalar. -/
def isIndicator (c : Char) : Bool :=
  c == '-' || c == '?' || c == ':' || c == ',' || c == '[' || c == ']' || c == '\x7b' || c == '\x7d' || c == '#' ||
    c == '&' || c == '*' || c == '!' || c == '|' || c == '>' || c == '\'' || c == '"' || c == '%' || c == '@' ||
    c == '\x60'

/-- A plain scalar may start here; with `-`, `?` or `:` only if no blank follows, and with the latter two only outside
flow collections. -/
def startsPlain (s : Scanner) (c : Char) (r : List Char) : Bool :=
  !(isBlank c || isBreak c || isIndicator c) || (c == '-' && !r.head?.any isBlank) ||
    (s.inBlock && (c == '?' || c == ':') && !startsBlankOrEnd r)

/-- The token at the cursor. -/
def fetch (s : Scanner) : Option Scanner :=
  match s.cursor.rest with
  | [] => s.fetchEnd
  | c :: r =>
    let atLineStart := s.cursor.position.column == 0
    if atLineStart && c == '%' then s.fetchDirective
    else if atLineStart && startsDocumentMark (c :: r) then
      s.fetchDocumentMark (if c == '-' then .documentStart else .documentEnd)
    else if c == '[' then s.fetchFlowStart .flowSequenceStart
    else if c == '\x7b' then s.fetchFlowStart .flowMappingStart
    else if c == ']' then s.fetchFlowEnd .flowSequenceEnd
    else if c == '\x7d' then s.fetchFlowEnd .flowMappingEnd
    else if c == ',' then s.fetchFlowEntry
    else if c == '-' && startsBlankOrEnd r then s.fetchBlockEntry
    else if c == '?' && (!s.inBlock || startsBlankOrEnd r) then s.fetchKey
    else if c == ':' && (!s.inBlock || startsBlankOrEnd r) then s.fetchValue
    else if c == '*' then s.fetchAnchor .alias
    else if c == '&' then s.fetchAnchor .anchor
    else if c == '!' then s.fetchTag
    else if c == '|' && s.inBlock then s.fetchBlockScalar true
    else if c == '>' && s.inBlock then s.fetchBlockScalar false
    else if c == '\'' then s.fetchQuoted readSingle
    else if c == '"' then s.fetchQuoted readDouble
    else if s.startsPlain c r then s.fetchPlain
    else none

/-- All tokens to the end of the text; one call a token. -/
def run : Nat → Scanner → Option (List Token)
  | 0, _ => none
  | fuel + 1, s => do
    let s ← (s.skipToToken (s.cursor.rest.length + 1)).dropStaleKeys
    let s ← (s.unroll (some s.cursor.position.column)).fetch
    if s.tokens.head? == some .streamEnd then some s.tokens.reverse else run fuel s

end Scanner

/-- The tokens of a document, if it can be read as tokens. A byte order mark in front does not count. -/
def scan? (text : List Char) : Option (List Token) :=
  let text := match text with
    | '\uFEFF' :: r => r
    | r => r
  if text.all isPrintable then Scanner.run (text.length + 2) { cursor := { rest := text } } else none

end Token

end SchemaMigration.Yaml
