import SchemaMigration.Text.Ascii
import SchemaMigration.Text.Quoted

/-!
# Tokens of SQL

The words, quoted names, literals, parameters and symbols of a statement, each with the text it was read from. White
space and comments stand for nothing. A character or an unfinished quotation that is no token is kept as a bad one,
since it matters only when it is reached.
-/

namespace SchemaMigration.Store

/-- A token. -/
inductive Token where
  /-- A keyword or a plain name. -/
  | word
  /-- A name between quotes; one in double quotes may turn out to be a text. -/
  | name (value : String) (inDoubleQuotes : Bool)
  | text (value : String)
  | blob (octets : List UInt8)
  | number
  /-- A `?`. -/
  | parameter
  /-- A parameter with a name, the mark in front included. -/
  | named
  | symbol
  | bad
  deriving Repr, DecidableEq

/-- A token and the text it was read from. -/
structure Lexeme where
  token : Token
  raw : String
  deriving Repr, DecidableEq

namespace Token

def isSpace (c : Char) : Bool :=
  c == ' ' || c == '\t' || c == '\n' || c == '\r' || c.toNat == 12

/-- A character that a word may start with. -/
def isWordStart (c : Char) : Bool :=
  Text.isLetter c || c == '_' || 128 ≤ c.toNat

def isWordChar (c : Char) : Bool :=
  isWordStart c || Text.isDigit c || c == '$'

/-- What stands in front of the quote that closes a quotation, where a doubled quote stands for one, and what follows
it. -/
def quotation? (q : Char) : List Char → Option (List Char × List Char)
  | [] => none
  | [c] => if c == q then some ([], []) else none
  | c :: d :: r =>
    if c == q then
      if d == q then (quotation? q r).map fun (inside, rest) => (q :: inside, rest)
      else some ([], d :: r)
    else (quotation? q (d :: r)).map fun (inside, rest) => (c :: inside, rest)

/-- What follows a comment that is closed by a star and a slash, or by the end of the text. -/
def afterComment : List Char → List Char
  | '*' :: '/' :: r => r
  | _ :: r => afterComment r
  | [] => []

/-- The octets that hexadecimal digits spell in pairs. -/
def octets? : List Char → Option (List UInt8)
  | [] => some []
  | a :: b :: r => do
    let n ← Text.hexNumber? [a, b]
    return UInt8.ofNat n :: (← octets? r)
  | [_] => none

/-- The characters of a number in front of a text that starts with a digit, or a point and a digit. -/
def numberChars (s : List Char) : List Char :=
  let whole := s.takeWhile Text.isDigit
  let r := s.drop whole.length
  let fraction := match r with
    | '.' :: r => '.' :: r.takeWhile Text.isDigit
    | _ => []
  let r := r.drop fraction.length
  let exponent := match r with
    | e :: r =>
      if e == 'e' || e == 'E' then
        let sign := match r with
          | c :: _ => if c == '+' || c == '-' then [c] else []
          | [] => []
        let digits := (r.drop sign.length).takeWhile Text.isDigit
        if digits.isEmpty then [] else e :: sign ++ digits
      else []
    | [] => []
  whole ++ fraction ++ exponent

/-- How many characters the symbol in front of a text has. -/
def symbolLength : List Char → Nat
  | '=' :: '=' :: _ | '<' :: '=' :: _ | '<' :: '>' :: _ | '<' :: '<' :: _ | '>' :: '=' :: _ | '>' :: '>' :: _
  | '!' :: '=' :: _ | '|' :: '|' :: _ => 2
  | c :: _ => if "()+*/%=<>|,&~;.-".toList.contains c then 1 else 0
  | [] => 0

/-- The quotation that a text starts with, as a token and what follows it. -/
def quoted (q : Char) (make : String → Token) (r : List Char) : Token × List Char :=
  match quotation? q r with
  | some (inside, rest) => (make (String.ofList inside), rest)
  | none => (.bad, [])

/-- The token that starts with the character `c`, and what follows it. -/
def first (c : Char) (r : List Char) : Token × List Char :=
  if c == '\'' then quoted c .text r
  else if c == '"' then quoted c (.name · true) r
  else if c == Text.backtick then quoted c (.name · false) r
  else if c == '[' then
    let inside := r.takeWhile (· != ']')
    if inside.length == r.length then (.bad, []) else (.name (String.ofList inside) false, r.drop (inside.length + 1))
  else if (c == 'x' || c == 'X') && r.head? == some '\'' then
    let inside := (r.drop 1).takeWhile (· != '\'')
    let rest := r.drop (inside.length + 2)
    match octets? inside, (r.drop (inside.length + 1)).isEmpty with
    | some octets, false => (.blob octets, rest)
    | _, _ => (.bad, rest)
  else if isWordStart c then (.word, r.dropWhile isWordChar)
  else if Text.isDigit c || (c == '.' && r.head?.any Text.isDigit) then
    let rest := (c :: r).drop (numberChars (c :: r)).length
    -- a number that runs into a word is none
    if rest.head?.any isWordChar then (.bad, rest.dropWhile isWordChar) else (.number, rest)
  else if c == '?' then
    let digits := r.takeWhile Text.isDigit
    (if digits.isEmpty then .parameter else .named, r.drop digits.length)
  else if c == ':' || c == '@' || c == '$' || c == '#' then
    let rest := r.dropWhile isWordChar
    (if rest.length == r.length then .bad else .named, rest)
  else
    match symbolLength (c :: r) with
    | 0 => (.bad, r)
    | n => (.symbol, (c :: r).drop n)

/-- The tokens of a text of at most `fuel` characters. -/
def scanFrom : Nat → List Char → List Lexeme
  | 0, _ | _, [] => []
  | fuel + 1, c :: r =>
    match c, r with
    | '-', '-' :: r => scanFrom fuel (r.dropWhile (· != '\n'))
    | '/', '*' :: r => scanFrom fuel (afterComment r)
    | c, r =>
      if isSpace c then scanFrom fuel r
      else
        let (token, rest) := first c r
        let raw := (c :: r).take (r.length + 1 - rest.length)
        { token, raw := String.ofList raw } :: scanFrom fuel rest

/-- The tokens of a text. -/
def scan (sql : String) : List Lexeme :=
  scanFrom sql.length sql.toList

end Token

end SchemaMigration.Store
