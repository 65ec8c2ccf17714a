import SchemaMigration.Text.Ascii
import SchemaMigration.Text.Quoted

/-!
# Placeholders

Where a statement has placeholders: a `?`, or a name after a single colon, outside quotes. Single, double and backtick
quotes open a region that ends at the next such quote; in single and double quotes a backslash takes the next character
with it. The scanner reads one character at a time (`Scanner.step`) and gives each placeholder, and each character that
belongs to none, as a piece of its own; `substitute` replaces placeholders from left to right.
-/

namespace SchemaMigration

/-- A placeholder of a statement: the n-th `?`, counted from zero, or a name. -/
inductive Placeholder where
  | positional (index : Nat)
  | named (name : List Char)
  deriving Repr, DecidableEq

namespace Placeholder

/-- A character that opens and closes a quoted region. -/
def isQuote (c : Char) : Bool :=
  c == '\'' || c == '"' || c == Text.backtick

/-- A character that a name may start with. -/
def isNameStart (c : Char) : Bool :=
  Text.isLetter c || c == '_'

/-- A character that may stand in a name. -/
def isNameChar (c : Char) : Bool :=
  Text.isLetter c || Text.isDigit c || c == '_'

/-- A piece of a statement. -/
inductive Piece where
  /-- A character that belongs to no placeholder. -/
  | char (c : Char)
  /-- A `?`. -/
  | question
  /-- A colon and a name. -/
  | name (name : List Char)
  deriving Repr, DecidableEq

/-- A piece as it was written. -/
def Piece.chars : Piece → List Char
  | char c => [c]
  | question => ['?']
  | name cs => ':' :: cs

/-- Where the scanner stands. -/
inductive Scanner where
  /-- Outside quotes; `afterColon` says that the last character was a colon. -/
  | outside (afterColon : Bool)
  /-- After a colon that may start a placeholder. -/
  | colon
  /-- In the name of a placeholder, its characters so far in reverse. -/
  | name (reversed : List Char)
  /-- In a region that the character `quote` closes. -/
  | quoted (quote : Char)
  /-- After a backslash in such a region. -/
  | escaped (quote : Char)
  deriving Repr, DecidableEq

namespace Scanner

/-- A character outside quotes that does not go on with a name. -/
def stepOutside (afterColon : Bool) (c : Char) : List Piece × Scanner :=
  if isQuote c then ([.char c], quoted c)
  else if c == '?' then ([.question], outside false)
  else if c == ':' then if afterColon then ([.char c], outside true) else ([], colon)
  else ([.char c], outside false)

/-- One character: the pieces it completes, and where the scanner stands after it. -/
def step (s : Scanner) (c : Char) : List Piece × Scanner :=
  match s with
  | outside afterColon => stepOutside afterColon c
  | colon =>
    if isNameStart c then ([], name [c])
    else
      let (pieces, next) := stepOutside true c
      (.char ':' :: pieces, next)
  | name reversed =>
    if isNameChar c then ([], name (c :: reversed))
    else
      let (pieces, next) := stepOutside false c
      (.name reversed.reverse :: pieces, next)
  | quoted q =>
    if c == q then ([.char c], outside false)
    else if c == '\\' && q != Text.backtick then ([.char c], escaped q)
    else ([.char c], quoted q)
  | escaped q => ([.char c], quoted q)

/-- The pieces that the end of the text completes. -/
def finish : Scanner → List Piece
  | colon => [.char ':']
  | name reversed => [.name reversed.reverse]
  | outside _ | quoted _ | escaped _ => []

/-- The pieces of a text that the scanner reads from where it stands. -/
def pieces (s : Scanner) : List Char → List Piece
  | [] => s.finish
  | c :: r => (s.step c).1 ++ pieces (s.step c).2 r

/-- The characters that the scanner has read and not yet given in a piece. -/
def pending : Scanner → List Char
  | colon => [':']
  | name reversed => ':' :: reversed.reverse
  | outside _ | quoted _ | escaped _ => []

theorem chars_finish (s : Scanner) : s.finish.flatMap Piece.chars = s.pending := by
  cases s <;> simp [finish, pending, Piece.chars]

theorem chars_stepOutside (afterColon : Bool) (c : Char) :
    (stepOutside afterColon c).1.flatMap Piece.chars ++ (stepOutside afterColon c).2.pending = [c] := by
  unfold stepOutside
  split
  · rfl
  · split
    · next h => simp_all [Piece.chars, pending]
    · split
      · next h => cases afterColon <;> simp_all [Piece.chars, pending]
      · rfl

theorem chars_step (s : Scanner) (c : Char) :
    (s.step c).1.flatMap Piece.chars ++ (s.step c).2.pending = s.pending ++ [c] := by
  cases s with
  | outside afterColon => exact chars_stepOutside afterColon c
  | colon =>
    have h := chars_stepOutside true c
    by_cases hc : isNameStart c = true
    · simp [step, hc, pending]
    · simpa [step, hc, pending, Piece.chars] using h
  | name reversed =>
    have h := chars_stepOutside false c
    by_cases hc : isNameChar c = true
    · simp [step, hc, pending]
    · simpa [step, hc, pending, Piece.chars] using h
  | quoted q =>
    simp only [step]
    split
    · rfl
    · split <;> rfl
  | escaped q => rfl

/-- The pieces are what was read before and the text, nothing lost and nothing added. -/
theorem chars_pieces (s : Scanner) (cs : List Char) : (s.pieces cs).flatMap Piece.chars = s.pending ++ cs := by
  induction cs generalizing s with
  | nil => simp [pieces, chars_finish]
  | cons c r ih =>
    rw [pieces, List.flatMap_append, ih, ← List.append_assoc, chars_step, List.append_assoc, List.singleton_append]

end Scanner

/-- The pieces of a statement. -/
def pieces (sql : List Char) : List Piece :=
  (Scanner.outside false).pieces sql

theorem flatMap_chars_pieces (sql : List Char) : (pieces sql).flatMap Piece.chars = sql :=
  Scanner.chars_pieces _ sql

/-- Pieces put together again. Each placeholder, from left to right, is offered to `replace` with the state so far;
where it gives no text the placeholder stays. `count` is the number of `?` before. -/
def fill {σ : Type} (replace : Placeholder → σ → Option (List Char) × σ) (count : Nat) (state : σ) :
    List Piece → List Char × σ
  | [] => ([], state)
  | .char c :: ps =>
    let (out, state) := fill replace count state ps
    (c :: out, state)
  | .question :: ps =>
    let (text, state) := replace (.positional count) state
    let (out, state) := fill replace (count + 1) state ps
    (text.getD ['?'] ++ out, state)
  | .name cs :: ps =>
    let (text, state) := replace (.named cs) state
    let (out, state) := fill replace count state ps
    (text.getD (':' :: cs) ++ out, state)

/-- A statement with its placeholders replaced, and the state after the last one. -/
def substitute {σ : Type} (replace : Placeholder → σ → Option (List Char) × σ) (state : σ) (sql : List Char) :
    List Char × σ :=
  fill replace 0 state (pieces sql)

end Placeholder

end SchemaMigration
