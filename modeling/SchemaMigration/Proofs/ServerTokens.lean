import SchemaMigration.Dialect
import SchemaMigration.Store.Token
import Mathlib.Data.List.Basic

/-!
# Texts as servers read them

A server cuts a text into tokens, leaves blanks and comments out, and takes the tokens up to each semicolon for a
statement (`statements`). All servers do so alike, but for the backslash: it is an escape in the strings of some and
an ordinary character in those of others (`Quote.escapes`).

The lexer reads one character at a time and always knows what it is in the middle of. Between tokens it goes on as if it
had just started, as long as what follows does not go on with the last token (`Lexer.read_of_not_continues`); this is
what lets a text be read in parts.
-/

namespace SchemaMigration.Server

open Store.Token (isSpace)

/-- A kind of quotes. -/
inductive Quote where
  | single
  | double
  | backtick
  deriving Repr, DecidableEq

namespace Quote

def char : Quote → Char
  | single => '\''
  | double => '"'
  | backtick => Text.backtick

def ofChar? (c : Char) : Option Quote :=
  if c == '\'' then some single
  else if c == '"' then some double
  else if c == Text.backtick then some backtick
  else none

/-- Between such quotes, a backslash takes the next character with it. -/
def escapes (d : Dialect) : Quote → Bool
  | single | double => d != .sqlite
  | backtick => false

theorem ofChar?_char (q : Quote) : ofChar? q.char = some q := by
  cases q <;> rfl

theorem ne_char {c : Char} (h : ofChar? c = none) (q : Quote) : c ≠ q.char := by
  rintro rfl
  simp [ofChar?_char] at h

end Quote

/-- A token of a text. -/
inductive Token where
  /-- A keyword, a name or a number. -/
  | word (chars : List Char)
  /-- A string or a quoted name, with what stands between the quotes as it was written. -/
  | quoted (q : Quote) (inside : List Char)
  /-- A quote that is never closed. -/
  | unclosed (q : Quote) (inside : List Char)
  | symbol (c : Char)
  /-- A `?`. -/
  | parameter
  /-- A `;`. -/
  | stop
  deriving Repr, DecidableEq

/-- A character that goes on with a word. -/
def isWordChar (c : Char) : Bool :=
  Store.Token.isWordChar c || c == '.'

/-- What a server is in the middle of. -/
inductive Lexer where
  | outside
  /-- In a word, its characters so far in reverse. -/
  | word (reversed : List Char)
  /-- After a dash that may open a comment. -/
  | dash
  /-- After a slash that may open a comment. -/
  | slash
  | quoted (q : Quote) (reversed : List Char)
  /-- After a backslash between quotes. -/
  | escaped (q : Quote) (reversed : List Char)
  /-- After a quote that closes, unless it is doubled. -/
  | closing (q : Quote) (reversed : List Char)
  /-- In a comment up to the end of the line. -/
  | lineComment
  /-- In a comment up to a star and a slash. -/
  | blockComment (afterStar : Bool)
  deriving Repr, DecidableEq

namespace Lexer

/-- The tokens that the end of the text completes. -/
def finish : Lexer → List Token
  | outside | lineComment | blockComment _ => []
  | word reversed => [.word reversed.reverse]
  | dash => [.symbol '-']
  | slash => [.symbol '/']
  | quoted q reversed | escaped q reversed => [.unclosed q reversed.reverse]
  | closing q reversed => [.quoted q reversed.reverse]

/-- Neither quotes nor a comment are open. -/
def isBetween : Lexer → Bool
  | outside | word _ | dash | slash | closing .. => true
  | quoted .. | escaped .. | lineComment | blockComment _ => false

/-- A text can end here: neither quotes nor a comment are open, unless it is the last line's comment, if it may have
one. -/
def isClosed (comment : Bool) (s : Lexer) : Bool :=
  s.isBetween || (comment && s == lineComment)

/-- The character goes on with the token before it. -/
def continues : Lexer → Char → Bool
  | word _, c => isWordChar c
  | dash, c => c == '-'
  | slash, c => c == '*'
  | closing q _, c => c == q.char
  | _, _ => false

/-- Where the lexer stands after a character that goes on with the token before it. -/
def extend : Lexer → Char → Lexer
  | word reversed, c => word (c :: reversed)
  | dash, _ => lineComment
  | slash, _ => blockComment false
  | closing q reversed, c => quoted q (c :: c :: reversed)
  | s, _ => s

/-- A character that starts something new. -/
def stepOutside (c : Char) : List Token × Lexer :=
  match Quote.ofChar? c with
  | some q => ([], quoted q [])
  | none =>
    if isSpace c then ([], outside)
    else if c == '?' then ([.parameter], outside)
    else if c == ';' then ([.stop], outside)
    else if c == '-' then ([], dash)
    else if c == '/' then ([], slash)
    else if isWordChar c then ([], word [c])
    else ([.symbol c], outside)

/-- One character: the tokens it completes, and where the lexer stands after it. -/
def step (d : Dialect) (s : Lexer) (c : Char) : List Token × Lexer :=
  match s with
  | quoted q reversed =>
    if c == q.char then ([], closing q reversed)
    else if c == '\\' && q.escapes d then ([], escaped q (c :: reversed))
    else ([], quoted q (c :: reversed))
  | escaped q reversed => ([], quoted q (c :: reversed))
  | lineComment => ([], if c == '\n' then outside else lineComment)
  | blockComment afterStar => ([], if afterStar && c == '/' then outside else blockComment (c == '*'))
  | outside | word _ | dash | slash | closing .. =>
    if s.continues c then ([], s.extend c)
    else
      let (tokens, next) := stepOutside c
      (s.finish ++ tokens, next)

/-- The tokens that a text completes, and where the lexer stands after it. -/
def read (d : Dialect) (s : Lexer) : List Char → List Token × Lexer
  | [] => ([], s)
  | c :: r =>
    let (tokens, next) := read d (s.step d c).2 r
    ((s.step d c).1 ++ tokens, next)

/-- The tokens of a text that the lexer reads from where it stands. -/
def tokens (d : Dialect) (s : Lexer) (text : List Char) : List Token :=
  (s.read d text).1 ++ (s.read d text).2.finish

end Lexer

/-- Tokens cut at the semicolons. -/
def split : List Token → List (List Token)
  | [] => [[]]
  | .stop :: ts => [] :: split ts
  | t :: ts =>
    match split ts with
    | [] => [[t]]
    | s :: ss => (t :: s) :: ss

/-- The statements that tokens make up; nothing between two semicolons is no statement. -/
def statementsOf (ts : List Token) : List (List Token) :=
  (split ts).filter (!·.isEmpty)

/-- The statements of a text. -/
def statements (d : Dialect) (text : List Char) : List (List Token) :=
  statementsOf (Lexer.outside.tokens d text)

/-! ## Reading in parts -/

namespace Lexer

variable {d : Dialect} {s : Lexer}

theorem read_cons (c : Char) (r : List Char) :
    s.read d (c :: r) = ((s.step d c).1 ++ ((s.step d c).2.read d r).1, ((s.step d c).2.read d r).2) := rfl

theorem read_append (t u : List Char) :
    s.read d (t ++ u) =
      ((s.read d t).1 ++ ((s.read d t).2.read d u).1, ((s.read d t).2.read d u).2) := by
  induction t generalizing s with
  | nil => rfl
  | cons c t ih => simp [read_cons, ih]

theorem tokens_append (t u : List Char) : s.tokens d (t ++ u) = (s.read d t).1 ++ (s.read d t).2.tokens d u := by
  simp [tokens, read_append]

theorem tokens_cons (c : Char) (r : List Char) : s.tokens d (c :: r) = (s.step d c).1 ++ (s.step d c).2.tokens d r := by
  simp [tokens, read_cons]

/-- A character that starts something new completes the token before it. -/
theorem step_of_not_continues (hs : s.isBetween) {c : Char} (hc : s.continues c = false) :
    s.step d c = (s.finish ++ (stepOutside c).1, (stepOutside c).2) := by
  cases s <;> simp_all [step, isBetween]

theorem step_outside (c : Char) : outside.step d c = stepOutside c := rfl

/-- What starts something new is read as if it stood alone. -/
theorem read_of_not_continues (hs : s.isBetween) {c : Char} (hc : s.continues c = false) (r : List Char) :
    s.read d (c :: r) = (s.finish ++ (outside.read d (c :: r)).1, (outside.read d (c :: r)).2) := by
  simp [read_cons, step_of_not_continues hs hc, step_outside]

/-- The text does not go on with the token before it. -/
def endsBefore (s : Lexer) (text : List Char) : Bool :=
  text.head?.all fun c => !s.continues c

theorem tokens_of_endsBefore (hs : s.isBetween) {text : List Char} (h : s.endsBefore text) :
    s.tokens d text = s.finish ++ outside.tokens d text := by
  cases text with
  | nil => simp [tokens, read, finish]
  | cons c r =>
    have hc : s.continues c = false := by simpa [endsBefore] using h
    simp [tokens, read_of_not_continues hs hc]

theorem isClosed_true {comment : Bool} (h : s.isClosed comment) : s.isClosed true := by
  cases comment with
  | true => exact h
  | false => simp_all [isClosed]

/-- A text that starts something new leaves the lexer where it would leave it alone. -/
theorem isClosed_read {comment : Bool} (hs : s.isBetween) {text : List Char} (h : s.endsBefore text)
    (houtside : (outside.read d text).2.isClosed comment) : (s.read d text).2.isClosed comment := by
  cases text with
  | nil => simp [read, isClosed, hs]
  | cons c r =>
    have hc : s.continues c = false := by simpa [endsBefore] using h
    rwa [read_of_not_continues hs hc]

theorem parameter_not_mem_finish (s : Lexer) : .parameter ∉ s.finish := by
  cases s <;> simp [finish]

/-! ## Semicolons and blanks -/

theorem continues_eq_false {c : Char}
    (h : isWordChar c = false ∧ c ≠ '-' ∧ c ≠ '*' ∧ Quote.ofChar? c = none) (s : Lexer) : s.continues c = false := by
  obtain ⟨hword, hdash, hstar, hquote⟩ := h
  cases s <;> simp [continues, hword, hdash, hstar, Quote.ne_char hquote]

theorem continues_stop (s : Lexer) : s.continues ';' = false :=
  continues_eq_false (by decide) s

/-- Where a placeholder may stand, the server has a parameter. -/
theorem tokens_question (hs : s.isBetween) (r : List Char) :
    s.tokens d ('?' :: r) = s.finish ++ .parameter :: outside.tokens d r := by
  rw [tokens_cons, step_of_not_continues hs (continues_eq_false (by decide) s), List.append_assoc]
  rfl

theorem read_question (hs : s.isBetween) (r : List Char) :
    (s.read d ('?' :: r)).2 = (outside.read d r).2 := by
  rw [read_cons, step_of_not_continues hs (continues_eq_false (by decide) s)]
  rfl

theorem stepOutside_stop : stepOutside ';' = ([.stop], outside) := rfl

/-- Only between tokens is a semicolon the end of a statement, and then the lexer stands as at the start. -/
theorem step_stop (h : (s.step d ';').2.isBetween) : s.step d ';' = (s.finish ++ [.stop], outside) := by
  have hbetween : s.isBetween := by
    cases s with
    | quoted q r => cases q <;> cases h
    | escaped => cases h
    | lineComment => cases h
    | blockComment afterStar => cases afterStar <;> cases h
    | _ => rfl
  rw [step_of_not_continues hbetween s.continues_stop, stepOutside_stop]

theorem isSpace_cases {c : Char} (h : isSpace c) : c = ' ' ∨ c = '\t' ∨ c = '\n' ∨ c = '\r' ∨ c = '\x0c' := by
  simp only [isSpace, Bool.or_eq_true, beq_iff_eq] at h
  rcases h with (((h | h) | h) | h) | h
  · exact .inl h
  · exact .inr (.inl h)
  · exact .inr (.inr (.inl h))
  · exact .inr (.inr (.inr (.inl h)))
  · exact .inr (.inr (.inr (.inr (Char.toNat_inj.1 h))))

theorem isWordChar_of_isSpace {c : Char} (h : isSpace c) : isWordChar c = false := by
  rcases isSpace_cases h with rfl | rfl | rfl | rfl | rfl <;> rfl

theorem ofChar?_of_isSpace {c : Char} (h : isSpace c) : Quote.ofChar? c = none := by
  rcases isSpace_cases h with rfl | rfl | rfl | rfl | rfl <;> rfl

theorem continues_of_isSpace {c : Char} (hc : isSpace c) (s : Lexer) : s.continues c = false := by
  refine continues_eq_false ⟨isWordChar_of_isSpace hc, ?_, ?_, ofChar?_of_isSpace hc⟩ s
  · rintro rfl
    cases hc
  · rintro rfl
    cases hc

theorem stepOutside_of_isSpace {c : Char} (hc : isSpace c) : stepOutside c = ([], outside) := by
  simp [stepOutside, ofChar?_of_isSpace hc, hc]

/-- Blanks at the end are left out. -/
theorem tokens_blanks (hs : s.isClosed true) {blanks : List Char} (h : ∀ c ∈ blanks, isSpace c) :
    s.tokens d blanks = s.finish := by
  induction blanks generalizing s with
  | nil => simp [tokens, read]
  | cons c r ih =>
    obtain ⟨hc, hr⟩ := List.forall_mem_cons.1 h
    simp only [isClosed, Bool.true_and, Bool.or_eq_true, beq_iff_eq] at hs
    rw [tokens_cons]
    rcases hs with hs | rfl
    · rw [step_of_not_continues hs (continues_of_isSpace hc s), stepOutside_of_isSpace hc, ih rfl hr]
      simp [finish]
    · rw [step]
      split <;> exact ih rfl hr

theorem tokens_outside_blanks_append {blanks : List Char} (h : ∀ c ∈ blanks, isSpace c) (r : List Char) :
    outside.tokens d (blanks ++ r) = outside.tokens d r := by
  induction blanks with
  | nil => rfl
  | cons c blanks ih =>
    obtain ⟨hc, hblanks⟩ := List.forall_mem_cons.1 h
    rw [List.cons_append, tokens_cons, step_outside, stepOutside_of_isSpace hc, List.nil_append]
    exact ih hblanks

/-! ## Words and strings -/

theorem stepOutside_of_isWordChar {c : Char} (hc : isWordChar c) : stepOutside c = ([], word [c]) := by
  have hother : ∀ {e}, isWordChar e = false → c ≠ e := by
    rintro e he rfl
    simp [he] at hc
  have hspace : isSpace c = false := by
    rw [Bool.eq_false_iff]
    exact fun h => Bool.false_ne_true ((isWordChar_of_isSpace h).symm.trans hc)
  have hquote : Quote.ofChar? c = none := by
    simp [Quote.ofChar?, hother (e := '\'') rfl, hother (e := '"') rfl, hother (e := Text.backtick) rfl]
  simp [stepOutside, hquote, hspace, hother (e := '?') rfl, hother (e := ';') rfl, hother (e := '-') rfl,
    hother (e := '/') rfl, hc]

theorem read_word {chars : List Char} (h : ∀ c ∈ chars, isWordChar c) (reversed : List Char) :
    (word reversed).read d chars = ([], word (chars.reverse ++ reversed)) := by
  induction chars generalizing reversed with
  | nil => rfl
  | cons c chars ih =>
    obtain ⟨hc, hchars⟩ := List.forall_mem_cons.1 h
    simp [read_cons, step, continues, extend, hc, ih hchars]

theorem read_outside_word {chars : List Char} (h : ∀ c ∈ chars, isWordChar c) (hne : chars ≠ []) :
    outside.read d chars = ([], word chars.reverse) := by
  obtain ⟨c, chars, rfl⟩ := List.exists_cons_of_ne_nil hne
  obtain ⟨hc, hchars⟩ := List.forall_mem_cons.1 h
  simp [read_cons, step_outside, stepOutside_of_isWordChar hc, read_word hchars]

theorem read_negative {chars : List Char} (h : ∀ c ∈ chars, isWordChar c) (hne : chars ≠ []) :
    outside.read d ('-' :: chars) = ([.symbol '-'], word chars.reverse) := by
  obtain ⟨c, chars, rfl⟩ := List.exists_cons_of_ne_nil hne
  have hdash : dash.continues c = false := by
    rw [continues, beq_eq_false_iff_ne]
    rintro rfl
    exact absurd (h '-' List.mem_cons_self) (by decide)
  have hopen : outside.step d '-' = ([], dash) := rfl
  rw [read_cons, hopen, read_of_not_continues rfl hdash, read_outside_word h hne]
  rfl

/-- Doubled quotes and backslashes do not close a string, whether a backslash is an escape or not. -/
theorem read_doubleWhere (s reversed : List Char) :
    (quoted .single reversed).read d (Text.doubleWhere Text.isLiteralSpecial s) =
      ([], quoted .single ((Text.doubleWhere Text.isLiteralSpecial s).reverse ++ reversed)) := by
  induction s generalizing reversed with
  | nil => rfl
  | cons c s ih =>
    rw [Text.doubleWhere_cons, read_append]
    by_cases hquote : c = '\''
    · subst hquote
      simp [Text.isLiteralSpecial, read, step, continues, extend, Quote.char, ih]
    by_cases hslash : c = '\\'
    · subst hslash
      cases hescapes : Quote.single.escapes d <;>
        simp [Text.isLiteralSpecial, read, step, Quote.char, hescapes, ih]
    · simp [Text.isLiteralSpecial, read, step, Quote.char, hquote, hslash, ih]

theorem read_literalChars (s : List Char) :
    outside.read d (Text.literalChars s) =
      ([], closing .single (Text.doubleWhere Text.isLiteralSpecial s).reverse) := by
  have hopen : outside.step d '\'' = ([], quoted .single []) := rfl
  have hclose : ∀ reversed, (quoted .single reversed).read d ['\''] = ([], closing .single reversed) := fun _ => rfl
  rw [Text.literalChars, read_cons, hopen, read_append, read_doubleWhere, hclose]
  simp

end Lexer

/-! ## Cutting at semicolons -/

theorem split_ne_nil (ts : List Token) : split ts ≠ [] := by
  unfold split
  split
  · simp
  · simp
  · split <;> simp

theorem split_stop (ts : List Token) : split (.stop :: ts) = [] :: split ts := by
  rw [split]

theorem split_append {us ps : List Token} (hps : .stop ∉ ps) {s : List Token} {ss : List (List Token)}
    (h : split us = s :: ss) : split (ps ++ us) = (ps ++ s) :: ss := by
  induction ps with
  | nil => exact h
  | cons t ps ih =>
    simp only [List.mem_cons, not_or] at hps
    rw [List.cons_append, split, ih hps.2]
    · rfl
    · exact fun ht => hps.1 ht.symm

theorem split_append_stop (ts us : List Token) : split (ts ++ .stop :: us) = split ts ++ split us := by
  induction ts with
  | nil => exact split_stop us
  | cons t ts ih =>
    by_cases ht : t = .stop
    · subst ht
      rw [List.cons_append, split_stop, split_stop, ih, List.cons_append]
    · obtain ⟨s, ss, hs⟩ := List.exists_cons_of_ne_nil (split_ne_nil ts)
      have hstop : .stop ∉ [t] := by simpa using Ne.symm ht
      rw [hs, List.cons_append] at ih
      rw [List.cons_append, ← List.singleton_append, ← List.singleton_append (l := ts), split_append hstop ih,
        split_append hstop hs]
      rfl

theorem statementsOf_append_stop (ts us : List Token) :
    statementsOf (ts ++ .stop :: us) = statementsOf ts ++ statementsOf us := by
  simp [statementsOf, split_append_stop]

theorem statementsOf_nil : statementsOf [] = [] := rfl

end SchemaMigration.Server
