import SchemaMigration.Script.BoundValue
import SchemaMigration.Text.Blank
import SchemaMigration.Proofs.ServerTokens
import SchemaMigration.Proofs.ShortestDecimal

/-!
# Literals as servers read them

`Denotes` says which value a literal has for a server, apart from how literals are written: the text of a string with
its quotes and escapes undone, the number that digits spell. A literal that is written for a value has that value
(`literal_spells`), unless its backslashes mean something else to the server, or it is a float without a fraction, which
is written like an integer (`isFaithful`).
-/

namespace SchemaMigration.Server

/-- What a backslash and the character after it stand for in a string, where the backslash is an escape. -/
def escaped (c : Char) : List Char :=
  match c with
  | '0' => ['\x00']
  | 'b' => ['\x08']
  | 'n' => ['\n']
  | 'r' => ['\r']
  | 't' => ['\t']
  | 'Z' => ['\x1a']
  -- these two keep the backslash
  | '%' | '_' => ['\\', c]
  | c => [c]

/-- The text of a string, from what stands between its quotes. -/
def unquoted (d : Dialect) : List Char → List Char
  | '\\' :: c :: r => if Quote.single.escapes d then escaped c ++ unquoted d r else '\\' :: unquoted d (c :: r)
  | '\'' :: '\'' :: r => '\'' :: unquoted d r
  | c :: r => c :: unquoted d r
  | [] => []

/-- The number that a word spells. -/
def natural? (chars : List Char) : Option Nat :=
  if chars.isEmpty || !chars.all Text.isDigit then none else some (Text.decimalValue 0 chars)

/-- The integer that tokens spell. -/
def integer? : List Token → Option Int
  | [.word chars] => (natural? chars).map Int.ofNat
  | [.symbol '-', .word chars] => (natural? chars).map fun n => -n
  | _ => none

/-- The number that a word spells with a point. -/
def decimal? (chars : List Char) : Option Number.Decimal :=
  if chars.contains '.' then (Number.readDecimal chars).map fun (digits, exponent) => ⟨digits, exponent⟩ else none

/-- The decimal that tokens spell, and whether it is negative. -/
def real? : List Token → Option (Bool × Number.Decimal)
  | [.word chars] => (decimal? chars).map (false, ·)
  | [.symbol '-', .word chars] => (decimal? chars).map (true, ·)
  | _ => none

/-- The tokens are a literal of the value; that of a float is one of the decimals that round to it. -/
def Denotes (d : Dialect) (ts : List Token) : BoundValue → Prop
  | .null => ts = [.word "NULL".toList]
  | .bool b => ts = [.word (if b then "TRUE" else "FALSE").toList]
  | .int n => integer? ts = some n.toInt
  | .float x => ∃ negative mantissa exponent tight, Number.partsOf x = .finite negative mantissa exponent tight ∧
      ∃ decimal, real? ts = some (negative, decimal) ∧
        (Number.Interval.ofParts mantissa exponent tight).Holds decimal
  | .text s => ∃ inside, ts = [.quoted .single inside] ∧ unquoted d inside = s.toList

section

variable {d : Dialect} {ts : List Token} {v : BoundValue}

theorem Denotes.ne_nil (h : Denotes d ts v) : ts ≠ [] := by
  rintro rfl
  cases v with
  | float x =>
    obtain ⟨negative, m, e, tight, -, decimal, hreal, -⟩ := h
    cases hreal
  | _ => simp [Denotes, integer?] at h

theorem Denotes.stop_not_mem (h : Denotes d ts v) : .stop ∉ ts := by
  cases v with
  | int n =>
    have hn : integer? ts = some n.toInt := h
    unfold integer? at hn
    split at hn <;> simp_all
  | float x =>
    obtain ⟨negative, m, e, tight, -, decimal, hreal, -⟩ := h
    unfold real? at hreal
    split at hreal <;> simp_all
  | text s =>
    obtain ⟨inside, rfl, -⟩ := h
    simp
  | _ =>
    obtain rfl : ts = _ := h
    simp

end

/-- The value has a literal that the server reads as that value. Backslashes have to be escapes to it, unless there are
none, and a float without a fraction would be read as an integer. -/
def isFaithful (d : Dialect) : BoundValue → Bool
  | .text s => Quote.single.escapes d || !s.toList.contains '\\'
  | .float x => Number.isFinite x && (Number.floatChars x).contains '.'
  | _ => true

theorem unquoted_doubleWhere {d : Dialect} {s : List Char} (h : Quote.single.escapes d ∨ '\\' ∉ s) :
    unquoted d (Text.doubleWhere Text.isLiteralSpecial s) = s := by
  induction s with
  | nil => rfl
  | cons c s ih =>
    have hs : Quote.single.escapes d ∨ '\\' ∉ s := h.imp_right fun h hmem => h (List.mem_cons_of_mem _ hmem)
    rw [Text.doubleWhere_cons]
    by_cases hquote : c = '\''
    · subst hquote
      simp [Text.isLiteralSpecial, unquoted, ih hs]
    by_cases hslash : c = '\\'
    · subst hslash
      have hescapes : Quote.single.escapes d := h.resolve_right fun h => h List.mem_cons_self
      simp [Text.isLiteralSpecial, unquoted, escaped, hescapes, ih hs]
    · simp [Text.isLiteralSpecial, hquote, hslash, unquoted, ih hs]

theorem natural?_natText (n : Nat) : natural? (Text.natText n) = some n := by
  have hne : Text.natText n ≠ [] := Nat.toDigits_ne_nil
  have hdigits : (Text.natText n).all Text.isDigit := List.all_eq_true.2 fun c hc => Number.isDigit_of_mem_natText hc
  simp [natural?, hne, hdigits, Number.decimalValue_natText]

theorem isWordChar_of_isDigit {c : Char} (h : Text.isDigit c) : isWordChar c := by
  simp [isWordChar, Store.Token.isWordChar, h]

theorem isWordChar_of_mem_natText (n : Nat) : ∀ c ∈ Text.natText n, isWordChar c :=
  fun _ hc => isWordChar_of_isDigit (Number.isDigit_of_mem_natText hc)

/-- A text is read as a literal of the value, from the start and to an end between tokens. -/
structure Spells (d : Dialect) (literal : List Char) (v : BoundValue) : Prop where
  between : (Lexer.outside.read d literal).2.isBetween
  denotes : Denotes d (Lexer.outside.tokens d literal) v
  /-- No blanks at the end. -/
  last : ∃ c, literal.getLast? = some c ∧ Text.isBlank c = false

/-- A word is a literal of what it denotes. -/
theorem Spells.of_read {d : Dialect} {literal : List Char} {v : BoundValue} {ts : List Token} {s : Lexer}
    (hread : Lexer.outside.read d literal = (ts, s)) (hs : s.isBetween) (hdenotes : Denotes d (ts ++ s.finish) v)
    (hlast : ∃ c, literal.getLast? = some c ∧ Text.isBlank c = false) : Spells d literal v where
  between := by rwa [hread]
  denotes := by rwa [Lexer.tokens, hread]
  last := hlast

theorem isBlank_eq_false_of_isDigit {c : Char} (h : Text.isDigit c) : Text.isBlank c = false := by
  simp only [Text.isDigit, Bool.and_eq_true, decide_eq_true_eq, Char.le_def, UInt32.le_iff_toNat_le] at h
  have hlow : 48 ≤ c.toNat := h.1
  have hhigh : c.toNat ≤ 57 := h.2
  simp only [Text.isBlank, Bool.or_eq_false_iff, Bool.and_eq_false_iff, decide_eq_false_iff_not, beq_eq_false_iff_ne]
  omega

theorem getLast?_natText (n : Nat) : ∃ c, (Text.natText n).getLast? = some c ∧ Text.isBlank c = false :=
  have hne : Text.natText n ≠ [] := Nat.toDigits_ne_nil
  ⟨_, List.getLast?_eq_some_getLast hne,
    isBlank_eq_false_of_isDigit (Number.isDigit_of_mem_natText (List.getLast_mem hne))⟩

/-- A word or a negative word is a literal of what it denotes. -/
theorem Spells.of_word {d : Dialect} {chars : List Char} {v : BoundValue} (negative : Bool)
    (hword : ∀ c ∈ chars, isWordChar c) (hlast : ∃ c, chars.getLast? = some c ∧ Text.isBlank c = false)
    (hdenotes : Denotes d ((if negative then [.symbol '-'] else []) ++ [.word chars]) v) :
    Spells d ((if negative then ['-'] else []) ++ chars) v := by
  have hne : chars ≠ [] := by
    rintro rfl
    obtain ⟨c, hc, -⟩ := hlast
    cases hc
  cases negative with
  | true =>
    refine .of_read (Lexer.read_negative hword hne) rfl ?_ ?_
    · simpa [Lexer.finish] using hdenotes
    · obtain ⟨c, hc, hblank⟩ := hlast
      exact ⟨c, by simp [List.getLast?_cons, hc], hblank⟩
  | false => exact .of_read (Lexer.read_outside_word hword hne) rfl (by simpa [Lexer.finish] using hdenotes) hlast

theorem spells_intChars (d : Dialect) (n : Int64) : Spells d (BoundValue.intChars n.toInt) (.int n) := by
  have hspells : ∀ i : Int, i = n.toInt → Spells d (BoundValue.intChars i) (.int n) := by
    intro i hi
    cases i with
    | ofNat k =>
      have hchars : BoundValue.intChars (.ofNat k) = Text.natText k := by simp [BoundValue.intChars]
      have hdenotes : Denotes d [.word (Text.natText k)] (.int n) := by
        simp [Denotes, integer?, natural?_natText, ← hi]
      rw [hchars]
      exact Spells.of_word false (isWordChar_of_mem_natText k) (getLast?_natText k) hdenotes
    | negSucc k =>
      have hchars : BoundValue.intChars (.negSucc k) = '-' :: Text.natText (k + 1) := by
        simp [BoundValue.intChars, Int.negSucc_lt_zero]
      have hdenotes : Denotes d [.symbol '-', .word (Text.natText (k + 1))] (.int n) := by
        simp [Denotes, integer?, natural?_natText, ← hi, Int.negSucc_eq]
      rw [hchars]
      exact Spells.of_word true (isWordChar_of_mem_natText (k + 1)) (getLast?_natText (k + 1)) hdenotes
  exact hspells _ rfl

theorem spells_floatChars (d : Dialect) {x : Float} (hfinite : Number.isFinite x) (hpoint : '.' ∈ Number.floatChars x) :
    Spells d (Number.floatChars x) (.float x) := by
  obtain ⟨negative, m, e, tight, decimal, hparts, hchars, hexponent, hholds⟩ :=
    Number.exists_floatChars hfinite hpoint
  obtain ⟨whole, fraction, hpositional, hwhole, hfraction, hne, hread⟩ := Number.Decimal.exists_positional hexponent
  have hword : ∀ c ∈ decimal.positional, isWordChar c := by
    rw [hpositional, List.forall_mem_append, List.forall_mem_cons]
    exact ⟨fun c hc => isWordChar_of_isDigit (hwhole c hc), by decide,
      fun c hc => isWordChar_of_isDigit (hfraction c hc)⟩
  have hlast : ∃ c, decimal.positional.getLast? = some c ∧ Text.isBlank c = false := by
    refine ⟨_, ?_, isBlank_eq_false_of_isDigit (hfraction _ (List.getLast_mem hne))⟩
    rw [hpositional, List.getLast?_append, List.getLast?_cons, List.getLast?_eq_some_getLast hne]
    rfl
  have hdecimal : decimal? decimal.positional = some decimal := by simp [decimal?, hpositional ▸ hread, hpositional]
  rw [hchars]
  refine .of_word negative hword hlast ⟨negative, m, e, tight, hparts, decimal, ?_, hholds⟩
  cases negative <;> simp [real?, hdecimal]

theorem literal_spells {d : Dialect} {v : BoundValue} (h : isFaithful d v) :
    ∃ literal, v.literal? = some literal ∧ Spells d literal v := by
  cases v with
  | null => exact ⟨_, rfl, .of_read rfl rfl rfl ⟨'L', rfl, by decide⟩⟩
  | bool b => cases b with
    | true => exact ⟨_, rfl, .of_read rfl rfl rfl ⟨'E', rfl, by decide⟩⟩
    | false => exact ⟨_, rfl, .of_read rfl rfl rfl ⟨'E', rfl, by decide⟩⟩
  | int n => exact ⟨_, rfl, spells_intChars d n⟩
  | float x =>
    simp only [isFaithful, Bool.and_eq_true, List.contains_eq_mem, decide_eq_true_eq] at h
    exact ⟨_, by simp [BoundValue.literal?, h.1], spells_floatChars d h.1 h.2⟩
  | text s =>
    have hslash : Quote.single.escapes d ∨ '\\' ∉ s.toList := by simpa [isFaithful] using h
    have hlast : (Text.literalChars s.toList).getLast? = some '\'' := by
      rw [Text.literalChars, ← List.cons_append, List.getLast?_concat]
    refine ⟨_, rfl, .of_read (Lexer.read_literalChars s.toList) rfl ?_ ⟨'\'', hlast, by decide⟩⟩
    exact ⟨_, by simp [Lexer.finish], unquoted_doubleWhere hslash⟩

end SchemaMigration.Server
