import SchemaMigration.Yaml.Token
import Mathlib.Data.List.Basic

/-!
# Scanning block collections

What the scanner does with the forms that block documents are made of, told one form at a time. A `Place` is where the
scanner stands between two of them, and `Place.Reads a b` says that from `a` it comes to `b`, whatever it does from
there on; so the forms of a document can be put together by transitivity, each with the rest of the document behind it.

Fuel is dealt with once (`Scanner.Continues`): every token takes at least one character, so a scanner with more fuel
than characters never runs out of it.
-/

namespace SchemaMigration.Yaml

namespace Cursor

theorem advance_zero (c : Cursor) : c.advance 0 = c := rfl

theorem skipWhile_cons {q : Char → Bool} {c : Char} (h : q c = true) (r : List Char) (p : Position) :
    skipWhile q ⟨c :: r, p⟩ = skipWhile q ⟨r, p.advance 1⟩ := by
  simp [skipWhile, h, advance, Position.advance, Nat.add_comm, Nat.add_left_comm]

theorem length_advance_le (c : Cursor) (n : Nat) : (c.advance n).rest.length ≤ c.rest.length := by
  simp [advance]

theorem length_skipComment_le (c : Cursor) : c.skipComment.rest.length ≤ c.rest.length := by
  unfold skipComment
  split
  · exact c.length_advance_le _
  · exact Nat.le_refl _

theorem length_lt_of_skipBreak? {c next : Cursor} (h : c.skipBreak? = some next) :
    next.rest.length < c.rest.length := by
  unfold skipBreak? at h
  split at h
  case h_1 r hr =>
    cases h
    simp only [hr, List.length_cons]
    omega
  case h_2 d r hr =>
    split at h
    · cases h
      simp [*]
    · cases h
  case h_3 => cases h

end Cursor

namespace Token

namespace Scanner

/-! ## Between tokens -/

/-- The scanner behind the blanks and the comment in front of it. -/
def pastComment (s : Scanner) : Scanner :=
  { s.skipMark.skipBlanks with cursor := s.skipMark.skipBlanks.cursor.skipComment }

/-- The scanner at the next token. -/
def skipped (s : Scanner) : Scanner :=
  s.skipToToken (s.cursor.rest.length + 1)

theorem length_pastComment_le (s : Scanner) : s.pastComment.cursor.rest.length ≤ s.cursor.rest.length := by
  have hmark : s.skipMark.cursor.rest.length ≤ s.cursor.rest.length := by
    unfold skipMark
    split
    · split
      · exact s.cursor.length_advance_le 1
      · exact Nat.le_refl _
    · exact Nat.le_refl _
  exact Nat.le_trans (Cursor.length_skipComment_le _) (Nat.le_trans (Cursor.length_advance_le _ _) hmark)

/-- The scanner past the line break that stands in front of it. -/
def afterBreak (s : Scanner) (next : Cursor) : Scanner :=
  { s with cursor := next, keyAllowed := s.keyAllowed || s.inBlock }

theorem skipToToken_succ (s : Scanner) (fuel : Nat) :
    s.skipToToken fuel.succ =
      (s.pastComment.cursor.skipBreak?.map fun next => (s.pastComment.afterBreak next).skipToToken fuel).getD
        s.pastComment := by
  rw [skipToToken]
  cases h : s.pastComment.cursor.skipBreak? with
  | none => simp only [pastComment] at h; simp [h, pastComment]
  | some next => simp only [pastComment] at h; simp [h, pastComment, afterBreak, inBlock, flowLevel]

theorem skipToToken_eq {s : Scanner} {fuel fuel' : Nat} (h : s.cursor.rest.length < fuel)
    (h' : s.cursor.rest.length < fuel') : s.skipToToken fuel = s.skipToToken fuel' := by
  induction fuel generalizing s fuel' with
  | zero => exact absurd h (Nat.not_lt_zero _)
  | succ fuel ih =>
    obtain _ | fuel' := fuel'
    · exact absurd h' (Nat.not_lt_zero _)
    rw [skipToToken_succ, skipToToken_succ]
    cases hbreak : s.pastComment.cursor.skipBreak? with
    | none => rfl
    | some next =>
      have hnext := Nat.lt_of_lt_of_le (Cursor.length_lt_of_skipBreak? hbreak) s.length_pastComment_le
      exact ih (s := s.pastComment.afterBreak next) (by simp only [afterBreak]; omega)
        (by simp only [afterBreak]; omega)

theorem skipped_eq (s : Scanner) :
    s.skipped = (s.pastComment.cursor.skipBreak?.map fun next => (s.pastComment.afterBreak next).skipped).getD
      s.pastComment := by
  rw [skipped, skipToToken_succ]
  cases hbreak : s.pastComment.cursor.skipBreak? with
  | none => rfl
  | some next =>
    have hnext := Nat.lt_of_lt_of_le (Cursor.length_lt_of_skipBreak? hbreak) s.length_pastComment_le
    exact skipToToken_eq (s := s.pastComment.afterBreak next) (by simp only [afterBreak]; omega) (Nat.lt_succ_self _)

theorem skipped_eq_of_pastComment_eq {s t : Scanner} (h : s.pastComment = t.pastComment) : s.skipped = t.skipped := by
  rw [skipped_eq, skipped_eq t, h]

theorem skipMark_eq_self {s : Scanner} (h : s.cursor.position.column ≠ 0) : s.skipMark = s := by
  unfold skipMark
  split
  · simp [h]
  · rfl

/-- A text that starts with a token, or is at its end. -/
def startsToken : List Char → Bool
  | [] => true
  | c :: _ => !(isBlank c || isBreak c || c == '#' || c == '\uFEFF')

theorem pastComment_eq_self {s : Scanner} (h : startsToken s.cursor.rest) : s.pastComment = s := by
  obtain ⟨⟨rest, p⟩, tokens, count, indents, keys, keyAllowed⟩ := s
  cases rest with
  | nil => rfl
  | cons c r =>
    simp only [startsToken, isBlank, Bool.not_eq_true', Bool.or_eq_false_iff, beq_eq_false_iff_ne] at h
    obtain ⟨⟨⟨⟨hspace, htab⟩, -⟩, hcomment⟩, hmark⟩ := h
    simp [pastComment, skipMark, skipBlanks, Cursor.skipWhile, Cursor.skipComment, hspace, htab, hcomment, hmark,
      Cursor.advance_zero]

theorem skipBreak?_eq_none {c : Cursor} (h : startsToken c.rest) : c.skipBreak? = none := by
  obtain ⟨rest, p⟩ := c
  cases rest with
  | nil => rfl
  | cons c r =>
    have hbreak : isBreak c = false := by
      simp only [startsToken, Bool.not_eq_true', Bool.or_eq_false_iff] at h
      exact h.1.1.2
    have hreturn : c ≠ '\r' := by
      rintro rfl
      cases hbreak
    simp [Cursor.skipBreak?, hbreak, hreturn]

theorem skipped_eq_self {s : Scanner} (h : startsToken s.cursor.rest) : s.skipped = s := by
  have hpast := pastComment_eq_self h
  rw [skipped_eq, hpast, skipBreak?_eq_none h]
  rfl

/-! ## One token after the other -/

/-- The scanner after one more token. -/
def next? (s : Scanner) : Option Scanner := do
  let s ← s.skipped.dropStaleKeys
  (s.unroll (some s.cursor.position.column)).fetch

theorem run_succ (s : Scanner) (fuel : Nat) :
    s.run fuel.succ = s.next?.bind fun t =>
      if t.tokens.head? == some .streamEnd then some t.tokens.reverse else t.run fuel := by
  simp only [run, next?, skipped, Option.bind_eq_bind, Option.bind_assoc]

/-- What is read from `s` is what is read from `t`. -/
def Continues (s t : Scanner) : Prop :=
  ∀ fuel, s.cursor.rest.length < fuel → ∃ fuel', t.cursor.rest.length < fuel' ∧ s.run fuel = t.run fuel'

theorem Continues.trans {s t u : Scanner} (h : s.Continues t) (h' : t.Continues u) : s.Continues u := by
  intro fuel hfuel
  obtain ⟨fuel₁, hfuel₁, h⟩ := h fuel hfuel
  obtain ⟨fuel₂, hfuel₂, h'⟩ := h' fuel₁ hfuel₁
  exact ⟨fuel₂, hfuel₂, h.trans h'⟩

theorem continues_of_next? {s t : Scanner} (h : s.next? = some t) (hend : t.tokens.head? ≠ some .streamEnd)
    (hlength : t.cursor.rest.length < s.cursor.rest.length) : s.Continues t := by
  intro fuel hfuel
  obtain _ | fuel := fuel
  · exact absurd hfuel (Nat.not_lt_zero _)
  · refine ⟨fuel, by omega, ?_⟩
    rw [run_succ, h, Option.bind_some, if_neg (by simpa using hend)]

theorem continues_of_next?_eq {s t : Scanner} (h : s.next? = t.next?)
    (hlength : t.cursor.rest.length ≤ s.cursor.rest.length) : s.Continues t := by
  intro fuel hfuel
  obtain _ | fuel := fuel
  · exact absurd hfuel (Nat.not_lt_zero _)
  · exact ⟨fuel.succ, by omega, by rw [run_succ, run_succ, h]⟩

theorem continues_of_skipped_eq {s t : Scanner} (h : s.skipped = t.skipped)
    (hlength : t.cursor.rest.length ≤ s.cursor.rest.length) : s.Continues t :=
  continues_of_next?_eq (by rw [next?, next?, h]) hlength

/-- Which collections were open does not count where all of them are given. -/
theorem closeBlocks_indents (column : Option Nat) (s : Scanner) (indents l : List Nat) :
    closeBlocks column { s with indents } l = closeBlocks column s l := by
  induction l generalizing s with
  | nil => rfl
  | cons n l ih =>
    simp only [closeBlocks]
    split
    · exact ih (s.push .blockEnd)
    · rfl

theorem closeBlocks_none (s : Scanner) (l : List Nat) :
    closeBlocks none s l =
      { s with
        tokens := List.replicate l.length .blockEnd ++ s.tokens
        count := s.count + l.length
        indents := [] } := by
  induction l generalizing s with
  | nil => rfl
  | cons n l ih =>
    simp only [closeBlocks, Option.all_none, if_true, ih]
    simp [push, List.replicate_succ', Nat.add_assoc, Nat.add_comm 1]

/-! ## Places -/

end Scanner

/-- Where the scanner stands between two tokens, outside flow collections and with no key begun. -/
structure Place where
  /-- The tokens so far. -/
  tokens : List Token
  /-- The columns of the open block collections, the innermost first. -/
  indents : List Nat
  /-- The column, if a key may start here. -/
  key : Option Nat
  /-- The rest of the document. -/
  rest : List Char

namespace Place

open Scanner

/-- The scanner at a place. -/
def scanner (a : Place) (p : Position) : Scanner :=
  { cursor := { rest := a.rest, position := p }
    tokens := a.tokens.reverse
    count := a.tokens.length
    indents := a.indents
    keyAllowed := a.key.isSome }

/-- The positions that a place may have. Where no key may start, it lies right of the collections around it. -/
def Fits (a : Place) (p : Position) : Prop :=
  match a.key with
  | some n => p.column = n
  | none => ∀ m ∈ a.indents.head?, m < p.column

/-- The scanner comes from the one place to the other. -/
def Reads (a b : Place) : Prop :=
  ∀ p, a.Fits p → ∃ p', b.Fits p' ∧ (a.scanner p).Continues (b.scanner p')

theorem Reads.trans {a b c : Place} (h : a.Reads b) (h' : b.Reads c) : a.Reads c := by
  intro p hp
  obtain ⟨p₁, hp₁, h⟩ := h p hp
  obtain ⟨p₂, hp₂, h'⟩ := h' p₁ hp₁
  exact ⟨p₂, hp₂, h.trans h'⟩

/-- The scanner fails somewhere behind the place. -/
def Fails (a : Place) : Prop :=
  ∀ p, a.Fits p → ∀ fuel, a.rest.length < fuel → (a.scanner p).run fuel = none

theorem Reads.fails {a b : Place} (h : a.Reads b) (hb : b.Fails) : a.Fails := by
  intro p hp fuel hfuel
  obtain ⟨p', hp', hcontinues⟩ := h p hp
  obtain ⟨fuel', hfuel', hrun⟩ := hcontinues fuel hfuel
  rw [hrun]
  exact hb p' hp' fuel' hfuel'

/-! ## Blanks, comments and line breaks -/

variable {tokens : List Token} {indents : List Nat} {rest : List Char}

theorem continues_lineBreak (key : Option Nat) (p : Position) :
    (scanner ⟨tokens, indents, key, '\n' :: rest⟩ p).Continues
      (scanner ⟨tokens, indents, some 0, rest⟩ (p.newLine 1)) := by
  refine continues_of_skipped_eq ?_ (Nat.le_succ _)
  rw [skipped_eq]
  simp [scanner, pastComment, skipMark, skipBlanks, Cursor.skipWhile, Cursor.skipComment, Cursor.skipBreak?, isBreak,
    afterBreak, inBlock, flowLevel, Cursor.advance_zero]

theorem reads_lineBreak (key : Option Nat) :
    Reads ⟨tokens, indents, key, '\n' :: rest⟩ ⟨tokens, indents, some 0, rest⟩ :=
  fun p _ => ⟨p.newLine 1, rfl, continues_lineBreak key p⟩

theorem reads_space {key : Option Nat} :
    Reads ⟨tokens, indents, key, ' ' :: rest⟩ ⟨tokens, indents, key.map (· + 1), rest⟩ := by
  intro p hp
  refine ⟨p.advance 1, ?_, continues_of_skipped_eq (skipped_eq_of_pastComment_eq ?_) (Nat.le_succ _)⟩
  · cases key with
    | none => exact fun m hm => Nat.lt_succ_of_lt (hp m hm)
    | some n => exact congrArg (· + 1) hp
  · have hmark : (scanner ⟨tokens, indents, key, ' ' :: rest⟩ p).skipMark = scanner _ p := rfl
    have hmark' : (scanner ⟨tokens, indents, key.map (· + 1), rest⟩ (p.advance 1)).skipMark = scanner _ _ :=
      skipMark_eq_self (Nat.succ_ne_zero _)
    rw [pastComment, pastComment, hmark, hmark']
    simp [skipBlanks, scanner, inBlock, flowLevel, Cursor.skipWhile_cons]

theorem reads_comment (key : Option Nat) {text : List Char} (h : text.all (!isBreak ·)) :
    Reads ⟨tokens, indents, key, '#' :: (text ++ '\n' :: rest)⟩ ⟨tokens, indents, some 0, rest⟩ := by
  have hcomment : ∀ p, Cursor.skipComment ⟨'#' :: (text ++ '\n' :: rest), p⟩ =
      ⟨'\n' :: rest, p.advance (text.length + 1)⟩ := by
    intro p
    have htake : ('#' :: (text ++ '\n' :: rest)).takeWhile (fun d => !isBreak d) = '#' :: text := by
      rw [List.takeWhile_cons_of_pos rfl, List.takeWhile_append_of_pos (by simpa using h)]
      simp [isBreak]
    simp [Cursor.skipComment, Cursor.skipWhile, Cursor.advance, htake]
  intro p _
  refine ⟨(p.advance (text.length + 1)).newLine 1, rfl, continues_of_skipped_eq ?_ ?_⟩
  · rw [skipped_eq]
    simp [scanner, pastComment, skipMark, skipBlanks, Cursor.skipWhile, hcomment, Cursor.skipBreak?, isBreak,
      afterBreak, inBlock, flowLevel, Cursor.advance_zero]
  · simp only [scanner, List.length_cons, List.length_append]
    omega

/-! ## Tokens -/

/-- No block collection ends here. -/
theorem unroll_eq_self {s : Scanner} {column : Nat} (h : ∀ m ∈ s.indents.head?, m ≤ column) :
    s.unroll (some column) = s := by
  obtain ⟨cursor, tokens, count, indents, keys, keyAllowed⟩ := s
  cases indents with
  | nil => simp [unroll, closeBlocks]
  | cons m ms =>
    have hm : ¬ column < m := Nat.not_lt.2 (h m rfl)
    simp [unroll, closeBlocks, hm]

theorem next?_scanner {a : Place} {p : Position} (hstart : startsToken a.rest)
    (h : ∀ m ∈ a.indents.head?, m ≤ p.column) : (a.scanner p).next? = (a.scanner p).fetch := by
  have hskipped : (a.scanner p).skipped = a.scanner p := skipped_eq_self hstart
  have hkeys : (a.scanner p).dropStaleKeys = some (a.scanner p) := rfl
  rw [next?, hskipped, hkeys]
  exact congrArg fetch (unroll_eq_self h)

/-- The columns of the open collections once one is open at `column`. -/
def opened (column : Nat) (indents : List Nat) : List Nat :=
  if indents.head? = some column then indents else column :: indents

/-- The token that opens a collection at `column`, if none is open there. -/
def opening (t : Token) (column : Nat) (indents : List Nat) : List Token :=
  if indents.head? = some column then [] else [t]

theorem head?_opened (column : Nat) (indents : List Nat) : (opened column indents).head? = some column := by
  unfold opened
  split
  · assumption
  · rfl

theorem opened_eq_cons {column : Nat} {indents : List Nat} (h : ∀ m ∈ indents.head?, m < column) :
    opened column indents = column :: indents :=
  if_neg fun hhead => Nat.lt_irrefl column (h column hhead)

theorem opening_eq_singleton {column : Nat} {indents : List Nat} (h : ∀ m ∈ indents.head?, m < column) (t : Token) :
    opening t column indents = [t] :=
  if_neg fun hhead => Nat.lt_irrefl column (h column hhead)

/-- The innermost collection does not start right of `column`. -/
theorem roll_eq {s : Scanner} {column : Nat} (hblock : s.inBlock) (h : ∀ m ∈ s.indents.head?, m ≤ column) (n : Nat)
    (t : Token) :
    s.roll column n t =
      if s.indents.head? = some column then s else { s.insert n t with indents := column :: s.indents } := by
  have hindent : s.indent ≤ column ↔ s.indents.head? ≠ some column := by
    cases hs : s.indents with
    | nil => simp [indent, hs]
    | cons m ms =>
      have hm : m ≤ column := h m (by rw [hs]; rfl)
      simp [indent, hs]
      omega
  simp only [roll, hblock, hindent, Bool.true_and, decide_not, Bool.not_eq_true', decide_eq_false_iff_not, ite_not]

/-- `-` and a blank. -/
theorem reads_blockEntry {n : Nat} (h : ∀ m ∈ indents.head?, m ≤ n) :
    Reads ⟨tokens, indents, some n, '-' :: ' ' :: rest⟩
      ⟨tokens ++ opening .blockSequenceStart n indents ++ [.blockEntry], opened n indents, some (n + 1),
        ' ' :: rest⟩ := by
  intro p hp
  cases hp
  refine ⟨p.advance 1, rfl, continues_of_next? ?_ ?_ (Nat.lt_succ_self _)⟩
  · have hfetch : ∀ s : Scanner, s.cursor.rest = '-' :: ' ' :: rest → s.fetch = s.fetchBlockEntry := by
      intro s hs
      simp [fetch, hs, startsDocumentMark, startsBlankOrEnd, isBlank]
    rw [next?_scanner rfl h, hfetch _ rfl, fetchBlockEntry, roll_eq rfl h]
    by_cases hopen : indents.head? = some p.column
    · simp [scanner, inBlock, flowLevel, hopen, dropKey, simpleKey, setKey, pushIndicator, push, Cursor.advance,
        opening, opened]
    · simp [scanner, inBlock, flowLevel, hopen, dropKey, simpleKey, setKey, pushIndicator, push, Cursor.advance,
        opening, opened, Scanner.insert]
  · simp [scanner]

/-- `[]`. -/
theorem reads_brackets :
    Reads ⟨tokens, indents, none, '[' :: ']' :: rest⟩
      ⟨tokens ++ [.flowSequenceStart, .flowSequenceEnd], indents, none, rest⟩ := by
  intro p hp
  have hle : ∀ m ∈ indents.head?, m ≤ p.column := fun m hm => Nat.le_of_lt (hp m hm)
  have hopen : (scanner ⟨tokens, indents, none, '[' :: ']' :: rest⟩ p).next? =
      some { scanner ⟨tokens ++ [.flowSequenceStart], indents, some 0, ']' :: rest⟩ (p.advance 1) with
        keys := [none, none] } := by
    rw [next?_scanner rfl hle]
    simp [scanner, fetch, startsDocumentMark, fetchFlowStart, saveKey, pushIndicator, push, Cursor.advance]
  have hclose : ({ scanner ⟨tokens ++ [.flowSequenceStart], indents, some 0, ']' :: rest⟩ (p.advance 1) with
        keys := [none, none] } : Scanner).next? =
      some (scanner ⟨tokens ++ [.flowSequenceStart, .flowSequenceEnd], indents, none, rest⟩ (p.advance 2)) := by
    rw [next?, skipped_eq_self rfl]
    simp [dropStaleKeys, unroll, inBlock, flowLevel, scanner, fetch, startsDocumentMark, fetchFlowEnd, dropKey,
      simpleKey, setKey, pushIndicator, push, Cursor.advance, Position.advance]
  refine ⟨p.advance 2, fun m hm => Nat.lt_add_right 2 (hp m hm), ?_⟩
  exact (continues_of_next? hopen (by simp [scanner]) (Nat.lt_succ_self _)).trans
    (continues_of_next? hclose (by simp [scanner]) (Nat.lt_succ_self _))

/-- What the scanner does with a double-quoted scalar where no key may start. -/
theorem next?_quoted {quoted : List Char} {p : Position} (h : Fits ⟨tokens, indents, none, '"' :: quoted⟩ p) :
    (scanner ⟨tokens, indents, none, '"' :: quoted⟩ p).next? =
      (readDouble [] {} false (p.advance 1) quoted).map fun scalar =>
        { scanner ⟨tokens ++ [.scalar scalar.text .quoted], indents, none, []⟩ p with cursor := scalar.next } := by
  rw [next?_scanner rfl fun m hm => Nat.le_of_lt (h m hm)]
  simp only [scanner, fetch, startsDocumentMark, fetchQuoted, saveKey]
  cases hread : readDouble [] {} false (p.advance 1) quoted <;> simp [hread, push]

/-- A double-quoted scalar where no key may start, with the line break behind it; the scalar may be of several lines. -/
theorem reads_quotedLine {quoted text : List Char} (hlength : rest.length < quoted.length)
    (h : ∀ p : Position, p.column ≠ 0 → ∃ p',
      readDouble [] {} false p quoted = some { text, next := ⟨'\n' :: rest, p'⟩ }) :
    Reads ⟨tokens, indents, none, '"' :: quoted⟩ ⟨tokens ++ [.scalar text .quoted], indents, some 0, rest⟩ := by
  intro p hp
  obtain ⟨p', hread⟩ := h (p.advance 1) (Nat.succ_ne_zero _)
  have hnext : (scanner ⟨tokens, indents, none, '"' :: quoted⟩ p).next? =
      some (scanner ⟨tokens ++ [.scalar text .quoted], indents, none, '\n' :: rest⟩ p') := by
    rw [next?_quoted hp, hread]
    rfl
  refine ⟨p'.newLine 1, rfl, (continues_of_next? hnext (by simp [scanner]) ?_).trans (continues_lineBreak none p')⟩
  simp only [scanner, List.length_cons]
  omega

/-- A scalar that cannot be read. -/
theorem fails_quoted {quoted : List Char} (h : ∀ p : Position, p.column ≠ 0 → readDouble [] {} false p quoted = none) :
    Fails ⟨tokens, indents, none, '"' :: quoted⟩ := by
  intro p hp fuel _
  cases fuel with
  | zero => rfl
  | succ fuel =>
    rw [run_succ, next?_quoted hp, h _ (Nat.succ_ne_zero _)]
    rfl

theorem ne_of_isLetter {c d : Char} (hc : Text.isLetter c) (hd : Text.isLetter d = false) : c ≠ d := by
  rintro rfl
  exact Bool.false_ne_true (hd.symm.trans hc)

/-- A plain scalar of letters, up to a colon. -/
theorem readPlain_word {word r : List Char} (hword : ∀ c ∈ word, Text.isLetter c) (hr : startsBlankOrEnd r)
    (indent : Nat) (acc : List Char) (p : Position) :
    readPlain false indent acc {} false p (word ++ ':' :: r) =
      some { text := acc.reverse ++ word, next := ⟨':' :: r, p.advance word.length⟩ } := by
  induction word generalizing acc p with
  | nil => simp [readPlain, isBlank, isBreak, isStrayColon, endsPlain, hr, Position.advance]
  | cons c word ih =>
    have hne : ∀ d, Text.isLetter d = false → c ≠ d := fun d => ne_of_isLetter (hword c List.mem_cons_self)
    have hread : readPlain false indent acc {} false p (c :: (word ++ ':' :: r)) =
        readPlain false indent (c :: acc) {} false (p.advance 1) (word ++ ':' :: r) := by
      rw [readPlain]
      · simp (disch := decide) [isBlank, isBreak, isStrayColon, endsPlain, Fold.text, hne]
      · exact fun _ h => absurd h (hne _ (by decide))
    rw [List.cons_append, hread, ih fun d hd => hword d (List.mem_cons_of_mem _ hd)]
    simp [Position.advance, Nat.add_assoc, Nat.add_comm 1]

theorem fetch_eq_fetchPlain {s : Scanner} {c : Char} {r : List Char} (hs : s.cursor.rest = c :: r)
    (hc : Text.isLetter c) : s.fetch = s.fetchPlain := by
  have hne : ∀ d, Text.isLetter d = false → c ≠ d := fun d => ne_of_isLetter hc
  have hmark : startsDocumentMark (c :: r) = false := by
    unfold startsDocumentMark
    split
    case h_1 heq => exact absurd (List.cons.inj heq).1 (hne _ (by decide))
    case h_2 heq => exact absurd (List.cons.inj heq).1 (hne _ (by decide))
    case h_3 => rfl
  simp (disch := decide) [fetch, hs, hmark, startsPlain, isBlank, isBreak, isIndicator, hne]

/-- A key that is a word, and the `:` behind it. -/
theorem reads_key (word : List Char) (hletters : word.all Text.isLetter) (hne : word ≠ [])
    (hlength : word.length ≤ 1024) {n : Nat} (h : ∀ m ∈ indents.head?, m ≤ n) (hrest : startsBlankOrEnd rest) :
    Reads ⟨tokens, indents, some n, word ++ ':' :: rest⟩
      ⟨tokens ++ opening .blockMappingStart n indents ++ [.key, .scalar word .plain, .value], opened n indents, none,
        rest⟩ := by
  intro p hp
  cases hp
  have hword : ∀ c ∈ word, Text.isLetter c := List.all_eq_true.1 hletters
  obtain ⟨c, r, hcons⟩ := List.exists_cons_of_ne_nil hne
  have hc : Text.isLetter c := hword c (by rw [hcons]; exact List.mem_cons_self)
  have hstart : startsToken (word ++ ':' :: rest) := by
    rw [hcons]
    simp (disch := decide) [startsToken, isBlank, isBreak, ne_of_isLetter hc]
  -- the word, with the place where the key may have started
  let start : SimpleKey :=
    { tokens := tokens.length
      position := p
      required := (scanner ⟨[], indents, none, []⟩ p).indent == p.column + 1 }
  let between : Scanner :=
    { cursor := { rest := ':' :: rest, position := p.advance word.length }
      tokens := .scalar word .plain :: tokens.reverse
      count := tokens.length + 1
      indents
      keys := [some start]
      keyAllowed := false }
  have hscalar : (scanner ⟨tokens, indents, some p.column, word ++ ':' :: rest⟩ p).next? = some between := by
    rw [next?_scanner hstart h, fetch_eq_fetchPlain (by rw [hcons]; rfl) hc]
    simp [fetchPlain, scanner, saveKey, inBlock, flowLevel, indent, dropKey, simpleKey, setKey,
      readPlain_word hword hrest, push, between, start]
  have hvalue : between.next? = some (scanner ⟨tokens ++ opening .blockMappingStart p.column indents ++
      [.key, .scalar word .plain, .value], opened p.column indents, none, rest⟩ (p.advance (word.length + 1))) := by
    have hskipped : between.skipped = between := skipped_eq_self rfl
    have hkeys : between.dropStaleKeys = some between := by
      have hlength : ¬ 1024 < word.length := Nat.not_lt.2 hlength
      simp [dropStaleKeys, between, start, isStale, Position.advance, hlength]
    have hunroll : between.unroll (some between.cursor.position.column) = between :=
      unroll_eq_self fun m hm => Nat.le_add_right_of_le (h m hm)
    have hfetch : between.fetch = between.fetchValue := by
      simp [between, fetch, startsDocumentMark, inBlock, flowLevel, hrest]
    have hroll : (between.insert tokens.length .key).roll p.column tokens.length .blockMappingStart =
        { between with
          tokens := .scalar word .plain :: .key ::
            ((opening .blockMappingStart p.column indents).reverse ++ tokens.reverse)
          count := tokens.length + (opening .blockMappingStart p.column indents).length + 2
          indents := opened p.column indents } := by
      rw [roll_eq rfl h]
      by_cases hopen : indents.head? = some p.column
      · simp [between, Scanner.insert, hopen, opening, opened]
      · simp [between, Scanner.insert, hopen, opening, opened, Nat.add_assoc]
    have hfetchValue : between.fetchValue = some (({ ((between.insert tokens.length .key).roll p.column tokens.length
        .blockMappingStart).setKey none with keyAllowed := false } : Scanner).pushIndicator 1 .value) := rfl
    rw [next?, hskipped, hkeys, Option.bind_eq_bind, Option.bind_some, hunroll, hfetch, hfetchValue, hroll]
    simp [between, scanner, setKey, pushIndicator, push, Cursor.advance, Position.advance, Nat.add_assoc]
  have hpositive : 0 < word.length := List.length_pos_iff.2 hne
  refine ⟨p.advance (word.length + 1), ?_, (continues_of_next? hscalar (by simp [between]) ?_).trans
    (continues_of_next? hvalue (by simp [scanner]) (Nat.lt_succ_self _))⟩
  · intro m hm
    rw [head?_opened] at hm
    cases hm
    exact Nat.lt_add_of_pos_right (Nat.succ_pos _)
  · simp only [between, scanner, List.length_append, List.length_cons]
    omega

/-- A block collection that starts right of the next token ends before it. -/
theorem reads_blockEnd {n m : Nat} {ns : List Nat} (hn : n < m) (hstart : startsToken rest) :
    Reads ⟨tokens, m :: ns, some n, rest⟩ ⟨tokens ++ [.blockEnd], ns, some n, rest⟩ := by
  intro p hp
  cases hp
  refine ⟨p, rfl, continues_of_next?_eq ?_ (Nat.le_refl _)⟩
  have hskipped : ∀ tokens indents, (scanner ⟨tokens, indents, some p.column, rest⟩ p).skipped = scanner _ p :=
    fun _ _ => skipped_eq_self hstart
  have hkeys : ∀ a p, (scanner a p).dropStaleKeys = some (scanner a p) := fun _ _ => rfl
  have hunroll : (scanner ⟨tokens, m :: ns, some p.column, rest⟩ p).unroll (some p.column) =
      (scanner ⟨tokens ++ [.blockEnd], ns, some p.column, rest⟩ p).unroll (some p.column) := by
    have hpush : scanner ⟨tokens ++ [.blockEnd], ns, some p.column, rest⟩ p =
        { (scanner ⟨tokens, m :: ns, some p.column, rest⟩ p).push .blockEnd with indents := ns } := by
      simp [scanner, push]
    rw [hpush]
    simp only [unroll, scanner, inBlock, flowLevel, closeBlocks, Option.all_some, decide_eq_true hn, if_true]
    exact (closeBlocks_indents ..).symm
  rw [next?, next?, hskipped, hskipped, hkeys, hkeys]
  exact congrArg fetch hunroll

/-- At the end of the document all collections end. -/
theorem run_eq_of_end {a : Place} {p : Position} (hrest : a.rest = []) {fuel : Nat} (hfuel : 0 < fuel)
    (h : ∀ m ∈ a.indents.head?, m ≤ p.column) :
    (a.scanner p).run fuel = some (a.tokens ++ List.replicate a.indents.length .blockEnd ++ [.streamEnd]) := by
  obtain _ | fuel := fuel
  · exact absurd hfuel (Nat.lt_irrefl 0)
  obtain ⟨tokens, indents, key, rest⟩ := a
  cases hrest
  rw [run_succ, next?_scanner rfl h]
  simp [scanner, fetch, fetchEnd, unroll, inBlock, flowLevel, closeBlocks_none, dropKey, simpleKey, setKey, push]

/-- A document with a character that no document may hold has no tokens. -/
theorem scan?_eq_none_of_not_printable {text : List Char} (hmark : text.head? ≠ some '\uFEFF')
    (h : text.all isPrintable = false) : scan? text = none := by
  unfold scan?
  split
  · exact absurd rfl hmark
  · exact if_neg (by simp [h])

theorem scan?_eq_run {text : List Char} (hprintable : text.all isPrintable) (hmark : text.head? ≠ some '\uFEFF') :
    scan? text = run (text.length + 2) (scanner ⟨[], [], some 0, text⟩ {}) := by
  have hscan : scan? text = run (text.length + 2) { cursor := { rest := text } } := by
    unfold scan?
    split
    · exact absurd rfl hmark
    · exact if_pos hprintable
  exact hscan

/-- The tokens of a document that is read to its end. -/
theorem scan?_eq {text : List Char} {n : Nat} (hprintable : text.all isPrintable)
    (hmark : text.head? ≠ some '\uFEFF') (hreads : Reads ⟨[], [], some 0, text⟩ ⟨tokens, indents, some n, []⟩)
    (h : ∀ m ∈ indents.head?, m ≤ n) :
    scan? text = some (tokens ++ List.replicate indents.length .blockEnd ++ [.streamEnd]) := by
  obtain ⟨p, hp, hcontinues⟩ := hreads {} rfl
  cases hp
  obtain ⟨fuel, hfuel, hrun⟩ := hcontinues (text.length + 2) (Nat.lt_succ_of_lt (Nat.lt_succ_self _))
  have hend : run fuel (scanner ⟨tokens, indents, some p.column, []⟩ p) = _ := run_eq_of_end rfl hfuel h
  exact (scan?_eq_run hprintable hmark).trans (hrun.trans hend)

/-- A document that cannot be read to its end has no tokens. -/
theorem scan?_eq_none {text : List Char} (hmark : text.head? ≠ some '\uFEFF') (h : Fails ⟨[], [], some 0, text⟩) :
    scan? text = none := by
  cases hprintable : text.all isPrintable with
  | true =>
    rw [scan?_eq_run hprintable hmark]
    exact h {} rfl _ (Nat.lt_succ_of_lt (Nat.lt_succ_self _))
  | false => exact scan?_eq_none_of_not_printable hmark hprintable

end Place

end Token

end SchemaMigration.Yaml
