import SchemaMigration.Proofs.InertLiterals
import SchemaMigration.Proofs.Prepared

/-!
# The grammar of placeholders

Which parts of a statement are placeholders, told without a scanner: a quote opens a region, and a `?` or a name after a
single colon is a placeholder where no region is open (`occurrences`). The definition looks at a character with the one
before it and with what comes behind it; the scanner decides about a colon and a name only once they are over. Both
find the same placeholders in the same places (`occurrences_eq`).

Replacing therefore asks once for each placeholder of the grammar, from left to right, and changes the statement in the
places of those for which it gets a text, and nowhere else (`substitute_occurrences`).
-/

namespace SchemaMigration.Placeholder

/-! ## The grammar -/

/-- A placeholder with the number of characters before it. -/
structure Occurrence where
  start : Nat
  placeholder : Placeholder
  deriving Repr, DecidableEq

/-- A placeholder as it is written. -/
def source : Placeholder → List Char
  | positional _ => ['?']
  | named name => ':' :: name

/-- The number of characters up to the end of a placeholder. -/
def Occurrence.stop (o : Occurrence) : Nat :=
  o.start + o.placeholder.source.length

/-- The number of a `?`. -/
def index? : Placeholder → Option Nat
  | positional index => some index
  | named _ => none

/-- A character that opens a region, and closes the one it has opened. -/
def delimits (c : Char) : Bool :=
  ['\'', '"', '\x60'].contains c

/-- A character that a name starts with: an ASCII letter or an underscore. -/
def beginsName (c : Char) : Bool :=
  c.isAlpha || c == '_'

/-- A character that a name goes on with: an ASCII letter, an ASCII digit or an underscore. -/
def continuesName (c : Char) : Bool :=
  c.isAlphanum || c == '_'

mutual

/-- The placeholders of a text outside all regions; `before` is the character in front of it, `start` counts the
characters and `count` the `?` before. -/
def outside (before : Option Char) (start count : Nat) : List Char → List Occurrence
  | [] => []
  | c :: r =>
    if delimits c then inside c (start + 1) count r
    else if c = '?' then ⟨start, positional count⟩ :: outside (some c) (start + 1) (count + 1) r
    else if c = ':' ∧ before ≠ some ':' ∧ r.head?.any beginsName then
      -- the name itself holds no placeholder
      ⟨start, named (r.takeWhile continuesName)⟩ :: outside (some c) (start + 1) count r
    else outside (some c) (start + 1) count r

/-- The placeholders of a text in a region that `quote` closes. -/
def inside (quote : Char) (start count : Nat) : List Char → List Occurrence
  | [] => []
  | c :: r =>
    if c = quote then outside (some c) (start + 1) count r
    else if c = '\\' ∧ quote ≠ '\x60' then
      match r with
      | [] => []
      | _ :: r => inside quote (start + 2) count r
    else inside quote (start + 1) count r

end

/-- Where a statement has its placeholders. -/
def occurrences (sql : List Char) : List Occurrence :=
  outside none 0 0 sql

/-- The placeholders of a statement, from left to right. -/
def placeholders (sql : List Char) : List Placeholder :=
  (occurrences sql).map Occurrence.placeholder

example : placeholders "a = :a:_1é, b = x::b, c = ':c\\'?', `d\\` = ?:2".toList =
    [named ['a'], named ['_', '1'], positional 0] := by decide +kernel

/-! ## The scanner keeps to the grammar -/

theorem delimits_eq (c : Char) : delimits c = isQuote c := by
  simp [delimits, isQuote, Text.backtick, Bool.or_assoc, Bool.beq_eq_decide_eq]

theorem isAlpha_eq (c : Char) : c.isAlpha = Text.isLetter c := by
  have hupper : c.isUpper = ('A' ≤ c && c ≤ 'Z') := Bool.decide_and _ _
  calc c.isAlpha
    _ = (c.isLower || c.isUpper) := Bool.or_comm _ _
    _ = Text.isLetter c := by rw [hupper]; rfl

theorem isDigit_eq (c : Char) : c.isDigit = Text.isDigit c := rfl

theorem beginsName_eq (c : Char) : beginsName c = isNameStart c := by
  rw [beginsName, isNameStart, isAlpha_eq]

theorem continuesName_eq (c : Char) : continuesName c = isNameChar c := by
  rw [continuesName, isNameChar, Char.isAlphanum, isAlpha_eq, isDigit_eq]

/-- The placeholders among pieces. -/
def occurrencesOf (start count : Nat) : List Piece → List Occurrence
  | [] => []
  | .char _ :: ps => occurrencesOf (start + 1) count ps
  | .question :: ps => ⟨start, positional count⟩ :: occurrencesOf (start + 1) (count + 1) ps
  | .name cs :: ps => ⟨start, named cs⟩ :: occurrencesOf (start + (cs.length + 1)) count ps

/-- A character of a name is one of no special meaning where no name is read. -/
theorem stepOutside_of_isNameChar (afterColon : Bool) {c : Char} (h : isNameChar c) :
    Scanner.stepOutside afterColon c = ([.char c], .outside false) := by
  have hquote : isQuote c = false := by
    by_contra hq
    rw [Scanner.isNameChar_eq_false_of_isQuote (Bool.eq_true_of_not_eq_false hq)] at h
    cases h
  have hne : ∀ {d}, isNameChar d = false → c ≠ d := by
    rintro d hd rfl
    rw [hd] at h
    cases h
  simp [Scanner.stepOutside, hquote, hne (d := '?') (by decide), hne (d := ':') (by decide)]

/-- A name goes as far as its characters do, and what is behind it is read as if the name were ordinary text. -/
theorem occurrencesOf_name (start count : Nat) (reversed r : List Char) :
    occurrencesOf start count ((Scanner.name reversed).pieces r) =
      ⟨start, named (reversed.reverse ++ r.takeWhile isNameChar)⟩ ::
        occurrencesOf (start + (reversed.length + 1)) count ((Scanner.outside false).pieces r) := by
  induction r generalizing reversed with
  | nil => simp [Scanner.pieces, Scanner.finish, occurrencesOf]
  | cons c r ih =>
    by_cases hc : isNameChar c = true
    · have hname : (Scanner.name reversed).step c = ([], .name (c :: reversed)) := by simp [Scanner.step, hc]
      have houtside : (Scanner.outside false).step c = ([.char c], .outside false) := stepOutside_of_isNameChar false hc
      rw [Scanner.pieces_cons, Scanner.pieces_cons, hname, houtside, List.nil_append, ih]
      simp [occurrencesOf, hc, Nat.add_assoc]
    · rw [Scanner.pieces_name (Bool.eq_false_iff.2 hc)]
      simp [occurrencesOf, hc]

/-- A colon with a name behind it. -/
theorem occurrencesOf_colon (start count : Nat) {r : List Char} (h : r.head?.any isNameStart) :
    occurrencesOf start count (Scanner.colon.pieces r) =
      ⟨start, named (r.takeWhile isNameChar)⟩ :: occurrencesOf (start + 1) count ((Scanner.outside true).pieces r) := by
  cases r with
  | nil => cases h
  | cons c r =>
    have hstart : isNameStart c := h
    have hc := Scanner.isNameChar_of_isNameStart hstart
    have hcolon : Scanner.colon.step c = ([], .name [c]) := by simp [Scanner.step, hstart]
    have houtside : (Scanner.outside true).step c = ([.char c], .outside false) := stepOutside_of_isNameChar true hc
    rw [Scanner.pieces_cons, Scanner.pieces_cons, hcolon, houtside, List.nil_append, occurrencesOf_name]
    simp [occurrencesOf, hc]

section

variable {c : Char} {r : List Char}

/-- One character outside regions. -/
theorem outside_cons (before : Option Char) (start count : Nat)
    (houtside : ∀ before start count,
      outside before start count r = occurrencesOf start count ((Scanner.outside (before == some ':')).pieces r))
    (hinside : ∀ quote start count, isQuote quote →
      inside quote start count r = occurrencesOf start count ((Scanner.quoted quote).pieces r)) :
    outside before start count (c :: r) =
      occurrencesOf start count ((Scanner.outside (before == some ':')).pieces (c :: r)) := by
  rw [outside, delimits_eq, Scanner.pieces_cons, Scanner.step]
  by_cases hquote : isQuote c = true
  · simp [hquote, Scanner.stepOutside, occurrencesOf, hinside]
  rw [if_neg hquote]
  by_cases hquestion : c = '?'
  · subst hquestion
    rw [if_pos rfl, houtside]
    rfl
  rw [if_neg hquestion]
  by_cases hcolon : c = ':'
  · subst hcolon
    cases hbefore : before == some ':' with
    | true =>
      rw [if_neg (by simp_all), houtside]
      rfl
    | false =>
      have hbefore : before ≠ some ':' := by simpa using hbefore
      have hstep : Scanner.stepOutside false ':' = ([], .colon) := rfl
      rw [hstep, List.nil_append, houtside]
      -- what stands behind the colon tells whether it starts a name
      by_cases hname : r.head?.any isNameStart = true
      · have hbegins : r.head?.any beginsName = true := by rwa [funext beginsName_eq]
        rw [if_pos ⟨rfl, hbefore, hbegins⟩, funext continuesName_eq, occurrencesOf_colon start count hname]
        rfl
      · have hbegins : ¬ r.head?.any beginsName = true := by rwa [funext beginsName_eq]
        have hhead : ∀ d ∈ r.head?, isNameStart d = false := by
          cases r <;> simp_all
        rw [if_neg fun h => hbegins h.2.2, Scanner.pieces_colon hhead]
        rfl
  · have hbeq : (some c == some ':') = false := by simpa using hcolon
    rw [if_neg fun h => hcolon h.1, houtside, hbeq]
    simp [hquote, hquestion, hcolon, Scanner.stepOutside, occurrencesOf]

/-- One character in a region. -/
theorem inside_cons {quote : Char} (hopen : isQuote quote) (start count : Nat)
    (houtside : ∀ before start count,
      outside before start count r = occurrencesOf start count ((Scanner.outside (before == some ':')).pieces r))
    (hinside : ∀ quote start count, isQuote quote →
      inside quote start count r = occurrencesOf start count ((Scanner.quoted quote).pieces r))
    (hescaped : ∀ quote start count, isQuote quote →
      inside quote (start + 1) count r.tail = occurrencesOf start count ((Scanner.escaped quote).pieces r)) :
    inside quote start count (c :: r) = occurrencesOf start count ((Scanner.quoted quote).pieces (c :: r)) := by
  have hgrammar : inside quote start count (c :: r) =
      if c = quote then outside (some c) (start + 1) count r
      else if c = '\\' ∧ quote ≠ '\x60' then inside quote (start + 2) count r.tail
      else inside quote (start + 1) count r := by
    cases r <;> simp only [inside, List.tail_nil, List.tail_cons]
  rw [hgrammar, Scanner.pieces_cons]
  by_cases hclose : c = quote
  · subst hclose
    have hstep : (Scanner.quoted c).step c = ([.char c], .outside false) := by simp [Scanner.step]
    have hbefore : (some c == some ':') = false := by
      rw [beq_eq_false_iff_ne]
      rintro ⟨rfl⟩
      cases hopen
    rw [if_pos rfl, houtside, hbefore, hstep]
    rfl
  rw [if_neg hclose]
  by_cases hslash : c = '\\' ∧ quote ≠ '\x60'
  · obtain ⟨rfl, hquote⟩ := hslash
    have hstep : (Scanner.quoted quote).step '\\' = ([.char '\\'], .escaped quote) := by
      simp [Scanner.step, hclose, Text.backtick, hquote]
    rw [if_pos ⟨rfl, hquote⟩, hescaped quote (start + 1) count hopen, hstep]
    rfl
  · have hstep : (Scanner.quoted quote).step c = ([.char c], .quoted quote) := by
      simpa [Scanner.step, hclose, Text.backtick] using hslash
    rw [if_neg hslash, hinside quote (start + 1) count hopen, hstep]
    rfl

theorem occurrencesOf_pieces (cs : List Char) :
    (∀ before start count,
      outside before start count cs = occurrencesOf start count ((Scanner.outside (before == some ':')).pieces cs)) ∧
    (∀ quote start count, isQuote quote →
      inside quote start count cs = occurrencesOf start count ((Scanner.quoted quote).pieces cs)) ∧
    ∀ quote start count, isQuote quote →
      inside quote (start + 1) count cs.tail = occurrencesOf start count ((Scanner.escaped quote).pieces cs) := by
  induction cs with
  | nil => simp [outside, inside, Scanner.pieces, Scanner.finish, occurrencesOf]
  | cons c r ih =>
    obtain ⟨houtside, hinside, hescaped⟩ := ih
    refine ⟨fun before start count => outside_cons before start count houtside hinside,
      fun quote start count hopen => inside_cons hopen start count houtside hinside hescaped,
      fun quote start count hopen => ?_⟩
    rw [List.tail_cons, hinside quote _ _ hopen]
    rfl

end

/-- The placeholders of the grammar are those among the pieces that the scanner gives. -/
theorem occurrences_eq (sql : List Char) : occurrences sql = occurrencesOf 0 0 (pieces sql) :=
  (occurrencesOf_pieces sql).1 none 0 0

section

variable {start count : Nat} {ps : List Piece}

theorem le_start_of_mem {o : Occurrence} (h : o ∈ occurrencesOf start count ps) : start ≤ o.start := by
  induction ps generalizing start count with
  | nil => cases h
  | cons p ps ih =>
    cases p with
    | char c => exact Nat.le_of_succ_le (ih h)
    | question | name cs =>
      rcases List.mem_cons.1 h with rfl | h
      · exact Nat.le_refl _
      · exact Nat.le_trans (Nat.le_add_right _ _) (ih h)

/-- Placeholders lie one behind the other. -/
theorem pairwise_occurrencesOf (start count : Nat) (ps : List Piece) :
    (occurrencesOf start count ps).Pairwise fun o other => o.stop ≤ other.start := by
  induction ps generalizing start count with
  | nil => exact .nil
  | cons p ps ih =>
    cases p with
    | char c => exact ih ..
    | question | name cs => exact .cons (fun _ h => le_start_of_mem h) (ih ..)

/-- A placeholder stands in the text where it is said to. -/
theorem source_prefix_drop {o : Occurrence} (h : o ∈ occurrencesOf start count ps) :
    o.placeholder.source <+: (ps.flatMap Piece.chars).drop (o.start - start) := by
  induction ps generalizing start count with
  | nil => cases h
  | cons p ps ih =>
    -- behind the first piece, what is left of the text is the text of the other pieces
    have hrest {count : Nat} (h : o ∈ occurrencesOf (start + p.chars.length) count ps) :
        o.placeholder.source <+: (p.chars ++ ps.flatMap Piece.chars).drop (o.start - start) := by
      have hle := le_start_of_mem h
      rw [List.drop_append, List.drop_of_length_le (by omega), List.nil_append, Nat.sub_sub]
      exact ih h
    rw [List.flatMap_cons]
    cases p with
    | char c => exact hrest h
    | question | name cs =>
      rcases List.mem_cons.1 h with rfl | h
      · simp [source, Piece.chars]
      · exact hrest h

/-- The `?` are numbered in their order. -/
theorem filterMap_index?_occurrencesOf (start count : Nat) (ps : List Piece) :
    ((occurrencesOf start count ps).map Occurrence.placeholder).filterMap index? =
      List.range' count (ps.count .question) := by
  induction ps generalizing start count with
  | nil => rfl
  | cons p ps ih =>
    cases p with
    | char c => simp [occurrencesOf, ih]
    | question => simp [occurrencesOf, index?, ih, List.range'_succ]
    | name cs => simp [occurrencesOf, index?, ih, List.filterMap_cons]

end

/-! ## Replacing -/

/-- A text behind its first `position` characters with some of its placeholders, which lie in it one behind the other,
replaced: those with a text beside them by that text. All other characters stay. -/
def replaced (position : Nat) (text : List Char) : List (Occurrence × Option (List Char)) → List Char
  | [] => text
  | (_, none) :: rest => replaced position text rest
  | (o, some new) :: rest =>
    text.take (o.start - position) ++ (new ++ replaced o.stop (text.drop (o.stop - position)) rest)

section

variable {σ : Type} (replace : Placeholder → σ → Option (List Char) × σ)

/-- What `replace` gives for one placeholder after the other, and the state after the last one. -/
def ask (state : σ) (ps : List Placeholder) : List (Option (List Char)) × σ :=
  ps.mapM (m := StateM σ) replace state

theorem ask_nil (state : σ) : ask replace state [] = ([], state) := rfl

theorem ask_cons (state : σ) (p : Placeholder) (ps : List Placeholder) :
    ask replace state (p :: ps) =
      ((replace p state).1 :: (ask replace (replace p state).2 ps).1, (ask replace (replace p state).2 ps).2) := by
  rw [ask, List.mapM_cons]
  rfl

/-- What stands before all placeholders stays. -/
theorem replaced_append (before : List Char) {position : Nat} {found : List (Occurrence × Option (List Char))}
    (h : ∀ o ∈ found, position + before.length ≤ o.1.start) (text : List Char) :
    replaced position (before ++ text) found = before ++ replaced (position + before.length) text found := by
  induction found with
  | nil => rfl
  | cons o found ih =>
    obtain ⟨ho, hfound⟩ := List.forall_mem_cons.1 h
    obtain ⟨o, _ | new⟩ := o
    · exact ih hfound
    · have hstart : o.start - position - before.length = o.start - (position + before.length) := Nat.sub_sub ..
      have hstop : o.stop - position - before.length = o.stop - (position + before.length) := Nat.sub_sub ..
      have hlength : before.length ≤ o.start - position := by simp only at ho; omega
      have hlength' : before.length ≤ o.stop - position := by simp only [Occurrence.stop] at ho ⊢; omega
      rw [replaced, replaced, List.take_append, List.drop_append, List.take_of_length_le hlength,
        List.drop_of_length_le hlength', hstart, hstop, List.nil_append, List.append_assoc]

/-- The first placeholder is replaced if there is a text for it. -/
theorem replaced_cons {o : Occurrence} {found : List (Occurrence × Option (List Char))}
    (h : ∀ other ∈ found, o.stop ≤ other.1.start) (new : Option (List Char)) (text : List Char) :
    replaced o.start (o.placeholder.source ++ text) ((o, new) :: found) =
      new.getD o.placeholder.source ++ replaced o.stop text found := by
  cases new with
  | none => exact replaced_append o.placeholder.source h text
  | some new =>
    have hstop : o.stop - o.start = o.placeholder.source.length := Nat.add_sub_cancel_left ..
    simp [replaced, hstop]

/-- Putting pieces together again replaces the placeholders among them. -/
theorem fill_eq (start count : Nat) (state : σ) (ps : List Piece) :
    fill replace count state ps =
      (replaced start (ps.flatMap Piece.chars) ((occurrencesOf start count ps).zip
          (ask replace state ((occurrencesOf start count ps).map Occurrence.placeholder)).1),
        (ask replace state ((occurrencesOf start count ps).map Occurrence.placeholder)).2) := by
  have hlater : ∀ {start count ps} {texts : List (Option (List Char))},
      ∀ o ∈ (occurrencesOf start count ps).zip texts, start ≤ o.1.start :=
    fun _ ho => le_start_of_mem (List.of_mem_zip ho).1
  induction ps generalizing start count state with
  | nil => rfl
  | cons p ps ih =>
    cases p with
    | char c =>
      rw [fill, ih (start + 1)]
      exact Prod.ext (replaced_append [c] hlater _).symm rfl
    | question =>
      have hfill : fill replace count state (.question :: ps) =
          ((replace (positional count) state).1.getD ['?'] ++
              (fill replace (count + 1) (replace (positional count) state).2 ps).1,
            (fill replace (count + 1) (replace (positional count) state).2 ps).2) := rfl
      rw [hfill, ih (start + 1), occurrencesOf, List.map_cons, ask_cons, List.zip_cons_cons]
      exact Prod.ext (replaced_cons (o := ⟨start, positional count⟩) hlater _ _).symm rfl
    | name cs =>
      have hfill : fill replace count state (.name cs :: ps) =
          ((replace (named cs) state).1.getD (':' :: cs) ++ (fill replace count (replace (named cs) state).2 ps).1,
            (fill replace count (replace (named cs) state).2 ps).2) := rfl
      rw [hfill, ih (start + (cs.length + 1)), occurrencesOf, List.map_cons, ask_cons, List.zip_cons_cons]
      exact Prod.ext (replaced_cons (o := ⟨start, named cs⟩) hlater _ _).symm rfl

/-- Where there is never a text, the pieces stay as they are. -/
theorem fill_declined (next : Placeholder → σ → σ) (count : Nat) (state : σ) (ps : List Piece) :
    (fill (fun p state => (none, next p state)) count state ps).1 = ps.flatMap Piece.chars := by
  induction ps generalizing count state with
  | nil => rfl
  | cons p ps ih => cases p <;> simp [fill, ih, Piece.chars]

/-- Replacing asks for each placeholder of the grammar once, from left to right, and replaces those for which there is a
text. They lie one behind the other in the places that the grammar gives, and the `?` are numbered from zero. Where
there is no text for any of them the statement stays. -/
theorem substitute_occurrences (state : σ) (sql : List Char) :
    substitute replace state sql =
        (replaced 0 sql ((occurrences sql).zip (ask replace state (placeholders sql)).1),
          (ask replace state (placeholders sql)).2) ∧
      ((occurrences sql).Pairwise fun o other => o.stop ≤ other.start) ∧
      (∀ o ∈ occurrences sql, o.placeholder.source <+: sql.drop o.start) ∧
      (∃ n, (placeholders sql).filterMap index? = List.range n) ∧
      ∀ next : Placeholder → σ → σ, (substitute (fun p state => (none, next p state)) state sql).1 = sql := by
  have hfill := fill_eq replace 0 0 state (pieces sql)
  have hindices := filterMap_index?_occurrencesOf 0 0 (pieces sql)
  rw [flatMap_chars_pieces, ← occurrences_eq] at hfill
  rw [← occurrences_eq, ← List.range_eq_range'] at hindices
  refine ⟨hfill, ?_, fun o ho => ?_, ⟨_, hindices⟩, fun next => ?_⟩
  · rw [occurrences_eq]
    exact pairwise_occurrencesOf 0 0 (pieces sql)
  · rw [occurrences_eq] at ho
    have hsource := source_prefix_drop ho
    rwa [flatMap_chars_pieces] at hsource
  · rw [substitute, fill_declined, flatMap_chars_pieces]

end

end SchemaMigration.Placeholder
