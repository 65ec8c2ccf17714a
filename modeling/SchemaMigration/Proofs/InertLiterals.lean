import SchemaMigration.Script.Statement
import SchemaMigration.Proofs.ShortestDecimal

/-!
# Literals change nothing around them

Which characters of a statement stand in quotes is told by `Scanner.marks`; a `?` that does not is open, and these are
the placeholders of a list of values (`count_question_pieces`). A literal leaves the scanner outside quotes, where it
found it, and has no open `?` (`BoundValue.exists_literal`). So writing values over the open `?` of a statement
(`writeOver`) leaves the marks of all other characters as they were, and rendering does just that
(`render_positional`, `marks_chars_writeOver`).

What one list of values leaves open the next one fills, as if both were one list (`render_append`).
-/

namespace SchemaMigration

namespace Placeholder

/-- A character of a text, and whether it stands in quotes: so does the quote that closes a region, and the one that
opens it does not. -/
structure Mark where
  char : Char
  isQuoted : Bool
  deriving Repr, DecidableEq

/-- A `?` outside quotes. -/
def Mark.isOpen (m : Mark) : Bool :=
  m.char == '?' && !m.isQuoted

namespace Scanner

/-- The scanner stands in quotes. -/
def isQuoted : Scanner → Bool
  | quoted _ | escaped _ => true
  | outside _ | colon | name _ => false

/-- The characters of a text that the scanner reads from where it stands, with their marks. -/
def marks (s : Scanner) : List Char → List Mark
  | [] => []
  | c :: r => { char := c, isQuoted := s.isQuoted } :: (s.step c).2.marks r

/-- Where the scanner stands after a text. -/
def after (s : Scanner) (cs : List Char) : Scanner :=
  cs.foldl (fun s c => (s.step c).2) s

@[simp]
theorem after_nil (s : Scanner) : s.after [] = s := rfl

@[simp]
theorem after_cons (s : Scanner) (c : Char) (r : List Char) : s.after (c :: r) = (s.step c).2.after r := rfl

@[simp]
theorem chars_marks (s : Scanner) (cs : List Char) : (s.marks cs).map Mark.char = cs := by
  induction cs generalizing s with
  | nil => rfl
  | cons c r ih => rw [marks, List.map_cons, ih]

theorem after_append (s : Scanner) (cs ds : List Char) : s.after (cs ++ ds) = (s.after cs).after ds :=
  List.foldl_append

theorem marks_append (s : Scanner) (cs ds : List Char) : s.marks (cs ++ ds) = s.marks cs ++ (s.after cs).marks ds := by
  induction cs generalizing s with
  | nil => rfl
  | cons c r ih => rw [List.cons_append, marks, marks, ih, List.cons_append, after_cons]

/-! ### Outside quotes -/

section

variable {s t : Scanner}

theorem isNameChar_of_isNameStart {c : Char} (h : isNameStart c) : isNameChar c := by
  simp only [isNameStart, Bool.or_eq_true] at h
  rcases h with h | h <;> simp [isNameChar, h]

theorem isNameChar_eq_false_of_isQuote {c : Char} (h : isQuote c) : isNameChar c = false := by
  simp only [isQuote, Bool.or_eq_true, beq_iff_eq] at h
  rcases h with (rfl | rfl) | rfl <;> decide

theorem isNameStart_eq_false {c : Char} (h : isNameChar c = false) : isNameStart c = false :=
  Bool.eq_false_iff.2 fun hstart => by rw [isNameChar_of_isNameStart hstart] at h; cases h

/-- Outside quotes, a character that goes on with no name is read like any other one there, after what was pending. -/
theorem step_of_not_isNameChar (hs : s.isQuoted = false) {c : Char} (hc : isNameChar c = false) :
    ∃ afterColon, s.step c = (s.finish ++ (stepOutside afterColon c).1, (stepOutside afterColon c).2) := by
  cases s with
  | outside afterColon => exact ⟨afterColon, rfl⟩
  | colon => exact ⟨true, by simp [step, isNameStart_eq_false hc, finish]⟩
  | name reversed => exact ⟨false, by simp [step, hc, finish]⟩
  | quoted q | escaped q => cases hs

theorem step_quote (hs : s.isQuoted = false) {c : Char} (hc : isQuote c) : (s.step c).2 = quoted c := by
  obtain ⟨afterColon, hstep⟩ := step_of_not_isNameChar hs (isNameChar_eq_false_of_isQuote hc)
  simp [hstep, stepOutside, hc]

/-- An open `?` ends what was pending. -/
theorem step_question (hs : s.isQuoted = false) : s.step '?' = (s.finish ++ [.question], outside false) := by
  obtain ⟨afterColon, hstep⟩ := step_of_not_isNameChar hs (c := '?') (by decide)
  rw [hstep]
  rfl

/-- Outside quotes, only a quote opens a quoted region. -/
theorem isQuoted_step (hs : s.isQuoted = false) {c : Char} (hc : isQuote c = false) :
    (s.step c).2.isQuoted = false := by
  have houtside : ∀ afterColon, (stepOutside afterColon c).2.isQuoted = false := by
    intro afterColon
    rw [stepOutside, if_neg (by simp [hc])]
    split
    · rfl
    · split
      · cases afterColon <;> rfl
      · rfl
  by_cases hname : isNameChar c = true
  · cases s with
    | outside afterColon => exact houtside afterColon
    | colon =>
      by_cases hstart : isNameStart c = true
      · simp [step, hstart, isQuoted]
      · simpa [step, hstart] using houtside true
    | name reversed => simp [step, hname, isQuoted]
    | quoted q | escaped q => cases hs
  · obtain ⟨afterColon, hstep⟩ := step_of_not_isNameChar hs (Bool.eq_false_iff.2 hname)
    rw [hstep]
    exact houtside afterColon

/-- What stands in quotes does not depend on names and colons before it. -/
theorem marks_congr (hs : s.isQuoted = false) (ht : t.isQuoted = false) (cs : List Char) : s.marks cs = t.marks cs := by
  induction cs generalizing s t with
  | nil => rfl
  | cons c r ih =>
    rw [marks, marks, hs, ht]
    by_cases hc : isQuote c = true
    · rw [step_quote hs hc, step_quote ht hc]
    · have hquote : isQuote c = false := Bool.eq_false_iff.2 hc
      rw [ih (isQuoted_step hs hquote) (isQuoted_step ht hquote)]

end

/-! ### Open question marks are pieces -/

theorem question_notMem_finish (s : Scanner) : .question ∉ s.finish := by
  cases s <;> simp [finish]

theorem question_notMem_stepOutside (afterColon : Bool) {c : Char} (hc : c ≠ '?') :
    .question ∉ (stepOutside afterColon c).1 := by
  unfold stepOutside
  split
  · simp
  · rw [if_neg (by simpa using hc)]
    split
    · cases afterColon <;> simp
    · simp

/-- No other character gives a `?`. -/
theorem question_notMem_step {s : Scanner} {c : Char} (h : Mark.isOpen ⟨c, s.isQuoted⟩ = false) :
    .question ∉ (s.step c).1 := by
  cases hs : s.isQuoted with
  | true =>
    cases s with
    | outside afterColon | colon | name reversed => cases hs
    | escaped q => simp [step]
    | quoted q =>
      simp only [step]
      split
      · simp
      · split <;> simp
  | false =>
    have hc : c ≠ '?' := by simpa [Mark.isOpen, hs] using h
    by_cases hname : isNameChar c = true
    · cases s with
      | outside afterColon => exact question_notMem_stepOutside afterColon hc
      | colon =>
        by_cases hstart : isNameStart c = true
        · simp [step, hstart]
        · simpa [step, hstart] using question_notMem_stepOutside true hc
      | name reversed => simp [step, hname]
      | quoted q | escaped q => cases hs
    · obtain ⟨afterColon, hstep⟩ := step_of_not_isNameChar hs (Bool.eq_false_iff.2 hname)
      rw [hstep]
      simp only [List.mem_append, not_or]
      exact ⟨s.question_notMem_finish, question_notMem_stepOutside afterColon hc⟩

/-- The step at an open `?`. -/
theorem step_of_isOpen {s : Scanner} {c : Char} (h : Mark.isOpen ⟨c, s.isQuoted⟩) :
    c = '?' ∧ s.step c = (s.finish ++ [.question], outside false) := by
  obtain ⟨hc, hs⟩ : c = '?' ∧ s.isQuoted = false := by simpa [Mark.isOpen] using h
  subst hc
  exact ⟨rfl, step_question hs⟩

theorem count_question_pieces (s : Scanner) (cs : List Char) :
    (s.pieces cs).count .question = (s.marks cs).countP Mark.isOpen := by
  induction cs generalizing s with
  | nil => simp [pieces, marks, List.count_eq_zero.2 s.question_notMem_finish]
  | cons c r ih =>
    rw [pieces, marks, List.count_append, ih, List.countP_cons]
    cases h : Mark.isOpen ⟨c, s.isQuoted⟩ with
    | true =>
      obtain ⟨-, hstep⟩ := step_of_isOpen h
      simp [hstep, List.count_eq_zero.2 s.question_notMem_finish, Nat.add_comm]
    | false => simp [List.count_eq_zero.2 (question_notMem_step h)]

end Scanner

/-- The characters of a statement with their marks. -/
def marks (sql : List Char) : List Mark :=
  (Scanner.outside false).marks sql

/-- The `?` placeholders of a statement are its open `?`. -/
theorem count_question_pieces (sql : List Char) : (pieces sql).count .question = (marks sql).countP Mark.isOpen :=
  Scanner.count_question_pieces _ sql

/-! ## Inert texts -/

/-- A text that can stand outside quotes in any statement: it leaves the scanner outside quotes, and has no open `?`. -/
structure IsInert (text : List Char) : Prop where
  after : ((Scanner.outside false).after text).isQuoted = false
  noneOpen : ∀ m ∈ marks text, m.isOpen = false

/-- A character that neither opens quotes nor is a placeholder. -/
def isBare (c : Char) : Bool :=
  !isQuote c && c != '?'

theorem isInert_of_bare {text : List Char} (h : text.all isBare) : IsInert text := by
  have hread : ∀ s : Scanner, s.isQuoted = false →
      (s.after text).isQuoted = false ∧ ∀ m ∈ s.marks text, m.isOpen = false := by
    induction text with
    | nil => exact fun s hs => ⟨hs, by simp [Scanner.marks]⟩
    | cons c r ih =>
      intro s hs
      obtain ⟨hc, hr⟩ := Bool.and_eq_true_iff.1 (List.all_cons.symm.trans h)
      obtain ⟨hquote, hquestion⟩ : isQuote c = false ∧ c ≠ '?' := by simpa [isBare] using hc
      obtain ⟨hafter, hmarks⟩ := ih hr _ (Scanner.isQuoted_step hs hquote)
      exact ⟨hafter, List.forall_mem_cons.2 ⟨by simp [Mark.isOpen, hquestion], hmarks⟩⟩
  obtain ⟨hafter, hmarks⟩ := hread (.outside false) rfl
  exact ⟨hafter, hmarks⟩

open Text (doubleWhere isLiteralSpecial) in
/-- What stands between the quotes of a literal keeps the scanner between them. -/
theorem read_doubleWhere (value : List Char) :
    (Scanner.quoted '\'').after (doubleWhere isLiteralSpecial value) = .quoted '\'' ∧
      ∀ m ∈ (Scanner.quoted '\'').marks (doubleWhere isLiteralSpecial value), m.isOpen = false := by
  have hbacktick : ('\'' : Char) ≠ Text.backtick := by decide
  induction value with
  | nil => exact ⟨rfl, by simp [Scanner.marks]⟩
  | cons c value ih =>
    obtain ⟨hafter, hmarks⟩ := ih
    rw [Text.doubleWhere_cons]
    by_cases hquote : c = '\''
    · subst hquote
      -- the first quote closes the region and the second one opens it again
      refine ⟨hafter, ?_⟩
      simpa [isLiteralSpecial, Scanner.marks, Scanner.step, Scanner.stepOutside, isQuote, Mark.isOpen] using hmarks
    by_cases hslash : c = '\\'
    · subst hslash
      refine ⟨hafter, ?_⟩
      simpa [isLiteralSpecial, Scanner.marks, Scanner.step, Mark.isOpen, Scanner.isQuoted, hbacktick] using hmarks
    · have hstep : ((Scanner.quoted '\'').step c).2 = .quoted '\'' := by simp [Scanner.step, hquote, hslash]
      have hspecial : isLiteralSpecial c = false := by simp [isLiteralSpecial, hquote, hslash]
      simp only [hspecial, Bool.false_eq_true, if_false, List.singleton_append, Scanner.after_cons, Scanner.marks,
        hstep, List.forall_mem_cons]
      exact ⟨hafter, by simp [Mark.isOpen, Scanner.isQuoted], hmarks⟩

theorem isInert_literalChars (value : List Char) : IsInert (Text.literalChars value) := by
  obtain ⟨hafter, hmarks⟩ := read_doubleWhere value
  have hopening : (Scanner.outside false).step '\'' = ([.char '\''], .quoted '\'') := rfl
  constructor
  · rw [Text.literalChars, Scanner.after_cons, hopening, Scanner.after_append, hafter]
    rfl
  · rw [marks, Text.literalChars, Scanner.marks, hopening, Scanner.marks_append, hafter, List.forall_mem_cons,
      List.forall_mem_append]
    exact ⟨rfl, hmarks, by simp [Scanner.marks, Mark.isOpen]⟩

/-! ## Literals -/

theorem isBare_of_isDigit {c : Char} (h : Text.isDigit c) : isBare c := by
  simp only [isBare, isQuote, Bool.and_eq_true, Bool.not_eq_true', Bool.or_eq_false_iff, beq_eq_false_iff_ne,
    bne_iff_ne]
  refine ⟨⟨⟨?_, ?_⟩, ?_⟩, ?_⟩ <;> rintro rfl <;> revert h <;> decide

end Placeholder

theorem Number.Decimal.mem_positional {d : Decimal} {c : Char} (h : c ∈ d.positional) : Text.isDigit c ∨ c = '.' := by
  have hdigits : ∀ c ∈ Text.natText d.digits, Text.isDigit c := fun _ => isDigit_of_mem_natText
  have hzeros : ∀ {n c}, c ∈ List.replicate n '0' → Text.isDigit c := fun hc => by
    rw [List.eq_of_mem_replicate hc]
    decide
  unfold positional at h
  dsimp only at h
  split at h
  · rcases List.mem_append.1 h with h | h
    · exact .inl (hdigits c h)
    · exact .inl (hzeros h)
  · split at h
    · rcases List.mem_append.1 h with h | h
      · exact .inl (hdigits c (List.mem_of_mem_take h))
      · rcases List.mem_cons.1 h with rfl | h
        · exact .inr rfl
        · exact .inl (hdigits c (List.mem_of_mem_drop h))
    · simp only [List.mem_cons, List.mem_append] at h
      rcases h with rfl | rfl | h | h
      · exact .inl (by decide)
      · exact .inr rfl
      · exact .inl (hzeros h)
      · exact .inl (hdigits c h)

namespace BoundValue

open Placeholder

/-- The value is no NaN and no infinite float. -/
def isFinite : BoundValue → Bool
  | float x => Number.isFinite x
  | _ => true

theorem isInert_intChars (n : Int) : IsInert (intChars n) := by
  refine isInert_of_bare (List.all_eq_true.2 fun c hc => ?_)
  have hsign : isBare '-' := by decide
  unfold intChars at hc
  split at hc
  · rcases List.mem_cons.1 hc with rfl | hc
    · exact hsign
    · exact isBare_of_isDigit (Number.isDigit_of_mem_natText hc)
  · exact isBare_of_isDigit (Number.isDigit_of_mem_natText hc)

theorem isInert_floatChars {x : Float} (h : Number.isFinite x) : IsInert (Number.floatChars x) := by
  refine isInert_of_bare (List.all_eq_true.2 fun c hc => ?_)
  have hsign : isBare '-' := by decide
  have hpoint : isBare '.' := by decide
  unfold Number.floatChars at hc
  cases hparts : Number.partsOf x with
  | nan | infinite negative => simp [Number.isFinite, hparts] at h
  | finite negative m e tight =>
    rw [hparts] at hc
    rcases List.mem_append.1 hc with hc | hc
    · cases negative with
      | true => rwa [List.mem_singleton.1 hc]
      | false => cases hc
    · rcases Number.Decimal.mem_positional hc with hc | rfl
      · exact isBare_of_isDigit hc
      · exact hpoint

/-- Values other than NaN and the infinities have a literal, and it is inert. -/
theorem exists_literal {v : BoundValue} (h : v.isFinite) : ∃ literal, v.literal? = some literal ∧ IsInert literal := by
  cases v with
  | null => exact ⟨_, rfl, isInert_of_bare (by decide)⟩
  | bool b => cases b <;> exact ⟨_, rfl, isInert_of_bare (by decide)⟩
  | int n => exact ⟨_, rfl, isInert_intChars n.toInt⟩
  | float x => exact ⟨_, if_pos h, isInert_floatChars h⟩
  | text s => exact ⟨_, rfl, isInert_literalChars s.toList⟩

/-- The characters of a value's literal with their marks. -/
def marks (v : BoundValue) : List Mark :=
  Placeholder.marks (v.literal?.getD [])

theorem marks_of_literal {v : BoundValue} {literal : List Char} (h : v.literal? = some literal) :
    v.marks = Placeholder.marks literal := by
  rw [marks, h, Option.getD_some]

theorem chars_marks {v : BoundValue} {literal : List Char} (h : v.literal? = some literal) :
    v.marks.map Mark.char = literal := by
  rw [marks_of_literal h]
  exact Scanner.chars_marks _ literal

theorem not_isOpen_of_mem_marks {v : BoundValue} (h : v.isFinite) : ∀ m ∈ v.marks, m.isOpen = false := by
  obtain ⟨literal, hliteral, hinert⟩ := exists_literal h
  rw [marks_of_literal hliteral]
  exact hinert.noneOpen

end BoundValue

/-! ## Writing values over -/

namespace Placeholder

/-- Values written over the open `?` of a text, from left to right; a `?` without a value stays, and so does every other
character with its mark. -/
def writeOver : List BoundValue → List Mark → List Mark
  | _, [] => []
  | [], m :: ms => m :: writeOver [] ms
  | v :: vs, m :: ms => if m.isOpen then v.marks ++ writeOver vs ms else m :: writeOver (v :: vs) ms

section

variable {vs ws : List BoundValue} {v : BoundValue} {ms : List Mark} {m : Mark}

@[simp]
theorem writeOver_nil (vs : List BoundValue) : writeOver vs [] = [] := by
  cases vs <;> rfl

@[simp]
theorem writeOver_no_values (ms : List Mark) : writeOver [] ms = ms := by
  induction ms with
  | nil => rfl
  | cons m ms ih => rw [writeOver, ih]

theorem writeOver_of_isOpen (h : m.isOpen) : writeOver (v :: vs) (m :: ms) = v.marks ++ writeOver vs ms :=
  if_pos h

theorem writeOver_of_not_isOpen (h : m.isOpen = false) : writeOver vs (m :: ms) = m :: writeOver vs ms := by
  cases vs with
  | nil => rfl
  | cons v vs => exact if_neg (by simp [h])

/-- Nothing is written over where no `?` is open. -/
theorem writeOver_append {before : List Mark} (h : ∀ m ∈ before, m.isOpen = false) :
    writeOver vs (before ++ ms) = before ++ writeOver vs ms := by
  induction before with
  | nil => rfl
  | cons m before ih =>
    obtain ⟨hm, hbefore⟩ := List.forall_mem_cons.1 h
    rw [List.cons_append, writeOver_of_not_isOpen hm, ih hbefore, List.cons_append]

/-- What one list of values leaves open the next one is written over. -/
theorem writeOver_writeOver (h : ∀ v ∈ vs, v.isFinite) : writeOver ws (writeOver vs ms) = writeOver (vs ++ ws) ms := by
  induction ms generalizing vs with
  | nil => simp
  | cons m ms ih =>
    cases vs with
    | nil => simp
    | cons v vs =>
      cases hm : m.isOpen with
      | true =>
        obtain ⟨hv, hvs⟩ := List.forall_mem_cons.1 h
        rw [List.cons_append, writeOver_of_isOpen hm, writeOver_of_isOpen hm,
          writeOver_append (v.not_isOpen_of_mem_marks hv), ih hvs]
      | false => rw [writeOver_of_not_isOpen hm, writeOver_of_not_isOpen hm, writeOver_of_not_isOpen hm, ih h]

/-- Each value closes one open `?`, as long as there are any. -/
theorem countP_isOpen_writeOver (h : ∀ v ∈ vs, v.isFinite) :
    (writeOver vs ms).countP Mark.isOpen = ms.countP Mark.isOpen - vs.length := by
  induction ms generalizing vs with
  | nil => simp
  | cons m ms ih =>
    cases vs with
    | nil => simp
    | cons v vs =>
      cases hm : m.isOpen with
      | true =>
        obtain ⟨hv, hvs⟩ := List.forall_mem_cons.1 h
        have hnone : v.marks.countP Mark.isOpen = 0 := by
          rw [List.countP_eq_zero]
          exact fun m hm => by simp [v.not_isOpen_of_mem_marks hv m hm]
        rw [writeOver_of_isOpen hm, List.countP_append, hnone, ih hvs, List.countP_cons_of_pos hm, List.length_cons]
        omega
      | false =>
        rw [writeOver_of_not_isOpen hm, List.countP_cons_of_neg (by simp [hm]), ih h,
          List.countP_cons_of_neg (by simp [hm])]

/-- A text with values written over has the marks that it is written with. -/
theorem Scanner.marks_chars_writeOver (h : ∀ v ∈ vs, v.isFinite) (s : Scanner) (cs : List Char) :
    s.marks ((writeOver vs (s.marks cs)).map Mark.char) = writeOver vs (s.marks cs) := by
  induction cs generalizing vs s with
  | nil => simp [marks]
  | cons c r ih =>
    rw [marks]
    cases vs with
    | nil => simp [marks]
    | cons v vs =>
      cases hopen : Mark.isOpen ⟨c, s.isQuoted⟩ with
      | false =>
        rw [writeOver_of_not_isOpen hopen, List.map_cons, marks, ih h]
      | true =>
        obtain ⟨hv, hvs⟩ := List.forall_mem_cons.1 h
        obtain ⟨literal, hliteral, hinert⟩ := v.exists_literal hv
        obtain ⟨-, hstep⟩ := step_of_isOpen hopen
        have hs : s.isQuoted = false := by
          simp only [Mark.isOpen, Bool.and_eq_true, Bool.not_eq_true'] at hopen
          exact hopen.2
        -- outside quotes it does not matter where exactly the scanner stands
        rw [writeOver_of_isOpen hopen, List.map_append, BoundValue.chars_marks hliteral,
          marks_congr hs (t := outside false) rfl, marks_append, marks_congr hinert.after (t := outside false) rfl,
          hstep, ih hvs, BoundValue.marks_of_literal hliteral]
        rfl

theorem marks_chars_writeOver (h : ∀ v ∈ vs, v.isFinite) (sql : List Char) :
    marks ((writeOver vs (marks sql)).map Mark.char) = writeOver vs (marks sql) :=
  Scanner.marks_chars_writeOver h _ sql

end

end Placeholder

namespace Statement

open Placeholder

/-- The literal that a list of values has for a placeholder. -/
def literalAt (vs : List BoundValue) (p : Placeholder) (invalid : Option BoundValue) :
    Option (List Char) × Option BoundValue :=
  literalFor (valueFor (.positional vs) p) invalid

section

variable {vs : List BoundValue} {count : Nat} {ps qs : List Piece}

/-- A list of values has none for a name. -/
theorem literalAt_named (name : List Char) (invalid : Option BoundValue) :
    literalAt vs (.named name) invalid = (none, invalid) := rfl

theorem literalAt_of_le (h : vs.length ≤ count) (invalid : Option BoundValue) :
    literalAt vs (.positional count) invalid = (none, invalid) := by
  rw [literalAt, valueFor, List.getElem?_eq_none h, literalFor]

theorem literalAt_of_lt (h : count < vs.length) {literal : List Char} (hliteral : vs[count].literal? = some literal)
    (invalid : Option BoundValue) : literalAt vs (.positional count) invalid = (some literal, invalid) := by
  rw [literalAt, valueFor, List.getElem?_eq_getElem h]
  simp only [literalFor, hliteral]

theorem fill_append_of_no_question (h : .question ∉ ps) (qs : List Piece) :
    fill (literalAt vs) count none (ps ++ qs) =
      (ps.flatMap Piece.chars ++ (fill (literalAt vs) count none qs).1, (fill (literalAt vs) count none qs).2) := by
  induction ps with
  | nil => rfl
  | cons p ps ih =>
    have hps : .question ∉ ps := fun hmem => h (List.mem_cons_of_mem _ hmem)
    cases p with
    | question => exact absurd List.mem_cons_self h
    | char c => simp [fill, ih hps, Piece.chars]
    | name cs => simp [fill, ih hps, Piece.chars, literalAt_named]

/-- Read from anywhere, pieces are filled as their text is written over. -/
theorem fill_pieces (h : ∀ v ∈ vs, v.isFinite) (s : Scanner) (cs : List Char) (count : Nat) :
    fill (literalAt vs) count none (s.pieces cs) =
      (s.pending ++ (writeOver (vs.drop count) (s.marks cs)).map Mark.char, none) := by
  induction cs generalizing s count with
  | nil =>
    have hfinish : fill (literalAt vs) count none (s.finish ++ []) = _ :=
      fill_append_of_no_question s.question_notMem_finish []
    simpa [fill, Scanner.pieces, Scanner.marks, Scanner.chars_finish] using hfinish
  | cons c r ih =>
    rw [Scanner.pieces, Scanner.marks]
    cases hopen : Mark.isOpen ⟨c, s.isQuoted⟩ with
    | false =>
      have hchars := Scanner.chars_step s c
      rw [fill_append_of_no_question (Scanner.question_notMem_step hopen), ih, writeOver_of_not_isOpen hopen,
        ← List.append_assoc, hchars, List.append_assoc]
      rfl
    | true =>
      obtain ⟨rfl, hstep⟩ := Scanner.step_of_isOpen hopen
      rw [hstep, List.append_assoc, fill_append_of_no_question s.question_notMem_finish, Scanner.chars_finish,
        List.singleton_append, fill]
      by_cases hcount : count < vs.length
      · obtain ⟨literal, hliteral, -⟩ := (vs[count]).exists_literal (h _ (List.getElem_mem hcount))
        rw [List.drop_eq_getElem_cons hcount, writeOver_of_isOpen hopen]
        simp [literalAt_of_lt hcount hliteral, ih, BoundValue.chars_marks hliteral, Scanner.pending]
      · have hdrop : vs.drop count = [] := List.drop_eq_nil_of_le (by omega)
        have hdrop' : vs.drop (count + 1) = [] := List.drop_eq_nil_of_le (by omega)
        simp [literalAt_of_le (Nat.not_lt.1 hcount), ih, hdrop, hdrop', Scanner.pending]

/-- Rendering a statement with a list of values writes them over its open `?`. -/
theorem render_positional (sql : String) (h : ∀ v ∈ vs, v.isFinite) :
    render { sql, binds := some (.positional vs) } =
      .ok (String.ofList ((writeOver vs (marks sql.toList)).map Mark.char)) := by
  have hfill : substitute (fun p invalid => literalFor (valueFor (.positional vs) p) invalid) none sql.toList = _ :=
    fill_pieces h (.outside false) sql.toList 0
  rw [List.drop_zero] at hfill
  unfold render
  dsimp only
  rw [hfill]
  rfl

end

/-- Rendering with one list of values and the result with another one is rendering with both in one list. The values of
the first list take up one `?` each and bring no new one, and all other characters stand in quotes or not as they
did. -/
theorem render_append (sql : String) {vs ws : List BoundValue} (hvs : ∀ v ∈ vs, v.isFinite)
    (hws : ∀ w ∈ ws, w.isFinite) :
    ∃ text, render { sql, binds := some (.positional vs) } = .ok text ∧
      (∃ whole, render { sql := text, binds := some (.positional ws) } = .ok whole ∧
        render { sql, binds := some (.positional (vs ++ ws)) } = .ok whole) ∧
      marks text.toList = writeOver vs (marks sql.toList) ∧
      (pieces text.toList).count .question = (pieces sql.toList).count .question - vs.length := by
  have hboth : ∀ v ∈ vs ++ ws, v.isFinite := List.forall_mem_append.2 ⟨hvs, hws⟩
  refine ⟨_, render_positional sql hvs, ⟨_, render_positional _ hws, ?_⟩, ?_, ?_⟩
  · rw [render_positional sql hboth, String.toList_ofList, marks_chars_writeOver hvs, writeOver_writeOver hvs]
  · rw [String.toList_ofList, marks_chars_writeOver hvs]
  · rw [String.toList_ofList, count_question_pieces, count_question_pieces, marks_chars_writeOver hvs,
      countP_isOpen_writeOver hvs]

namespace Sample

/-- Question marks in quotes, next to quotes and after a colon, and a quote that is never closed. -/
def questions : String :=
  "SET a = ?'?', b = :?, c = \"\\\"?\", d = ? -- it's ?"

/-- A text that looks like the end of a literal with a placeholder behind it. -/
def closing : BoundValue :=
  .text "\\' = ?, ':x"

end Sample

theorem render_append_questions :
    (∀ v ∈ [Sample.closing], v.isFinite) ∧ (∀ w ∈ [BoundValue.null], w.isFinite) ∧
      (pieces Sample.questions.toList).count .question = 3 ∧
      ∃ text, render { sql := Sample.questions, binds := some (.positional [Sample.closing]) } = .ok text ∧
        (∃ whole, render { sql := text, binds := some (.positional [.null]) } = .ok whole ∧
          render { sql := Sample.questions, binds := some (.positional [Sample.closing, .null]) } = .ok whole) ∧
        (pieces text.toList).count .question = 2 := by
  have hvs : ∀ v ∈ [Sample.closing], v.isFinite := List.forall_mem_singleton.2 rfl
  have hws : ∀ w ∈ [BoundValue.null], w.isFinite := List.forall_mem_singleton.2 rfl
  have hthree : (pieces Sample.questions.toList).count .question = 3 := by decide
  obtain ⟨text, hfirst, hboth, -, hcount⟩ := render_append Sample.questions hvs hws
  exact ⟨hvs, hws, hthree, text, hfirst, hboth, by rw [hcount, hthree]; rfl⟩

end Statement

end SchemaMigration
