import SchemaMigration.Script.Document
import SchemaMigration.Proofs.QuotedScalars
import SchemaMigration.Proofs.Scanning
import SchemaMigration.Proofs.StandardTemplate

/-!
# The tokens of a migration file

What the scanner makes of a file that the standard template writes (`scan?_migrationText`): a heading of comments, two
keys, and lists whose entries all open and close the same collections. An entry leaves its collections open: what
follows it, by its column, decides which of them end. A statement may spread over several lines of the file, and the
file has no tokens if one of them starts with a document mark (`fails_migrationText`) or if there is a character that
no document may hold.
-/

namespace SchemaMigration

open Yaml (isBreak isPrintable)
open Yaml.Token (Place)

/-! ## Tokens -/

namespace Template

open Yaml (isScalarChar)
open Yaml.Token.Place

/-- The tokens of an entry, up to its end. -/
def openEntryTokens (statement : String) : List Yaml.Token :=
  [.blockEntry, .blockMappingStart, .key, .scalar ['r', 'u', 'n'] .plain, .value, .scalar statement.toList .quoted]

/-- The tokens of an entry. -/
def entryTokens (statement : String) : List Yaml.Token :=
  openEntryTokens statement ++ [.blockEnd]

/-- The tokens of a list. -/
def listTokens (statements : List String) : List Yaml.Token :=
  if statements.isEmpty then [.flowSequenceStart, .flowSequenceEnd]
  else .blockSequenceStart :: (statements.flatMap entryTokens ++ [.blockEnd])

/-- The tokens of the file. -/
def migrationTokens (query : Reversible String) : List Yaml.Token :=
  [.blockMappingStart, .key, .scalar ['u', 'p'] .plain, .value] ++ listTokens query.up ++
    [.key, .scalar ['d', 'o', 'w', 'n'] .plain, .value] ++ listTokens query.down ++ [.blockEnd, .streamEnd]

/-! ## Lists -/

/-- What stands before a statement in its line. -/
def lineStart : List Char :=
  [' ', ' ', '-', ' ', 'r', 'u', 'n', ':', ' ']

/-- The line of a statement, which a line break may cut into several. -/
def entryLine (statement : String) : List Char :=
  lineStart ++ ((yamlQuote statement).toList ++ ['\n'])

/-- The tokens before the scalar of an entry. -/
def entryStartTokens : List Yaml.Token :=
  [.blockEntry, .blockMappingStart, .key, .scalar ['r', 'u', 'n'] .plain, .value]

/-- A statement as it is read from its scalar. -/
def foldedText (statement : String) : String :=
  String.ofList (Yaml.folded [] {} statement.toList)

/-- A statement on one line is read as it is. -/
theorem foldedText_eq_self {statement : String} (h : ∀ c ∈ statement.toList, Yaml.isScalarChar c) :
    foldedText statement = statement := by
  rw [foldedText, Yaml.folded_eq h [] rfl]
  exact String.ofList_toList

theorem openEntryTokens_eq (statement : String) :
    openEntryTokens statement = entryStartTokens ++ [.scalar statement.toList .quoted] := rfl

/-- The line break in front of the entries stands behind them. -/
theorem flatMap_entryText (statements : List String) (rest : List Char) :
    statements.flatMap entryText ++ '\n' :: rest = '\n' :: (statements.flatMap entryLine ++ rest) := by
  induction statements with
  | nil => rfl
  | cons statement statements ih =>
    have hentry : entryText statement ++ ['\n'] = '\n' :: entryLine statement := by
      have hstart : entryStart.toList = '\n' :: lineStart := rfl
      rw [entryText, entryLine, hstart, List.append_assoc, List.cons_append]
    calc (statement :: statements).flatMap entryText ++ '\n' :: rest
        = entryText statement ++ (statements.flatMap entryText ++ '\n' :: rest) := by
          rw [List.flatMap_cons, List.append_assoc]
      _ = entryText statement ++ ['\n'] ++ (statements.flatMap entryLine ++ rest) := by
          rw [ih, List.append_assoc, List.singleton_append]
      _ = '\n' :: ((statement :: statements).flatMap entryLine ++ rest) := by
          rw [hentry, List.flatMap_cons, List.cons_append, List.append_assoc]

theorem toList_yamlQuote_append (statement : String) (rest : List Char) :
    (yamlQuote statement).toList ++ rest = '"' :: (statement.toList.flatMap yamlChar ++ '"' :: rest) := by
  rw [yamlQuote, String.toList_ofList, List.cons_append, List.append_assoc, List.singleton_append]

variable {tokens : List Yaml.Token} {rest : List Char} {indents : List Nat}

/-- The scalar of an entry and the line break behind it. -/
theorem reads_yamlQuote {statement : String} (h : Yaml.hasMarkLine statement.toList = false) :
    Reads ⟨tokens, indents, none, (yamlQuote statement).toList ++ '\n' :: rest⟩
      ⟨tokens ++ [.scalar (foldedText statement).toList .quoted], indents, some 0, rest⟩ := by
  rw [toList_yamlQuote_append, foldedText, String.toList_ofList]
  refine reads_quotedLine (by simp; omega) fun p _ => ?_
  obtain ⟨p', hread⟩ := Yaml.readDouble_flatMap_yamlChar statement.toList ('\n' :: rest) [] {} false p
  refine ⟨p', ?_⟩
  rw [hread, h]
  rfl

theorem fails_yamlQuote {statement : String} (h : Yaml.hasMarkLine statement.toList = true) :
    Fails ⟨tokens, indents, none, (yamlQuote statement).toList ++ rest⟩ := by
  rw [toList_yamlQuote_append]
  refine fails_quoted fun p _ => ?_
  obtain ⟨p', hread⟩ := Yaml.readDouble_flatMap_yamlChar statement.toList rest [] {} false p
  rw [hread, h]
  rfl

theorem reads_indent : Reads ⟨tokens, indents, some 0, ' ' :: ' ' :: rest⟩ ⟨tokens, indents, some 2, rest⟩ :=
  reads_space.trans reads_space

/-- An entry from its `-` to its scalar, in a list that is open or opens here. -/
theorem reads_run (hindents : ∀ m ∈ indents.head?, m ≤ 2) :
    Reads ⟨tokens, indents, some 2, '-' :: ' ' :: 'r' :: 'u' :: 'n' :: ':' :: ' ' :: rest⟩
      ⟨tokens ++ (opening .blockSequenceStart 2 indents ++ entryStartTokens), 4 :: opened 2 indents, none, rest⟩ := by
  have hhead : ∀ m ∈ (opened 2 indents).head?, m < 4 := by
    rw [head?_opened]
    rintro m ⟨⟩
    decide
  have hkey : ∀ tokens, Reads ⟨tokens, opened 2 indents, some 4, 'r' :: 'u' :: 'n' :: ':' :: ' ' :: rest⟩
      ⟨tokens ++ [.blockMappingStart] ++ [.key, .scalar ['r', 'u', 'n'] .plain, .value], 4 :: opened 2 indents, none,
        ' ' :: rest⟩ := by
    intro tokens
    rw [← opening_eq_singleton hhead .blockMappingStart, ← opened_eq_cons hhead]
    exact reads_key ['r', 'u', 'n'] rfl (by simp) (by decide) (fun m hm => Nat.le_of_lt (hhead m hm)) rfl
  have hentry := (((reads_blockEntry hindents).trans reads_space).trans (hkey (tokens ++
    opening .blockSequenceStart 2 indents ++ [.blockEntry]))).trans reads_space
  simpa only [entryStartTokens, List.append_assoc, List.cons_append, List.nil_append, Option.map_none] using hentry

/-- Where these collections are open, the start of an entry is read with the token `opener`, and only collections of
the entry are open behind it. -/
def StartsEntry (indents : List Nat) (opener : Yaml.Token) : Prop :=
  ∀ tokens rest, Reads ⟨tokens, indents, some 0, lineStart ++ rest⟩
    ⟨tokens ++ opener :: entryStartTokens, [4, 2, 0], none, rest⟩

/-- The first entry opens the list. -/
theorem startsEntry_first : StartsEntry [0] .blockSequenceStart :=
  fun _ _ => reads_indent.trans (reads_run (by decide))

/-- Any other entry ends the one before it. -/
theorem startsEntry_next : StartsEntry [4, 2, 0] .blockEnd := by
  intro tokens rest
  have hend : ∀ r, Reads ⟨tokens, [4, 2, 0], some 2, '-' :: r⟩ ⟨tokens ++ [.blockEnd], [2, 0], some 2, '-' :: r⟩ :=
    fun _ => reads_blockEnd (by decide) rfl
  have hstart : Reads _ ⟨tokens ++ [.blockEnd] ++ entryStartTokens, [4, 2, 0], none, rest⟩ :=
    reads_run (by decide : ∀ m ∈ [2, 0].head?, m ≤ 2)
  have hnext := (reads_indent.trans (hend _)).trans hstart
  rwa [List.append_assoc] at hnext

theorem StartsEntry.reads {opener : Yaml.Token} (hstart : StartsEntry indents opener) {statement : String}
    (h : Yaml.hasMarkLine statement.toList = false) :
    Reads ⟨tokens, indents, some 0, entryLine statement ++ rest⟩
      ⟨tokens ++ opener :: openEntryTokens (foldedText statement), [4, 2, 0], some 0, rest⟩ := by
  have hscalar : Reads ⟨tokens ++ opener :: entryStartTokens, [4, 2, 0], none,
      (yamlQuote statement).toList ++ '\n' :: rest⟩ _ := reads_yamlQuote h
  have hline := (hstart tokens _).trans hscalar
  simpa only [entryLine, openEntryTokens_eq, List.append_assoc, List.cons_append, List.nil_append] using hline

theorem StartsEntry.fails {opener : Yaml.Token} (hstart : StartsEntry indents opener) {statement : String}
    (h : Yaml.hasMarkLine statement.toList = true) :
    Fails ⟨tokens, indents, some 0, entryLine statement ++ rest⟩ := by
  rw [entryLine, List.append_assoc, List.append_assoc]
  exact (hstart tokens _).fails (fails_yamlQuote h)

/-- The entries after the first one, and the ends of the collections. -/
theorem reads_entries {statements : List String} (h : ∀ s ∈ statements, Yaml.hasMarkLine s.toList = false)
    (hrest : Yaml.Token.Scanner.startsToken rest) (tokens : List Yaml.Token) :
    Reads ⟨tokens, [4, 2, 0], some 0, statements.flatMap entryLine ++ rest⟩
      ⟨tokens ++ .blockEnd :: ((statements.map foldedText).flatMap entryTokens ++ [.blockEnd]), [0], some 0, rest⟩ := by
  induction statements generalizing tokens with
  | nil =>
    have hend : ∀ tokens, Reads ⟨tokens, [2, 0], some 0, rest⟩ ⟨tokens ++ [.blockEnd], [0], some 0, rest⟩ :=
      fun _ => reads_blockEnd (by decide) hrest
    have hends := (reads_blockEnd (by decide : 0 < 4) hrest).trans (hend (tokens ++ [.blockEnd]))
    rwa [List.append_assoc] at hends
  | cons statement statements ih =>
    have hentries := ih (fun s hs => h s (List.mem_cons_of_mem _ hs))
      (tokens ++ .blockEnd :: openEntryTokens (foldedText statement))
    rw [List.flatMap_cons, List.append_assoc, List.map_cons, List.flatMap_cons, entryTokens]
    refine (startsEntry_next.reads (h statement List.mem_cons_self)).trans ?_
    simpa only [List.append_assoc, List.cons_append, List.nil_append] using hentries

theorem fails_entries {statements : List String} (h : ∃ s ∈ statements, Yaml.hasMarkLine s.toList = true)
    (tokens : List Yaml.Token) : Fails ⟨tokens, [4, 2, 0], some 0, statements.flatMap entryLine ++ rest⟩ := by
  induction statements generalizing tokens with
  | nil => simp at h
  | cons statement statements ih =>
    rw [List.flatMap_cons, List.append_assoc]
    cases hmark : Yaml.hasMarkLine statement.toList with
    | true => exact startsEntry_next.fails hmark
    | false =>
      have hrest : ∃ s ∈ statements, Yaml.hasMarkLine s.toList = true := by simpa [hmark] using h
      exact (startsEntry_next.reads hmark).fails (ih hrest _)

/-- The text of a list and the line break behind it. -/
theorem listText_append (statement : String) (statements : List String) (rest : List Char) :
    listText (statement :: statements) ++ '\n' :: rest =
      '\n' :: (entryLine statement ++ (statements.flatMap entryLine ++ rest)) := by
  have htext : listText (statement :: statements) = (statement :: statements).flatMap entryText := rfl
  rw [htext, flatMap_entryText, List.flatMap_cons, List.append_assoc]

/-- A list, the line break behind it, and the ends of its collections. -/
theorem reads_list {statements : List String} (h : ∀ s ∈ statements, Yaml.hasMarkLine s.toList = false)
    (hrest : Yaml.Token.Scanner.startsToken rest) :
    Reads ⟨tokens, [0], none, listText statements ++ '\n' :: rest⟩
      ⟨tokens ++ listTokens (statements.map foldedText), [0], some 0, rest⟩ := by
  cases statements with
  | nil => exact (reads_space.trans reads_brackets).trans (reads_lineBreak none)
  | cons statement statements =>
    have htokens : listTokens ((statement :: statements).map foldedText) =
        .blockSequenceStart :: (openEntryTokens (foldedText statement) ++
          .blockEnd :: ((statements.map foldedText).flatMap entryTokens ++ [.blockEnd])) := rfl
    have hentries := reads_entries (fun s hs => h s (List.mem_cons_of_mem _ hs)) hrest
      (tokens ++ .blockSequenceStart :: openEntryTokens (foldedText statement))
    rw [List.append_assoc, List.cons_append, ← htokens] at hentries
    rw [listText_append]
    exact (reads_lineBreak none).trans ((startsEntry_first.reads (h statement List.mem_cons_self)).trans hentries)

theorem fails_list {statements : List String} (h : ∃ s ∈ statements, Yaml.hasMarkLine s.toList = true) :
    Fails ⟨tokens, [0], none, listText statements ++ '\n' :: rest⟩ := by
  cases statements with
  | nil => simp at h
  | cons statement statements =>
    rw [listText_append]
    refine (reads_lineBreak none).fails ?_
    cases hmark : Yaml.hasMarkLine statement.toList with
    | true => exact startsEntry_first.fails hmark
    | false =>
      have hrest : ∃ s ∈ statements, Yaml.hasMarkLine s.toList = true := by simpa [hmark] using h
      exact (startsEntry_first.reads hmark).fails (fails_entries hrest _)

/-! ## The heading -/

/-- A character of a name that a comment may hold. -/
def isCommentChar (c : Char) : Bool :=
  isPrintable c && !isBreak c

theorem isBreak_eq_false {c : Char} (h : Yaml.isWordChar c) : isBreak c = false := by
  by_contra hbreak
  simp only [isBreak, Bool.not_eq_false, Bool.or_eq_true, beq_iff_eq] at hbreak
  rcases hbreak with (((rfl | rfl) | rfl) | rfl) | rfl <;> exact absurd h (by decide)

theorem isPrintable_of_ascii {c : Char} (h : 0x20 ≤ c.toNat) (h' : c.toNat ≤ 0x7E) : isPrintable c := by
  simp [isPrintable, h, h']

theorem isPrintable_of_isWordChar {c : Char} (h : Yaml.isWordChar c) : isPrintable c := by
  simp only [Yaml.isWordChar, Text.isLetter, Text.isDigit, Bool.or_eq_true, Bool.and_eq_true, decide_eq_true_eq,
    beq_iff_eq, Char.le_def, UInt32.le_iff_toNat_le] at h
  rcases h with (((⟨h, h'⟩ | ⟨h, h'⟩) | ⟨h, h'⟩) | rfl) | rfl
  · exact isPrintable_of_ascii (Nat.le_trans (by decide) h) (Nat.le_trans h' (by decide))
  · exact isPrintable_of_ascii (Nat.le_trans (by decide) h) (Nat.le_trans h' (by decide))
  · exact isPrintable_of_ascii (Nat.le_trans (by decide) h) (Nat.le_trans h' (by decide))
  · decide
  · decide

theorem isCommentChar_of_isWordChar {c : Char} (h : Yaml.isWordChar c) : isCommentChar c := by
  rw [isCommentChar, isPrintable_of_isWordChar h, isBreak_eq_false h]
  rfl

/-- The first comment line with a text. -/
def firstComment : String :=
  " Statements run from top to bottom. An entry may carry `binds`: a list for"

/-- The second one. -/
def secondComment : String :=
  " `?` placeholders or a map for `:name` placeholders."

set_option maxRecDepth 2000 in
theorem toList_headingEnd : headingEnd.toList =
    '\n' :: '#' :: '\n' :: '#' ::
      (firstComment.toList ++ '\n' :: '#' :: (secondComment.toList ++ '\n' :: ['u', 'p', ':'])) := by
  have hheading : headingEnd.toList = _ := String.toList_ofList
  have hfirst : firstComment.toList = _ := String.toList_ofList
  have hsecond : secondComment.toList = _ := String.toList_ofList
  rw [hheading, hfirst, hsecond]
  rfl

/-- The heading consists of comments. -/
theorem reads_heading {name : String} (hname : ∀ c ∈ name.toList, isCommentChar c) (rest : List Char) :
    Reads ⟨[], [], some 0, titleStart.toList ++ name.toList ++ headingEnd.toList ++ rest⟩
      ⟨[], [], some 0, 'u' :: 'p' :: ':' :: rest⟩ := by
  have htitle : (" Migration ".toList ++ name.toList).all (!isBreak ·) := by
    have hname : name.toList.all (!isBreak ·) :=
      List.all_eq_true.2 fun c hc => (Bool.and_eq_true_iff.1 (hname c hc)).2
    rw [List.all_append, hname]
    rfl
  have hempty : ∀ r, Reads ⟨[], [], some 0, '#' :: '\n' :: r⟩ ⟨[], [], some 0, r⟩ := fun r =>
    @reads_comment [] [] r (some 0) [] rfl
  have hfirst : firstComment.toList.all (!isBreak ·) := by
    have htext : firstComment.toList = _ := String.toList_ofList
    rw [htext]
    decide +kernel
  have hsecond : secondComment.toList.all (!isBreak ·) := by
    have htext : secondComment.toList = _ := String.toList_ofList
    rw [htext]
    decide +kernel
  have hstart : titleStart.toList ++ name.toList ++ headingEnd.toList ++ rest =
      '#' :: (" Migration ".toList ++ name.toList ++ (headingEnd.toList ++ rest)) := by
    rw [List.append_assoc]
    rfl
  rw [hstart, toList_headingEnd]
  simp only [List.append_assoc, List.cons_append, List.nil_append]
  rw [← List.append_assoc]
  exact (reads_comment _ htitle).trans ((hempty _).trans ((reads_comment _ hfirst).trans (reads_comment _ hsecond)))

theorem startsBlankOrEnd_listText (statements : List String) (rest : List Char) :
    Yaml.startsBlankOrEnd (listText statements ++ rest) := by
  cases statements <;> rfl

theorem reads_upKey (hrest : Yaml.startsBlankOrEnd rest) :
    Reads ⟨[], [], some 0, 'u' :: 'p' :: ':' :: rest⟩
      ⟨[.blockMappingStart, .key, .scalar ['u', 'p'] .plain, .value], [0], none, rest⟩ :=
  reads_key ['u', 'p'] rfl (by simp) (by decide) (by simp) hrest

theorem reads_downKey (hrest : Yaml.startsBlankOrEnd rest) :
    Reads ⟨tokens, [0], some 0, 'd' :: 'o' :: 'w' :: 'n' :: ':' :: rest⟩
      ⟨tokens ++ [.key, .scalar ['d', 'o', 'w', 'n'] .plain, .value], [0], none, rest⟩ := by
  have hhead : ∀ m ∈ [0].head?, m ≤ 0 := by simp
  have hkey : Reads _ ⟨tokens ++ [] ++ [.key, .scalar ['d', 'o', 'w', 'n'] .plain, .value], [0], none, rest⟩ :=
    reads_key ['d', 'o', 'w', 'n'] rfl (by simp) (by decide) hhead hrest
  rwa [List.append_nil] at hkey

/-! ## The whole file -/

section

variable {name : String} {query : Reversible String}

theorem migrationText_eq (name : String) (query : Reversible String) :
    migrationText name query = titleStart.toList ++ name.toList ++ headingEnd.toList ++
      (listText query.up ++ '\n' :: 'd' :: 'o' :: 'w' :: 'n' :: ':' :: (listText query.down ++ ['\n'])) := by
  have hdownKey : downKey.toList = '\n' :: ['d', 'o', 'w', 'n', ':'] := rfl
  have hfileEnd : fileEnd.toList = ['\n'] := rfl
  simp [migrationText, hdownKey, hfileEnd]

theorem head?_migrationText (name : String) (query : Reversible String) :
    (migrationText name query).head? ≠ some '\uFEFF' := by
  have hmark : (migrationText name query).head? = some '#' := rfl
  rw [hmark]
  decide

theorem reads_migrationText (hname : ∀ c ∈ name.toList, isCommentChar c)
    (hup : ∀ s ∈ query.up, Yaml.hasMarkLine s.toList = false)
    (hdown : ∀ s ∈ query.down, Yaml.hasMarkLine s.toList = false) :
    Reads ⟨[], [], some 0, migrationText name query⟩
      ⟨[.blockMappingStart, .key, .scalar ['u', 'p'] .plain, .value] ++ listTokens (query.up.map foldedText) ++
        [.key, .scalar ['d', 'o', 'w', 'n'] .plain, .value] ++ listTokens (query.down.map foldedText), [0], some 0,
        []⟩ := by
  rw [migrationText_eq]
  refine (reads_heading hname _).trans ((reads_upKey (startsBlankOrEnd_listText _ _)).trans ?_)
  exact ((reads_list hup rfl).trans (reads_downKey (startsBlankOrEnd_listText _ _))).trans (reads_list hdown rfl)

theorem fails_migrationText (hname : ∀ c ∈ name.toList, isCommentChar c)
    (h : ∃ s ∈ query.up ++ query.down, Yaml.hasMarkLine s.toList = true) :
    Fails ⟨[], [], some 0, migrationText name query⟩ := by
  rw [migrationText_eq]
  refine (reads_heading hname _).fails ((reads_upKey (startsBlankOrEnd_listText _ _)).fails ?_)
  by_cases hup : ∀ s ∈ query.up, Yaml.hasMarkLine s.toList = false
  · have hdown : ∃ s ∈ query.down, Yaml.hasMarkLine s.toList = true := by
      obtain ⟨s, hs, hmark⟩ := h
      rcases List.mem_append.1 hs with hs | hs
      · cases hmark.symm.trans (hup s hs)
      · exact ⟨s, hs, hmark⟩
    exact ((reads_list hup rfl).trans (reads_downKey (startsBlankOrEnd_listText _ _))).fails (fails_list hdown)
  · exact fails_list (by simpa using hup)

theorem all_isPrintable_listText (statements : List String) :
    (listText statements).all isPrintable = statements.all fun s => s.toList.all isPrintable := by
  have hentry : ∀ s, (entryText s).all isPrintable = s.toList.all isPrintable := by
    intro s
    have hstart : entryStart.toList.all isPrintable := rfl
    have hquote : isPrintable '"' := rfl
    have hchars : (s.toList.flatMap yamlChar).all isPrintable = s.toList.all isPrintable := by
      rw [List.all_flatMap]
      exact congrArg s.toList.all (funext Yaml.all_isPrintable_yamlChar)
    simp [entryText, yamlQuote, hstart, hquote, hchars, -List.all_flatMap]
  cases statements with
  | nil => rfl
  | cons statement statements =>
    have htext : listText (statement :: statements) = (statement :: statements).flatMap entryText := rfl
    rw [htext, List.all_flatMap]
    exact congrArg (statement :: statements).all (funext hentry)

set_option maxRecDepth 2000 in
theorem all_isPrintable_headingEnd : headingEnd.toList.all isPrintable := by
  have htext : headingEnd.toList = _ := String.toList_ofList
  rw [htext]
  decide +kernel

theorem all_isPrintable_migrationText (hname : ∀ c ∈ name.toList, isCommentChar c) (query : Reversible String) :
    (migrationText name query).all isPrintable = (query.up ++ query.down).all fun s => s.toList.all isPrintable := by
  have htitle : titleStart.toList.all isPrintable := rfl
  have hname : name.toList.all isPrintable :=
    List.all_eq_true.2 fun c hc => (Bool.and_eq_true_iff.1 (hname c hc)).1
  have hdownKey : downKey.toList.all isPrintable := rfl
  have hend : fileEnd.toList.all isPrintable := rfl
  simp only [migrationText, List.all_append, htitle, hname, all_isPrintable_headingEnd, all_isPrintable_listText,
    hdownKey, hend, Bool.true_and, Bool.and_true]

/-- A statement that can be read back from a migration file: its characters are those that a document may hold, and none
of its lines looks like the end of the document. -/
def isLegible (statement : String) : Bool :=
  statement.toList.all isPrintable && !Yaml.hasMarkLine statement.toList

theorem isLegible_of_isScalarChar {statement : String} (h : ∀ c ∈ statement.toList, Yaml.isScalarChar c) :
    isLegible statement := by
  have hprintable : statement.toList.all isPrintable :=
    List.all_eq_true.2 fun c hc => (Bool.and_eq_true_iff.1 (h c hc)).1
  rw [isLegible, hprintable, Yaml.hasMarkLine_eq_false h]
  rfl

/-- The file has tokens exactly if all its statements are legible. -/
theorem scan?_migrationText (hname : ∀ c ∈ name.toList, isCommentChar c) (query : Reversible String) :
    Yaml.Token.scan? (migrationText name query) =
      if (query.up ++ query.down).all isLegible then some (migrationTokens (query.map foldedText)) else none := by
  have hmark := head?_migrationText name query
  have hall := all_isPrintable_migrationText hname query
  by_cases hlegible : (query.up ++ query.down).all isLegible = true
  · have hlegible' : ∀ s ∈ query.up ++ query.down,
        s.toList.all isPrintable = true ∧ Yaml.hasMarkLine s.toList = false := by
      intro s hs
      have h := List.all_eq_true.1 hlegible s hs
      rwa [isLegible, Bool.and_eq_true, Bool.not_eq_true'] at h
    have hprintable : (migrationText name query).all isPrintable = true :=
      hall.trans (List.all_eq_true.2 fun s hs => (hlegible' s hs).1)
    have hscan := scan?_eq hprintable hmark (reads_migrationText hname
      (fun s hs => (hlegible' s (List.mem_append_left _ hs)).2)
      (fun s hs => (hlegible' s (List.mem_append_right _ hs)).2)) (by simp)
    rw [if_pos hlegible, hscan, migrationTokens]
    simp [Reversible.map]
  · rw [if_neg hlegible]
    cases hprintable : (migrationText name query).all isPrintable with
    | false => exact scan?_eq_none_of_not_printable hmark hprintable
    | true =>
      refine scan?_eq_none hmark (fails_migrationText hname ?_)
      rw [hall, List.all_eq_true] at hprintable
      simp only [List.all_eq_true, not_forall] at hlegible
      obtain ⟨s, hs, hlegible⟩ := hlegible
      rw [isLegible, hprintable s hs, Bool.true_and, Bool.not_eq_true', Bool.not_eq_false] at hlegible
      exact ⟨s, hs, hlegible⟩

end

end Template

end SchemaMigration
