import SchemaMigration.Proofs.KeyReading
import SchemaMigration.Proofs.ServerLiterals

/-!
# Reading quoted texts back

What a server does with a quoted text: it takes the quotes around it away and undoes what stands doubled or escaped
between them (`readQuoted?`). The text in quotes is then the first token that its lexer finds (`tokens_of_readQuoted?`).

Each text that is written in quotes is read so, whatever stands behind it, unless that starts with another such quote
(`ReadAs`): string literals, the options of a column, and names. Lists of them are therefore read item by item
(`quoted_readAs`).
-/

namespace SchemaMigration.Server

/-! ## Readers -/

/-- The text up to the quote that closes it, and what stands behind that quote. A doubled quote is a quote in the text;
a backslash that is an escape takes the next character with it. -/
def readInside? (d : Dialect) (q : Quote) : List Char → Option (List Char × List Char)
  | [] => none
  | c :: r =>
    if c = q.char then
      match r with
      | [] => some ([], [])
      | c' :: r' => if c' = q.char then (readInside? d q r').map (Prod.map (c :: ·) id) else some ([], c' :: r')
    else if c = '\\' ∧ q.escapes d then
      match r with
      | [] => none
      | c' :: r' => (readInside? d q r').map (Prod.map (escaped c' ++ ·) id)
    else (readInside? d q r).map (Prod.map (c :: ·) id)

/-- The text in quotes, and what stands behind it. -/
def readQuoted? (d : Dialect) (q : Quote) : List Char → Option (List Char × List Char)
  | [] => none
  | c :: r => if c = q.char then readInside? d q r else none

theorem Quote.char_ne_backslash (q : Quote) : q.char ≠ '\\' := by
  cases q <;> decide

/-! ## The lexer reads the same -/

/-- What stands between quotes, read as `s`, does not close them for the lexer. -/
structure StaysInside (d : Dialect) (q : Quote) (inside s : List Char) : Prop where
  read : ∀ reversed, (Lexer.quoted q reversed).read d inside = ([], .quoted q (inside.reverse ++ reversed))
  unquoted : q = .single → unquoted d inside = s

section

variable {d : Dialect} {q : Quote} {c : Char} {inside cs s t : List Char}

theorem StaysInside.nil : StaysInside d q [] [] where
  read _ := rfl
  unquoted _ := rfl

theorem StaysInside.doubled (h : StaysInside d q inside s) :
    StaysInside d q (q.char :: q.char :: inside) (q.char :: s) where
  read reversed := by
    simp [Lexer.read_cons, Lexer.step, Lexer.continues, Lexer.extend, h.read]
  unquoted hq := by
    subst hq
    simp [Quote.char, Server.unquoted, h.unquoted]

theorem StaysInside.escaped (hescapes : q.escapes d) (c : Char) (h : StaysInside d q inside s) :
    StaysInside d q ('\\' :: c :: inside) (escaped c ++ s) where
  read reversed := by
    simp [Lexer.read_cons, Lexer.step, q.char_ne_backslash.symm, hescapes, h.read]
  unquoted hq := by
    subst hq
    simp [Server.unquoted, hescapes, h.unquoted]

theorem StaysInside.plain (hquote : c ≠ q.char) (hescape : ¬(c = '\\' ∧ q.escapes d)) (h : StaysInside d q inside s) :
    StaysInside d q (c :: inside) (c :: s) where
  read reversed := by
    have hstep : (Lexer.quoted q reversed).step d c = ([], .quoted q (c :: reversed)) := by
      simpa [Lexer.step, hquote] using hescape
    simp [Lexer.read_cons, hstep, h.read]
  unquoted hq := by
    subst hq
    have hquote : c ≠ '\'' := hquote
    rw [← h.unquoted rfl]
    by_cases hslash : c = '\\'
    · subst hslash
      have hplain : Quote.single.escapes d = false := by simpa using hescape
      cases inside <;> simp [Server.unquoted, hplain]
    · simp [Server.unquoted, hquote, hslash]

theorem exists_of_map_eq_some {f : List Char → List Char} {read : Option (List Char × List Char)}
    (h : read.map (Prod.map f id) = some (s, t)) : ∃ s', read = some (s', t) ∧ f s' = s := by
  obtain ⟨⟨s', t'⟩, hread, heq⟩ := Option.map_eq_some_iff.1 h
  cases heq
  exact ⟨s', hread, rfl⟩

/-- What is read stands in front of the quote that closes, and that quote is not doubled. -/
theorem exists_staysInside (h : readInside? d q cs = some (s, t)) :
    ∃ inside, cs = inside ++ q.char :: t ∧ t.head? ≠ some q.char ∧ StaysInside d q inside s := by
  fun_induction readInside? d q cs generalizing s with
  | case1 => cases h
  | case2 =>
    cases h
    exact ⟨[], rfl, by simp, .nil⟩
  | case3 r ih =>
    obtain ⟨s, hr, rfl⟩ := exists_of_map_eq_some h
    obtain ⟨inside, rfl, ht, hinside⟩ := ih hr
    exact ⟨q.char :: q.char :: inside, rfl, ht, hinside.doubled⟩
  | case4 c r hne =>
    cases h
    exact ⟨[], rfl, by simpa using hne, .nil⟩
  | case5 => cases h
  | case6 c hquote hescape c' r ih =>
    obtain ⟨rfl, hescapes⟩ := hescape
    obtain ⟨s, hr, rfl⟩ := exists_of_map_eq_some h
    obtain ⟨inside, rfl, ht, hinside⟩ := ih hr
    exact ⟨'\\' :: c' :: inside, rfl, ht, hinside.escaped hescapes c'⟩
  | case7 c r hquote hescape ih =>
    obtain ⟨s, hr, rfl⟩ := exists_of_map_eq_some h
    obtain ⟨inside, rfl, ht, hinside⟩ := ih hr
    exact ⟨c :: inside, rfl, ht, hinside.plain hquote hescape⟩

theorem length_lt_of_readQuoted? (h : readQuoted? d q cs = some (s, t)) : t.length < cs.length := by
  cases cs with
  | nil => cases h
  | cons c r =>
    obtain ⟨-, hr⟩ := Option.ite_none_right_eq_some.1 h
    obtain ⟨inside, rfl, -, -⟩ := exists_staysInside hr
    rw [List.length_cons, List.length_append, List.length_cons]
    omega

/-- A text in quotes is the first token, and the lexer goes on with what is left. -/
theorem tokens_of_readQuoted? (h : readQuoted? d q cs = some (s, t)) :
    ∃ inside, Lexer.outside.tokens d cs = .quoted q inside :: Lexer.outside.tokens d t ∧
      (q = .single → unquoted d inside = s) := by
  cases cs with
  | nil => cases h
  | cons c r =>
    obtain ⟨rfl, hr⟩ := Option.ite_none_right_eq_some.1 h
    obtain ⟨inside, rfl, ht, hinside⟩ := exists_staysInside hr
    have hopen : Lexer.outside.step d q.char = ([], .quoted q []) := by
      simp [Lexer.step_outside, Lexer.stepOutside, Quote.ofChar?_char]
    have hclose : (Lexer.quoted q inside.reverse).step d q.char = ([], .closing q inside.reverse) := by
      simp [Lexer.step]
    have hends : (Lexer.closing q inside.reverse).endsBefore t := by
      cases t <;> simp_all [Lexer.endsBefore, Lexer.continues]
    refine ⟨inside, ?_, hinside.unquoted⟩
    rw [Lexer.tokens_cons, hopen, Lexer.tokens_append, hinside.read, Lexer.tokens_cons, List.append_nil, hclose,
      Lexer.tokens_of_endsBefore rfl hends, Lexer.finish, List.reverse_reverse]
    rfl

end

/-! ## Reading what is written -/

/-- The text is read as `s` and what stands behind it is left, unless that starts with another such quote. -/
def ReadAs (d : Dialect) (q : Quote) (text s : List Char) : Prop :=
  ∀ t : List Char, t.head? ≠ some q.char → readQuoted? d q (text ++ t) = some (s, t)

/-- A character that has to be written twice between such quotes. -/
def Quote.isSpecial (d : Dialect) (q : Quote) (c : Char) : Bool :=
  c == q.char || (c == '\\' && q.escapes d)

section

variable {d : Dialect} {q : Quote}

theorem readInside?_plain {c : Char} (hquote : c ≠ q.char) (hescape : ¬(c = '\\' ∧ q.escapes d)) (r : List Char) :
    readInside? d q (c :: r) = (readInside? d q r).map (Prod.map (c :: ·) id) := by
  cases r <;> simp [readInside?, hquote, hescape]

theorem readInside?_doubleWhere (s : List Char) {t : List Char} (ht : t.head? ≠ some q.char) :
    readInside? d q (Text.doubleWhere (q.isSpecial d) s ++ q.char :: t) = some (s, t) := by
  induction s with
  | nil => cases t <;> simp_all [readInside?]
  | cons c s ih =>
    rw [Text.doubleWhere_cons]
    by_cases hquote : c = q.char
    · simp [Quote.isSpecial, hquote, readInside?, ih]
    by_cases hescape : c = '\\' ∧ q.escapes d
    · obtain ⟨rfl, hescapes⟩ := hescape
      simp [Quote.isSpecial, hquote, hescapes, readInside?, escaped, ih]
    · have hplain : q.isSpecial d c = false := by simpa [Quote.isSpecial, hquote] using hescape
      simp [hplain, readInside?_plain hquote hescape, ih]

/-- All that has to be is written twice. -/
theorem readAs_doubleWhere (s : List Char) :
    ReadAs d q (q.char :: (Text.doubleWhere (q.isSpecial d) s ++ [q.char])) s := by
  intro t ht
  simp [readQuoted?, readInside?_doubleWhere s ht]

/-- A name, between quotes where a backslash is an ordinary character. -/
theorem readAs_enclosed (h : q.escapes d = false) (s : List Char) : ReadAs d q (Text.enclosed q.char s) s := by
  have hspecial : q.isSpecial d = (· == q.char) := by
    funext c
    simp [Quote.isSpecial, h]
  have hread := readAs_doubleWhere (d := d) (q := q) s
  rwa [hspecial] at hread

/-- A string literal, where a backslash is an escape. -/
theorem readAs_literalChars (h : Quote.single.escapes d) (s : List Char) :
    ReadAs d .single (Text.literalChars s) s := by
  have hspecial : Quote.single.isSpecial d = Text.isLiteralSpecial := by
    funext c
    simp [Quote.isSpecial, h, Quote.char, Text.isLiteralSpecial]
  have hread := readAs_doubleWhere (d := d) (q := .single) s
  rwa [hspecial] at hread

end

/-! ## Lists -/

/-- Texts in quotes with commas between them, up to a closing parenthesis, and what stands behind it. -/
def readItems? (d : Dialect) (q : Quote) (cs : List Char) : Option (List (List Char) × List Char) :=
  match _ : readQuoted? d q cs with
  | some (item, ',' :: r) => (readItems? d q r).map (Prod.map (item :: ·) id)
  | some (item, ')' :: r) => some ([item], r)
  | _ => none
termination_by cs.length
decreasing_by
  have hlength := length_lt_of_readQuoted? ‹readQuoted? d q cs = _›
  exact Nat.lt_of_succ_lt hlength

/-- A list in parentheses, and what stands behind it. -/
def readList? (d : Dialect) (q : Quote) : List Char → Option (List (List Char) × List Char)
  | '(' :: ')' :: r => some ([], r)
  | '(' :: r => readItems? d q r
  | _ => none

/-- The options in the type of a column, and what stands behind it. -/
def readOptions? (d : Dialect) (cs : List Char) : Option (List (List Char) × List Char) :=
  readList? d .single (cs.dropWhile (· != '('))

section

variable {d : Dialect} {q : Quote} {α : Type} {text value : α → List Char}

theorem readItems?_comma {cs item r : List Char} (h : readQuoted? d q cs = some (item, ',' :: r)) :
    readItems? d q cs = (readItems? d q r).map (Prod.map (item :: ·) id) := by
  rw [readItems?]
  split <;> simp_all

theorem readItems?_close {cs item r : List Char} (h : readQuoted? d q cs = some (item, ')' :: r)) :
    readItems? d q cs = some ([item], r) := by
  rw [readItems?]
  split <;> simp_all

theorem readItems?_intercalate (h : ∀ a, ReadAs d q (text a) (value a)) (a : α) (items : List α) (t : List Char) :
    readItems? d q ([','].intercalate ((a :: items).map text) ++ ')' :: t) = some ((a :: items).map value, t) := by
  have hquote : ∀ {c r}, c ≠ q.char → (c :: r : List Char).head? ≠ some q.char := by simp
  induction items generalizing a with
  | nil =>
    rw [Text.intercalate_append, Text.listRest]
    exact readItems?_close (h a _ (hquote (by cases q <;> decide)))
  | cons b items ih =>
    rw [Text.intercalate_append, Text.listRest, readItems?_comma (h a _ (hquote (by cases q <;> decide))), ih]
    rfl

theorem readList?_intercalate (h : ∀ a, ReadAs d q (text a) (value a)) (items : List α) (t : List Char) :
    readList? d q ('(' :: ([','].intercalate (items.map text) ++ ')' :: t)) = some (items.map value, t) := by
  cases items with
  | nil => rfl
  | cons a items =>
    have hitems := readItems?_intercalate h a items t
    rw [readList?]
    · exact hitems
    · -- an item starts with a quote
      intro r hclose
      have hnone : readQuoted? d q (')' :: r) = none := if_neg (by cases q <;> decide)
      rw [hclose, readItems?] at hitems
      split at hitems <;> simp_all

end

/-! ## What is written in quotes -/

/-- The quotes around names. -/
def nameQuote : Dialect → Quote
  | .mysql | .mariadb => .backtick
  | .sqlite => .double

theorem readAs_nameChars (name : String) : ReadAs .mysql .backtick (Text.nameChars name) name.toList :=
  readAs_enclosed (d := .mysql) (q := .backtick) rfl name.toList

theorem readAs_quoteName (s : String) : ReadAs .mysql .backtick (Text.quoteName s).toList s.toList := by
  rw [Text.toList_quoteName]
  exact readAs_nameChars s

theorem readAs_quote (d : Dialect) (s : String) : ReadAs d (nameQuote d) (d.quote s).toList s.toList := by
  have hchars : (d.quote s).toList = Text.enclosed (nameQuote d).char s.toList := by
    cases d <;> simp [Dialect.quote, Text.encloseName, Dialect.quoteChar, nameQuote, Quote.char]
  rw [hchars]
  exact readAs_enclosed (by cases d <;> rfl) s.toList

/-- An option as it is written. -/
def optionChars (option : String) : List Char :=
  Text.literalChars (Text.trim option).toList

theorem readAs_optionChars (option : String) :
    ReadAs .mysql .single (optionChars option) (Text.trim option).toList :=
  readAs_literalChars rfl _

theorem toList_sql_choice (kind : ChoiceType) (options : List String) :
    (ColumnType.choice kind options).sql.toList =
      kind.keyword.toList ++ '(' :: ([','].intercalate (options.map optionChars) ++ [')']) := by
  have hlist : (ColumnType.optionList options).toList = [','].intercalate (options.map optionChars) := by
    have hcomma : ",".toList = [','] := rfl
    simp [ColumnType.optionList, String.toList_intercalate, hcomma, Function.comp_def, Text.quoteLiteral]
    rfl
  have hsql : (ColumnType.choice kind options).sql =
      kind.keyword ++ "(" ++ ColumnType.optionList options ++ ")" := rfl
  have hopen : "(".toList = ['('] := rfl
  have hclose : ")".toList = [')'] := rfl
  simp [hsql, hlist, hopen, hclose]

theorem readOptions?_sql (kind : ChoiceType) (options : List String) (t : List Char) :
    readOptions? .mysql ((ColumnType.choice kind options).sql.toList ++ t) =
      some (options.map fun o => (Text.trim o).toList, t) := by
  have hkeyword : ∀ r, (kind.keyword.toList ++ '(' :: r).dropWhile (· != '(') = '(' :: r := by
    intro r
    cases kind <;> simp [ChoiceType.keyword]
  rw [toList_sql_choice, readOptions?, List.append_assoc, List.cons_append, hkeyword, List.append_assoc,
    List.singleton_append]
  exact readList?_intercalate readAs_optionChars options t

theorem readList?_quoteNames (names : List String) (t : List Char) :
    readList? .mysql .backtick ('(' :: ((Text.quoteNames names).toList ++ ')' :: t)) =
      some (names.map String.toList, t) := by
  rw [Text.toList_quoteNames]
  exact readList?_intercalate readAs_nameChars names t

/-- A list of names is read name by name, so no two lists are written alike. -/
theorem quoteNames_injective : Function.Injective Text.quoteNames := by
  intro ms ns h
  have hread : some (ms.map String.toList, ([] : List Char)) = some (ns.map String.toList, []) := by
    rw [← readList?_quoteNames, ← readList?_quoteNames, h]
  have hchars : ms.map String.toList = ns.map String.toList := congrArg Prod.fst (Option.some.inj hread)
  exact List.map_injective_iff.2 (fun _ _ => String.toList_inj.1) hchars

/-- What is written in quotes is read as what was to be written, and what stands behind it is left: string literals and
text values, the options of an `ENUM` or `SET`, one by one and as a list, and names. -/
theorem quoted_readAs (s : String) (d : Dialect) (kind : ChoiceType) (options : List String) :
    ReadAs .mysql .single (Text.quoteLiteral s).toList s.toList ∧
      (∃ literal, (BoundValue.text s).literal? = some literal ∧ ReadAs .mysql .single literal s.toList) ∧
      (∃ rendered, (ColumnType.choice kind options).sql.toList =
          kind.keyword.toList ++ '(' :: ([','].intercalate rendered ++ [')']) ∧
        List.Forall₂ (fun text o => ReadAs .mysql .single text (Text.trim o).toList) rendered options) ∧
      (∀ t, readOptions? .mysql ((ColumnType.choice kind options).sql.toList ++ t) =
        some (options.map fun o => (Text.trim o).toList, t)) ∧
      ReadAs .mysql .backtick (Text.quoteName s).toList s.toList ∧
      ReadAs d (nameQuote d) (d.quote s).toList s.toList ∧
      Function.Injective Text.quoteNames := by
  refine ⟨?_, ⟨_, rfl, readAs_literalChars rfl s.toList⟩, ⟨_, toList_sql_choice kind options, ?_⟩,
    readOptions?_sql kind options, readAs_quoteName s, readAs_quote d s, quoteNames_injective⟩
  · rw [Text.quoteLiteral, String.toList_ofList]
    exact readAs_literalChars rfl s.toList
  · rw [List.forall₂_map_left_iff, List.forall₂_same]
    exact fun o _ => readAs_optionChars o

/-- Quotes and backslashes at the end of a text, and an escaped quote behind it. -/
theorem quoted_readAs_at_end :
    readQuoted? .mysql .single ((Text.quoteLiteral "a\x60\"\\'\\").toList ++ "\\' OR 1".toList) =
        some ("a\x60\"\\'\\".toList, "\\' OR 1".toList) ∧
      readQuoted? .sqlite .double ((Dialect.sqlite.quote "a\x60\"\\'\\").toList ++ "\\' OR 1".toList) =
        some ("a\x60\"\\'\\".toList, "\\' OR 1".toList) := by
  obtain ⟨hliteral, -, -, -, -, hname, -⟩ := quoted_readAs "a\x60\"\\'\\" .sqlite .one []
  exact ⟨hliteral _ (by decide), hname _ (by decide)⟩

end SchemaMigration.Server
