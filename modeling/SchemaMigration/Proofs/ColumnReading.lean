import SchemaMigration.Proofs.ColumnClauses
import SchemaMigration.Proofs.UniqueReading
import Mathlib.Logic.Function.Basic

/-!
# Reading a column definition back

The parts of a column definition stand side by side with nothing between them but a blank, and texts of any kind stand
in the quotes. Still a definition has one reading (`Column.definition_readsBack`): each part shows where it ends, no
clause starts like one of another kind, and the clauses tell all that the definition says about the column
(`Column.effective`).
-/

namespace SchemaMigration

open Text (leaves)

/-- A text before a blank is before a character of any class without the blank. -/
theorem leaves_of_blank {p : Char → Bool} {r : List Char} (hp : p ' ' = false) (hr : leaves (· != ' ') r) :
    leaves p r := by
  cases r <;> simp_all

/-! ## Types -/

namespace TypeArgument

/-- The text of an option. -/
def option? : TypeArgument → Option String
  | number _ => none
  | option value => some value

variable {r s : List Char}

/-- A number starts with a digit. -/
theorem number_ne_cons (n : UInt32) {c : Char} (hc : Text.isDigit c = false) : (number n).text ++ r ≠ c :: s := by
  obtain ⟨e, t, htext, he⟩ := Text.exists_natText_eq_cons n.toNat
  intro h
  obtain ⟨rfl, -⟩ : e = c ∧ t ++ r = s := by simpa [text, htext] using h
  rw [hc] at he
  cases he

theorem number_ne_option (n : UInt32) (value : String) : (number n).text ++ r ≠ (option value).text ++ s :=
  number_ne_cons n rfl

theorem closing_ne_text (a : TypeArgument) : ')' :: r ≠ a.text ++ s := by
  cases a with
  | number n => exact (number_ne_cons n rfl).symm
  | option value => simp [text, Text.literalChars]

/-- An argument ends where the list of arguments goes on or closes. -/
theorem text_append_inj {a b : TypeArgument} {as bs : List TypeArgument}
    (h : a.text ++ Text.listRest text as r = b.text ++ Text.listRest text bs s) :
    a = b ∧ Text.listRest text as r = Text.listRest text bs s := by
  cases a with
  | number m => cases b with
    | number n =>
      obtain ⟨hn, hrest⟩ := Text.natText_append_inj (Text.leaves_listRest rfl rfl text as r)
        (Text.leaves_listRest rfl rfl text bs s) h
      exact ⟨congrArg number (UInt32.toNat_inj.1 hn), hrest⟩
    | option v => exact absurd h (number_ne_option m v)
  | option v => cases b with
    | number n => exact absurd h.symm (number_ne_option n v)
    | option w =>
      obtain ⟨hv, hrest⟩ := Text.literalChars_append_inj (Text.leaves_listRest rfl rfl text as r)
        (Text.leaves_listRest rfl rfl text bs s) h
      exact ⟨congrArg option (String.toList_inj.1 hv), hrest⟩

theorem isItem_text : Text.IsItem text where
  closing_ne := fun a _ _ => closing_ne_text a
  append_inj := text_append_inj

theorem parenthesized_append_inj {as bs : Option (List TypeArgument)} (hr : leaves (· == '(') r)
    (hs : leaves (· == '(') s) (h : parenthesized as ++ r = parenthesized bs ++ s) : as = bs ∧ r = s := by
  cases as with
  | none => cases bs with
    | none => exact ⟨rfl, h⟩
    | some bs =>
      obtain rfl : r = _ := h
      simp [parenthesized] at hr
  | some as => cases bs with
    | none =>
      obtain rfl : _ = s := h
      simp [parenthesized] at hs
    | some bs =>
      simp only [parenthesized, List.cons_append, List.cons.injEq, List.append_assoc, List.nil_append, true_and] at h
      obtain ⟨rfl, hrest⟩ := isItem_text.intercalate_append_inj h
      exact ⟨rfl, hrest⟩

end TypeArgument

namespace ColumnType

/-- A type without its arguments. -/
def shape : ColumnType → ColumnType
  | integer size _ => integer size 0
  | decimal .. => decimal 0 0
  | float size _ => float size none
  | length kind _ => length kind 0
  | choice kind _ => choice kind []
  | type => type

/-- All types without their arguments. -/
def shapes : List ColumnType :=
  [.tiny, .small, .medium, .standard, .big].map (integer · 0) ++ [decimal 0 0] ++
    [.single, .double].map (float · none) ++ [.bit, .char, .varChar, .binary, .varBinary].map (length · 0) ++
    [.tiny, .standard, .medium, .long].map text ++ [.tiny, .standard, .medium, .long].map blob ++
    [.one, .many].map (choice · []) ++ [.date, .time, .dateTime, .timestamp, .year].map temporal ++ [json]

theorem shape_mem_shapes (type : ColumnType) : type.shape ∈ shapes := by
  cases type with
  | integer size _ | float size _ => cases size <;> exact List.mem_of_elem_eq_true rfl
  | length kind _ | choice kind _ | temporal kind => cases kind <;> exact List.mem_of_elem_eq_true rfl
  | text capacity | blob capacity => cases capacity <;> exact List.mem_of_elem_eq_true rfl
  | decimal | json => exact List.mem_of_elem_eq_true rfl

theorem keyword_shape (type : ColumnType) : type.shape.keyword = type.keyword := by
  cases type <;> rfl

theorem nodup_keywords : (shapes.map keyword).Nodup := by
  decide +kernel

theorem shape_eq_of_keyword_eq {a b : ColumnType} (h : a.keyword = b.keyword) : a.shape = b.shape :=
  List.inj_on_of_nodup_map nodup_keywords (shape_mem_shapes a) (shape_mem_shapes b)
    (by rw [keyword_shape, keyword_shape, h])

/-- The type of the given shape with the given arguments. -/
def ofShape : ColumnType → Option (List TypeArgument) → ColumnType
  | integer size _, some [.number width] => integer size width
  | decimal .., some [.number precision, .number scale] => decimal precision scale
  | float size _, some [.number precision, .number scale] => float size (some (precision, scale))
  | length kind _, some [.number n] => length kind n
  | choice kind _, some options => choice kind (options.filterMap TypeArgument.option?)
  | type, _ => type

theorem ofShape_shape (type : ColumnType) : ofShape type.shape type.argumentList = type := by
  rcases type with _ | _ | ⟨_, _ | ⟨_, _⟩⟩ | _ | _ | _ | _ | _ | _ <;>
    simp [ofShape, shape, argumentList, List.filterMap_map, Function.comp_def, TypeArgument.option?]

/-- A type ends where its parentheses close, or where a blank follows its keyword. -/
theorem sql_append_inj {a b : ColumnType} {r s : List Char} (hr : leaves (· != ' ') r) (hs : leaves (· != ' ') s)
    (h : a.sql.toList ++ r = b.sql.toList ++ s) : a.trimmed = b.trimmed ∧ r = s := by
  have hkeyword : ∀ {as : Option (List TypeArgument)} {r}, leaves (· != ' ') r →
      leaves Text.isLetter (TypeArgument.parenthesized as ++ r) := by
    intro as r hr
    cases as with
    | none => exact leaves_of_blank rfl hr
    | some as => rfl
  rw [toList_sql, toList_sql, List.append_assoc, List.append_assoc] at h
  obtain ⟨hkey, hrest⟩ := Text.run_append_inj (List.all_eq_true.1 (isLetter_keyword a.trimmed))
    (List.all_eq_true.1 (isLetter_keyword b.trimmed)) (hkeyword hr) (hkeyword hs) h
  obtain ⟨harguments, hrest⟩ :=
    TypeArgument.parenthesized_append_inj (leaves_of_blank rfl hr) (leaves_of_blank rfl hs) hrest
  have hshape : a.trimmed.shape = b.trimmed.shape := shape_eq_of_keyword_eq (String.toList_inj.1 hkey)
  have htype : a.trimmed = b.trimmed := by rw [← ofShape_shape a.trimmed, hshape, harguments, ofShape_shape]
  exact ⟨htype, hrest⟩

end ColumnType

/-! ## Clauses -/

namespace ColumnClause

/-- A clause without its name or text. -/
def kind : ColumnClause → ColumnClause
  | charset _ => charset ""
  | collation _ => collation ""
  | literalDefault _ => literalDefault ""
  | comment _ => comment ""
  | clause => clause

/-- All clauses without their names and texts. -/
def kinds : List ColumnClause :=
  [unsigned, zerofill, charset "", collation "", notNull, null, nullDefault, timeDefault, literalDefault "", autoKey,
    onUpdateTime, comment ""]

theorem kind_mem_kinds (clause : ColumnClause) : clause.kind ∈ kinds := by
  cases clause <;> simp [kind, kinds]

theorem opening_kind (clause : ColumnClause) : clause.kind.opening = clause.opening := by
  cases clause <;> rfl

/-- No clause starts like another kind of clause. -/
theorem kind_eq_of_startsAlike {a b : ColumnClause} (h : a.opening.toList <+: b.opening.toList) :
    a.kind = b.kind := by
  have hkinds : ∀ a ∈ kinds, ∀ b ∈ kinds, a.opening.toList <+: b.opening.toList → a = b := by decide +kernel
  refine hkinds _ (kind_mem_kinds a) _ (kind_mem_kinds b) ?_
  rwa [opening_kind, opening_kind]

variable {a b : ColumnClause} {r s : List Char}

theorem ending_append_inj (hkind : a.kind = b.kind) (ha : a.isPlain) (hb : b.isPlain) (hr : leaves (· != ' ') r)
    (hs : leaves (· != ' ') s) (h : a.ending ++ r = b.ending ++ s) : a = b ∧ r = s := by
  have hname : ∀ {m n : String}, Text.isPlain m → Text.isPlain n → m.toList ++ r = n.toList ++ s → m = n ∧ r = s := by
    intro m n hm hn h
    obtain ⟨hname, hrest⟩ := Text.run_append_inj (List.all_eq_true.1 hm) (List.all_eq_true.1 hn)
      (leaves_of_blank rfl hr) (leaves_of_blank rfl hs) h
    exact ⟨String.toList_inj.1 hname, hrest⟩
  have hvalue : ∀ {v w : String}, (literalDefault v).ending ++ r = (literalDefault w).ending ++ s → v = w ∧ r = s := by
    intro v w h
    simp only [ending, List.append_assoc, List.singleton_append] at h
    obtain ⟨hvalue, hrest⟩ := Text.doubleWhere_append_inj rfl (leaves_of_blank rfl hr) (leaves_of_blank rfl hs) h
    exact ⟨String.toList_inj.1 hvalue, hrest⟩
  cases a <;> cases b <;> cases hkind
  case charset.charset => exact (hname ha hb h).imp_left (congrArg charset)
  case collation.collation => exact (hname ha hb h).imp_left (congrArg collation)
  case literalDefault.literalDefault => exact (hvalue h).imp_left (congrArg literalDefault)
  case comment.comment => exact (hvalue h).imp_left (congrArg comment)
  all_goals exact ⟨rfl, h⟩

/-- A clause ends with its quote, or where the blank of the next one follows. -/
theorem text_append_inj (ha : a.isPlain) (hb : b.isPlain) (hr : leaves (· != ' ') r) (hs : leaves (· != ' ') s)
    (h : a.text ++ r = b.text ++ s) : a = b ∧ r = s := by
  rw [text, text, List.append_assoc, List.append_assoc] at h
  have hkind : a.kind = b.kind := by
    rcases List.prefix_or_prefix_of_prefix ⟨_, h⟩ (List.prefix_append _ _) with hprefix | hprefix
    · exact kind_eq_of_startsAlike hprefix
    · exact (kind_eq_of_startsAlike hprefix).symm
  have hopening : a.opening = b.opening := by rw [← opening_kind, hkind, opening_kind]
  rw [hopening] at h
  exact ending_append_inj hkind ha hb hr hs (List.append_cancel_left h)

/-- Every clause starts with a blank. -/
theorem exists_text_eq_cons (clause : ColumnClause) : ∃ t, clause.text = ' ' :: t := by
  cases clause <;> simp [text, opening]

theorem leaves_flatMap_text (clauses : List ColumnClause) : leaves (· != ' ') (clauses.flatMap text) := by
  cases clauses with
  | nil => rfl
  | cons clause clauses =>
    obtain ⟨t, ht⟩ := exists_text_eq_cons clause
    simp [ht]

/-- Clauses are read one after the other. -/
theorem flatMap_text_inj {as bs : List ColumnClause} (ha : ∀ clause ∈ as, clause.isPlain)
    (hb : ∀ clause ∈ bs, clause.isPlain) (h : as.flatMap text = bs.flatMap text) : as = bs := by
  have hne : ∀ (clause : ColumnClause) (r : List Char), clause.text ++ r ≠ [] := by
    intro clause r
    obtain ⟨t, ht⟩ := exists_text_eq_cons clause
    simp [ht]
  induction as generalizing bs with
  | nil => cases bs with
    | nil => rfl
    | cons b bs => exact absurd h.symm (hne b _)
  | cons a as ih => cases bs with
    | nil => exact absurd h (hne a _)
    | cons b bs =>
      obtain ⟨ha, has⟩ := List.forall_mem_cons.1 ha
      obtain ⟨hb, hbs⟩ := List.forall_mem_cons.1 hb
      obtain ⟨rfl, hrest⟩ := text_append_inj ha hb (leaves_flatMap_text as) (leaves_flatMap_text bs) h
      rw [ih has hbs hrest]

end ColumnClause

/-! ## Columns -/

/-- What the definition of a column says about it. -/
structure EffectiveColumn where
  name : String
  /-- The type, its options trimmed. -/
  type : ColumnType
  unsigned : Bool
  zerofill : Bool
  charset : Option String
  collation : Option String
  nullable : Bool
  defaultValue : DefaultValue
  autoIncrement : Bool
  onUpdateTimestamp : Bool
  comment : Option String
  deriving Repr, DecidableEq

namespace Column

/-- The column as its definition shows it in a table with the given character set: attributes that its type cannot carry
are unset. -/
def effective (c : Column) (tableCharset : String) : EffectiveColumn where
  name := c.name
  type := c.type.trimmed
  unsigned := c.type.isNumeric && c.unsigned
  zerofill := c.type.isNumeric && c.zerofill
  charset := c.writtenCharset tableCharset
  collation := c.writtenCollation tableCharset
  nullable := c.nullable
  defaultValue := c.effectiveDefault
  autoIncrement := c.isAutoPrimaryKey
  onUpdateTimestamp := c.onUpdateTimestamp && c.type.isAutoTimestamp
  comment := nonempty? c.comment

variable {a b : Column} {tableCharset : String}

/-- A definition starts with the name, whatever the character sets of the tables. -/
theorem name_eq_of_definition_eq {otherCharset : String} (h : a.definition tableCharset = b.definition otherCharset) :
    a.name = b.name := by
  have hchars := congrArg String.toList h
  rw [toList_definition, toList_definition] at hchars
  exact String.toList_inj.1 (Text.enclosed_append_inj rfl rfl hchars).1

theorem effective_eq_of_clauses_eq (hname : a.name = b.name) (htype : a.type.trimmed = b.type.trimmed)
    (hclauses : a.clauses tableCharset = b.clauses tableCharset) :
    a.effective tableCharset = b.effective tableCharset := by
  have h : ∀ clause, a.HasClause tableCharset clause ↔ b.HasClause tableCharset clause := fun clause => by
    rw [← mem_clauses, ← mem_clauses, hclauses]
  have hdefault : a.effectiveDefault = b.effectiveDefault := by
    have hnull : a.effectiveDefault = .null ↔ b.effectiveDefault = .null := h .nullDefault
    have htime : a.effectiveDefault = .currentTimestamp ↔ b.effectiveDefault = .currentTimestamp := h .timeDefault
    have hliteral : ∀ v, a.effectiveDefault = .literal v ↔ b.effectiveDefault = .literal v :=
      fun v => h (.literalDefault v)
    cases hb : b.effectiveDefault with
    | none => cases ha : a.effectiveDefault <;> simp_all
    | null => exact hnull.2 hb
    | currentTimestamp => exact htime.2 hb
    | literal v => exact (hliteral v).2 hb
  simp only [effective, EffectiveColumn.mk.injEq]
  exact ⟨hname, htype, Bool.eq_iff_iff.2 (h .unsigned), Bool.eq_iff_iff.2 (h .zerofill),
    Option.ext fun n => h (.charset n), Option.ext fun n => h (.collation n), by
      have hnullable : a.nullable = false ↔ b.nullable = false := h .notNull
      cases ha : a.nullable <;> cases hb : b.nullable <;> simp_all, hdefault, Bool.eq_iff_iff.2 (h .autoKey),
    Bool.eq_iff_iff.2 (h .onUpdateTime), Option.ext fun v => h (.comment v)⟩

theorem effective_eq_of_definition_eq (hcharset : Text.isPlain tableCharset) (ha : a.hasPlainSettings)
    (hb : b.hasPlainSettings) (h : a.definition tableCharset = b.definition tableCharset) :
    a.effective tableCharset = b.effective tableCharset := by
  have hchars := congrArg String.toList h
  rw [toList_definition, toList_definition] at hchars
  obtain ⟨hname, hrest⟩ := Text.enclosed_append_inj rfl rfl hchars
  obtain ⟨htype, hclauses⟩ := ColumnType.sql_append_inj (ColumnClause.leaves_flatMap_text _)
    (ColumnClause.leaves_flatMap_text _) (List.cons.inj hrest).2
  exact effective_eq_of_clauses_eq (String.toList_inj.1 hname) htype
    (ColumnClause.flatMap_text_inj (isPlain_of_mem_clauses hcharset ha) (isPlain_of_mem_clauses hcharset hb) hclauses)

/-- The definition says no more than that. -/
theorem definition_eq_of_effective_eq (h : a.effective tableCharset = b.effective tableCharset) :
    a.definition tableCharset = b.definition tableCharset := by
  simp only [effective, EffectiveColumn.mk.injEq] at h
  obtain ⟨hname, htype, hunsigned, hzerofill, hcharset, hcollation, hnullable, hdefault, hkey, htime, hcomment⟩ := h
  have hnullness : a.nullness? = b.nullness? := by
    have htimestamp := congrArg ColumnType.isTimestamp htype
    rw [ColumnType.isTimestamp_trimmed, ColumnType.isTimestamp_trimmed] at htimestamp
    rw [nullness?, nullness?, hnullable, htimestamp]
  have hclauses : a.clauses tableCharset = b.clauses tableCharset := by
    rw [clauses, clauses, hunsigned, hzerofill, hcharset, hcollation, hnullness, hdefault, hkey, htime, hcomment]
  apply String.toList_inj.1
  rw [toList_definition, toList_definition, ColumnType.toList_sql, ColumnType.toList_sql, hname, htype, hclauses]

/-- A definition can be read back: it shows just the effective column. -/
theorem definition_readsBack (hcharset : Text.isPlain tableCharset) :
    (∀ a b : Column, a.hasPlainSettings → b.hasPlainSettings →
      (a.definition tableCharset = b.definition tableCharset ↔ a.effective tableCharset = b.effective tableCharset)) ∧
    ∃ read : String → Option EffectiveColumn,
      ∀ c : Column, c.hasPlainSettings → read (c.definition tableCharset) = some (c.effective tableCharset) := by
  have hinjective : ∀ a b : Column, a.hasPlainSettings → b.hasPlainSettings →
      a.definition tableCharset = b.definition tableCharset → a.effective tableCharset = b.effective tableCharset :=
    fun _ _ ha hb => effective_eq_of_definition_eq hcharset ha hb
  refine ⟨fun a b ha hb => ⟨hinjective a b ha hb, definition_eq_of_effective_eq⟩, ?_⟩
  let written (c : { c : Column // c.hasPlainSettings }) : String := c.1.definition tableCharset
  let shown (c : { c : Column // c.hasPlainSettings }) : Option EffectiveColumn := some (c.1.effective tableCharset)
  have hfactors : shown.FactorsThrough written := fun a b h => congrArg some (hinjective a b a.2 b.2 h)
  obtain ⟨read, hread⟩ := (Function.factorsThrough_iff shown).1 hfactors
  exact ⟨read, fun c hc => (congrFun hread ⟨c, hc⟩).symm⟩

end Column

namespace Sample

/-- A set of labels whose options hold blanks, quotes, backslashes and what looks like a clause, with attributes that no
set can carry. -/
def labels : Column :=
  { name := "la\x60bels", type := .choice .many ["it's ", " \\", "') NOT NULL COMMENT 'x"], binary := true,
    unsigned := true, autoIncrement := true, charset := some "", defaultValue := .currentTimestamp, comment := some "" }

/-- The same set without them. -/
def plainLabels : Column :=
  { name := "la\x60bels", type := .choice .many ["it's", "\\", "') NOT NULL COMMENT 'x"], binary := true,
    charset := some "utf8mb4", collate := some "latin1_bin", defaultValue := .null }

end Sample

theorem Column.definition_readsBack_labels :
    Text.isPlain "utf8mb4" ∧ Sample.labels.hasPlainSettings ∧ Sample.plainLabels.hasPlainSettings ∧
      Sample.labels ≠ Sample.plainLabels ∧
      Sample.labels.definition "utf8mb4" = Sample.plainLabels.definition "utf8mb4" ∧
      Sample.labels.effective "utf8mb4" = Sample.plainLabels.effective "utf8mb4" ∧
      ∃ read : String → Option EffectiveColumn,
        read (Sample.labels.definition "utf8mb4") = some (Sample.plainLabels.effective "utf8mb4") := by
  have hcharset : Text.isPlain "utf8mb4" := by decide
  have ha : Sample.labels.hasPlainSettings := by decide
  have hb : Sample.plainLabels.hasPlainSettings := by decide
  have hne : Sample.labels ≠ Sample.plainLabels := by decide
  have hdefinition : Sample.labels.definition "utf8mb4" = Sample.plainLabels.definition "utf8mb4" := by decide +kernel
  obtain ⟨hiff, read, hread⟩ := definition_readsBack hcharset
  have heffective := (hiff Sample.labels Sample.plainLabels ha hb).1 hdefinition
  have hlabels := (hread Sample.labels ha).trans (congrArg some heffective)
  exact ⟨hcharset, ha, hb, hne, hdefinition, heffective, read, hlabels⟩

end SchemaMigration
