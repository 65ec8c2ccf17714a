import SchemaMigration.Template.Expr
import SchemaMigration.Yaml.Scalar
import Mathlib.Data.List.Basic

/-!
# Double-quoted scalars

What the reader of scalars makes of a text that was quoted for a migration file (`readDouble_flatMap_yamlChar`). The
line breaks that are not of ASCII are written as they are: the scalar then runs over several lines, which are folded
when it is read, and none of them may start with a document mark. A text without such a line break is read as it was
(`folded_eq`).
-/

namespace SchemaMigration.Yaml

open Template (yamlChar)

/-! ## The text of a scalar -/

/-- The line breaks that stand in a scalar as they are. -/
def isRawBreak (c : Char) : Bool :=
  c == '\u0085' || c == '\u2028' || c == '\u2029'

/-- The text starts with a space or with a line break that stands as it is. -/
def startsGap : List Char → Bool
  | [] => false
  | c :: _ => c == ' ' || isRawBreak c

/-- The text starts with what is a document mark at the start of a line. -/
def startsMark : List Char → Bool
  | '-' :: '-' :: '-' :: s | '.' :: '.' :: '.' :: s => startsGap s
  | _ => false

/-- A line of the text, and not its first one, starts with a document mark. -/
def hasMarkLine : List Char → Bool
  | [] => false
  | c :: s => (isRawBreak c && startsMark s) || hasMarkLine s

/-- A text with what is read for the rest `s` of its scalar, after `acc` and `f`. -/
def folded (acc : List Char) (f : Fold) : List Char → List Char
  | [] => (f.text ++ acc).reverse
  | c :: s =>
    if c == ' ' then folded acc (f.blank ' ') s
    else if isRawBreak c then folded acc (f.lineBreak c) s
    else folded (c :: (f.text ++ acc)) {} s

/-- The characters that a double-quoted scalar holds on one line, written out or behind a backslash: the printable ones
but for the line breaks and the mark that ASCII does not have. -/
def isScalarChar (c : Char) : Bool :=
  isPrintable c && !(c == '\u0085' || c == '\u2028' || c == '\u2029' || c == '\uFEFF')

/-! ## Characters -/

/-- A character is written out, or behind a backslash as the character that the scalar reads as it. -/
theorem yamlChar_cases (c : Char) :
    (yamlChar c = [c] ∧ c ≠ '\\' ∧ c ≠ '"' ∧ c ≠ '\n' ∧ c ≠ '\r' ∧ c ≠ '\t') ∨
      ∃ e, yamlChar c = ['\\', e] ∧ escapeChar? e = some c ∧ isBreak e = false ∧ isPrintable e ∧ isPrintable c := by
  by_cases hslash : c = '\\'
  · exact .inr ⟨'\\', by simp [yamlChar, hslash], by rw [hslash]; rfl, rfl, rfl, by rw [hslash]; rfl⟩
  by_cases hquote : c = '"'
  · exact .inr ⟨'"', by simp [yamlChar, hquote], by rw [hquote]; rfl, rfl, rfl, by rw [hquote]; rfl⟩
  by_cases hfeed : c = '\n'
  · exact .inr ⟨'n', by simp [yamlChar, hfeed], by rw [hfeed]; rfl, rfl, rfl, by rw [hfeed]; rfl⟩
  by_cases hreturn : c = '\r'
  · exact .inr ⟨'r', by simp [yamlChar, hreturn], by rw [hreturn]; rfl, rfl, rfl, by rw [hreturn]; rfl⟩
  by_cases htab : c = '\t'
  · exact .inr ⟨'t', by simp [yamlChar, htab], by rw [htab]; rfl, rfl, rfl, by rw [htab]; rfl⟩
  exact .inl ⟨by simp [yamlChar, hslash, hquote, hfeed, hreturn, htab], hslash, hquote, hfeed, hreturn, htab⟩

theorem isRawBreak_cases {c : Char} (h : isRawBreak c) : c = '\u0085' ∨ c = '\u2028' ∨ c = '\u2029' := by
  simpa [isRawBreak, or_assoc] using h

theorem yamlChar_of_isRawBreak {c : Char} (h : isRawBreak c) : yamlChar c = [c] := by
  rcases isRawBreak_cases h with rfl | rfl | rfl <;> rfl

theorem all_isPrintable_yamlChar (c : Char) : (yamlChar c).all isPrintable = isPrintable c := by
  have hslash : isPrintable '\\' := rfl
  rcases yamlChar_cases c with ⟨hchars, -⟩ | ⟨e, hchars, -, -, he, hc⟩
  · simp [hchars]
  · simp [hchars, hslash, he, hc]

/-! ## Document marks -/

variable {s rest : List Char}

theorem startsBlankOrEnd_flatMap_yamlChar :
    startsBlankOrEnd (s.flatMap yamlChar ++ '"' :: rest) = startsGap s := by
  cases s with
  | nil => rfl
  | cons c s =>
    rcases yamlChar_cases c with ⟨hchars, -, -, hfeed, hreturn, htab⟩ | ⟨e, hchars, -⟩
    · simp [hchars, startsBlankOrEnd, startsGap, isBlank, isBreak, isRawBreak, beq_eq_false_iff_ne.2 hfeed,
        beq_eq_false_iff_ne.2 hreturn, beq_eq_false_iff_ne.2 htab]
    · have hspace : c ≠ ' ' := by
        rintro rfl
        cases hchars
      have hbreak : isRawBreak c = false := by
        by_contra hbreak
        rw [Bool.not_eq_false] at hbreak
        rw [yamlChar_of_isRawBreak hbreak] at hchars
        cases hchars
      simp [hchars, startsBlankOrEnd, startsGap, isBlank, isBreak, hspace, hbreak]

/-- A character that is written out stands in the scalar where it stands in the text. -/
theorem flatMap_yamlChar_eq_cons_iff {d : Char} (hd : yamlChar d = [d]) {r : List Char} :
    s.flatMap yamlChar ++ '"' :: rest = d :: r ↔ ∃ s', s = d :: s' ∧ s'.flatMap yamlChar ++ '"' :: rest = r := by
  cases s with
  | nil =>
    have hquote : '"' ≠ d := by
      rintro rfl
      cases hd
    simp [hquote]
  | cons c s =>
    rcases yamlChar_cases c with ⟨hchars, -⟩ | ⟨e, hchars, -⟩
    · simp [hchars]
    · have hslash : '\\' ≠ d := by
        rintro rfl
        cases hd
      have hne : c ≠ d := by
        rintro rfl
        cases hchars.symm.trans hd
      simp [hchars, hslash, hne]

theorem startsDocumentMark_iff {l : List Char} :
    startsDocumentMark l ↔
      ∃ r, (l = '-' :: '-' :: '-' :: r ∨ l = '.' :: '.' :: '.' :: r) ∧ startsBlankOrEnd r := by
  constructor
  · intro h
    unfold startsDocumentMark at h
    split at h
    · exact ⟨_, .inl rfl, h⟩
    · exact ⟨_, .inr rfl, h⟩
    · cases h
  · rintro ⟨r, rfl | rfl, h⟩ <;> exact h

theorem startsMark_iff : startsMark s ↔
    ∃ r, (s = '-' :: '-' :: '-' :: r ∨ s = '.' :: '.' :: '.' :: r) ∧ startsGap r := by
  constructor
  · intro h
    unfold startsMark at h
    split at h
    · exact ⟨_, .inl rfl, h⟩
    · exact ⟨_, .inr rfl, h⟩
    · cases h
  · rintro ⟨r, rfl | rfl, h⟩ <;> exact h

theorem startsDocumentMark_flatMap_yamlChar :
    startsDocumentMark (s.flatMap yamlChar ++ '"' :: rest) = startsMark s := by
  have hdash : yamlChar '-' = ['-'] := rfl
  have hdot : yamlChar '.' = ['.'] := rfl
  rw [Bool.eq_iff_iff, startsDocumentMark_iff, startsMark_iff]
  simp only [flatMap_yamlChar_eq_cons_iff hdash, flatMap_yamlChar_eq_cons_iff hdot]
  constructor
  · rintro ⟨_, ⟨_, rfl, _, rfl, r, rfl, rfl⟩ | ⟨_, rfl, _, rfl, r, rfl, rfl⟩, h⟩
    · exact ⟨r, .inl rfl, startsBlankOrEnd_flatMap_yamlChar.symm.trans h⟩
    · exact ⟨r, .inr rfl, startsBlankOrEnd_flatMap_yamlChar.symm.trans h⟩
  · rintro ⟨r, rfl | rfl, h⟩
    · exact ⟨_, .inl ⟨_, rfl, _, rfl, r, rfl, rfl⟩, startsBlankOrEnd_flatMap_yamlChar.trans h⟩
    · exact ⟨_, .inr ⟨_, rfl, _, rfl, r, rfl, rfl⟩, startsBlankOrEnd_flatMap_yamlChar.trans h⟩

/-! ## Reading a scalar -/

section

variable {c : Char} {acc r : List Char} {f : Fold} {afterBlank : Bool} {p : Position}

theorem readDouble_space :
    readDouble acc f afterBlank p (' ' :: r) = readDouble acc (f.blank ' ') true (p.advance 1) r := by
  simp [readDouble, isBlank]

theorem readDouble_rawBreak (h : isRawBreak c) :
    readDouble acc f afterBlank p (c :: r) = readDouble acc (f.lineBreak c) true (p.newLine 1) r := by
  rcases isRawBreak_cases h with rfl | rfl | rfl <;> simp [readDouble, isBlank, isBreak]

/-- Any other character is read as itself, unless a document mark starts there. -/
theorem readDouble_yamlChar (hspace : c ≠ ' ') (hraw : isRawBreak c = false) :
    ∃ n, readDouble acc f afterBlank p (yamlChar c ++ r) =
      if isUnexpectedMark afterBlank p (yamlChar c ++ r) then none
      else readDouble (c :: (f.text ++ acc)) {} false (p.advance n) r := by
  rcases yamlChar_cases c with ⟨hchars, hslash, hquote, hfeed, hreturn, htab⟩ | ⟨e, hchars, hescape, hbreak, -⟩
  · have hbreak : isBreak c = false := by
      simp only [isRawBreak, Bool.or_eq_false_iff, beq_eq_false_iff_ne] at hraw
      simp [isBreak, hfeed, hreturn, hraw]
    have hblank : isBlank c = false := by simp [isBlank, hspace, htab]
    refine ⟨1, ?_⟩
    rw [hchars, List.singleton_append, readDouble]
    · simp [hblank, hbreak, hquote, hslash]
    all_goals simp [hslash, hreturn]
  · have hne : ∀ d, escapeChar? d = none → e ≠ d := by
      rintro d hd rfl
      cases hescape.symm.trans hd
    have hreturn : e ≠ '\r' := hne _ rfl
    have hcode : e ≠ 'x' ∧ e ≠ 'u' ∧ e ≠ 'U' := ⟨hne _ rfl, hne _ rfl, hne _ rfl⟩
    have hmark : isUnexpectedMark afterBlank p ('\\' :: e :: r) = false := by
      simp [isUnexpectedMark, startsDocumentMark]
    refine ⟨2, ?_⟩
    rw [hchars, List.cons_append, List.singleton_append, hmark, readDouble]
    · simp [hbreak, hescape]
    all_goals simp [hreturn, hcode]

end

/-- A scalar is read as its text with the lines folded, unless a line starts with a document mark. -/
theorem readDouble_flatMap_yamlChar (s rest acc : List Char) (f : Fold) (afterBlank : Bool) (p : Position) :
    ∃ p', readDouble acc f afterBlank p (s.flatMap yamlChar ++ '"' :: rest) =
      if (afterBlank && p.column == 0 && startsMark s) || hasMarkLine s then none
      else some { text := folded acc f s, next := ⟨rest, p'⟩ } := by
  induction s generalizing acc f afterBlank p with
  | nil => exact ⟨p.advance 1, by simp [readDouble, isBlank, isBreak, startsMark, hasMarkLine, folded]⟩
  | cons c s ih =>
    by_cases hspace : c = ' '
    · subst hspace
      obtain ⟨p', hread⟩ := ih acc (f.blank ' ') true (p.advance 1)
      have hmark : startsMark (' ' :: s) = false := rfl
      have hline : hasMarkLine (' ' :: s) = hasMarkLine s := rfl
      have hchars : (' ' :: s).flatMap yamlChar ++ '"' :: rest = ' ' :: (s.flatMap yamlChar ++ '"' :: rest) := rfl
      refine ⟨p', ?_⟩
      rw [hchars, readDouble_space, hread, hmark, hline]
      simp [folded, Position.advance]
    · by_cases hraw : isRawBreak c = true
      · obtain ⟨p', hread⟩ := ih acc (f.lineBreak c) true (p.newLine 1)
        have hmark : startsMark (c :: s) = false := by
          rcases isRawBreak_cases hraw with rfl | rfl | rfl <;> rfl
        refine ⟨p', ?_⟩
        rw [List.flatMap_cons, yamlChar_of_isRawBreak hraw, List.append_assoc, List.singleton_append,
          readDouble_rawBreak hraw, hread, hmark]
        simp [folded, hasMarkLine, hspace, hraw, Position.newLine]
      · rw [Bool.not_eq_true] at hraw
        obtain ⟨n, hstep⟩ := @readDouble_yamlChar c acc (s.flatMap yamlChar ++ '"' :: rest) f afterBlank p hspace hraw
        obtain ⟨p', hread⟩ := ih (c :: (f.text ++ acc)) {} false (p.advance n)
        have hmark : startsDocumentMark (yamlChar c ++ (s.flatMap yamlChar ++ '"' :: rest)) = startsMark (c :: s) := by
          rw [← List.append_assoc, ← List.flatMap_cons, startsDocumentMark_flatMap_yamlChar]
        refine ⟨p', ?_⟩
        rw [List.flatMap_cons, List.append_assoc, hstep, hread, isUnexpectedMark, hmark]
        by_cases hstart : (afterBlank && p.column == 0 && startsMark (c :: s)) = true
        · simp only [hstart, if_true, Bool.true_or]
        · rw [Bool.not_eq_true] at hstart
          simp [hstart, hasMarkLine, folded, hspace, hraw]

theorem isRawBreak_of_isScalarChar {c : Char} (h : isScalarChar c) : isRawBreak c = false := by
  simp only [isScalarChar, Bool.and_eq_true, Bool.not_eq_true', Bool.or_eq_false_iff] at h
  simp [isRawBreak, h]

/-- What stands on one line is read as it is. -/
theorem folded_eq (h : ∀ c ∈ s, isScalarChar c) (acc : List Char) {f : Fold} (hf : f.broken = false) :
    folded acc f s = (f.text ++ acc).reverse ++ s := by
  induction s generalizing acc f with
  | nil => simp [folded]
  | cons c s ih =>
    have hs : ∀ d ∈ s, isScalarChar d := fun d hd => h d (List.mem_cons_of_mem _ hd)
    have hraw : isRawBreak c = false := isRawBreak_of_isScalarChar (h c List.mem_cons_self)
    by_cases hspace : c = ' '
    · subst hspace
      have hblank : f.blank ' ' = { f with blanks := ' ' :: f.blanks } := by simp [Fold.blank, hf]
      have htext : (f.blank ' ').text = ' ' :: f.text := by simp [hblank, Fold.text, hf]
      have hfold : folded acc f (' ' :: s) = folded acc (f.blank ' ') s := rfl
      rw [hfold, ih hs acc (f := f.blank ' ') (by rw [hblank]; exact hf), htext]
      simp
    · have hfold : folded acc f (c :: s) = folded (c :: (f.text ++ acc)) {} s := by simp [folded, hspace, hraw]
      rw [hfold, ih hs (c :: (f.text ++ acc)) (f := {}) rfl]
      simp [Fold.text]

theorem hasMarkLine_eq_false (h : ∀ c ∈ s, isScalarChar c) : hasMarkLine s = false := by
  induction s with
  | nil => rfl
  | cons c s ih =>
    rw [hasMarkLine, isRawBreak_of_isScalarChar (h c List.mem_cons_self),
      ih fun d hd => h d (List.mem_cons_of_mem _ hd)]
    rfl

end SchemaMigration.Yaml
