import SchemaMigration.Proofs.DocumentPaths
import SchemaMigration.Proofs.JsonReading
import SchemaMigration.Proofs.RoundedIntegers
import SchemaMigration.Proofs.Steps
import Mathlib.Data.List.TakeWhile

/-!
# Bound integers

What becomes of an integer that a document binds, written in decimal. One that 64 bits with a sign hold is bound as it
is (`Yaml.ofPlain?_of_held`, `Script.boundValue?_int`). One that they would hold without a sign, and one of more than
128 bits, is bound as the nearest float, or as a text where that is infinite; hardly any of these is still what was
written (`IsWrittenByFloat.thousand_dvd`). With any other the document is refused (`Yaml.ofPlain?_of_refused`).
-/

namespace SchemaMigration

open BoundValue (intChars)
open Number (takeSign readDecimal isFinite floatChars isDigit_of_mem_natText)
open Text (isDigit decimalValue natText)
open Yaml (Value)

/-! ## Reading integers -/

/-- The numeral of an integer is a sign and the numeral of its absolute value. -/
theorem intChars_eq (n : Int) : intChars n = (if n < 0 then ['-'] else []) ++ natText n.natAbs := by
  unfold intChars
  split <;> rfl

theorem takeSign_intChars (n : Int) : takeSign (intChars n) = (decide (n < 0), natText n.natAbs) := by
  rw [intChars_eq]
  split
  · next hn => simp [takeSign, hn]
  · next hn =>
    obtain ⟨c, r, hcons, hc⟩ := Text.exists_natText_eq_cons n.natAbs
    rw [hcons, List.nil_append, takeSign]
    · simp [hn]
    all_goals
      rintro r' ⟨⟩
      cases hc

theorem natText_ne (n : Nat) {word : List Char} (h : word.head?.all fun c => !isDigit c) : natText n ≠ word := by
  rintro rfl
  obtain ⟨c, r, hcons, hc⟩ := Text.exists_natText_eq_cons n
  rw [hcons] at h
  simp [hc] at h

/-- A numeral is no word that starts with something else. -/
theorem intChars_beq (n : Int) {word : List Char} (h : word.head?.all fun c => c != '-' && !isDigit c) :
    (intChars n == word) = false := by
  refine beq_false_of_ne ?_
  rw [intChars_eq]
  split
  · rintro rfl
    cases h
  · refine natText_ne _ ?_
    cases word with
    | nil => rfl
    | cons c r => simp_all

namespace Yaml

theorem hexValue?_of_isDigit {c : Char} (h : isDigit c) :
    Text.hexValue? c = some (c.toNat - 48) ∧ c.toNat - 48 < 10 := by
  refine ⟨if_pos h, ?_⟩
  simp only [isDigit, Bool.and_eq_true, decide_eq_true_eq] at h
  have hlast : c.toNat ≤ '9'.toNat := h.2
  have hnine : '9'.toNat = 57 := rfl
  omega

theorem digitsValue?_ten {digits : List Char} (h : ∀ c ∈ digits, isDigit c) (hne : digits ≠ []) :
    digitsValue? 10 digits = some (decimalValue 0 digits) := by
  rw [digitsValue?, if_neg (by simpa using hne)]
  clear hne
  generalize 0 = start
  induction digits generalizing start with
  | nil => rfl
  | cons c digits ih =>
    obtain ⟨hc, hlt⟩ := hexValue?_of_isDigit (h c List.mem_cons_self)
    rw [List.foldlM_cons, hc, Option.bind_some, if_pos hlt]
    exact ih (fun d hd => h d (List.mem_cons_of_mem _ hd)) _

/-- The digits of a number do not start with zero, unless it is zero. -/
theorem natText_cases (n : Nat) : natText n = ['0'] ∨ ∃ c r, natText n = c :: r ∧ c ≠ '0' := by
  by_cases hn : n = 0
  · subst hn
    exact .inl rfl
  · obtain ⟨c, r, htext, -, hc⟩ := Json.exists_natText_eq_cons_of_ne_zero hn
    exact .inr ⟨c, r, htext, hc⟩

theorem hasLeadingZero_intChars (n : Int) : hasLeadingZero (intChars n) = false := by
  rw [hasLeadingZero, takeSign_intChars]
  rcases natText_cases n.natAbs with htext | ⟨c, r, htext, hc⟩
  · rw [htext]
    rfl
  · rw [htext]
    dsimp only
    split
    · next heq =>
      cases heq
      exact absurd rfl hc
    · rfl

theorem magnitude?_natText (n : Nat) : magnitude? true (natText n) = some n := by
  have hvalue : digitsValue? 10 (natText n) = some n := by
    rw [digitsValue?_ten (fun _ => isDigit_of_mem_natText) Nat.toDigits_ne_nil, Number.decimalValue_natText]
  rcases natText_cases n with htext | ⟨c, r, htext, hc⟩
  · rw [htext] at hvalue ⊢
    exact hvalue
  · rw [htext] at hvalue ⊢
    simp only [magnitude?, if_true]
    split
    · next heq => exact absurd (List.cons.inj heq).1 hc
    · next heq => exact absurd (List.cons.inj heq).1 hc
    · next heq => exact absurd (List.cons.inj heq).1 hc
    · exact hvalue

theorem integer?_intChars (n : Int) : integer? (intChars n) = some n := by
  rw [integer?, takeSign_intChars, hasLeadingZero_intChars]
  simp only [Bool.not_false, magnitude?_natText]
  show some (if decide (n < 0) then -(n.natAbs : Int) else n.natAbs) = some n
  by_cases hn : n < 0
  · rw [if_pos (decide_eq_true hn), Int.ofNat_natAbs_of_nonpos (Int.le_of_lt hn), Int.neg_neg]
  · rw [if_neg (by simpa using hn), Int.natAbs_of_nonneg (Int.not_lt.1 hn)]

theorem readDecimal_natText (n : Nat) : readDecimal (natText n) = some (n, 0) := by
  have htake : (natText n).takeWhile isDigit = natText n :=
    List.takeWhile_eq_self_iff.2 fun _ => isDigit_of_mem_natText
  have hdrop : (natText n).dropWhile isDigit = [] := List.dropWhile_eq_nil_iff.2 fun _ => isDigit_of_mem_natText
  have hne : (natText n).isEmpty = false := by simp [natText]
  simp only [readDecimal, htake, hdrop, hne]
  show some (decimalValue 0 (natText n), (0 : Int)) = _
  rw [Number.decimalValue_natText]

/-- The float that the numeral of an integer is read as. -/
def nearest (n : Int) : Float :=
  Number.ofDecimal (n < 0) n.natAbs 0

theorem ofDecimal_integer (negative : Bool) {n : Nat} (hn : n ≠ 0) : Number.ofDecimal negative n 0 =
    if 400 < (natText n).length then Number.infinity negative else Number.ofQuotient negative n 1 := by
  have hsmall : ¬(n == 0 || decide (((Nat.toDigits 10 n).length : Int) < -400)) = true := by
    simp [hn]
  have hlong : 400 < ((Nat.toDigits 10 n).length : Int) ↔ 400 < (natText n).length := Nat.cast_lt
  simp only [Number.ofDecimal, Int.add_zero]
  rw [if_neg hsmall]
  simp [hlong]

theorem nearest_eq_of_isFinite {n : Int} (hn : n ≠ 0) (h : isFinite (nearest n)) :
    nearest n = Number.ofQuotient (n < 0) n.natAbs 1 := by
  have hinfinite : ∀ negative, isFinite (Number.infinity negative) = false := by decide +kernel
  rw [nearest, ofDecimal_integer _ (by omega)] at h ⊢
  split
  · next hlong =>
    rw [if_pos hlong, hinfinite] at h
    cases h
  · rfl

theorem ofList_natText_beq (n : Nat) {word : String} (h : word.toList.head?.all fun c => !isDigit c) :
    (String.ofList (natText n) == word) = false := by
  refine beq_false_of_ne ?_
  rintro rfl
  exact natText_ne n h (String.toList_ofList).symm

theorem lower_of_isDigit {c : Char} (h : isDigit c) : Text.lower c = c := by
  have hlast : c ≤ '9' := of_decide_eq_true (Bool.and_eq_true_iff.1 h).2
  have hletter : ¬ 'A' ≤ c := not_le.2 (lt_of_le_of_lt hlast (by decide))
  simp [Text.lower, hletter]

/-- A numeral is none of the words for floats. -/
theorem readFloat?_intChars (n : Int) : Number.readFloat? (String.ofList (intChars n)) = some (nearest n) := by
  have hlower : (natText n.natAbs).map Text.lower = natText n.natAbs :=
    (List.map_congr_left fun _ hc => lower_of_isDigit (isDigit_of_mem_natText hc)).trans (List.map_id _)
  rw [Number.readFloat?, String.toList_ofList, takeSign_intChars]
  simp (disch := decide) only [hlower, ofList_natText_beq, Bool.or_false, Bool.false_eq_true, if_false,
    readDecimal_natText, Option.map_some]
  rfl

theorem float?_intChars (n : Int) : float? (intChars n) = if isFinite (nearest n) then some (nearest n) else none := by
  rw [float?, takeSign_intChars]
  simp (disch := decide) only [ofList_natText_beq, intChars_beq, Bool.or_false, Bool.false_eq_true, if_false,
    readFloat?_intChars, Option.filter_some]

theorem isNullWord_intChars (n : Int) : isNullWord (intChars n) = false := by
  simp (disch := decide) only [isNullWord, intChars_beq, Bool.or_false]

theorem boolWord?_intChars (n : Int) : boolWord? (intChars n) = none := by
  simp (disch := decide) only [boolWord?, intChars_beq, Bool.or_false, Bool.false_eq_true, if_false]

/-- A numeral is an integer, or a float if it is longer than 128 bits. -/
theorem ofPlain?_intChars (n : Int) : Value.ofPlain? (intChars n) =
    match Value.integerValue? (intChars n) with
    | some v => v
    | none =>
      match float? (intChars n) with
      | some x => some (.float x)
      | none => some (.text (String.ofList (intChars n))) := by
  have hempty : (intChars n).isEmpty = false := by
    cases hchars : intChars n with
    | nil => simpa [hchars] using @intChars_beq n [] rfl
    | cons => rfl
  rw [Value.ofPlain?, hempty, isNullWord_intChars, boolWord?_intChars, hasLeadingZero_intChars]
  rfl

theorem integerValue?_intChars (n : Int) : Value.integerValue? (intChars n) =
    if -2 ^ 127 ≤ n ∧ n < 2 ^ 128 then some (Value.ofInteger? n) else none := by
  rw [Value.integerValue?, integer?_intChars]
  simp only [Nat.pow_eq, Bool.and_eq_true, decide_eq_true_eq]
  norm_num

theorem ofInteger?_eq (n : Int) :
    Value.ofInteger? n = if -2 ^ 63 ≤ n ∧ n < 2 ^ 64 then some (.int n) else none := by
  have hmin : Int64.minValue.toInt = -2 ^ 63 := rfl
  have hsize : (UInt64.size : Int) = 2 ^ 64 := rfl
  simp only [Value.ofInteger?, hmin, hsize, Bool.and_eq_true, decide_eq_true_eq]

section

variable {n : Int}

theorem ofPlain?_of_held (hlow : -2 ^ 63 ≤ n) (hhigh : n < 2 ^ 64) : Value.ofPlain? (intChars n) = some (.int n) := by
  rw [ofPlain?_intChars, integerValue?_intChars, if_pos (by omega), ofInteger?_eq, if_pos ⟨hlow, hhigh⟩]

theorem ofPlain?_of_refused (h : -2 ^ 127 ≤ n ∧ n < -2 ^ 63 ∨ 2 ^ 64 ≤ n ∧ n < 2 ^ 128) :
    Value.ofPlain? (intChars n) = none := by
  rw [ofPlain?_intChars, integerValue?_intChars, if_pos (by omega), ofInteger?_eq, if_neg (by omega)]

theorem ofPlain?_of_long (h : n < -2 ^ 127 ∨ 2 ^ 128 ≤ n) {v : Value} (hv : Value.ofPlain? (intChars n) = some v) :
    v = .float (nearest n) ∨ isFinite (nearest n) = false ∧ v = .text (String.ofList (intChars n)) := by
  rw [ofPlain?_intChars, integerValue?_intChars, if_neg (by omega), float?_intChars] at hv
  cases hfinite : isFinite (nearest n) with
  | true =>
    rw [hfinite] at hv
    exact .inl (Option.some.inj hv).symm
  | false =>
    rw [hfinite] at hv
    exact .inr ⟨rfl, (Option.some.inj hv).symm⟩

end

end Yaml

/-! ## Binding integers -/

/-- The document has the integer at the place, in decimal and without a tag. -/
def WritesInteger (text : String) (place : BindPlace) (n : Int) : Prop :=
  ∃ root properties, Yaml.HasRoot text root ∧ properties.tag = none ∧
    root.Leads root.anchors place.path (.scalar properties (intChars n) .plain)

section

variable {n : Int}

theorem literal?_int (hlow : -2 ^ 63 ≤ n) (hhigh : n < 2 ^ 63) :
    (BoundValue.int (Int64.ofInt n)).literal? = some (intChars n) := by
  rw [BoundValue.literal?, Int64.toInt_ofInt_of_le hlow hhigh]

/-- The float that the numeral is read as is written as that numeral again. -/
def IsWrittenByFloat (n : Int) : Prop :=
  (BoundValue.float (Yaml.nearest n)).literal? = some (intChars n)

/-- Beyond 63 bits, only a multiple of a thousand is written by a float. -/
theorem IsWrittenByFloat.thousand_dvd (h : IsWrittenByFloat n) (hlarge : 2 ^ 63 ≤ n.natAbs) : 1000 ∣ n := by
  rw [IsWrittenByFloat, BoundValue.literal?, Option.ite_none_right_eq_some, Option.some.injEq, intChars_eq] at h
  obtain ⟨hfinite, hchars⟩ := h
  have hnearest := Yaml.nearest_eq_of_isFinite (by rintro rfl; cases hlarge) hfinite
  rw [hnearest] at hfinite hchars
  rw [← Int.natAbs_dvd_natAbs]
  exact Number.thousand_dvd_of_floatChars (n < 0) hlarge hfinite (by simpa using hchars)

theorem literal?_text_ne (s : String) : (BoundValue.text s).literal? ≠ some (intChars n) := by
  rw [BoundValue.literal?, ne_eq, Option.some.injEq]
  exact fun h => beq_eq_false_iff_ne.1 (intChars_beq n rfl) h.symm

end

namespace Script

theorem boundValue?_int {n : Int} (h : n < 2 ^ 63) : boundValue? (.int n) = some (.int (Int64.ofInt n)) := by
  have hmax : Int64.maxValue.toInt = 2 ^ 63 - 1 := rfl
  rw [boundValue?, hmax, if_pos (by omega)]

theorem boundValue?_int_of_large {n : Int} (hlow : 2 ^ 63 ≤ n) (hhigh : n < 2 ^ 64) :
    boundValue? (.int n) = some (.float (Yaml.nearest n)) := by
  have hmax : Int64.maxValue.toInt = 2 ^ 63 - 1 := rfl
  have hsign : decide (n < 0) = false := by simp; omega
  have hlength : (natText n.natAbs).length ≤ 20 := (Nat.length_toDigits_le_iff (by decide) (by decide)).2 (by omega)
  have habs : n.toNat = n.natAbs := by omega
  rw [boundValue?, hmax, if_neg (by omega), Yaml.nearest, hsign, Yaml.ofDecimal_integer _ (by omega),
    if_neg (by omega), habs]

/-- What an integer is bound as is written as that integer if it is an integer, or a float that is written so. -/
theorem literal?_eq_iff {n : Int} {v : Value} {value : BoundValue} (hv : Value.ofPlain? (intChars n) = some v)
    (hvalue : boundValue? v = some value) :
    value.literal? = some (intChars n) ↔ -2 ^ 63 ≤ n ∧ n < 2 ^ 63 ∨ IsWrittenByFloat n := by
  by_cases hint : -2 ^ 63 ≤ n ∧ n < 2 ^ 63
  · rw [Yaml.ofPlain?_of_held hint.1 (by omega)] at hv
    cases hv
    rw [boundValue?_int hint.2] at hvalue
    cases hvalue
    exact iff_of_true (literal?_int hint.1 hint.2) (.inl hint)
  rw [or_iff_right hint]
  by_cases hrefused : -2 ^ 127 ≤ n ∧ n < -2 ^ 63 ∨ 2 ^ 64 ≤ n ∧ n < 2 ^ 128
  · rw [Yaml.ofPlain?_of_refused hrefused] at hv
    cases hv
  by_cases hunsigned : 2 ^ 63 ≤ n ∧ n < 2 ^ 64
  · rw [Yaml.ofPlain?_of_held (by omega) hunsigned.2] at hv
    cases hv
    rw [boundValue?_int_of_large hunsigned.1 hunsigned.2] at hvalue
    cases hvalue
    exact Iff.rfl
  rcases Yaml.ofPlain?_of_long (by omega) hv with rfl | ⟨hinfinite, rfl⟩
  · cases hvalue
    exact Iff.rfl
  · cases hvalue
    refine iff_of_false (literal?_text_ne _) fun h => ?_
    rw [IsWrittenByFloat, BoundValue.literal?, hinfinite] at h
    cases h

/-- A document is refused for an integer that 128 bits hold, but 64 bits do not, with or without a sign. Any other is
bound as a value that is written as the integer if 64 bits with a sign hold it, and otherwise only if the nearest float
happens to be written so; past 63 bits this takes a multiple of a thousand. -/
theorem bound_integer_exact_iff {text : String} {place : BindPlace} {n : Int} (h : WritesInteger text place n) :
    (-2 ^ 127 ≤ n ∧ n < -2 ^ 63 ∨ 2 ^ 64 ≤ n ∧ n < 2 ^ 128 → ofDocument text = .error .malformed) ∧
    (∀ script, ofDocument text = .ok script → ∃ value, script.boundAt? place = some value ∧
      (value.literal? = some (intChars n) ↔ -2 ^ 63 ≤ n ∧ n < 2 ^ 63 ∨ IsWrittenByFloat n)) ∧
    (IsWrittenByFloat n → 2 ^ 63 ≤ n.natAbs → 1000 ∣ n) := by
  obtain ⟨root, properties, hroot, htag, hleads⟩ := h
  have hscalar : Value.ofScalar? properties (intChars n) .plain = Value.ofPlain? (intChars n) := by
    rw [Value.ofScalar?, htag]
    rfl
  refine ⟨fun hrefused => ?_, fun script hscript => ?_, IsWrittenByFloat.thousand_dvd⟩
  · exact ofDocument_of_none hroot hleads (hscalar.trans (Yaml.ofPlain?_of_refused hrefused))
  · obtain ⟨v, value, hv, hvalue, hbound⟩ := exists_boundAt?_of_ofDocument hroot hleads hscript
    refine ⟨value, hbound, ?_⟩
    exact literal?_eq_iff (hscalar ▸ hv) hvalue

/-! ## A rounded key -/

namespace Sample

open Yaml (Node Token)

/-- What undoes the script deletes the row with a key just above `2 ^ 63`. -/
def document : String :=
  "up: []\ndown:\n- run: DELETE FROM t WHERE id = ?\n  binds: [9223372036854775809]\n"

def key : Int :=
  9223372036854775809

def place : BindPlace :=
  { side := .down, statement := 0, slot := .item 0 }

def scalar (s : String) : Node :=
  .scalar {} s.toList .plain

def word (s : String) : Token :=
  .scalar s.toList .plain

def tokens : List Token :=
  [.blockMappingStart, .key, word "up", .value, .flowSequenceStart, .flowSequenceEnd, .key, word "down", .value,
    .blockEntry, .blockMappingStart, .key, word "run", .value, word "DELETE FROM t WHERE id = ?", .key, word "binds",
    .value, .flowSequenceStart, word "9223372036854775809", .flowSequenceEnd, .blockEnd, .blockEnd, .streamEnd]

def statement : Node :=
  .mapping {} [(scalar "run", scalar "DELETE FROM t WHERE id = ?"),
    (scalar "binds", .sequence {} [scalar "9223372036854775809"])]

def root : Node :=
  .mapping {} [(scalar "up", .sequence {} []), (scalar "down", .sequence {} [statement])]

theorem names_scalar {s : String} {v : Value} (h : Value.ofPlain? s.toList = some v) (hv : v.untagged = .text s) :
    (scalar s).Names s :=
  ⟨_, _, _, v, rfl, h, hv⟩

theorem writesInteger_document : WritesInteger document place key := by
  have hroot : Yaml.HasRoot document root := ⟨tokens, by decide +kernel, rfl⟩
  refine ⟨root, {}, hroot, rfl, ?_⟩
  refine .field (List.mem_cons_of_mem _ List.mem_cons_self) (names_scalar rfl rfl) (.item (i := 0) rfl ?_)
  refine .field (List.mem_cons_of_mem _ List.mem_cons_self) (names_scalar rfl rfl) (.item (i := 0) rfl ?_)
  exact .here

theorem exists_script : ∃ script value, ofDocument document = .ok script ∧ script.boundAt? place = some value ∧
    value.literal? = some "9223372036854776000".toList := by
  have hliteral : ((ofDocument document).toOption.bind fun script => (script.boundAt? place).bind
      BoundValue.literal?) = some "9223372036854776000".toList := by
    decide +kernel
  obtain ⟨script, hscript, hbound⟩ := Option.bind_eq_some_iff.1 hliteral
  obtain ⟨value, hvalue, hliteral⟩ := Option.bind_eq_some_iff.1 hbound
  exact ⟨script, value, Migration.eq_ok_of_toOption hscript, hvalue, hliteral⟩

theorem bound_integer_rounded : WritesInteger document place key ∧ ¬1000 ∣ key ∧
    ∃ script value, ofDocument document = .ok script ∧ script.boundAt? place = some value ∧
      value.literal? ≠ some (intChars key) := by
  refine ⟨writesInteger_document, by decide, ?_⟩
  obtain ⟨script, _, hscript, -, -⟩ := exists_script
  obtain ⟨-, hexact, hdvd⟩ := bound_integer_exact_iff writesInteger_document
  obtain ⟨value, hvalue, hiff⟩ := hexact script hscript
  refine ⟨script, value, hscript, hvalue, fun hliteral => ?_⟩
  rcases hiff.1 hliteral with ⟨-, hhigh⟩ | hfloat
  · exact absurd hhigh (by decide)
  · exact absurd (hdvd hfloat (by decide)) (by decide)

theorem not_bound_integer_exact_or_refused : ¬∀ text place n, WritesInteger text place n →
    (∃ e, ofDocument text = .error e) ∨ ∃ script value, ofDocument text = .ok script ∧
      script.boundAt? place = some value ∧ value.literal? = some (intChars n) := by
  intro h
  obtain ⟨script, value, hscript, hvalue, hliteral⟩ := exists_script
  rcases h document place key writesInteger_document with ⟨e, herror⟩ | ⟨script', value', hscript', hvalue', hliteral'⟩
  · cases hscript.symm.trans herror
  · cases hscript.symm.trans hscript'
    cases hvalue.symm.trans hvalue'
    exact absurd (hliteral.symm.trans hliteral') (by decide)

end Sample

end Script

end SchemaMigration
