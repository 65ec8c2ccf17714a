import SchemaMigration.Text.Quoted
import SchemaMigration.Proofs.ShortestDecimal
import Mathlib.Data.List.Basic

/-!
# Texts that show where they end

A text can be told from what follows it: a word or a number by the first character of another class, a quoted name or
a literal by the quote that is not doubled, a list by the character after it. Each lemma has the form "if two such texts
are equal together with what follows them, the texts are equal and so is what follows".
-/

namespace SchemaMigration.Text

/-- The text does not go on with a character of the class. -/
def leaves (p : Char → Bool) (r : List Char) : Bool :=
  r.head?.all fun c => !p c

@[simp]
theorem leaves_nil (p : Char → Bool) : leaves p [] := rfl

@[simp]
theorem leaves_cons (p : Char → Bool) (c : Char) (r : List Char) : leaves p (c :: r) = !p c := rfl

theorem takeWhile_of_leaves {p : Char → Bool} {r : List Char} (h : leaves p r) : r.takeWhile p = [] := by
  cases r with
  | nil => rfl
  | cons c r => simp_all

section

variable {a b r s : List Char}

/-- A run of characters of one class ends where another class begins. -/
theorem run_append_inj {p : Char → Bool} (ha : ∀ c ∈ a, p c) (hb : ∀ c ∈ b, p c) (hr : leaves p r) (hs : leaves p s)
    (h : a ++ r = b ++ s) : a = b ∧ r = s := by
  have htake : (a ++ r).takeWhile p = (b ++ s).takeWhile p := congrArg _ h
  rw [List.takeWhile_append_of_pos ha, List.takeWhile_append_of_pos hb, takeWhile_of_leaves hr,
    takeWhile_of_leaves hs, List.append_nil, List.append_nil] at htake
  subst htake
  exact ⟨rfl, List.append_cancel_left h⟩

/-- A quote that is not doubled stands in no text whose quotes are. -/
theorem quote_ne_doubleWhere {p : Char → Bool} {q : Char} (hq : p q) (hr : leaves (· == q) r) (c : Char) :
    q :: r ≠ doubleWhere p (c :: a) ++ s := by
  intro h
  rw [doubleWhere_cons] at h
  by_cases hc : p c
  · obtain ⟨rfl, rfl⟩ : q = c ∧ r = c :: (doubleWhere p a ++ s) := by simpa [hc] using h
    simp at hr
  · obtain ⟨rfl, -⟩ : q = c ∧ r = doubleWhere p a ++ s := by simpa [hc] using h
    exact hc hq

/-- Doubled characters do not close what a single one closes. -/
theorem doubleWhere_append_inj {p : Char → Bool} {q : Char} (hq : p q) (hr : leaves (· == q) r)
    (hs : leaves (· == q) s) (h : doubleWhere p a ++ q :: r = doubleWhere p b ++ q :: s) : a = b ∧ r = s := by
  induction a generalizing b with
  | nil => cases b with
    | nil => simpa using h
    | cons d b => exact absurd h (quote_ne_doubleWhere hq hr d)
  | cons c a ih => cases b with
    | nil => exact absurd h.symm (quote_ne_doubleWhere hq hs c)
    | cons d b =>
      rw [doubleWhere_cons, doubleWhere_cons, List.append_assoc, List.append_assoc] at h
      obtain rfl : c = d := by
        have hhead := congrArg List.head? h
        by_cases hc : p c <;> by_cases hd : p d <;> simpa [hc, hd] using hhead
      obtain ⟨rfl, hrest⟩ := ih (List.append_cancel_left h)
      exact ⟨rfl, hrest⟩

theorem enclosed_append_inj {q : Char} (hr : leaves (· == q) r) (hs : leaves (· == q) s)
    (h : enclosed q a ++ r = enclosed q b ++ s) : a = b ∧ r = s := by
  simp only [enclosed, List.cons_append, List.cons.injEq, List.append_assoc, List.nil_append, true_and] at h
  exact doubleWhere_append_inj (p := (· == q)) (beq_self_eq_true q) hr hs h

theorem literalChars_append_inj (hr : leaves (· == '\'') r) (hs : leaves (· == '\'') s)
    (h : literalChars a ++ r = literalChars b ++ s) : a = b ∧ r = s := by
  simp only [literalChars, List.cons_append, List.cons.injEq, List.append_assoc, List.nil_append, true_and] at h
  exact doubleWhere_append_inj rfl hr hs h

end

/-! ## Lists -/

section

variable {α : Type} {text : α → List Char} {r s : List Char}

/-- What follows an item of a list: a comma and the other items, the closing parenthesis and a text. -/
def listRest (text : α → List Char) (items : List α) (r : List Char) : List Char :=
  match items with
  | [] => ')' :: r
  | _ :: _ => ',' :: ([','].intercalate (items.map text) ++ ')' :: r)

theorem intercalate_append (text : α → List Char) (a : α) (items : List α) (r : List Char) :
    [','].intercalate ((a :: items).map text) ++ ')' :: r = text a ++ listRest text items r := by
  cases items <;> simp [listRest]

theorem leaves_listRest {p : Char → Bool} (hcomma : p ',' = false) (hclose : p ')' = false) (text : α → List Char)
    (items : List α) (r : List Char) : leaves p (listRest text items r) := by
  cases items <;> simp [listRest, hcomma, hclose]

/-- Texts that can be the items of a list. -/
structure IsItem (text : α → List Char) : Prop where
  /-- None starts where the list closes. -/
  closing_ne : ∀ a r s, ')' :: r ≠ text a ++ s
  /-- Each ends where the list goes on or closes. -/
  append_inj : ∀ {a b as bs r s}, text a ++ listRest text as r = text b ++ listRest text bs s →
    a = b ∧ listRest text as r = listRest text bs s

/-- A list of items ends with the parenthesis outside of all of them. -/
theorem IsItem.intercalate_append_inj (h : IsItem text) {as bs : List α}
    (heq : [','].intercalate (as.map text) ++ ')' :: r = [','].intercalate (bs.map text) ++ ')' :: s) :
    as = bs ∧ r = s := by
  induction as generalizing bs with
  | nil => cases bs with
    | nil => simpa using heq
    | cons b bs => exact absurd (heq.trans (intercalate_append text b bs s)) (h.closing_ne b r _)
  | cons a as ih => cases bs with
    | nil => exact absurd (heq.symm.trans (intercalate_append text a as r)) (h.closing_ne a s _)
    | cons b bs =>
      rw [intercalate_append, intercalate_append] at heq
      obtain ⟨rfl, hrest⟩ := h.append_inj heq
      cases as with
      | nil => cases bs with
        | nil => exact ⟨rfl, by simpa [listRest] using hrest⟩
        | cons b bs => simp [listRest] at hrest
      | cons a' as => cases bs with
        | nil => simp [listRest] at hrest
        | cons b bs =>
          obtain ⟨hlist, hr⟩ := ih (List.cons.inj hrest).2
          exact ⟨congrArg _ hlist, hr⟩

end

/-! ## Numbers -/

theorem exists_natText_eq_cons (n : Nat) : ∃ c t, natText n = c :: t ∧ isDigit c := by
  have hne : natText n ≠ [] := Nat.toDigits_ne_nil
  obtain ⟨c, t, h⟩ := List.exists_cons_of_ne_nil hne
  have hmem : c ∈ natText n := by simp [h]
  exact ⟨c, t, h, Number.isDigit_of_mem_natText hmem⟩

theorem natText_append_inj {m n : Nat} {r s : List Char} (hr : leaves isDigit r) (hs : leaves isDigit s)
    (h : natText m ++ r = natText n ++ s) : m = n ∧ r = s := by
  obtain ⟨hdigits, hrest⟩ := run_append_inj (fun _ => Number.isDigit_of_mem_natText)
    (fun _ => Number.isDigit_of_mem_natText) hr hs h
  have hvalue := congrArg (decimalValue 0) hdigits
  rw [Number.decimalValue_natText, Number.decimalValue_natText] at hvalue
  exact ⟨hvalue, hrest⟩

end SchemaMigration.Text
