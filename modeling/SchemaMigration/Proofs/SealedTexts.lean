import SchemaMigration.Proofs.ServerTokens

/-!
# Texts that keep to their quotes

What a server reads of a text that others put together from fixed words and quoted parts. A part is told by where the
lexer may stand before it and after it (`Leads`): a quoted part starts where no quote has just been closed, since it
would go on with that quote, and it ends with one; fixed words take the lexer away from the quote. No part opens a
comment or ends a statement, so the parts may be joined wherever their ends fit (`Leads.append`).
-/

namespace SchemaMigration.Server

namespace Lexer

/-- The character opens a comment: a `#` outside quotes, which some servers take for one, or what makes two characters
`--` or `/*`. -/
def opensComment (s : Lexer) (c : Char) : Bool :=
  s.isBetween && (c == '#' || (s == dash && c == '-') || (s == slash && c == '*'))

/-- A comment is opened somewhere in the text. -/
def readsComment (server : Dialect) (s : Lexer) : List Char → Bool
  | [] => false
  | c :: r => s.opensComment c || (s.step server c).2.readsComment server r

/-- Nothing is open, and no quote has just been closed. -/
def isResting : Lexer → Bool
  | outside | word _ => true
  | _ => false

/-- Nothing is open. -/
def isSettled : Lexer → Bool
  | outside | word _ | closing .. => true
  | _ => false

section

variable {server : Dialect} {s : Lexer}

theorem isSettled_of_isResting (h : s.isResting) : s.isSettled := by
  cases s <;> simp_all [isResting, isSettled]

theorem isBetween_of_isSettled (h : s.isSettled) : s.isBetween := by
  cases s <;> simp_all [isSettled, isBetween]

theorem stop_not_mem_finish (s : Lexer) : .stop ∉ s.finish := by
  cases s <;> simp [finish]

theorem readsComment_append (t u : List Char) :
    s.readsComment server (t ++ u) = (s.readsComment server t || (s.read server t).2.readsComment server u) := by
  induction t generalizing s with
  | nil => rfl
  | cons c t ih => simp [readsComment, read_cons, ih, Bool.or_assoc]

end

/-! ## Passing over a text -/

/-- The text takes the lexer from one state to another, and neither ends a statement nor opens a comment. -/
inductive Passes (server : Dialect) : Lexer → List Char → Lexer → Prop
  | nil (s : Lexer) : Passes server s [] s
  | cons {s u : Lexer} {c : Char} {r : List Char} : .stop ∉ (s.step server c).1 → s.opensComment c = false →
      Passes server (s.step server c).2 r u → Passes server s (c :: r) u

namespace Passes

variable {server : Dialect} {s u v : Lexer} {t r : List Char}

theorem trans (h : Passes server s t u) (h' : Passes server u r v) : Passes server s (t ++ r) v := by
  induction h with
  | nil => exact h'
  | cons hstop hcomment _ ih => exact .cons hstop hcomment (ih h')

/-- One character, by the step that it makes. -/
theorem of_step {c : Char} {ts : List Token} (hstep : s.step server c = (ts, u)) (hstop : .stop ∉ ts)
    (hcomment : s.opensComment c = false) : Passes server s [c] u :=
  .cons (by rwa [hstep]) hcomment (by rw [hstep]; exact .nil u)

/-- One character that completes no token. -/
theorem of_silent {c : Char} (hstep : s.step server c = ([], u)) (hcomment : s.opensComment c = false) :
    Passes server s [c] u :=
  of_step hstep List.not_mem_nil hcomment

theorem read_snd (h : Passes server s t u) : (s.read server t).2 = u := by
  induction h with
  | nil => rfl
  | cons _ _ _ ih => rw [read_cons, ih]

theorem stop_not_mem (h : Passes server s t u) : .stop ∉ (s.read server t).1 := by
  induction h with
  | nil => simp [read]
  | cons hstop _ _ ih =>
    rw [read_cons, List.mem_append, not_or]
    exact ⟨hstop, ih⟩

theorem readsComment_eq_false (h : Passes server s t u) : s.readsComment server t = false := by
  induction h with
  | nil => rfl
  | cons _ hcomment _ ih => rw [readsComment, hcomment, ih]; rfl

end Passes

/-- From each state of the one class, the text passes to a state of the other. -/
def Leads (server : Dialect) (P Q : Lexer → Bool) (t : List Char) : Prop :=
  ∀ s, P s → ∃ u, Q u ∧ Passes server s t u

namespace Leads

variable {server : Dialect} {P Q R : Lexer → Bool} {t u : List Char}

theorem append (h : Leads server P Q t) (h' : Leads server Q R u) : Leads server P R (t ++ u) := by
  intro s hs
  obtain ⟨v, hv, hpass⟩ := h s hs
  obtain ⟨w, hw, hpass'⟩ := h' v hv
  exact ⟨w, hw, hpass.trans hpass'⟩

theorem append_toList {s s' : String} (h : Leads server P Q s.toList) (h' : Leads server Q R s'.toList) :
    Leads server P R (s ++ s').toList := by
  rw [String.toList_append]
  exact h.append h'

theorem nil : Leads server P P [] :=
  fun s hs => ⟨s, hs, .nil s⟩

theorem flatMap {α : Type} {xs : List α} {f : α → List Char} (h : ∀ x ∈ xs, Leads server P P (f x)) :
    Leads server P P (xs.flatMap f) := by
  induction xs with
  | nil => exact .nil
  | cons x xs ih =>
    obtain ⟨hx, hxs⟩ := List.forall_mem_cons.1 h
    exact hx.append (ih hxs)

/-- A text that needs less is as good where more is known. -/
theorem of_isSettled (h : Leads server isSettled Q t) : Leads server isResting Q t :=
  fun s hs => h s (isSettled_of_isResting hs)

theorem to_isSettled (h : Leads server P isResting t) : Leads server P isSettled t := by
  intro s hs
  obtain ⟨u, hu, hpass⟩ := h s hs
  exact ⟨u, isSettled_of_isResting hu, hpass⟩

end Leads

/-! ## Fixed words -/

/-- A character of fixed words and of names without quotes: no quote, and nothing that a comment or the end of a
statement is made of. -/
def isBare (c : Char) : Bool :=
  isWordChar c || [' ', '\n', '(', ')', ',', '='].contains c

/-- Fixed words, with the blanks and the marks between them. -/
def isWords (t : List Char) : Bool :=
  !t.isEmpty && t.all isBare

theorem isBare_cases {c : Char} (h : isBare c) :
    isWordChar c ∨ c = ' ' ∨ c = '\n' ∨ c = '(' ∨ c = ')' ∨ c = ',' ∨ c = '=' := by
  simpa [isBare] using h

theorem ofChar?_of_isBare {c : Char} (h : isBare c) : Quote.ofChar? c = none := by
  have hne : ∀ {e}, isBare e = false → c ≠ e := by
    rintro e he rfl
    simp [he] at h
  simp [Quote.ofChar?, hne (e := '\'') rfl, hne (e := '"') rfl, hne (e := Text.backtick) rfl]

theorem stepOutside_of_isBare {c : Char} (h : isBare c) :
    .stop ∉ (stepOutside c).1 ∧ (stepOutside c).2.isResting := by
  rcases isBare_cases h with hword | hc
  · simp [stepOutside_of_isWordChar hword, isResting]
  · rcases hc with rfl | rfl | rfl | rfl | rfl | rfl <;> decide

variable {server : Dialect} {s : Lexer}

theorem opensComment_of_isSettled (hs : s.isSettled) {c : Char} (hc : c ≠ '#') : s.opensComment c = false := by
  cases s <;> simp_all [isSettled, opensComment]

theorem passes_of_isBare (hs : s.isSettled) {c : Char} (hc : isBare c) :
    ∃ u, u.isResting ∧ Passes server s [c] u := by
  have hcomment : s.opensComment c = false := opensComment_of_isSettled hs (by rintro rfl; cases hc)
  cases hcontinues : s.continues c with
  | true =>
    obtain ⟨reversed, rfl⟩ : ∃ reversed, s = word reversed := by
      cases s with
      | word reversed => exact ⟨reversed, rfl⟩
      | closing q reversed => simp [continues, Quote.ne_char (ofChar?_of_isBare hc)] at hcontinues
      | _ => simp_all [continues, isSettled]
    exact ⟨word (c :: reversed), rfl, .of_silent (by simp [step, hcontinues, extend]) hcomment⟩
  | false =>
    obtain ⟨hstop, hresting⟩ := stepOutside_of_isBare hc
    refine ⟨_, hresting, .of_step (step_of_not_continues (isBetween_of_isSettled hs) hcontinues) ?_ hcomment⟩
    rw [List.mem_append, not_or]
    exact ⟨stop_not_mem_finish s, hstop⟩

/-- Fixed words take the lexer away from a closing quote. -/
theorem leads_words {t : List Char} (h : isWords t) : Leads server isSettled isResting t := by
  induction t with
  | nil => cases h
  | cons c t ih =>
    obtain ⟨hc, ht⟩ : isBare c ∧ t.all isBare := Bool.and_eq_true_iff.1 h
    have hfirst : Leads server isSettled isResting [c] := fun s hs => passes_of_isBare hs hc
    cases t with
    | nil => exact hfirst
    | cons e t => exact hfirst.append (ih ht).of_isSettled

/-- Without any words, the lexer stays where it is. -/
theorem leads_bare {t : List Char} (h : t.all isBare) : Leads server isSettled isSettled t := by
  cases t with
  | nil => exact .nil
  | cons c t => exact (leads_words (t := c :: t) h).to_isSettled

/-! ## Quoted parts -/

section

variable {q : Quote} {c : Char}

theorem passes_quoted (hquote : c ≠ q.char) (hescape : (c == '\\' && q.escapes server) = false)
    (reversed : List Char) : Passes server (quoted q reversed) [c] (quoted q (c :: reversed)) :=
  .of_silent (by simp [step, hquote, hescape]) rfl

theorem passes_open (hs : s.isResting) (q : Quote) : Passes server s [q.char] (quoted q []) := by
  have hcontinues : s.continues q.char = false := by
    cases s <;> cases q <;> simp_all [isResting, continues] <;> rfl
  have hopen : stepOutside q.char = ([], quoted q []) := by cases q <;> rfl
  have hsettled : s.isSettled := isSettled_of_isResting hs
  have hstep : s.step server q.char = (s.finish, quoted q []) := by
    rw [step_of_not_continues (isBetween_of_isSettled hsettled) hcontinues, hopen, List.append_nil]
  exact .of_step hstep (stop_not_mem_finish s) (opensComment_of_isSettled hsettled (by cases q <;> decide))

theorem passes_close (reversed : List Char) : Passes server (quoted q reversed) [q.char] (closing q reversed) :=
  .of_silent (by simp [step]) rfl

/-- A quote that is written twice does not close the quotes. -/
theorem passes_doubled (reversed : List Char) :
    Passes server (quoted q reversed) [q.char, q.char] (quoted q (q.char :: q.char :: reversed)) := by
  have hagain : Passes server (closing q reversed) [q.char] (quoted q (q.char :: q.char :: reversed)) :=
    .of_silent (by simp [step, continues, extend]) (by cases q <;> rfl)
  exact (passes_close reversed).trans hagain

/-- Between quotes, a text whose quotes and escapes are doubled stays there. -/
theorem passes_doubleWhere {p : Char → Bool} (hquote : p q.char) (hescape : q.escapes server → p '\\')
    (body reversed : List Char) :
    ∃ u, Passes server (quoted q reversed) (Text.doubleWhere p body) (quoted q u) := by
  induction body generalizing reversed with
  | nil => exact ⟨reversed, .nil _⟩
  | cons c body ih =>
    have hchar : ∃ u, Passes server (quoted q reversed) (if p c then [c, c] else [c]) (quoted q u) := by
      by_cases hc : c = q.char
      · subst hc
        rw [if_pos hquote]
        exact ⟨_, passes_doubled reversed⟩
      cases hslash : c == '\\' && q.escapes server with
      | true =>
        obtain ⟨rfl, hescapes⟩ : c = '\\' ∧ q.escapes server := by simpa using hslash
        rw [if_pos (hescape hescapes)]
        have hfirst : Passes server (quoted q reversed) ['\\'] (escaped q ('\\' :: reversed)) :=
          .of_silent (by simp [step, hc, hescapes]) rfl
        have hsecond : Passes server (escaped q ('\\' :: reversed)) ['\\'] (quoted q ('\\' :: '\\' :: reversed)) :=
          .of_silent rfl rfl
        exact ⟨_, hfirst.trans hsecond⟩
      | false =>
        have honce : Passes server (quoted q reversed) [c] (quoted q (c :: reversed)) :=
          passes_quoted hc hslash reversed
        split
        · exact ⟨_, honce.trans (passes_quoted hc hslash _)⟩
        · exact ⟨_, honce⟩
    obtain ⟨u, hchar⟩ := hchar
    obtain ⟨v, hbody⟩ := ih u
    rw [Text.doubleWhere_cons]
    exact ⟨v, hchar.trans hbody⟩

theorem leads_quoted {p : Char → Bool} (hquote : p q.char) (hescape : q.escapes server → p '\\') (body : List Char) :
    Leads server isResting isSettled (q.char :: (Text.doubleWhere p body ++ [q.char])) := by
  intro s hs
  obtain ⟨u, hbody⟩ := passes_doubleWhere hquote hescape body []
  exact ⟨closing q u, rfl, (passes_open hs q).trans (hbody.trans (passes_close u))⟩

end

theorem leads_quoteName (name : String) : Leads server isResting isSettled (Text.quoteName name).toList := by
  rw [Text.quoteName, Text.encloseName, String.toList_ofList]
  exact leads_quoted (q := .backtick) (p := (· == Text.backtick)) rfl (fun h => by cases h) name.toList

theorem leads_literalChars (value : List Char) : Leads server isResting isSettled (Text.literalChars value) :=
  leads_quoted (q := .single) rfl (fun _ => rfl) value

/-! ## Lists -/

theorem leads_intercalate {separator : List Char} {parts : List (List Char)}
    (hseparator : Leads server isSettled isResting separator)
    (hparts : ∀ part ∈ parts, Leads server isResting isSettled part) :
    Leads server isResting isSettled (separator.intercalate parts) := by
  induction parts with
  | nil => exact Leads.nil.to_isSettled
  | cons part parts ih =>
    obtain ⟨hpart, hparts⟩ := List.forall_mem_cons.1 hparts
    cases parts with
    | nil => simpa using hpart
    | cons next parts =>
      rw [List.intercalate_cons_cons]
      exact (hpart.append hseparator).append (ih hparts)

theorem leads_quoteNames (names : List String) : Leads server isResting isSettled (Text.quoteNames names).toList := by
  rw [Text.quoteNames, String.toList_intercalate]
  refine leads_intercalate (leads_words (by decide)) fun part hpart => ?_
  obtain ⟨name, -, rfl⟩ : ∃ name ∈ names, (Text.quoteName name).toList = part := by simpa using hpart
  exact leads_quoteName name

end Lexer

/-! ## Whole statements -/

open Lexer

section

variable {server : Dialect}

theorem split_of_stop_not_mem {ts : List Token} (h : .stop ∉ ts) : split ts = [ts] := by
  have hsplit : split (ts ++ []) = [ts ++ []] := split_append h rfl
  simpa using hsplit

/-- Tokens without a semicolon are one statement. -/
theorem statementsOf_of_stop_not_mem {ts : List Token} (h : .stop ∉ ts) (hne : ts ≠ []) : statementsOf ts = [ts] := by
  simp [statementsOf, split_of_stop_not_mem h, hne]

/-- A word that has begun makes a token. -/
theorem tokens_word_ne_nil (reversed r : List Char) : (word reversed).tokens server r ≠ [] := by
  induction r generalizing reversed with
  | nil => exact List.cons_ne_nil _ _
  | cons c r ih =>
    rw [tokens_cons]
    cases hcontinues : (word reversed).continues c with
    | true =>
      have hstep : (word reversed).step server c = ([], word (c :: reversed)) := by simp [step, hcontinues, extend]
      rw [hstep]
      exact ih (c :: reversed)
    | false =>
      rw [step_of_not_continues rfl hcontinues, finish]
      exact List.cons_ne_nil _ _

theorem tokens_ne_nil {t : List Char} (h : t.head?.any isWordChar) : outside.tokens server t ≠ [] := by
  cases t with
  | nil => cases h
  | cons c r =>
    rw [tokens_cons, step_outside, stepOutside_of_isWordChar h]
    exact tokens_word_ne_nil [c] r

/-- A text of `n` whole statements, each with the semicolon that ends it. -/
structure Whole (server : Dialect) (n : Nat) (t : List Char) : Prop where
  read_snd : (outside.read server t).2 = outside
  readsComment : outside.readsComment server t = false
  /-- However the text goes on. -/
  length : ∀ r, (statements server (t ++ r)).length = n + (statements server r).length

namespace Whole

variable {m n : Nat} {t u : List Char}

theorem append (ht : Whole server m t) (hu : Whole server n u) : Whole server (m + n) (t ++ u) where
  read_snd := by rw [read_append, ht.read_snd, hu.read_snd]
  readsComment := by rw [readsComment_append, ht.readsComment, ht.read_snd, hu.readsComment]; rfl
  length r := by rw [List.append_assoc, ht.length, hu.length, Nat.add_assoc]

theorem length_statements (h : Whole server n t) : (statements server t).length = n := by
  have hlength := h.length []
  rwa [List.append_nil] at hlength

/-- A line break between statements. -/
theorem lineBreak : Whole server 0 ['\n'] where
  read_snd := rfl
  readsComment := rfl
  length r := by
    have hspace : ∀ c ∈ ['\n'], Store.Token.isSpace c := List.forall_mem_singleton.2 rfl
    rw [Nat.zero_add, statements, statements, tokens_outside_blanks_append hspace]

theorem lines (xs : List (List Char)) (h : ∀ x ∈ xs, Whole server 1 x) :
    Whole server xs.length (xs.flatMap (· ++ ['\n'])) := by
  induction xs with
  | nil => exact ⟨rfl, rfl, fun r => by simp⟩
  | cons x xs ih =>
    obtain ⟨hx, hxs⟩ := List.forall_mem_cons.1 h
    have hall := (hx.append lineBreak).append (ih hxs)
    rwa [Nat.add_zero, Nat.add_comm] at hall

/-- A text that starts with a word is a statement once a semicolon ends it. -/
theorem of_leads (hhead : t.head?.any isWordChar) (h : Leads server isResting isSettled t) :
    Whole server 1 (t ++ [';']) := by
  obtain ⟨s, hs, hpass⟩ := h outside rfl
  have hstop : s.step server ';' = (s.finish ++ [.stop], outside) := by
    rw [step_of_not_continues (isBetween_of_isSettled hs) s.continues_stop, stepOutside_stop]
  have htokens : outside.tokens server t = (outside.read server t).1 ++ s.finish := by
    rw [tokens, hpass.read_snd]
  have hone : statementsOf (outside.tokens server t) = [outside.tokens server t] := by
    refine statementsOf_of_stop_not_mem ?_ ?_
    · rw [htokens, List.mem_append, not_or]
      exact ⟨hpass.stop_not_mem, stop_not_mem_finish s⟩
    · exact tokens_ne_nil hhead
  refine ⟨?_, ?_, fun r => ?_⟩
  · rw [read_append, hpass.read_snd, read_cons, hstop]
    rfl
  · rw [readsComment_append, hpass.readsComment_eq_false, hpass.read_snd, Lexer.readsComment,
      opensComment_of_isSettled hs (by decide), hstop]
    rfl
  · have hall : outside.tokens server (t ++ [';'] ++ r) =
        outside.tokens server t ++ .stop :: outside.tokens server r := by
      rw [List.append_assoc, tokens_append, hpass.read_snd, List.singleton_append, tokens_cons, hstop, htokens]
      simp
    rw [statements, hall, statementsOf_append_stop, hone, List.length_append]
    rfl

end Whole

end

end SchemaMigration.Server
