import SchemaMigration.Proofs.ServerLiterals
import SchemaMigration.Proofs.StatementParts

/-!
# Statements with literals in place of parameters

`Filled` relates the tokens of a statement that is sent to those of one that is kept: the same tokens, with literals of
the values in place of the parameters. It goes along with cutting at semicolons (`Filled.statement`).

The parts of a statement agree with the server if its lexer finds the parameters where the parts have their values, and
nowhere else (`agrees`). Then the parts as they are sent and as they are kept are read alike (`filled_tokens`): both
lexers take the same steps, and meet again behind each value.
-/

namespace SchemaMigration.Server

/-- The second tokens are the first ones with a literal in place of each parameter, for the values in their order;
`rest` are the values that are left over. -/
inductive Filled (d : Dialect) : List Token → List BoundValue → List Token → List BoundValue → Prop where
  | nil (rest : List BoundValue) : Filled d [] rest [] rest
  | token {t : Token} {ts us : List Token} {values rest : List BoundValue} (ht : t ≠ .parameter)
      (h : Filled d ts values us rest) : Filled d (t :: ts) values (t :: us) rest
  | value {v : BoundValue} {literal ts us : List Token} {values rest : List BoundValue} (hv : Denotes d literal v)
      (h : Filled d ts values us rest) : Filled d (.parameter :: ts) (v :: values) (literal ++ us) rest

/-- The same for tokens in several pieces. -/
inductive FilledEach (d : Dialect) :
    List (List Token) → List BoundValue → List (List Token) → List BoundValue → Prop where
  | nil (rest : List BoundValue) : FilledEach d [] rest [] rest
  | cons {ts us : List Token} {tss uss : List (List Token)} {values between rest : List BoundValue}
      (h : Filled d ts values us between) (hs : FilledEach d tss between uss rest) :
      FilledEach d (ts :: tss) values (us :: uss) rest

section

variable {d : Dialect} {ts us : List Token} {tss uss : List (List Token)} {values rest : List BoundValue}

theorem Filled.append_left {ps : List Token} (hps : .parameter ∉ ps) (h : Filled d ts values us rest) :
    Filled d (ps ++ ts) values (ps ++ us) rest := by
  induction ps with
  | nil => exact h
  | cons t ps ih =>
    simp only [List.mem_cons, not_or] at hps
    exact .token (Ne.symm hps.1) (ih hps.2)

theorem Filled.refl (h : .parameter ∉ ts) (rest : List BoundValue) : Filled d ts rest ts rest := by
  simpa using (Filled.nil rest).append_left h

theorem Filled.split (h : Filled d ts values us rest) : FilledEach d (split ts) values (split us) rest := by
  induction h with
  | nil rest => exact .cons (.nil rest) (.nil rest)
  | @token t ts us values rest ht h ih =>
    by_cases hstop : t = .stop
    · subst hstop
      rw [split_stop, split_stop]
      exact .cons (.nil _) ih
    · obtain ⟨s, ss, hs⟩ := List.exists_cons_of_ne_nil (split_ne_nil ts)
      obtain ⟨s', ss', hs'⟩ := List.exists_cons_of_ne_nil (split_ne_nil us)
      have hmem : .stop ∉ [t] := by simpa using Ne.symm hstop
      have hsplit : Server.split (t :: ts) = (t :: s) :: ss := split_append hmem hs
      have hsplit' : Server.split (t :: us) = (t :: s') :: ss' := split_append hmem hs'
      rw [hs, hs'] at ih
      rw [hsplit, hsplit']
      cases ih with
      | cons h hss => exact .cons (.token ht h) hss
  | @value v literal ts us values rest hv h ih =>
    obtain ⟨s, ss, hs⟩ := List.exists_cons_of_ne_nil (split_ne_nil ts)
    obtain ⟨s', ss', hs'⟩ := List.exists_cons_of_ne_nil (split_ne_nil us)
    have hparameter : .stop ∉ [Token.parameter] := by simp
    have hsplit : Server.split (.parameter :: ts) = (.parameter :: s) :: ss := split_append hparameter hs
    rw [hs, hs'] at ih
    rw [hsplit, split_append hv.stop_not_mem hs']
    cases ih with
    | cons h hss => exact .cons (.value hv h) hss

theorem Filled.isEmpty_eq (h : Filled d ts values us rest) : us.isEmpty = ts.isEmpty := by
  cases h with
  | nil => rfl
  | token => rfl
  | value hv _ => simp [hv.ne_nil]

theorem Filled.eq_of_nil (h : Filled d [] values us rest) : values = rest := by
  cases h
  rfl

/-- What stands in place of a single parameter at the end. -/
theorem Filled.of_concat {ps : List Token} (hps : .parameter ∉ ps) {v : BoundValue}
    (h : Filled d (ps ++ [.parameter]) (v :: values) us rest) :
    ∃ literal, us = ps ++ literal ∧ Denotes d literal v := by
  induction ps generalizing us with
  | nil =>
    cases h with
    | token ht => exact absurd rfl ht
    | value hv h =>
      cases h
      exact ⟨_, List.append_nil _, hv⟩
  | cons t ps ih =>
    simp only [List.mem_cons, not_or] at hps
    cases h with
    | token ht h =>
      obtain ⟨literal, rfl, hv⟩ := ih hps.2 h
      exact ⟨literal, rfl, hv⟩
    | value => exact absurd rfl hps.1

theorem FilledEach.statementsOf (h : FilledEach d tss values uss rest) :
    FilledEach d (tss.filter (!·.isEmpty)) values (uss.filter (!·.isEmpty)) rest := by
  induction h with
  | nil rest => exact .nil rest
  | @cons ts us tss uss values between rest h _ ih =>
    cases hempty : ts.isEmpty with
    | true =>
      rw [List.isEmpty_iff] at hempty
      subst hempty
      obtain rfl := h.eq_of_nil
      simpa [h.isEmpty_eq] using ih
    | false => simpa [h.isEmpty_eq, hempty] using FilledEach.cons h ih

/-- A statement that is filled is still one statement. -/
theorem Filled.statement {file : List Token} (h : Filled d ts values us rest) (hfile : statementsOf ts = [file]) :
    ∃ kept, statementsOf us = [kept] ∧ ∃ rest, Filled d file values kept rest := by
  have heach := h.split.statementsOf
  change FilledEach d (Server.statementsOf ts) values (Server.statementsOf us) rest at heach
  rw [hfile] at heach
  generalize Server.statementsOf us = kept at heach ⊢
  cases heach with
  | cons h hs =>
    cases hs
    exact ⟨_, rfl, _, h⟩

end

/-! ## Parts that agree with the server -/

/-- Read from where the lexer stands, the parts have their values where the server has its parameters. No value runs
into what stands before or behind it, each has a literal that the server reads as that value, and the parts end where a
text can end. -/
def agrees (d : Dialect) (comment : Bool) (s : Lexer) : List Part → Bool
  | [] => s.isClosed comment
  | .char c :: ps => !(s.step d c).1.contains .parameter && agrees d comment (s.step d c).2 ps
  | .value v :: ps =>
    s.isBetween && s.endsBefore (Part.value v).kept && isFaithful d v &&
      (Lexer.outside.read d (Part.value v).kept).2.endsBefore (ps.flatMap Part.kept) && agrees d comment .outside ps

theorem kept_spells {d : Dialect} {v : BoundValue} (h : isFaithful d v) : Spells d (Part.value v).kept v := by
  obtain ⟨literal, hliteral, hspells⟩ := literal_spells h
  simpa [Part.kept, hliteral] using hspells

theorem Spells.ne_nil {d : Dialect} {literal : List Char} {v : BoundValue} (h : Spells d literal v) : literal ≠ [] := by
  rintro rfl
  obtain ⟨c, hc, -⟩ := h.last
  cases hc

theorem endsBefore_append {s : Lexer} {t : List Char} (ht : t ≠ []) (u : List Char) :
    s.endsBefore (t ++ u) = s.endsBefore t := by
  obtain ⟨c, t, rfl⟩ := List.exists_cons_of_ne_nil ht
  rfl

/-- What stands behind a literal is read on its own. -/
theorem Spells.tokens_append {d : Dialect} {literal : List Char} {v : BoundValue} (h : Spells d literal v)
    {r : List Char} (hr : (Lexer.outside.read d literal).2.endsBefore r) :
    Lexer.outside.tokens d (literal ++ r) = Lexer.outside.tokens d literal ++ Lexer.outside.tokens d r := by
  rw [Lexer.tokens_append, Lexer.tokens_of_endsBefore h.between hr, ← List.append_assoc]
  rfl

/-- Read from where the lexer stands, what is kept is what is sent with literals in place of the parameters. -/
theorem filled_tokens {d : Dialect} {s : Lexer} {comment : Bool} {parts : List Part} (h : agrees d comment s parts)
    (rest : List BoundValue) :
    Filled d (s.tokens d (parts.flatMap Part.sent)) (Part.values parts ++ rest)
      (s.tokens d (parts.flatMap Part.kept)) rest := by
  induction parts generalizing s with
  | nil => exact .refl (by simp [Lexer.tokens, Lexer.read, s.parameter_not_mem_finish]) rest
  | cons p parts ih =>
    cases p with
    | char c =>
      simp only [agrees, Bool.and_eq_true, Bool.not_eq_true', List.contains_eq_mem, decide_eq_false_iff_not] at h
      simp only [List.flatMap_cons, Part.sent, Part.kept, List.singleton_append, Lexer.tokens_cons]
      exact (ih h.2).append_left h.1
    | value v =>
      simp only [agrees, Bool.and_eq_true] at h
      obtain ⟨⟨⟨⟨hs, hbefore⟩, hv⟩, hbehind⟩, hparts⟩ := h
      have hspells := kept_spells hv
      have hkept : s.tokens d ((Part.value v).kept ++ parts.flatMap Part.kept) = s.finish ++
          (Lexer.outside.tokens d (Part.value v).kept ++ Lexer.outside.tokens d (parts.flatMap Part.kept)) := by
        rw [Lexer.tokens_of_endsBefore hs, hspells.tokens_append hbehind]
        rwa [endsBefore_append hspells.ne_nil]
      rw [List.flatMap_cons, List.flatMap_cons, Part.sent, List.singleton_append, Lexer.tokens_question hs, hkept]
      exact .append_left s.parameter_not_mem_finish (.value hspells.denotes (ih hparts))

/-- Sent and kept, the parts end where a text can end. -/
theorem isClosed_of_agrees {d : Dialect} {s : Lexer} {comment : Bool} {parts : List Part}
    (h : agrees d comment s parts) :
    (s.read d (parts.flatMap Part.sent)).2.isClosed comment ∧
      (s.read d (parts.flatMap Part.kept)).2.isClosed comment := by
  induction parts generalizing s with
  | nil => exact ⟨h, h⟩
  | cons p parts ih =>
    cases p with
    | char c =>
      simp only [agrees, Bool.and_eq_true] at h
      exact ih h.2
    | value v =>
      simp only [agrees, Bool.and_eq_true] at h
      obtain ⟨⟨⟨⟨hs, hbefore⟩, hv⟩, hbehind⟩, hparts⟩ := h
      have hspells := kept_spells hv
      obtain ⟨hsent, hkept⟩ := ih hparts
      refine ⟨?_, ?_⟩
      · rw [List.flatMap_cons, Part.sent, List.singleton_append, Lexer.read_question hs]
        exact hsent
      · rw [List.flatMap_cons]
        refine Lexer.isClosed_read hs (by rwa [endsBefore_append hspells.ne_nil]) ?_
        rw [Lexer.read_append]
        exact Lexer.isClosed_read hspells.between hbehind hkept

theorem isFaithful_of_agrees {d : Dialect} {s : Lexer} {comment : Bool} {parts : List Part}
    (h : agrees d comment s parts) : ∀ v ∈ Part.values parts, isFaithful d v := by
  induction parts generalizing s with
  | nil => simp
  | cons p parts ih =>
    cases p with
    | char c =>
      simp only [agrees, Bool.and_eq_true] at h
      exact ih h.2
    | value v =>
      simp only [agrees, Bool.and_eq_true] at h
      exact List.forall_mem_cons.2 ⟨h.1.1.2, ih h.2⟩

end SchemaMigration.Server
