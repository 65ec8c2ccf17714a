import SchemaMigration.Proofs.FilledStatements
import Mathlib.Data.List.Forall2

/-!
# Stored down texts

What undoes an applied migration is kept as one text, and sent from there when the file is gone. Each statement stands
in it as one line, closed by a semicolon; the server reads the text as the statements that the file would send, with the
same values (`downText_replays`).

That takes more of the statements than being complete (`Restorable`, `not_downText_replays`). The scanner for
placeholders does not know comments, and takes backslashes for escapes even where the server does not; a line that ends
in a comment takes its semicolon into the comment; literals are written for servers that read backslashes as escapes,
run into what stands beside the placeholder, and lose the point of a float without a fraction.
-/

namespace SchemaMigration

namespace Server

/-! ## Lines -/

/-- A text that ends a statement: read from the start, it ends with a semicolon between tokens. -/
def Terminated (d : Dialect) (text : List Char) : Prop :=
  ∃ ts, Lexer.outside.read d text = (ts ++ [.stop], .outside)

theorem Terminated.statements_append {d : Dialect} {text : List Char} (h : Terminated d text) (r : List Char) :
    statements d (text ++ r) = statements d text ++ statements d r := by
  obtain ⟨ts, hread⟩ := h
  have htext : statements d text = statementsOf ts := by
    rw [statements, Lexer.tokens, hread]
    simp [Lexer.finish, statementsOf_append_stop, statementsOf_nil]
  rw [htext, statements, Lexer.tokens_append, hread, List.append_assoc, List.singleton_append, statementsOf_append_stop]
  rfl

theorem statements_intercalate {d : Dialect} {lines : List (List Char)} (h : ∀ line ∈ lines, Terminated d line)
    (last : List Char) :
    statements d (['\n'].intercalate (lines ++ [last])) = lines.flatMap (statements d) ++ statements d last := by
  induction lines with
  | nil => simp
  | cons line lines ih =>
    obtain ⟨hline, hlines⟩ := List.forall_mem_cons.1 h
    have hspace : ∀ c ∈ ['\n'], Store.Token.isSpace c := List.forall_mem_singleton.2 rfl
    have hbreak : ∀ r, statements d ('\n' :: r) = statements d r := fun r =>
      congrArg statementsOf (Lexer.tokens_outside_blanks_append hspace r)
    have hne : lines ++ [last] ≠ [] := by simp
    rw [List.cons_append, List.intercalate_cons_of_ne_nil hne, List.append_assoc, hline.statements_append,
      List.singleton_append, hbreak, ih hlines, List.flatMap_cons, List.append_assoc]

/-- A text with a semicolon at its end. -/
def closed (text : List Char) : List Char :=
  if text.getLast? == some ';' then text else text ++ [';']

/-- Closing a text makes no new statement, even if the semicolon falls into a comment. -/
theorem statements_closed {d : Dialect} {text : List Char} (h : (Lexer.outside.read d text).2.isClosed true) :
    statements d (closed text) = statements d text := by
  unfold closed
  split
  · rfl
  · simp only [Lexer.isClosed, Bool.true_and, Bool.or_eq_true, beq_iff_eq] at h
    rcases h with h | h
    · have hstep : (Lexer.outside.read d text).2.step d ';' = _ :=
        Lexer.step_of_not_continues h (Lexer.continues_stop _)
      have htokens : Lexer.outside.tokens d (text ++ [';']) = Lexer.outside.tokens d text ++ [.stop] := by
        rw [Lexer.tokens_append, Lexer.tokens_cons, hstep, Lexer.stepOutside_stop]
        simp [Lexer.tokens, Lexer.read, Lexer.finish]
      rw [statements, htokens, statementsOf_append_stop, statementsOf_nil, List.append_nil, statements]
    · have htokens : Lexer.outside.tokens d (text ++ [';']) = Lexer.outside.tokens d text := by
        rw [Lexer.tokens_append, Lexer.tokens, Lexer.tokens, h]
        rfl
      rw [statements, htokens, statements]

/-- Closing a text between tokens ends its statement. -/
theorem terminated_closed {d : Dialect} {text : List Char} (h : (Lexer.outside.read d text).2.isBetween) :
    Terminated d (closed text) := by
  unfold closed
  split
  · next hlast =>
    obtain ⟨front, rfl⟩ : ∃ front, text = front ++ [';'] :=
      ⟨_, (List.dropLast_append_getLast? ';' (beq_iff_eq.1 hlast)).symm⟩
    rw [Lexer.read_append] at h
    have hstop := Lexer.step_stop h
    refine ⟨Lexer.outside.tokens d front, ?_⟩
    simp only [Lexer.read_append, Lexer.read, hstop, Lexer.tokens, List.append_assoc, List.append_nil]
  · have hstep : (Lexer.outside.read d text).2.step d ';' = _ :=
      Lexer.step_of_not_continues h (Lexer.continues_stop _)
    refine ⟨Lexer.outside.tokens d text, ?_⟩
    simp only [Lexer.read_append, Lexer.read, hstep, Lexer.stepOutside_stop, Lexer.tokens, List.append_assoc,
      List.append_nil]

end Server

/-! ## Blanks at the end -/

theorem Statement.toList_terminated (sql : String) :
    (terminated sql).toList = Server.closed (Text.dropBlankEnd sql.toList) := by
  unfold terminated Server.closed
  simp only [Text.trimEnd, String.toList_ofList]
  split
  · rw [String.toList_ofList]
  · rw [String.toList_append, String.toList_ofList]
    rfl

theorem dropBlankEnd_append {text blanks : List Char} (hblanks : ∀ c ∈ blanks, Text.isBlank c)
    (hlast : ∀ c ∈ text.getLast?, Text.isBlank c = false) : Text.dropBlankEnd (text ++ blanks) = text := by
  have hback : text.reverse.dropWhile Text.isBlank = text.reverse := by
    cases hreverse : text.reverse with
    | nil => rfl
    | cons c r =>
      rw [← List.head?_reverse, hreverse] at hlast
      exact List.dropWhile_cons_of_neg (by simp [hlast c rfl])
  rw [Text.dropBlankEnd, List.reverse_append, List.dropWhile_append_of_pos (by simpa using hblanks), hback,
    List.reverse_reverse]

theorem Part.values_append_blanks (parts : List Part) (blanks : List Char) :
    values (parts ++ blanks.map .char) = values parts := by
  simp [values, value?, Function.comp_def]

theorem isBlank_of_isSpace {c : Char} (h : Store.Token.isSpace c) : Text.isBlank c := by
  rcases Server.Lexer.isSpace_cases h with rfl | rfl | rfl | rfl | rfl <;> rfl

/-! ## Statements -/

/-- A statement that can be kept with an applied migration and sent from there: some parts, the last of them no white
space, and then blanks. -/
structure Statement.Restorable (d : Dialect) (isLast : Bool) (s : Statement) (parts : List Part) (blanks : List Char) :
    Prop where
  /-- Every placeholder has a value. -/
  parts_eq : s.parts? = some (parts ++ blanks.map .char)
  /-- The server has its parameters where the statement has its placeholders, and literals can stand there. Only the
  last statement may end in a comment to the end of the line. -/
  agrees : Server.agrees d isLast .outside parts
  /-- The server takes it for one statement. -/
  single : (Server.statements d (parts.flatMap Part.sent)).length = 1
  last : parts.getLast?.all fun p => !p.isBlank
  blanks : ∀ c ∈ blanks, Store.Token.isSpace c

/-- The server takes what is sent for one statement, with a value for each of its parameters, and neither quotes nor a
comment are open at its end, unless the end of the line closes it. -/
def Statement.Complete (d : Dialect) (s : Statement) : Prop :=
  ∃ sql values, s.prepare = .ok (sql, values) ∧ (Server.statements d sql.toList).length = 1 ∧
    (Server.Lexer.outside.read d sql.toList).2.isClosed true ∧
    (Server.Lexer.outside.tokens d sql.toList).count .parameter ≤ values.length

/-- The statement as it was kept is for the server the one that is sent: token by token the same, with literals of the
values in place of the parameters. -/
def Statement.Replays (d : Dialect) (s : Statement) (kept : List Server.Token) : Prop :=
  ∃ sql values, s.prepare = .ok (sql, values) ∧
    ∃ file rest, Server.statements d sql.toList = [file] ∧ Server.Filled d file values kept rest

namespace Statement.Restorable

open Server

variable {d : Dialect} {isLast : Bool} {s : Statement} {parts : List Part} {blanks : List Char}

/-- What is kept has no white space at its end before the blanks. -/
theorem getLast?_kept (h : s.Restorable d isLast parts blanks) :
    ∀ c ∈ (parts.flatMap Part.kept).getLast?, Text.isBlank c = false := by
  have hfaithful := isFaithful_of_agrees h.agrees
  have hend := h.last
  obtain rfl | ⟨front, p, rfl⟩ := List.eq_nil_or_concat' parts
  · simp
  · cases p with
    | char c =>
      simpa [Part.kept, Part.isBlank] using hend
    | value v =>
      obtain ⟨c, hc, hblank⟩ := (kept_spells (hfaithful v (by simp [Part.values, Part.value?]))).last
      simp [List.flatMap_append, List.getLast?_append, hc, hblank]

/-- The statement as it is sent. -/
theorem prepare_eq (h : s.Restorable d isLast parts blanks) :
    ∃ sql rest, s.prepare = .ok (sql, Part.values parts ++ rest) ∧ sql.toList = parts.flatMap Part.sent ++ blanks := by
  obtain ⟨rest, hprepare⟩ := Statement.prepare_eq h.parts_eq
  rw [Part.values_append_blanks] at hprepare
  exact ⟨_, rest, hprepare, by simp [List.flatMap_map, Part.sent]⟩

/-- The statement as it is kept. -/
theorem render_eq (h : s.Restorable d isLast parts blanks) :
    ∃ text, s.render = .ok text ∧ text.toList = parts.flatMap Part.kept ++ blanks := by
  have hliteral : ∀ v ∈ Part.values (parts ++ blanks.map .char), v.literal?.isSome := by
    intro v hv
    rw [Part.values_append_blanks] at hv
    obtain ⟨literal, hliteral, -⟩ := literal_spells (isFaithful_of_agrees h.agrees v hv)
    rw [hliteral]
    rfl
  exact ⟨_, Statement.render_eq h.parts_eq hliteral, by simp [List.flatMap_map, Part.kept]⟩

/-- The statement goes into the stored text as one line, which the server reads as that statement. -/
theorem line (h : s.Restorable d isLast parts blanks) :
    ∃ text, s.render = .ok text ∧ (isLast = false → Terminated d (terminated text).toList) ∧
      ∃ kept, statements d (terminated text).toList = [kept] ∧ s.Replays d kept := by
  obtain ⟨hsent, hkept⟩ := isClosed_of_agrees h.agrees
  obtain ⟨sql, rest, hprepare, hsql⟩ := h.prepare_eq
  obtain ⟨text, hrender, htext⟩ := h.render_eq
  obtain ⟨file, hfile⟩ := List.length_eq_one_iff.1 h.single
  obtain ⟨kept, hstatement, rest, hfilled⟩ := (filled_tokens h.agrees rest).statement hfile
  -- the blanks at the end are no part of what the server reads
  have hsent : statements d sql.toList = [file] := by
    rw [hsql, statements, Lexer.tokens_append, Lexer.tokens_blanks (Lexer.isClosed_true hsent) h.blanks]
    exact hfile
  have htrimmed : Text.dropBlankEnd text.toList = parts.flatMap Part.kept := by
    rw [htext]
    exact dropBlankEnd_append (fun c hc => isBlank_of_isSpace (h.blanks c hc)) h.getLast?_kept
  refine ⟨text, hrender, ?_, kept, ?_, sql, _, hprepare, file, rest, hsent, hfilled⟩
  · rintro rfl
    rw [toList_terminated, htrimmed]
    exact terminated_closed (by simpa [Lexer.isClosed] using hkept)
  · rw [toList_terminated, htrimmed, statements_closed (Lexer.isClosed_true hkept)]
    exact hstatement

end Statement.Restorable

/-! ## Scripts -/

namespace Script

open Server (Terminated statements)

/-- The lines of the stored text. -/
theorem lines_eq {d : Dialect} {isLast : Bool} {ss : List Statement}
    (h : ∀ s ∈ ss, ∃ parts blanks, s.Restorable d isLast parts blanks) :
    ∃ lines, ss.mapM (fun s => Statement.terminated <$> s.render) = .ok lines ∧
      (isLast = false → ∀ line ∈ lines, Terminated d line.toList) ∧
      List.Forall₂ (fun s line => ∃ kept, statements d line.toList = [kept] ∧ s.Replays d kept) ss lines := by
  induction ss with
  | nil => exact ⟨[], rfl, by simp, .nil⟩
  | cons s ss ih =>
    obtain ⟨⟨parts, blanks, hs⟩, hss⟩ := List.forall_mem_cons.1 h
    obtain ⟨lines, hlines, hterminated, hforall⟩ := ih hss
    obtain ⟨text, hrender, hline, hkept⟩ := hs.line
    refine ⟨Statement.terminated text :: lines, ?_, ?_, .cons hkept hforall⟩
    · simp [List.mapM_cons, hrender, hlines]
      rfl
    · exact fun hlast => List.forall_mem_cons.2 ⟨hline hlast, hterminated hlast⟩

theorem forall₂_flatMap {α β γ : Type} {R : α → γ → Prop} {f : β → List γ} {xs : List α} {ys : List β}
    (h : List.Forall₂ (fun x y => ∃ z, f y = [z] ∧ R x z) xs ys) : List.Forall₂ R xs (ys.flatMap f) := by
  induction h with
  | nil => exact .nil
  | cons hz _ ih =>
    obtain ⟨z, hz, hR⟩ := hz
    rw [List.flatMap_cons, hz]
    exact .cons hR ih

/-- Reverting from the stored text is reverting from the file: the server takes the stored text for the statements that
the file would send, in the same order and with the same values. -/
theorem downText_replays {d : Dialect} {s : Script}
    (h : ∀ t ∈ s.down.dropLast, ∃ parts blanks, t.Restorable d false parts blanks)
    (hlast : ∀ t ∈ s.down.getLast?, ∃ parts blanks, t.Restorable d true parts blanks) :
    ∃ text, s.downText = .ok text ∧
      List.Forall₂ (fun t kept => t.Replays d kept) s.down (statements d text.toList) := by
  rw [downText]
  obtain hnil | ⟨front, t, hdown⟩ := List.eq_nil_or_concat' s.down
  · rw [hnil]
    exact ⟨"", rfl, .nil⟩
  · rw [hdown, List.dropLast_concat] at h
    rw [hdown, List.getLast?_concat] at hlast
    obtain ⟨lines, hlines, hterminated, hforall⟩ := lines_eq h
    obtain ⟨parts, blanks, ht⟩ := hlast t rfl
    obtain ⟨text, hrender, -, kept, hkept, hreplays⟩ := ht.line
    have hmapM : s.down.mapM (fun s => Statement.terminated <$> s.render) =
        .ok (lines ++ [Statement.terminated text]) := by
      simp [hdown, List.mapM_append, hlines, hrender]
      rfl
    have hstatements : statements d ("\n".intercalate (lines ++ [Statement.terminated text])).toList =
        (lines.flatMap fun line => statements d line.toList) ++ [kept] := by
      have hall : ∀ line ∈ lines.map String.toList, Terminated d line := by simpa using hterminated rfl
      have hbreak : "\n".toList = ['\n'] := rfl
      rw [String.toList_intercalate, hbreak, List.map_append, List.map_singleton, Server.statements_intercalate hall,
        List.flatMap_map, hkept]
    refine ⟨"\n".intercalate (lines ++ [Statement.terminated text]), by simp [hmapM], ?_⟩
    rw [hstatements, hdown]
    exact List.rel_append (forall₂_flatMap hforall) (.cons hreplays .nil)

/-- Quotes and comments with semicolons, values that look like placeholders, and a comment at the very end. -/
def tangled : Script where
  up := []
  down := [
    { sql := "UPDATE \x60a;b\x60 SET v = :v, w = ':v' /* one; two */ WHERE u = -:u;\n"
      binds := some (.named [("v", .text "it's ?; \\ --"), (":u", .int 7)]) },
    { sql := "DELETE FROM t WHERE v IN (?, ?)", binds := some (.positional [.null, .bool true, .int 3]) },
    { sql := "DROP TABLE t -- gone" }]

theorem downText_replays_tangled :
    (∀ t ∈ tangled.down.dropLast, ∃ parts blanks, t.Restorable .mysql false parts blanks) ∧
      (∀ t ∈ tangled.down.getLast?, ∃ parts blanks, t.Restorable .mysql true parts blanks) ∧
      ∃ text, tangled.downText = .ok text ∧
        List.Forall₂ (fun t kept => t.Replays .mysql kept) tangled.down (statements .mysql text.toList) := by
  have h : ∀ t ∈ tangled.down.dropLast, ∃ parts blanks, t.Restorable .mysql false parts blanks := by
    refine List.forall_mem_cons.2 ⟨?_, List.forall_mem_singleton.2 ?_⟩
    · exact ⟨"UPDATE \x60a;b\x60 SET v = ".toList.map .char ++ .value (.text "it's ?; \\ --") ::
          (", w = ':v' /* one; two */ WHERE u = -".toList.map .char ++ [.value (.int 7), .char ';']),
        ['\n'], rfl, by decide, by decide, by decide, List.forall_mem_singleton.2 rfl⟩
    · exact ⟨"DELETE FROM t WHERE v IN (".toList.map .char ++
          [.value .null, .char ',', .char ' ', .value (.bool true), .char ')'],
        [], rfl, by decide, by decide, by decide, List.forall_mem_nil _⟩
  have hlast : ∀ t ∈ tangled.down.getLast?, ∃ parts blanks, t.Restorable .mysql true parts blanks := by
    rintro t ⟨⟩
    exact ⟨"DROP TABLE t -- gone".toList.map .char, [], rfl, by decide, by decide, by decide,
      List.forall_mem_nil _⟩
  exact ⟨h, hlast, downText_replays h hlast⟩

/-- A comment to the end of the line that another statement follows. -/
def commented : Script where
  up := []
  down := [{ sql := "DELETE FROM a -- all" }, { sql := "DELETE FROM b" }]

/-- A backslash in a value. -/
def path : Script where
  up := []
  down := [{ sql := "UPDATE t SET v = ?", binds := some (.positional [.text "C:\\temp"]) }]

/-- What `path` has in front of the value. -/
def pathFront : List Server.Token :=
  [.word "UPDATE".toList, .word ['t'], .word "SET".toList, .word ['v'], .symbol '=']

/-- Complete statements with values for all placeholders are not enough. The semicolon of a line falls into a comment at
its end, where no server sees it; and a server without escapes reads both backslashes of a literal. -/
theorem not_downText_replays :
    (∀ d, (∀ t ∈ commented.down, t.Complete d) ∧ ∃ text, commented.downText = .ok text ∧
      ¬List.Forall₂ (fun t kept => t.Replays d kept) commented.down (statements d text.toList)) ∧
    (∀ t ∈ path.down, t.Complete .sqlite) ∧ ∃ text, path.downText = .ok text ∧
      ¬List.Forall₂ (fun t kept => t.Replays .sqlite kept) path.down (statements .sqlite text.toList) := by
  have hone : ∀ d, (statements d "DELETE FROM a -- all;\nDELETE FROM b;".toList).length = 1 := by
    intro d
    cases d <;> decide
  refine ⟨fun d => ⟨?_, "DELETE FROM a -- all;\nDELETE FROM b;", rfl, ?_⟩, ?_,
    "UPDATE t SET v = 'C:\\\\temp';", rfl, ?_⟩
  · refine List.forall_mem_cons.2 ⟨⟨"DELETE FROM a -- all", [], rfl, ?_⟩,
      List.forall_mem_singleton.2 ⟨"DELETE FROM b", [], rfl, ?_⟩⟩ <;> cases d <;> decide
  · intro h
    have hlength := h.length_eq
    rw [hone d] at hlength
    cases hlength
  · exact List.forall_mem_singleton.2 ⟨"UPDATE t SET v = ?", [.text "C:\\temp"], rfl, by decide⟩
  · have hfile : statements .sqlite "UPDATE t SET v = ?".toList = [pathFront ++ [.parameter]] := by decide
    have hkept : statements .sqlite "UPDATE t SET v = 'C:\\\\temp';".toList =
        [pathFront ++ [.quoted .single "C:\\\\temp".toList]] := by decide
    rw [hkept]
    rintro (_ | ⟨⟨sql, values, hprepare, file, rest, hsql, hfilled⟩, -⟩)
    cases hprepare
    rw [hfile] at hsql
    cases hsql
    obtain ⟨literal, hliteral, inside, rfl, hvalue⟩ := hfilled.of_concat (by decide)
    cases List.append_cancel_left hliteral
    revert hvalue
    decide

end Script

end SchemaMigration
