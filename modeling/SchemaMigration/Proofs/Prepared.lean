import SchemaMigration.Script.Statement
import Mathlib.Data.List.Basic

/-!
# Prepared statements

Preparing writes a `?` over every name that has a value (`Placeholder.asQuestion`) and lists the values in the same
order. Scanned again, the new text falls into the same pieces, with a `?` where there was a name
(`pieces_flatMap_asQuestion`): quotes stay where they were, a colon that started no placeholder starts none now, and a
`?` does not lengthen a name before it.

Rendering the new text with the values in their order therefore does what rendering the original does
(`render_prepare`).
-/

namespace SchemaMigration

namespace Placeholder

namespace Scanner

theorem pieces_cons (s : Scanner) (c : Char) (r : List Char) :
    s.pieces (c :: r) = (s.step c).1 ++ (s.step c).2.pieces r := rfl

/-- A colon that no name follows belongs to no placeholder. -/
theorem pieces_colon {cs : List Char} (h : ∀ c ∈ cs.head?, isNameStart c = false) :
    colon.pieces cs = .char ':' :: (outside true).pieces cs := by
  cases cs with
  | nil => rfl
  | cons c r => simp [pieces_cons, step, h c rfl]

/-- What follows a name is scanned as if it followed no colon. -/
theorem pieces_name {c : Char} (h : isNameChar c = false) (reversed r : List Char) :
    (name reversed).pieces (c :: r) = .name reversed.reverse :: (outside false).pieces (c :: r) := by
  simp [pieces_cons, step, h]

end Scanner

open Scanner

/-- A piece with its name, if it has one, written over by a `?`. -/
def Piece.asQuestion : Piece → Piece
  | name _ => question
  | p => p

/-- A text with all names written over. -/
def anonymous (ps : List Piece) : List Char :=
  ps.flatMap fun p => p.asQuestion.chars

@[simp]
theorem anonymous_nil : anonymous [] = [] := rfl

@[simp]
theorem anonymous_cons (p : Piece) (ps : List Piece) : anonymous (p :: ps) = p.asQuestion.chars ++ anonymous ps := rfl

@[simp]
theorem anonymous_append (ps qs : List Piece) : anonymous (ps ++ qs) = anonymous ps ++ anonymous qs := by
  simp [anonymous]

/-- Where a scanner stands that has read none of what is still pending. -/
def Scanner.settled : Scanner → Scanner
  | .colon | .name _ => .outside false
  | s => s

/-- After a colon that starts no placeholder, writing names over puts no name behind it. -/
theorem isNameStart_head_anonymous {cs : List Char} (h : ∀ c ∈ cs.head?, isNameStart c = false) :
    ∀ c ∈ (anonymous ((outside true).pieces cs)).head?, isNameStart c = false := by
  cases cs with
  | nil => simp [Scanner.pieces, finish]
  | cons c r =>
    have hc : isNameStart c = false := h c rfl
    rw [pieces_cons, step, stepOutside]
    split
    · simpa [Piece.asQuestion, Piece.chars] using hc
    · split
      · simp [Piece.asQuestion, Piece.chars, isNameStart, Text.isLetter]
      · split <;> simpa [Piece.asQuestion, Piece.chars] using hc

/-- One character outside quotes, after which the rest scans again as it did. -/
theorem pieces_anonymous_outside {c : Char} {r : List Char}
    (ih : ∀ s : Scanner, s.settled.pieces (anonymous (s.pieces r)) = (s.pieces r).map Piece.asQuestion)
    (afterColon : Bool) :
    (outside afterColon).pieces (anonymous ((outside afterColon).pieces (c :: r))) =
      ((outside afterColon).pieces (c :: r)).map Piece.asQuestion := by
  rw [pieces_cons, step, stepOutside]
  split
  · next hq => simp [Piece.asQuestion, Piece.chars, pieces_cons, step, stepOutside, hq, ← ih, settled]
  · next hq =>
    split
    · next hm =>
      rw [beq_iff_eq] at hm
      subst hm
      simp [Piece.asQuestion, Piece.chars, pieces_cons, step, stepOutside, isQuote, Text.backtick, ← ih, settled]
    · next hm =>
      split
      · next hcolon =>
        rw [beq_iff_eq] at hcolon
        subst hcolon
        cases afterColon with
        | true =>
          simp [Piece.asQuestion, Piece.chars, pieces_cons, step, stepOutside, isQuote, Text.backtick, ← ih, settled]
        | false => simpa [settled] using ih colon
      · next hcolon =>
        simp [Piece.asQuestion, Piece.chars, pieces_cons, step, stepOutside, hq, hm, hcolon, ← ih, settled]

/-- Wherever the scanner stands, what it reads scans again as it did, with a `?` in place of each name. -/
theorem Scanner.pieces_anonymous (s : Scanner) (cs : List Char) :
    s.settled.pieces (anonymous (s.pieces cs)) = (s.pieces cs).map Piece.asQuestion := by
  induction cs generalizing s with
  | nil => cases s <;> rfl
  | cons c r ih =>
    have houtside := pieces_anonymous_outside (c := c) ih
    cases s with
    | outside afterColon => exact houtside afterColon
    | colon =>
      cases hc : isNameStart c with
      | true => simpa [pieces_cons, step, hc, settled] using ih (name [c])
      | false =>
        have hhead : ∀ d ∈ (c :: r).head?, isNameStart d = false := by simpa using hc
        rw [pieces_colon hhead, List.map_cons, ← houtside true]
        exact pieces_colon (isNameStart_head_anonymous hhead)
    | name reversed =>
      cases hc : isNameChar c with
      | true => simpa [pieces_cons, step, hc, settled] using ih (name (c :: reversed))
      | false =>
        rw [pieces_name hc, List.map_cons, ← houtside false]
        rfl
    | quoted q =>
      rw [pieces_cons, step]
      split
      · next hq => simp [Piece.asQuestion, Piece.chars, pieces_cons, step, hq, ← ih, settled]
      · next hq =>
        split
        · next hb => simp [Piece.asQuestion, Piece.chars, pieces_cons, step, hq, hb, ← ih, settled]
        · next hb => simp [Piece.asQuestion, Piece.chars, pieces_cons, step, hq, hb, ← ih, settled]
    | escaped q => simp [Piece.asQuestion, Piece.chars, pieces_cons, step, ← ih, settled]

/-- A statement with its names written over has the same pieces, but for the names. -/
theorem pieces_flatMap_asQuestion (sql : List Char) :
    pieces (anonymous (pieces sql)) = (pieces sql).map Piece.asQuestion :=
  Scanner.pieces_anonymous (outside false) sql

end Placeholder

namespace Statement

open Placeholder

/-- The names in a statement, from left to right. -/
def names (ps : List Piece) : List (List Char) :=
  ps.filterMap fun
    | .name cs => some cs
    | _ => none

/-- Collecting writes all names over; it keeps the values that there are, and the first name without one. -/
theorem fill_collect (values : List (String × BoundValue)) (count : Nat) (c : Collected) (ps : List Piece) :
    fill (collect values) count c ps =
      (anonymous ps,
        { reversed := ((names ps).filterMap fun n => Binds.lookup? values (String.ofList n)).reverse ++ c.reversed
          missing := c.missing <|> (names ps).find? fun n => (Binds.lookup? values (String.ofList n)).isNone }) := by
  induction ps generalizing count c with
  | nil => simp [fill, names]
  | cons p ps ih =>
    cases p with
    | char d => simp [fill, ih, names, Piece.asQuestion, Piece.chars]
    | question => simp [fill, ih, collect, names, Piece.asQuestion, Piece.chars]
    | name cs =>
      cases hv : Binds.lookup? values (String.ofList cs) <;>
        simp [fill, ih, collect, names, Piece.asQuestion, Piece.chars, hv]

/-- Once a value has no literal, it is the one that is reported. -/
theorem fill_literalFor_some (value? : Placeholder → Option BoundValue) (count : Nat) (v : BoundValue)
    (ps : List Piece) : (fill (fun p invalid => literalFor (value? p) invalid) count (some v) ps).2 = some v := by
  induction ps generalizing count with
  | nil => rfl
  | cons p ps ih =>
    have hkept : ∀ x : Option BoundValue, (literalFor x (some v)).2 = some v := by
      intro x
      unfold literalFor
      split
      · rfl
      · split <;> rfl
    cases p <;> simp [fill, ih, hkept]

/-- Names with values, and as many `?` with the same values, are filled alike. -/
theorem fill_positional {values : List (String × BoundValue)} {vs : List BoundValue} {ps : List Piece}
    (hquestion : .question ∉ ps) (count : Nat)
    (hvalues : (names ps).map (fun n => Binds.lookup? values (String.ofList n)) = (vs.drop count).map some)
    (before : Nat) (invalid : Option BoundValue) :
    let named := fill (fun p => literalFor (valueFor (.named values) p)) before invalid ps
    let positional := fill (fun p => literalFor (valueFor (.positional vs) p)) count invalid (ps.map Piece.asQuestion)
    positional.2 = named.2 ∧ (named.2 = none → positional.1 = named.1) := by
  induction ps generalizing count invalid with
  | nil => simp [fill]
  | cons p ps ih =>
    have hrest : .question ∉ ps := fun h => hquestion (List.mem_cons_of_mem _ h)
    cases p with
    | question => exact absurd List.mem_cons_self hquestion
    | char c =>
      obtain ⟨hstate, htext⟩ := ih hrest count hvalues invalid
      exact ⟨hstate, fun h => congrArg (c :: ·) (htext h)⟩
    | name cs =>
      -- the value that comes next belongs to this name
      have hcons : Binds.lookup? values (String.ofList cs) ::
          (names ps).map (fun n => Binds.lookup? values (String.ofList n)) = (vs.drop count).map some := hvalues
      obtain ⟨v, vs', hdrop, hv, hrestValues⟩ := List.map_eq_cons_iff.1 hcons.symm
      have hcount : count < vs.length := by
        by_contra hlong
        rw [List.drop_eq_nil_of_le (by omega)] at hdrop
        cases hdrop
      rw [List.drop_eq_getElem_cons hcount, List.cons.injEq] at hdrop
      obtain ⟨hget, hdrop⟩ := hdrop
      have hposition : vs[count]? = some v := by rw [List.getElem?_eq_getElem hcount, hget]
      have hfill := ih hrest (count + 1) (by rw [hdrop, hrestValues])
      simp only [List.map_cons, Piece.asQuestion, fill, valueFor, hposition, ← hv, literalFor]
      cases v.literal? with
      | some text =>
        obtain ⟨hstate, htext⟩ := hfill invalid
        exact ⟨hstate, fun h => congrArg (text ++ ·) (htext h)⟩
      | none =>
        refine ⟨(hfill _).1, fun h => ?_⟩
        have hsome : (invalid <|> some v).isSome := by cases invalid <;> rfl
        obtain ⟨u, hu⟩ := Option.isSome_iff_exists.1 hsome
        simp [hu, fill_literalFor_some] at h

theorem map_some_filterMap {α β : Type} {f : α → Option β} {xs : List α} (h : ∀ x ∈ xs, (f x).isSome) :
    (xs.filterMap f).map some = xs.map f := by
  induction xs with
  | nil => rfl
  | cons x xs ih =>
    obtain ⟨hx, hxs⟩ := List.forall_mem_cons.1 h
    obtain ⟨y, hy⟩ := Option.isSome_iff_exists.1 hx
    simp [hy, ih hxs]

/-- What preparing a statement with named values gives, if it gives anything. -/
theorem prepare_named_eq_ok {s : Statement} {values : List (String × BoundValue)}
    (hbinds : s.binds = some (.named values)) {sql : String} {vs : List BoundValue} (h : s.prepare = .ok (sql, vs)) :
    sql.toList = anonymous (pieces s.sql.toList) ∧
      (names (pieces s.sql.toList)).map (fun n => Binds.lookup? values (String.ofList n)) = vs.map some := by
  simp only [prepare, hbinds, substitute, fill_collect, List.append_nil, List.reverse_reverse] at h
  split at h
  · cases h
  · next hfound =>
    cases h
    refine ⟨String.toList_ofList, (map_some_filterMap fun n hn => ?_).symm⟩
    have hvalue : ∀ n ∈ names (pieces s.sql.toList), (Binds.lookup? values (String.ofList n)).isSome := by
      simpa [List.find?_eq_none, Option.isSome_iff_ne_none] using hfound
    exact hvalue n hn

/-- The statement as it is sent is rendered like the statement as it is written: with the same text, or both fail
over the same value. -/
theorem render_prepare {s : Statement} {values : List (String × BoundValue)}
    (hbinds : s.binds = some (.named values)) (hquestion : .question ∉ pieces s.sql.toList) {sql : String}
    {vs : List BoundValue} (h : s.prepare = .ok (sql, vs)) :
    let prepared : Statement := { sql, binds := some (.positional vs) }
    (∃ text, s.render = .ok text ∧ prepared.render = .ok text) ∨
      ∃ v, s.render = .error (.noLiteral s.sql v) ∧ prepared.render = .error (.noLiteral sql v) := by
  intro prepared
  obtain ⟨hsql, hvalues⟩ := prepare_named_eq_ok hbinds h
  obtain ⟨hstate, htext⟩ := fill_positional hquestion 0 hvalues 0 none
  simp only [prepared, render, hbinds, substitute, hsql, pieces_flatMap_asQuestion]
  generalize fill _ 0 none (pieces s.sql.toList) = named at hstate htext ⊢
  generalize fill _ 0 none ((pieces s.sql.toList).map Piece.asQuestion) = positional at hstate htext ⊢
  obtain ⟨text, invalid⟩ := named
  obtain ⟨text', invalid'⟩ := positional
  cases hstate
  cases invalid with
  | none =>
    obtain rfl : text' = text := htext rfl
    exact .inl ⟨String.ofList text', rfl, rfl⟩
  | some v => exact .inr ⟨v, rfl, rfl⟩

/-- Names next to each other, doubled colons, quotes with a name in them, and values that look like placeholders. -/
def tangled : Statement :=
  { sql := "UPDATE t SET a = :a:b, c = x::a, d = ':a\\'', e = :1 WHERE f = :a AND g = \":b\";"
    binds := some (.named [("a", .text "it's :b"), (":b", .int (-7))]) }

theorem render_prepare_tangled :
    .question ∉ pieces tangled.sql.toList ∧
      ∃ sql vs, tangled.prepare = .ok (sql, vs) ∧
        ∃ text, tangled.render = .ok text ∧ Statement.render { sql, binds := some (.positional vs) } = .ok text := by
  have hquestion : .question ∉ pieces tangled.sql.toList := by decide
  have hprepare : tangled.prepare = .ok (
      "UPDATE t SET a = ??, c = x::a, d = ':a\\'', e = :1 WHERE f = ? AND g = \":b\";",
      [.text "it's :b", .int (-7), .text "it's :b"]) := rfl
  refine ⟨hquestion, _, _, hprepare, ?_⟩
  rcases render_prepare rfl hquestion hprepare with h | ⟨v, h, -⟩
  · exact h
  · cases h

end Statement

end SchemaMigration
