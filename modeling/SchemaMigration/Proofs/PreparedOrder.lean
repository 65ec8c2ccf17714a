import SchemaMigration.Proofs.Prepared

/-!
# Values in the order of their placeholders

A database gives the values of a prepared statement to its `?` from left to right. Preparing lists the value of the
first name first, that of the second one second, and so on, and writes a `?` where each name stood: the `k`-th value
goes to the place of the `k`-th name (`LinesUp`).

It keeps a `?` that stood in the statement before, and lists no value for it. All values behind such a `?` then go to a
place that did not name them. So values line up with placeholders exactly if there was none (`prepare_linesUp_iff`,
`not_prepare_linesUp`).
-/

namespace SchemaMigration.Statement

open Placeholder

/-- The `k`-th value of a prepared statement is that of the `k`-th name in the statement before, and the `k`-th `?`
stands where this name stood: what is before it and behind it is as it was, but for the names in it. -/
structure StandsFor (values : List (String × BoundValue)) (sql prepared : List Char) (k : Nat) (v : BoundValue)
    (before after : List Piece) (name : List Char) : Prop where
  named : pieces sql = before ++ .name name :: after
  nth : (names before).length = k
  value : Binds.lookup? values (String.ofList name) = some v
  question : pieces prepared = before.map Piece.asQuestion ++ .question :: after.map Piece.asQuestion
  nth_question : (before.map Piece.asQuestion).count .question = k

/-- The values of a prepared statement go to the places that named them: there are as many `?` as values, each `?`
stands where the name of its value stood, and no name is left. -/
structure LinesUp (values : List (String × BoundValue)) (sql prepared : List Char) (vs : List BoundValue) : Prop where
  count : (pieces prepared).count .question = vs.length
  stands : ∀ k v, vs[k]? = some v → ∃ before after name, StandsFor values sql prepared k v before after name
  noName : ∀ name, .name name ∉ pieces prepared

section

variable {values : List (String × BoundValue)} {ps : List Piece}

/-- What comes before a name, and what behind it. -/
theorem exists_eq_append_name {k : Nat} {name : List Char} (h : (names ps)[k]? = some name) :
    ∃ before after, ps = before ++ .name name :: after ∧ (names before).length = k := by
  induction ps generalizing k with
  | nil => cases h
  | cons p ps ih =>
    cases p with
    | char c =>
      obtain ⟨before, after, rfl, hlength⟩ := ih (k := k) h
      exact ⟨.char c :: before, after, rfl, hlength⟩
    | question =>
      obtain ⟨before, after, rfl, hlength⟩ := ih (k := k) h
      exact ⟨.question :: before, after, rfl, hlength⟩
    | name cs =>
      cases k with
      | zero =>
        obtain rfl : cs = name := Option.some.inj h
        exact ⟨[], ps, rfl, rfl⟩
      | succ k =>
        obtain ⟨before, after, rfl, hlength⟩ := ih (k := k) h
        exact ⟨.name cs :: before, after, rfl, congrArg (· + 1) hlength⟩

/-- Each name becomes a `?`, and each `?` stays one. -/
theorem count_question_map_asQuestion (ps : List Piece) :
    (ps.map Piece.asQuestion).count .question = ps.count .question + (names ps).length := by
  induction ps with
  | nil => rfl
  | cons p ps ih =>
    cases p with
    | char c => simpa [Piece.asQuestion, names] using ih
    | question =>
      simp only [List.map_cons, Piece.asQuestion, List.count_cons_self, ih, names, List.filterMap_cons]
      omega
    | name cs =>
      simp only [List.map_cons, Piece.asQuestion, List.count_cons_self, ih, names, List.filterMap_cons,
        List.length_cons, List.count_cons_of_ne (show Piece.name cs ≠ .question by simp)]
      omega

theorem name_notMem_map_asQuestion (ps : List Piece) (name : List Char) : .name name ∉ ps.map Piece.asQuestion := by
  intro h
  obtain ⟨p, -, hp⟩ := List.mem_map.1 h
  cases p <;> cases hp

/-- Preparing leaves no name, and has a `?` for each value beside those that were there before. The values line up with
their placeholders exactly if there were none. -/
theorem prepare_linesUp_iff {s : Statement} (hbinds : s.binds = some (.named values)) {sql : String}
    {vs : List BoundValue} (h : s.prepare = .ok (sql, vs)) :
    (∀ name, .name name ∉ pieces sql.toList) ∧
      (pieces sql.toList).count .question = (pieces s.sql.toList).count .question + vs.length ∧
      (LinesUp values s.sql.toList sql.toList vs ↔ .question ∉ pieces s.sql.toList) := by
  obtain ⟨hsql, hvalues⟩ := prepare_named_eq_ok hbinds h
  have hpieces : pieces sql.toList = (pieces s.sql.toList).map Piece.asQuestion := by
    rw [hsql, pieces_flatMap_asQuestion]
  have hlength : (names (pieces s.sql.toList)).length = vs.length := by
    simpa using congrArg List.length hvalues
  have hnoName : ∀ name, .name name ∉ pieces sql.toList := by
    rw [hpieces]
    exact name_notMem_map_asQuestion _
  have hcount : (pieces sql.toList).count .question = (pieces s.sql.toList).count .question + vs.length := by
    rw [hpieces, count_question_map_asQuestion, hlength]
  refine ⟨hnoName, hcount, fun hlines => ?_, fun hnone => ⟨?_, fun k v hv => ?_, hnoName⟩⟩
  · -- one `?` too many for the values
    have := hlines.count
    exact List.count_eq_zero.1 (by omega)
  · rw [hcount, List.count_eq_zero.2 hnone, Nat.zero_add]
  · have hget : ((names (pieces s.sql.toList)).map fun n => Binds.lookup? values (String.ofList n))[k]? =
        some (some v) := by rw [hvalues, List.getElem?_map, hv]; rfl
    rw [List.getElem?_map] at hget
    obtain ⟨name, hname, hlookup⟩ := Option.map_eq_some_iff.1 hget
    obtain ⟨before, after, hsplit, hbefore⟩ := exists_eq_append_name hname
    have hnoneBefore : .question ∉ before := fun hmem => hnone (hsplit ▸ List.mem_append_left _ hmem)
    refine ⟨before, after, name, hsplit, hbefore, hlookup, ?_, ?_⟩
    · rw [hpieces, hsplit, List.map_append, List.map_cons]
      rfl
    · rw [count_question_map_asQuestion, List.count_eq_zero.2 hnoneBefore, Nat.zero_add, hbefore]

end

namespace Sample

/-- One name twice, names next to each other, and names and question marks in quotes. -/
def crowded : Statement :=
  { sql := "UPDATE t SET a = :to:from, b = '?:to', c = x::to WHERE `d?` = :to;"
    binds := some (.named [("from", .text "?"), (":to", .int 7)]) }

/-- A question mark among names. -/
def mixed : Statement :=
  { sql := "INSERT INTO t (a, b) VALUES (?, :b)", binds := some (.named [("b", .text "x")]) }

end Sample

theorem prepare_linesUp_iff_crowded :
    Sample.crowded.binds = some (.named [("from", .text "?"), (":to", .int 7)]) ∧
      Sample.crowded.prepare =
        .ok ("UPDATE t SET a = ??, b = '?:to', c = x::to WHERE `d?` = ?;", [.int 7, .text "?", .int 7]) ∧
      LinesUp [("from", .text "?"), (":to", .int 7)] Sample.crowded.sql.toList
        "UPDATE t SET a = ??, b = '?:to', c = x::to WHERE `d?` = ?;".toList [.int 7, .text "?", .int 7] := by
  have hprepare : Sample.crowded.prepare =
      .ok ("UPDATE t SET a = ??, b = '?:to', c = x::to WHERE `d?` = ?;", [.int 7, .text "?", .int 7]) := rfl
  obtain ⟨-, -, hlines⟩ := prepare_linesUp_iff rfl hprepare
  exact ⟨rfl, hprepare, hlines.2 (by decide)⟩

/-- The only value goes to the place that has none, and its own place gets nothing. -/
theorem not_prepare_linesUp :
    ¬ ∀ (s : Statement) (values : List (String × BoundValue)) (sql : String) (vs : List BoundValue),
      s.binds = some (.named values) → s.prepare = .ok (sql, vs) → LinesUp values s.sql.toList sql.toList vs := by
  intro h
  have hlines := h Sample.mixed [("b", .text "x")] "INSERT INTO t (a, b) VALUES (?, ?)" [.text "x"] rfl rfl
  have hcount := hlines.count
  revert hcount
  decide

end SchemaMigration.Statement
