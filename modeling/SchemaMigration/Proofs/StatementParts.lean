import SchemaMigration.Proofs.Prepared

/-!
# Statements with their values

A statement whose placeholders all have values, as a list of parts: the characters that are sent as they stand, and the
values. What is sent is the parts with a `?` for each value and the values in their order (`prepare_eq`), whether they
are given in a list or by name; what is kept is the parts with a literal for each value (`render_eq`).
-/

namespace SchemaMigration

/-- A part of a statement: a character that is sent as it was written, or a value in place of a placeholder. -/
inductive Part where
  | char (c : Char)
  | value (v : BoundValue)

namespace Part

/-- The part as it is sent, with its value apart. -/
def sent : Part → List Char
  | char c => [c]
  | value _ => ['?']

/-- The part as it is kept, with its value as a literal. -/
def kept : Part → List Char
  | char c => [c]
  | value v => v.literal?.getD ['?']

def value? : Part → Option BoundValue
  | char _ => none
  | value v => some v

/-- White space. -/
def isBlank : Part → Bool
  | char c => Text.isBlank c
  | value _ => false

/-- The values in parts, from left to right. -/
def values (parts : List Part) : List BoundValue :=
  parts.filterMap value?

@[simp]
theorem values_nil : values [] = [] := rfl

@[simp]
theorem values_char (c : Char) (parts : List Part) : values (char c :: parts) = values parts := rfl

@[simp]
theorem values_value (v : BoundValue) (parts : List Part) : values (value v :: parts) = v :: values parts := rfl

end Part

namespace Statement

open Placeholder

/-- Pieces with values in place of all placeholders; fails if one has none. `count` is the number of `?` before. -/
def partsFrom (value? : Placeholder → Option BoundValue) (count : Nat) : List Piece → Option (List Part)
  | [] => some []
  | .char c :: ps => return .char c :: (← partsFrom value? count ps)
  | .question :: ps => do
    let v ← value? (.positional count)
    return .value v :: (← partsFrom value? (count + 1) ps)
  | .name cs :: ps => do
    let v ← value? (.named cs)
    return .value v :: (← partsFrom value? count ps)

/-- A statement as its parts; fails if a placeholder has no value. -/
def parts? (s : Statement) : Option (List Part) :=
  match s.binds with
  | none => some (s.sql.toList.map .char)
  | some binds => partsFrom (valueFor binds) 0 (pieces s.sql.toList)

section

variable {value? : Placeholder → Option BoundValue} {count : Nat} {ps : List Piece} {parts : List Part}

theorem partsFrom_char_eq_some {c : Char} : partsFrom value? count (.char c :: ps) = some parts ↔
    ∃ rest, partsFrom value? count ps = some rest ∧ .char c :: rest = parts := by
  simp [partsFrom, Option.bind_eq_some_iff]

theorem partsFrom_question_eq_some : partsFrom value? count (.question :: ps) = some parts ↔
    ∃ v, value? (.positional count) = some v ∧
      ∃ rest, partsFrom value? (count + 1) ps = some rest ∧ .value v :: rest = parts := by
  simp [partsFrom, Option.bind_eq_some_iff]

theorem partsFrom_name_eq_some {cs : List Char} : partsFrom value? count (.name cs :: ps) = some parts ↔
    ∃ v, value? (.named cs) = some v ∧ ∃ rest, partsFrom value? count ps = some rest ∧ .value v :: rest = parts := by
  simp [partsFrom, Option.bind_eq_some_iff]

theorem fill_literalFor (h : partsFrom value? count ps = some parts)
    (hliteral : ∀ v ∈ Part.values parts, v.literal?.isSome) :
    fill (fun p => literalFor (value? p)) count none ps = (parts.flatMap Part.kept, none) := by
  induction ps generalizing count parts with
  | nil =>
    cases h
    rfl
  | cons p ps ih =>
    cases p with
    | char c =>
      obtain ⟨rest, hrest, rfl⟩ := partsFrom_char_eq_some.1 h
      simp [fill, ih hrest hliteral, Part.kept]
    | question =>
      obtain ⟨v, hv, rest, hrest, rfl⟩ := partsFrom_question_eq_some.1 h
      rw [Part.values_value, List.forall_mem_cons] at hliteral
      obtain ⟨literal, hv'⟩ := Option.isSome_iff_exists.1 hliteral.1
      simp [fill, hv, literalFor, hv', ih hrest hliteral.2, Part.kept]
    | name cs =>
      obtain ⟨v, hv, rest, hrest, rfl⟩ := partsFrom_name_eq_some.1 h
      rw [Part.values_value, List.forall_mem_cons] at hliteral
      obtain ⟨literal, hv'⟩ := Option.isSome_iff_exists.1 hliteral.1
      simp [fill, hv, literalFor, hv', ih hrest hliteral.2, Part.kept]

/-- The values of a list are taken in their order. -/
theorem parts_positional {values : List BoundValue}
    (h : partsFrom (valueFor (.positional values)) count ps = some parts) :
    parts.flatMap Part.sent = ps.flatMap Piece.chars ∧ ∃ rest, values.drop count = Part.values parts ++ rest := by
  induction ps generalizing count parts with
  | nil =>
    cases h
    exact ⟨rfl, _, rfl⟩
  | cons p ps ih =>
    cases p with
    | char c =>
      obtain ⟨parts, hparts, rfl⟩ := partsFrom_char_eq_some.1 h
      obtain ⟨hsent, rest, hrest⟩ := ih hparts
      exact ⟨by simp [Part.sent, Piece.chars, hsent], rest, by simp [hrest]⟩
    | question =>
      obtain ⟨v, hv, parts, hparts, rfl⟩ := partsFrom_question_eq_some.1 h
      obtain ⟨hsent, rest, hrest⟩ := ih hparts
      obtain ⟨hlt, hget⟩ := List.getElem?_eq_some_iff.1 hv
      refine ⟨by simp [Part.sent, Piece.chars, hsent], rest, ?_⟩
      rw [List.drop_eq_getElem_cons hlt, hget, hrest]
      rfl
    | name cs =>
      obtain ⟨v, hv, -⟩ := partsFrom_name_eq_some.1 h
      cases hv

/-- The values of names are taken by name. -/
theorem parts_named {values : List (String × BoundValue)}
    (h : partsFrom (valueFor (.named values)) count ps = some parts) :
    parts.flatMap Part.sent = anonymous ps ∧
      (names ps).map (fun n => Binds.lookup? values (String.ofList n)) = (Part.values parts).map some := by
  induction ps generalizing count parts with
  | nil =>
    cases h
    exact ⟨rfl, rfl⟩
  | cons p ps ih =>
    cases p with
    | char c =>
      obtain ⟨parts, hparts, rfl⟩ := partsFrom_char_eq_some.1 h
      obtain ⟨hsent, hvalues⟩ := ih hparts
      exact ⟨by simp [Part.sent, Piece.asQuestion, Piece.chars, hsent], by simpa [names] using hvalues⟩
    | question =>
      obtain ⟨v, hv, -⟩ := partsFrom_question_eq_some.1 h
      cases hv
    | name cs =>
      obtain ⟨v, hv, parts, hparts, rfl⟩ := partsFrom_name_eq_some.1 h
      obtain ⟨hsent, hvalues⟩ := ih hparts
      have hlookup : Binds.lookup? values (String.ofList cs) = some v := hv
      refine ⟨by simp [Part.sent, Piece.asQuestion, Piece.chars, hsent], ?_⟩
      simpa [names, hlookup] using hvalues

end

/-- A statement is kept as its parts are. -/
theorem render_eq {s : Statement} {parts : List Part} (h : s.parts? = some parts)
    (hliteral : ∀ v ∈ Part.values parts, v.literal?.isSome) :
    s.render = .ok (String.ofList (parts.flatMap Part.kept)) := by
  unfold parts? at h
  unfold render
  cases hbinds : s.binds with
  | none =>
    rw [hbinds] at h
    cases h
    simp [List.flatMap_map, Part.kept]
  | some binds =>
    rw [hbinds] at h
    simp [substitute, fill_literalFor h hliteral]

/-- A statement is sent as its parts are, with at least their values. -/
theorem prepare_eq {s : Statement} {parts : List Part} (h : s.parts? = some parts) :
    ∃ rest, s.prepare =
      .ok (String.ofList (parts.flatMap Part.sent), Part.values parts ++ rest) := by
  unfold parts? at h
  unfold prepare
  cases hbinds : s.binds with
  | none =>
    rw [hbinds] at h
    cases h
    have hvalues : Part.values (s.sql.toList.map .char) = [] := by simp [Part.values, Part.value?, Function.comp_def]
    exact ⟨[], by simp [List.flatMap_map, Part.sent, hvalues]⟩
  | some binds =>
    rw [hbinds] at h
    cases binds with
    | positional values =>
      obtain ⟨hsent, rest, hrest⟩ := parts_positional h
      rw [List.drop_zero] at hrest
      exact ⟨rest, by simp [hsent, flatMap_chars_pieces, hrest]⟩
    | named values =>
      obtain ⟨hsent, hvalues⟩ := parts_named h
      have hall : ∀ n ∈ names (pieces s.sql.toList), (Binds.lookup? values (String.ofList n)).isSome := by
        intro n hn
        have hmem := List.mem_map_of_mem (f := fun n => Binds.lookup? values (String.ofList n)) hn
        rw [hvalues, List.mem_map] at hmem
        obtain ⟨v, -, hv⟩ := hmem
        rw [← hv]
        rfl
      have hmissing : (names (pieces s.sql.toList)).find?
          (fun n => (Binds.lookup? values (String.ofList n)).isNone) = none := by
        simpa [List.find?_eq_none, Option.isSome_iff_ne_none] using hall
      have hordered : (names (pieces s.sql.toList)).filterMap (fun n => Binds.lookup? values (String.ofList n)) =
          Part.values parts := by
        have hsome := map_some_filterMap hall
        rw [hvalues] at hsome
        exact List.map_injective_iff.2 (fun _ _ h => Option.some.inj h) hsome
      exact ⟨[], by simp [substitute, fill_collect, hmissing, hordered, hsent]⟩

end Statement

end SchemaMigration
