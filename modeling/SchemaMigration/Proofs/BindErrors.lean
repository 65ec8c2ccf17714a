import SchemaMigration.Proofs.PlaceholderGrammar
import SchemaMigration.Proofs.RoundedIntegers
import SchemaMigration.Proofs.UnboundNames

/-!
# Errors of bound values

A statement is read to its end whatever is wrong with its values; the error is the one found first
(`Placeholder.ask_first`). So rendering fails just if a placeholder has a value that is NaN or infinite, preparing a
statement with named values just if a name has no value, and the text that undoes a script just if one of its statements
cannot be rendered (`bind_errors_when_due`). A value that no placeholder uses is never looked at.
-/

namespace SchemaMigration

/-! ## The first fault decides -/

/-- The result is an error just if there is a fault in the list, and then it is the error of the first one. -/
structure FailsAtFirst {ε α β : Type} (result : Except ε α) (xs : List β) (Faulty : β → ε → Prop) : Prop where
  fails_iff : (∃ e, result = .error e) ↔ ∃ x ∈ xs, ∃ e, Faulty x e
  first : ∀ e, result = .error e →
    ∃ before x after, xs = before ++ x :: after ∧ Faulty x e ∧ ∀ y ∈ before, ∀ e', ¬ Faulty y e'

section

variable {ε α β : Type}

/-- The error of a result. -/
def errorOf : Except ε α → Option ε
  | .error e => some e
  | .ok _ => none

theorem errorOf_eq_some_iff {result : Except ε α} {e : ε} : errorOf result = some e ↔ result = .error e := by
  cases result <;> simp [errorOf]

theorem FailsAtFirst.of_findSome? {result : Except ε α} {xs : List β} {Faulty : β → ε → Prop} {fault : β → Option ε}
    (hresult : errorOf result = xs.findSome? fault) (hfault : ∀ x e, fault x = some e ↔ Faulty x e) :
    FailsAtFirst result xs Faulty where
  fails_iff := by
    simp only [← errorOf_eq_some_iff, hresult, ← hfault, ← Option.isSome_iff_exists, List.findSome?_isSome_iff]
  first e he := by
    rw [← errorOf_eq_some_iff, hresult] at he
    obtain ⟨before, x, after, hxs, hx, hbefore⟩ := List.findSome?_eq_some_iff.1 he
    refine ⟨before, x, after, hxs, (hfault x e).1 hx, fun y hy e' hfaulty => ?_⟩
    cases (hbefore y hy).symm.trans ((hfault y e').2 hfaulty)

theorem FailsAtFirst.of_ok {a : α} {xs : List β} {Faulty : β → ε → Prop} (h : ∀ x e, ¬ Faulty x e) :
    FailsAtFirst (.ok a) xs Faulty where
  fails_iff := by simp [h]
  first e he := by cases he

theorem errorOf_map {γ : Type} (f : α → γ) (result : Except ε α) : errorOf (f <$> result) = errorOf result := by
  cases result <;> rfl

/-- Results one after the other, up to the first error. -/
theorem errorOf_mapM (f : β → Except ε α) (xs : List β) :
    errorOf (xs.mapM f) = xs.findSome? fun x => errorOf (f x) := by
  induction xs with
  | nil => rfl
  | cons x xs ih =>
    rw [List.mapM_cons, List.findSome?_cons, ← ih]
    cases f x with
    | error e => rfl
    | ok a => cases xs.mapM f <;> rfl

end

namespace Placeholder

variable {σ ε : Type} (replace : Placeholder → σ → Option (List Char) × σ)

/-- If each placeholder adds its own error where there is none so far, the first error is the one at the end. -/
theorem ask_first {error : σ → Option ε} {fault : Placeholder → Option ε}
    (h : ∀ p state, error (replace p state).2 = (error state).or (fault p)) (state : σ) (ps : List Placeholder) :
    error (ask replace state ps).2 = (error state).or (ps.findSome? fault) := by
  induction ps generalizing state with
  | nil => simp [ask_nil]
  | cons p ps ih =>
    rw [ask_cons, ih, h, List.findSome?_cons, Option.or_assoc]
    cases fault p <;> rfl

theorem substitute_first {error : σ → Option ε} {fault : Placeholder → Option ε}
    (h : ∀ p state, error (replace p state).2 = (error state).or (fault p)) (state : σ) (sql : List Char) :
    error (substitute replace state sql).2 = (error state).or ((placeholders sql).findSome? fault) := by
  rw [substitute, fill_eq, ← occurrences_eq]
  exact ask_first replace h state (placeholders sql)

end Placeholder

/-! ## Values without a literal -/

namespace Number

open Float.Model Float.Model.UnpackedFloat

theorem isNaN_or_isInf_iff (x : Float) : x.isNaN ∨ x.isInf ↔ x.toBits.toNat / 2 ^ 52 % 2048 = 2047 := by
  have hmax : @unpackExponent .binary64 x.toBits.toBitVec = -1#_ ↔ x.toBits.toNat / 2 ^ 52 % 2048 = 2047 := by
    rw [← toNat_unpackExponent, ← BitVec.toNat_inj]
    rfl
  have hunpack : x.toModel.unpack = UnpackedFloat.unpack .binary64 x.toBits.toBitVec := rfl
  change x.toModel.unpack.isNaN = true ∨ x.toModel.unpack.isInf = true ↔ _
  rw [← hmax, hunpack, UnpackedFloat.unpack]
  dsimp only
  split
  · split <;> simp_all [UnpackedFloat.isNaN, UnpackedFloat.isInf]
  · split
    · split <;> simp_all [UnpackedFloat.isNaN, UnpackedFloat.isInf]
    · simp_all [UnpackedFloat.isNaN, UnpackedFloat.isInf]

/-- All floats are numbers but NaN and the infinite ones. -/
theorem isFinite_eq_false_iff (x : Float) : isFinite x = false ↔ x.isNaN ∨ x.isInf := by
  rw [isNaN_or_isInf_iff, isFinite, partsOf, Parts.ofBits]
  dsimp only [Nat.pow_eq]
  by_cases h : x.toBits.toNat / 2 ^ 52 % 2048 = 2047
  · rw [if_pos (by simpa using h)]
    split
    · next hfinite => split at hfinite <;> cases hfinite
    · simpa using h
  · rw [if_neg (by simpa using h)]
    split
    · simpa using h
    · next hfinite => split at hfinite <;> exact absurd rfl (hfinite _ _ _ _)

end Number

/-- A float that is NaN or infinite. -/
def BoundValue.NonFinite (v : BoundValue) : Prop :=
  ∃ x : Float, v = .float x ∧ (x.isNaN ∨ x.isInf)

theorem BoundValue.literal?_eq_none_iff {v : BoundValue} : v.literal? = none ↔ v.NonFinite := by
  cases v with
  | float x =>
    have hnumber : (float x).literal? = none ↔ Number.isFinite x = false := by simp [literal?]
    rw [hnumber, Number.isFinite_eq_false_iff]
    exact ⟨fun h => ⟨x, rfl, h⟩, fun ⟨y, hy, h⟩ => by cases hy; exact h⟩
  | bool b => cases b <;> simp [literal?, NonFinite]
  | null | int n | text s => simp [literal?, NonFinite]

/-! ## The value of a placeholder -/

/-- The value that binds give to a placeholder: a list to its `?` in their order, and a map to its names, with a colon
before them or without. -/
inductive Binds.Gives : Binds → Placeholder → BoundValue → Prop where
  | positional {values : List BoundValue} {i : Nat} {v : BoundValue} (h : values[i]? = some v) :
    Gives (.positional values) (.positional i) v
  | named {values : List (String × BoundValue)} {name : List Char} {v : BoundValue}
    (h : values.lookup (String.ofList name) = some v) : Gives (.named values) (.named name) v
  | colon {values : List (String × BoundValue)} {name : List Char} {v : BoundValue}
    (hname : values.lookup (String.ofList name) = none) (h : values.lookup (":" ++ String.ofList name) = some v) :
    Gives (.named values) (.named name) v

namespace Statement

open Placeholder

theorem valueFor_eq_some_iff {binds : Binds} {p : Placeholder} {v : BoundValue} :
    valueFor binds p = some v ↔ binds.Gives p v := by
  constructor
  · intro h
    match binds, p with
    | .positional values, .positional i => exact .positional h
    | .named values, .named name =>
      cases hname : values.lookup (String.ofList name) with
      | some w =>
        have hw : some w = some v := by simpa [valueFor, Binds.lookup?, hname] using h
        exact .named (hname.trans hw)
      | none => exact .colon hname (by simpa [valueFor, Binds.lookup?, hname] using h)
  · rintro (h | h | ⟨hname, h⟩)
    · exact h
    · simp [valueFor, Binds.lookup?, h]
    · simp [valueFor, Binds.lookup?, hname, h]

/-! ## Rendering -/

/-- What rendering finds wrong with the value of a placeholder. -/
def renderFault (sql : String) (binds : Binds) (p : Placeholder) : Option BindError :=
  match valueFor binds p with
  | none => none
  | some v => if v.literal?.isNone then some (.noLiteral sql v) else none

theorem renderFault_eq_some_iff {sql : String} {binds : Binds} {p : Placeholder} {e : BindError} :
    renderFault sql binds p = some e ↔ ∃ v, binds.Gives p v ∧ v.NonFinite ∧ e = .noLiteral sql v := by
  simp only [← valueFor_eq_some_iff, ← BoundValue.literal?_eq_none_iff, renderFault]
  cases valueFor binds p with
  | none => simp
  | some v => cases hliteral : v.literal? <;> simp [hliteral, eq_comm (a := e)]

/-- A value that has no literal counts if there was none before. -/
theorem literalFor_first (sql : String) (binds : Binds) (p : Placeholder) (invalid : Option BoundValue) :
    (literalFor (valueFor binds p) invalid).2.map (BindError.noLiteral sql) =
      (invalid.map (BindError.noLiteral sql)).or (renderFault sql binds p) := by
  rw [renderFault]
  cases valueFor binds p with
  | none => simp [literalFor]
  | some v =>
    dsimp only [literalFor]
    cases v.literal? with
    | none => cases invalid <;> rfl
    | some text => cases invalid <;> rfl

theorem errorOf_render {s : Statement} {binds : Binds} (hbinds : s.binds = some binds) :
    errorOf s.render = (placeholders s.sql.toList).findSome? (renderFault s.sql binds) := by
  have hfirst := substitute_first _ (literalFor_first s.sql binds) none s.sql.toList
  rw [Option.map_none, Option.none_or] at hfirst
  rw [← hfirst]
  simp only [render, hbinds]
  split
  · next heq => rw [heq]; rfl
  · next heq => rw [heq]; rfl

theorem failsAtFirst_render (s : Statement) :
    FailsAtFirst s.render (placeholders s.sql.toList) fun p e =>
      ∃ binds v, s.binds = some binds ∧ binds.Gives p v ∧ v.NonFinite ∧ e = .noLiteral s.sql v := by
  cases hbinds : s.binds with
  | none =>
    rw [render, hbinds]
    exact .of_ok (by simp)
  | some binds => exact .of_findSome? (errorOf_render hbinds) (by simp [renderFault_eq_some_iff])

/-! ## Preparing -/

/-- What preparing finds wrong with a placeholder. -/
def prepareFault (sql : String) (values : List (String × BoundValue)) : Placeholder → Option BindError
  | .positional _ => none
  | .named name =>
    if (Binds.lookup? values (String.ofList name)).isNone then some (.missing sql (String.ofList name)) else none

theorem prepareFault_eq_some_iff {sql : String} {values : List (String × BoundValue)} {p : Placeholder}
    {e : BindError} : prepareFault sql values p = some e ↔
      ∃ name, p = .named name ∧ Unbound values name ∧ e = .missing sql (String.ofList name) := by
  simp only [← lookup?_eq_none_iff]
  cases p with
  | positional i => simp [prepareFault]
  | named name => cases hvalue : Binds.lookup? values (String.ofList name) <;> simp [prepareFault, hvalue, eq_comm]

/-- The error for the first name without a value. -/
def missingError (sql : String) (c : Collected) : Option BindError :=
  c.missing.map fun name => .missing sql (String.ofList name)

/-- A name without a value counts if there was none before. -/
theorem collect_first (sql : String) (values : List (String × BoundValue)) (p : Placeholder) (c : Collected) :
    missingError sql (collect values p c).2 = (missingError sql c).or (prepareFault sql values p) := by
  simp only [missingError]
  cases p with
  | positional i => simp [collect, prepareFault]
  | named name =>
    rw [collect, prepareFault]
    cases Binds.lookup? values (String.ofList name) <;> cases c.missing <;> simp

theorem errorOf_prepare {s : Statement} {values : List (String × BoundValue)}
    (hbinds : s.binds = some (.named values)) :
    errorOf s.prepare = (placeholders s.sql.toList).findSome? (prepareFault s.sql values) := by
  have hfirst := substitute_first (collect values) (collect_first s.sql values) {} s.sql.toList
  have hnone : missingError s.sql {} = none := rfl
  rw [hnone, Option.none_or, missingError] at hfirst
  rw [← hfirst]
  simp only [prepare, hbinds]
  split
  · next heq => rw [heq]; rfl
  · next heq => rw [heq]; rfl

theorem failsAtFirst_prepare (s : Statement) :
    FailsAtFirst s.prepare (placeholders s.sql.toList) fun p e =>
      ∃ values name, s.binds = some (.named values) ∧ p = .named name ∧ Unbound values name ∧
        e = .missing s.sql (String.ofList name) := by
  cases hbinds : s.binds with
  | none =>
    rw [prepare, hbinds]
    exact .of_ok (by simp)
  | some binds =>
    cases binds with
    | positional values =>
      rw [prepare, hbinds]
      exact .of_ok (by simp)
    | named values => exact .of_findSome? (errorOf_prepare hbinds) (by simp [prepareFault_eq_some_iff])

end Statement

/-! ## Undoing a script -/

theorem Script.errorOf_downText (t : Script) :
    errorOf t.downText = t.down.findSome? fun st => errorOf st.render := by
  have hlines : t.downText = "\n".intercalate <$> t.down.mapM fun st => Statement.terminated <$> st.render := by
    rw [map_eq_pure_bind]
    rfl
  rw [hlines, errorOf_map, errorOf_mapM]
  simp only [errorOf_map]

/-- A statement is rendered unless a placeholder outside quotes has a value that is NaN or infinite, and prepared unless
one of its names has no value among the named ones. The text that undoes a script is there unless one of its statements
cannot be rendered. The error is that of the first such value, name or statement. -/
theorem bind_errors_when_due (s : Statement) (t : Script) :
    (FailsAtFirst s.render (Placeholder.placeholders s.sql.toList) fun p e =>
      ∃ binds v, s.binds = some binds ∧ binds.Gives p v ∧ v.NonFinite ∧ e = .noLiteral s.sql v) ∧
    (FailsAtFirst s.prepare (Placeholder.placeholders s.sql.toList) fun p e =>
      ∃ values name, s.binds = some (.named values) ∧ p = .named name ∧ Statement.Unbound values name ∧
        e = .missing s.sql (String.ofList name)) ∧
    FailsAtFirst t.downText t.down fun st e => st.render = .error e :=
  ⟨s.failsAtFirst_render, s.failsAtFirst_prepare, .of_findSome? t.errorOf_downText fun _ _ => errorOf_eq_some_iff⟩

end SchemaMigration
