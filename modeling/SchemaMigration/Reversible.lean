/-!
# Reversible lists of statements

What a migration does and what undoes it: two lists, `up` and `down`, each run from its first element to its last.
-/

namespace SchemaMigration

/-- Two lists of statements, one for either direction. -/
structure Reversible (α : Type) where
  up : List α := []
  down : List α := []
  deriving Repr, DecidableEq

/-- Whether a text holds another one. -/
def containsText (pattern : List Char) : List Char → Bool
  | [] => pattern.isEmpty
  | c :: r => pattern.isPrefixOf (c :: r) || containsText pattern r

/-- Whether the word `DROP` stands anywhere in a text. -/
def saysDrop (sql : String) : Bool :=
  containsText "DROP".toList sql.toList

/-- The elements whose text says `DROP`, then all others, either group in its order. -/
def dropsToFront {α : Type} (text : α → String) (xs : List α) : List α :=
  let (drops, others) := xs.partition fun x => saysDrop (text x)
  drops ++ others

theorem dropsToFront_eq {α : Type} (text : α → String) (xs : List α) :
    dropsToFront text xs = xs.filter (fun x => saysDrop (text x)) ++ xs.filter (fun x => !saysDrop (text x)) := by
  simp [dropsToFront, List.partition_eq_filter_filter, Function.comp_def]

namespace Reversible

variable {α β : Type}

/-- One statement in either direction. -/
def pair (up down : α) : Reversible α :=
  { up := [up], down := [down] }

def isEmpty (r : Reversible α) : Bool :=
  r.up.isEmpty && r.down.isEmpty

/-- The second after the first, in both directions. -/
def append (r s : Reversible α) : Reversible α :=
  { up := r.up ++ s.up, down := r.down ++ s.down }

instance : Append (Reversible α) := ⟨append⟩

@[simp]
theorem up_append (r s : Reversible α) : (r ++ s).up = r.up ++ s.up := rfl

@[simp]
theorem down_append (r s : Reversible α) : (r ++ s).down = r.down ++ s.down := rfl

/-- All of them, one after the other. -/
def concat (rs : List (Reversible α)) : Reversible α :=
  rs.foldl append {}

theorem foldl_append_eq (rs : List (Reversible α)) (r : Reversible α) :
    rs.foldl append r = { up := r.up ++ rs.flatMap up, down := r.down ++ rs.flatMap down } := by
  induction rs generalizing r with
  | nil => simp
  | cons s rs ih => simp [ih, append]

theorem up_concat (rs : List (Reversible α)) : (concat rs).up = rs.flatMap up := by
  simp [concat, foldl_append_eq]

theorem down_concat (rs : List (Reversible α)) : (concat rs).down = rs.flatMap down := by
  simp [concat, foldl_append_eq]

def map (f : α → β) (r : Reversible α) : Reversible β :=
  { up := r.up.map f, down := r.down.map f }

/-- Statements whose text says `DROP` before all others, in both directions. -/
def dropsFirst (text : α → String) (r : Reversible α) : Reversible α :=
  { up := dropsToFront text r.up, down := dropsToFront text r.down }

end Reversible

end SchemaMigration
