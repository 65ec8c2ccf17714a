import SchemaMigration.Schema.Table

/-!
# Changes

A change is one difference between a declared and an observed schema: something declared that the server lacks,
something on the server that is not declared, or something that both have with different definitions. Inverting a
change exchanges the two sides.
-/

namespace SchemaMigration

/-- One difference between a declared and an observed schema. -/
inductive Change (α : Type) where
  /-- Declared, but not on the server. -/
  | added (declared : α)
  /-- On the server, but not declared. -/
  | removed (observed : α)
  /-- On both sides, with different definitions. -/
  | altered (declared observed : α)
  deriving Repr, DecidableEq

namespace Change

variable {α : Type}

/-- The change in the other direction. -/
def invert : Change α → Change α
  | added x => removed x
  | removed x => added x
  | altered declared observed => altered observed declared

/-- The declared side. -/
def declared? : Change α → Option α
  | added x => some x
  | removed _ => none
  | altered x _ => some x

/-- The observed side. -/
def observed? : Change α → Option α
  | added _ => none
  | removed x => some x
  | altered _ x => some x

@[simp]
theorem invert_invert (c : Change α) : c.invert.invert = c := by
  cases c <;> rfl

@[simp]
theorem declared?_invert (c : Change α) : c.invert.declared? = c.observed? := by
  cases c <;> rfl

@[simp]
theorem observed?_invert (c : Change α) : c.invert.observed? = c.declared? := by
  cases c <;> rfl

end Change

/-- The differences inside a table that both sides have. -/
structure TableChanges where
  declared : Table
  observed : Table
  engineChanged : Bool := false
  charsetChanged : Bool := false
  collationChanged : Bool := false
  columns : List (Change Column) := []
  indexes : List (Change Index) := []
  relations : List (Change ForeignKey) := []
  deriving Repr, DecidableEq

namespace TableChanges

/-- Nothing differs. -/
def isEmpty (c : TableChanges) : Bool :=
  !c.engineChanged && !c.charsetChanged && !c.collationChanged && c.columns.isEmpty && c.indexes.isEmpty &&
    c.relations.isEmpty

/-- The changes in the other direction. -/
def invert (c : TableChanges) : TableChanges :=
  { c with
    declared := c.observed
    observed := c.declared
    columns := c.columns.map Change.invert
    indexes := c.indexes.map Change.invert
    relations := c.relations.map Change.invert }

end TableChanges

/-- The difference in one table. -/
inductive TableDiff where
  /-- Declared, but not on the server. -/
  | added (declared : Table)
  /-- On the server, but not declared. -/
  | removed (observed : Table)
  /-- On both sides. -/
  | altered (changes : TableChanges)
  deriving Repr, DecidableEq

namespace TableDiff

/-- The name of the table; the declared one if the two sides differ. -/
def name : TableDiff → String
  | added t | removed t => t.name
  | altered changes => changes.declared.name

/-- The difference in the other direction. -/
def invert : TableDiff → TableDiff
  | added t => removed t
  | removed t => added t
  | altered changes => altered changes.invert

end TableDiff

end SchemaMigration
