import SchemaMigration.Json.Basic

/-!
# Taking JSON values apart

How the value of a type is read off a JSON value. A record is an object with its fields in any order, or an array with
its fields in the order of their declaration; a variant is a string with its name, or an object whose only member has
the name and holds the content.
-/

namespace SchemaMigration.Json

/-- The text of a string. -/
def text? : Json → Option String
  | string text => text
  | _ => none

/-- The value of a boolean. -/
def bool? : Json → Option Bool
  | bool b => some b
  | _ => none

/-- A number below 2^32, written with digits only. -/
def uint32? : Json → Option UInt32
  | number literal =>
    let ds := literal.toList
    if !ds.isEmpty && ds.all Text.isDigit && Text.decimalValue 0 ds < UInt32.size then
      some (UInt32.ofNat (Text.decimalValue 0 ds))
    else none
  | _ => none

/-- The items of an array, each read by `f`. -/
def list? {α : Type} (f : Json → Option α) : Json → Option (List α)
  | array items => items.mapM f
  | _ => none

/-- `null`, or a value read by `f`. -/
def nullable? {α : Type} (f : Json → Option α) : Json → Option (Option α)
  | null => some none
  | v => (f v).map some

/-- An array of exactly two items. -/
def pair? {α : Type} (f : Json → Option α) : Json → Option (α × α)
  | array [a, b] => do return (← f a, ← f b)
  | _ => none

/-- A variant: its name and its content, which is missing for a string. -/
def variant? : Json → Option (String × Option Json)
  | string (some name) => some (name, none)
  | object [(some name, content)] => some (name, some content)
  | _ => none

/-- The content of a variant without data: none, or `null`. -/
def unitContent? : Option Json → Option Unit
  | none | some null => some ()
  | _ => none

/-- The values of the members with a given name. -/
def membersNamed (name : String) (members : List (Option String × Json)) : List Json :=
  members.filterMap fun (n, v) => if n == some name then some v else none

/-- The fields of a record by name, in the order of `names`: absent ones are `none`. A field that stands twice, a
member whose name is no text and a surplus item of an array make the record ill-formed; members with other names are
ignored. -/
def fields? (names : List String) : Json → Option (List (Option Json))
  | object members =>
    if members.all (fun (n, _) => n.isSome) then
      names.mapM fun name =>
        match membersNamed name members with
        | [] => some none
        | [v] => some (some v)
        | _ => none
    else none
  | array items =>
    if items.length ≤ names.length then
      some (items.map some ++ List.replicate (names.length - items.length) none)
    else none
  | _ => none

/-- A field that must be there. -/
def required? {α : Type} (f : Json → Option α) (field : Option Json) : Option α :=
  field.bind f

/-- A field with a value for when it is absent. -/
def optional? {α : Type} (f : Json → Option α) (absent : α) : Option Json → Option α
  | none => some absent
  | some v => f v

end SchemaMigration.Json
