import SchemaMigration.Number.Shortest
import SchemaMigration.Text.Quoted

/-!
# Bound values

The values that a statement binds to its placeholders, and their form as SQL literals. NaN and the infinities have no
literal.
-/

namespace SchemaMigration

/-- A value bound to a placeholder. -/
inductive BoundValue where
  | null
  | bool (value : Bool)
  | int (value : Int64)
  | float (value : Float)
  | text (value : String)
  deriving Repr

namespace BoundValue

/-- The decimal digits of an integer, with a minus sign where it is negative. -/
def intChars (n : Int) : List Char :=
  if n < 0 then '-' :: Text.natText n.natAbs else Text.natText n.natAbs

/-- The value as an SQL literal. -/
def literal? : BoundValue → Option (List Char)
  | null => some "NULL".toList
  | bool true => some "TRUE".toList
  | bool false => some "FALSE".toList
  | int n => some (intChars n.toInt)
  | float x => if Number.isFinite x then some (Number.floatChars x) else none
  | text s => some (Text.literalChars s.toList)

/-- A float that has no literal, as error messages show it. -/
def describe : BoundValue → String
  | null => "Null"
  | bool b => "Bool(" ++ toString b ++ ")"
  | int n => "Int(" ++ String.ofList (intChars n.toInt) ++ ")"
  | float x => "Float(" ++ Number.floatText x ++ ")"
  | text s => "Text(" ++ s ++ ")"

end BoundValue

/-- The values that a statement binds: to `?` in the order of the list, or to `:name` by name. -/
inductive Binds where
  | positional (values : List BoundValue)
  | named (values : List (String × BoundValue))
  deriving Repr

namespace Binds

def isEmpty : Binds → Bool
  | positional values => values.isEmpty
  | named values => values.isEmpty

/-- The value for `:name`: the one given for `name`, or else for `:name`. -/
def lookup? (values : List (String × BoundValue)) (name : String) : Option BoundValue :=
  values.lookup name <|> values.lookup (":" ++ name)

end Binds

end SchemaMigration
