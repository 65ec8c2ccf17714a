import SchemaMigration.Calendar.Timestamp

/-!
# Names of migrations

The name of a new migration starts with the year, the day of the year and the second of the day in UTC, so that later
migrations sort later; the name that the user gave follows. A name that is taken gets a number behind it, from two on.
`choose` asks its surroundings which names are taken, one after the other.
-/

namespace SchemaMigration.Naming

/-- A character that stands for itself in a name. -/
def isNameChar (c : Char) : Bool :=
  Text.isLetter c || Text.isDigit c || c == '-'

/-- A user's name with every other character replaced by an underscore. -/
def sanitize (name : List Char) : List Char :=
  name.map fun c => if isNameChar c then c else '_'

/-- The year, the day of the year and the second of the day. -/
def stamp (now : Instant) : List Char :=
  Calendar.yearText (Calendar.yearOf now.day) ++ '-' :: Text.padded 3 (Calendar.dayOfYear now.day + 1) ++
    '-' :: Text.padded 5 now.secondOfDay

/-- The name before any number is put behind it. -/
def baseName (now : Instant) (name : Option String) : List Char :=
  match name with
  | none => stamp now
  | some name => if name == "" then stamp now else stamp now ++ '_' :: sanitize name.toList

/-- A name with a number behind it. -/
def numbered (base : List Char) (k : Nat) : String :=
  String.ofList (base ++ '-' :: Text.natText k)

/-- The greatest number that is put behind a name. -/
def greatestNumber : Nat := 2147483647

/-- The first name among `base-k`, `base-(k+1)` and so on that is not taken; `fuel` of them are asked for. -/
def firstFree {m : Type → Type} [Monad m] (isTaken : String → m Bool) (base : List Char) : Nat → Nat → m String
  | 0, k => pure (numbered base k)
  | fuel + 1, k => do
    if ← isTaken (numbered base k) then firstFree isTaken base fuel (k + 1) else pure (numbered base k)

/-- The name of a migration that is created now: the base name, or the first free one of those with a number. -/
def choose {m : Type → Type} [Monad m] (isTaken : String → m Bool) (now : Instant) (name : Option String) :
    m String := do
  let base := baseName now name
  if ← isTaken (String.ofList base) then firstFree isTaken base (greatestNumber - 1) 2
  else pure (String.ofList base)

end SchemaMigration.Naming
