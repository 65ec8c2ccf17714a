import SchemaMigration.Error
import SchemaMigration.Text.Ascii
import SchemaMigration.Text.Debug
import SchemaMigration.Text.Utf8

/-!
# Addresses of databases

The address of a database names its kind in front of a colon. Behind it stand a path and, after a question mark,
options. `Address.read` tells which store an address means: one in memory, or one in a file.
-/

namespace SchemaMigration.Store

/-- Where the store behind an address is. -/
inductive Address where
  /-- In memory, and gone with the connection. -/
  | memory
  /-- In the file at a path, which may be one that is made for it. -/
  | file (path : String) (mayCreate : Bool)
  deriving Repr, DecidableEq

namespace Address

/-- The octets of a text with each percent sign and the two hexadecimal digits behind it resolved. -/
def unescaped : List UInt8 → List UInt8
  | p :: a :: b :: r =>
    match p == 37, Text.hexNumber? ([a, b].map fun d => Char.ofNat d.toNat) with
    | true, some n => UInt8.ofNat n :: unescaped r
    | _, _ => p :: unescaped (a :: b :: r)
  | octets => octets

/-- A name and what follows the equals sign. -/
def readOption (text : String) : String × String :=
  let name := text.toList.takeWhile (· != '=')
  (String.ofList name, String.ofList (text.toList.drop (name.length + 1)))

/-- What an address means once its options are read. An option that cannot be understood is an error. -/
def readOptions (address : Address) : List (String × String) → Except DatabaseError Address
  | [] => .ok address
  | (name, value) :: rest =>
    if name != "mode" then
      .error (.configuration ("unknown query parameter \x60" ++ name ++ "\x60 while parsing connection URL"))
    else
      match value, address with
      | "ro", _ | "rw", _ => address.readOptions rest
      | "rwc", file path _ => (file path true).readOptions rest
      | "rwc", memory => memory.readOptions rest
      | "memory", _ => memory.readOptions rest
      | _, _ => .error (.configuration ("unknown value " ++ Text.debug value ++ " for \x60mode\x60"))

/-- Reads what follows the colon. Two slashes at its front count for nothing. -/
def readTail (tail : List Char) : Except DatabaseError Address :=
  let tail := if ['/', '/'].isPrefixOf tail then tail.drop 2 else tail
  let path := tail.takeWhile (· != '?')
  let options := ((String.ofList (tail.drop (path.length + 1))).splitOn "&").filter (· != "")
  let path := Text.decodeUtf8Lenient (unescaped (String.ofList path).toUTF8.toList)
  let address := if path == "" || path == ":memory:" then memory else file path false
  address.readOptions (options.map readOption)

/-- Reads an address. Only a store is at hand: the address of a server leads nowhere. -/
def read (text : String) : Except DatabaseError Address :=
  let scheme := text.toList.takeWhile (· != ':')
  match text.toList.drop scheme.length with
  | [] => .error (.configuration "relative URL without a base")
  | _ :: tail =>
    if Text.lowerText (String.ofList scheme) == "sqlite" then readTail tail else .error .unreachable

end Address

end SchemaMigration.Store
