import SchemaMigration.Script.Statement
import SchemaMigration.Yaml.Value

/-!
# Script documents

A migration script as a YAML document: a mapping with lists of statements under `up` and `down`, each statement a
mapping with its text under `run` and, if it has any, its values under `binds`.
-/

namespace SchemaMigration

/-- Why a document is no script. -/
inductive ScriptError where
  /-- It is no mapping with `up` or `down`. -/
  | notAScript
  /-- It cannot be read, or its parts have the wrong form. -/
  | malformed
  deriving Repr, DecidableEq

namespace Script

open Yaml (Value)

/-- The value bound by a scalar. An integer that 64 bits with a sign do not hold becomes a float. -/
def boundValue? : Value → Option BoundValue
  | .null => some .null
  | .bool b => some (.bool b)
  | .int n =>
    some (if n ≤ Int64.maxValue.toInt then .int (Int64.ofInt n) else .float (Number.ofQuotient false n.toNat 1))
  | .float x => some (.float x)
  | .text s => some (.text s)
  | .sequence _ | .mapping _ | .tagged .. => none

/-- A value with its name. -/
def namedValue? (entry : Value × Value) : Option (String × BoundValue) :=
  match entry.1 with
  | .text name => (boundValue? entry.2).map (name, ·)
  | _ => none

/-- The values of a statement: none, a list or a mapping by name. -/
def binds? : Value → Option (Option Binds)
  | .null => some none
  | .sequence items => (items.mapM boundValue?).map fun values => some (.positional values)
  | .mapping entries => (entries.mapM namedValue?).map fun values => some (.named values)
  | _ => none

/-- A field with its name, whatever local tags the name has. -/
def namedField? (entry : Value × Value) : Option (String × Value) :=
  match entry.1.untagged with
  | .text name => some (name, entry.2)
  | _ => none

/-- The values of the fields `names` of a mapping, in that order: absent ones are `none`. Fails if a name is no text, or
if a field stands twice. -/
def fields? (names : List String) (entries : List (Value × Value)) : Option (List (Option Value)) := do
  let named ← entries.mapM namedField?
  names.mapM fun name =>
    match named.filter fun field => field.1 == name with
    | [] => some none
    | [field] => some (some field.2)
    | _ => none

/-- A statement of a list. -/
def statement? (v : Value) : Option Statement := do
  let .mapping entries := v.untagged | none
  let [run, binds] ← fields? ["run", "binds"] entries | none
  let .text sql := (← run).untagged | none
  let binds ← match binds with
    | none => some none
    | some v => binds? v
  return { sql, binds }

/-- A list of statements; null and nothing stand for an empty one. -/
def statements? : Option Value → Option (List Statement)
  | none => some []
  | some v =>
    match v.untagged with
    | .null => some []
    | .sequence items => items.mapM statement?
    | _ => none

/-- The key is the given text. -/
def isKey (name : String) : Value → Bool
  | .text s => s == name
  | _ => false

/-- The script that a value describes. -/
def ofValue (v : Value) : Except ScriptError Script :=
  match v.untagged with
  | .mapping entries =>
    if entries.any fun e => isKey "up" e.1 || isKey "down" e.1 then
      let script : Option Script := do
        let [up, down] ← fields? ["up", "down"] entries | none
        return { up := ← statements? up, down := ← statements? down }
      script.elim (.error .malformed) .ok
    else .error .notAScript
  | _ => .error .notAScript

/-- The script that a document holds. -/
def ofDocument (text : String) : Except ScriptError Script :=
  match Yaml.read? text with
  | some v => ofValue v
  | none => .error .malformed

end Script

end SchemaMigration
