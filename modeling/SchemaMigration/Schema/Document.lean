import SchemaMigration.Json.Decode
import SchemaMigration.Json.Reader
import SchemaMigration.Schema.Table
import SchemaMigration.Text.Utf8

/-!
# Schema documents

The JSON form of schemas and their parts, in both directions. Writing leaves out options that are not set; reading
accepts what `Json.Decode` describes and fills in absent fields.
-/

namespace SchemaMigration

open Json (ofText ofNat ofList ofMembers text? bool? uint32? list? nullable? pair? variant? unitContent? fields?
  required? optional?)

/-- A variant with data. -/
private def tagged (name : String) (content : Json) : Json :=
  .object [(some name, content)]

private def ofUInt32 (n : UInt32) : Json :=
  ofNat n.toNat

private def ofPair (p : UInt32 × UInt32) : Json :=
  .array [ofUInt32 p.1, ofUInt32 p.2]

namespace ColumnType

/-- The name of the type's variant. -/
def tag : ColumnType → String
  | integer .tiny _ => "tiny_int"
  | integer .small _ => "small_int"
  | integer .medium _ => "medium_int"
  | integer .standard _ => "int"
  | integer .big _ => "big_int"
  | decimal .. => "decimal"
  | float .single _ => "float"
  | float .double _ => "double"
  | length .bit _ => "bit"
  | length .char _ => "char"
  | length .varChar _ => "var_char"
  | length .binary _ => "binary"
  | length .varBinary _ => "var_binary"
  | text .tiny => "tiny_text"
  | text .standard => "text"
  | text .medium => "medium_text"
  | text .long => "long_text"
  | blob .tiny => "tiny_blob"
  | blob .standard => "blob"
  | blob .medium => "medium_blob"
  | blob .long => "long_blob"
  | choice .one _ => "enum"
  | choice .many _ => "set"
  | temporal .date => "date"
  | temporal .time => "time"
  | temporal .dateTime => "date_time"
  | temporal .timestamp => "timestamp"
  | temporal .year => "year"
  | json => "json"

def toJson (type : ColumnType) : Json :=
  match type with
  | integer _ n | length _ n => tagged type.tag (ofUInt32 n)
  | decimal p s => tagged type.tag (ofPair (p, s))
  | float _ none => tagged type.tag .null
  | float _ (some p) => tagged type.tag (ofPair p)
  | choice _ options => tagged type.tag (ofList ofText options)
  | text _ | blob _ | temporal _ | json => ofText type.tag

def ofJson? (v : Json) : Option ColumnType := do
  let (name, content) ← variant? v
  let number (f : UInt32 → ColumnType) : Option ColumnType := (content.bind uint32?).map f
  let unit (type : ColumnType) : Option ColumnType := (unitContent? content).map fun _ => type
  let options (kind : ChoiceType) : Option ColumnType := (content.bind (list? text?)).map (choice kind)
  let floating (size : FloatSize) : Option ColumnType :=
    (content.bind (nullable? (pair? uint32?))).map (float size)
  match name with
  | "tiny_int" => number (integer .tiny)
  | "small_int" => number (integer .small)
  | "medium_int" => number (integer .medium)
  | "int" => number (integer .standard)
  | "big_int" => number (integer .big)
  | "decimal" => (content.bind (pair? uint32?)).map fun (p, s) => decimal p s
  | "float" => floating .single
  | "double" => floating .double
  | "bit" => number (length .bit)
  | "char" => number (length .char)
  | "var_char" => number (length .varChar)
  | "binary" => number (length .binary)
  | "var_binary" => number (length .varBinary)
  | "tiny_text" => unit (text .tiny)
  | "text" => unit (text .standard)
  | "medium_text" => unit (text .medium)
  | "long_text" => unit (text .long)
  | "tiny_blob" => unit (blob .tiny)
  | "blob" => unit (blob .standard)
  | "medium_blob" => unit (blob .medium)
  | "long_blob" => unit (blob .long)
  | "enum" => options .one
  | "set" => options .many
  | "date" => unit (temporal .date)
  | "time" => unit (temporal .time)
  | "date_time" => unit (temporal .dateTime)
  | "timestamp" => unit (temporal .timestamp)
  | "year" => unit (temporal .year)
  | "json" => unit json
  | _ => none

end ColumnType

namespace DefaultValue

def toJson : DefaultValue → Json
  | none => ofText "none"
  | null => ofText "null"
  | currentTimestamp => ofText "current_timestamp"
  | literal value => tagged "literal" (ofText value)

def ofJson? (v : Json) : Option DefaultValue := do
  let (name, content) ← variant? v
  let unit (value : DefaultValue) : Option DefaultValue := (unitContent? content).map fun _ => value
  match name with
  | "none" => unit none
  | "null" => unit null
  | "current_timestamp" => unit currentTimestamp
  | "literal" => (content.bind text?).map literal
  | _ => Option.none

end DefaultValue

namespace Column

def toJson (c : Column) : Json :=
  ofMembers [("name", ofText c.name), ("type", c.type.toJson), ("nullable", Json.bool c.nullable),
    ("default", c.defaultValue.toJson), ("on_update_timestamp", Json.bool c.onUpdateTimestamp),
    ("unsigned", Json.bool c.unsigned), ("zerofill", Json.bool c.zerofill),
    ("auto_increment", Json.bool c.autoIncrement), ("binary", Json.bool c.binary), ("charset", c.charset.map ofText),
    ("collate", c.collate.map ofText), ("comment", c.comment.map ofText)]

def ofJson? (v : Json) : Option Column := do
  let [name, type, nullable, defaultValue, onUpdate, unsigned, zerofill, autoIncrement, binary, charset, collate,
      comment] ← fields? ["name", "type", "nullable", "default", "on_update_timestamp", "unsigned", "zerofill",
      "auto_increment", "binary", "charset", "collate", "comment"] v | none
  return {
    name := ← required? text? name
    type := ← required? ColumnType.ofJson? type
    nullable := ← optional? bool? true nullable
    defaultValue := ← optional? DefaultValue.ofJson? .none defaultValue
    onUpdateTimestamp := ← optional? bool? false onUpdate
    unsigned := ← optional? bool? false unsigned
    zerofill := ← optional? bool? false zerofill
    autoIncrement := ← optional? bool? false autoIncrement
    binary := ← optional? bool? false binary
    charset := ← optional? (nullable? text?) none charset
    collate := ← optional? (nullable? text?) none collate
    comment := ← optional? (nullable? text?) none comment }

end Column

namespace IndexKind

def toJson : IndexKind → Json
  | primary => ofText "primary"
  | unique => ofText "unique"
  | key => ofText "key"
  | fulltext => ofText "fulltext"
  | spatial => ofText "spatial"

def ofJson? (v : Json) : Option IndexKind := do
  let (name, content) ← variant? v
  unitContent? content
  match name with
  | "primary" => some primary
  | "unique" => some unique
  | "key" => some key
  | "fulltext" => some fulltext
  | "spatial" => some spatial
  | _ => none

end IndexKind

namespace Index

def toJson (i : Index) : Json :=
  ofMembers [("name", ofText i.name), ("kind", i.kind.toJson), ("columns", ofList ofText i.columns)]

def ofJson? (v : Json) : Option Index := do
  let [name, kind, columns] ← fields? ["name", "kind", "columns"] v | none
  return {
    name := ← optional? text? "" name
    kind := ← required? IndexKind.ofJson? kind
    columns := ← required? (list? text?) columns }

end Index

namespace ReferenceAction

def toJson : ReferenceAction → Json
  | restrict => ofText "restrict"
  | cascade => ofText "cascade"
  | setNull => ofText "set_null"
  | noAction => ofText "no_action"
  | setDefault => ofText "set_default"

def ofJson? (v : Json) : Option ReferenceAction := do
  let (name, content) ← variant? v
  unitContent? content
  match name with
  | "restrict" => some restrict
  | "cascade" => some cascade
  | "set_null" => some setNull
  | "no_action" => some noAction
  | "set_default" => some setDefault
  | _ => none

end ReferenceAction

namespace ForeignKey

def toJson (k : ForeignKey) : Json :=
  ofMembers [("name", ofText k.name), ("columns", ofList ofText k.columns),
    ("references_table", ofText k.referencesTable), ("references_columns", ofList ofText k.referencesColumns),
    ("on_delete", k.onDelete.map ReferenceAction.toJson), ("on_update", k.onUpdate.map ReferenceAction.toJson)]

def ofJson? (v : Json) : Option ForeignKey := do
  let [name, columns, table, references, onDelete, onUpdate] ← fields? ["name", "columns", "references_table",
      "references_columns", "on_delete", "on_update"] v | none
  return {
    name := ← required? text? name
    columns := ← required? (list? text?) columns
    referencesTable := ← required? text? table
    referencesColumns := ← required? (list? text?) references
    onDelete := ← optional? (nullable? ReferenceAction.ofJson?) none onDelete
    onUpdate := ← optional? (nullable? ReferenceAction.ofJson?) none onUpdate }

end ForeignKey

namespace Table

def toJson (t : Table) : Json :=
  ofMembers [("name", ofText t.name), ("columns", ofList Column.toJson t.columns),
    ("indexes", ofList Index.toJson t.indexes), ("relations", ofList ForeignKey.toJson t.relations),
    ("engine", t.engine.map ofText), ("charset", t.charset.map ofText), ("collation", t.collation.map ofText)]

def ofJson? (v : Json) : Option Table := do
  let [name, columns, indexes, relations, engine, charset, collation] ← fields? ["name", "columns", "indexes",
      "relations", "engine", "charset", "collation"] v | none
  return {
    name := ← required? text? name
    columns := ← optional? (list? Column.ofJson?) [] columns
    indexes := ← optional? (list? Index.ofJson?) [] indexes
    relations := ← optional? (list? ForeignKey.ofJson?) [] relations
    engine := ← optional? (nullable? text?) none engine
    charset := ← optional? (nullable? text?) none charset
    collation := ← optional? (nullable? text?) none collation }

end Table

namespace Defaults

def toJson (d : Defaults) : Json :=
  ofMembers [("engine", ofText d.engine), ("charset", ofText d.charset), ("collation", ofText d.collation)]

def ofJson? (v : Json) : Option Defaults := do
  let [engine, charset, collation] ← fields? ["engine", "charset", "collation"] v | none
  return {
    engine := ← required? text? engine
    charset := ← required? text? charset
    collation := ← required? text? collation }

end Defaults

namespace Schema

def toJson (s : Schema) : Json :=
  ofMembers [("tables", ofList Table.toJson s.tables), ("defaults", s.defaults.toJson)]

def ofJson? (v : Json) : Option Schema := do
  let [tables, defaults] ← fields? ["tables", "defaults"] v | none
  return {
    tables := ← optional? (list? Table.ofJson?) [] tables
    defaults := ← optional? Defaults.ofJson? {} defaults }

/-- A schema as a document. -/
def document (s : Schema) : String :=
  String.ofList s.toJson.render

/-- The schema that a document holds. -/
def ofDocument? (text : String) : Option Schema :=
  (Json.parse? text).bind ofJson?

/-- The schema that a file of octets holds. -/
def ofBytes? (bytes : List UInt8) : Option Schema :=
  (Text.decodeUtf8? bytes).bind ofDocument?

end Schema

end SchemaMigration
