import SchemaMigration.Error
import SchemaMigration.Text.Ascii

/-!
# Dialects of the record table

Migrations are plain SQL for their server; only the table of records is the library's own. A dialect holds the
statements that keep it. Values stand behind `?`, in the order that each function names.
-/

namespace SchemaMigration

/-- The databases that can hold records. -/
inductive Dialect where
  | mysql
  /-- Like MySQL, without row aliases. -/
  | mariadb
  | sqlite
  deriving Repr, DecidableEq

namespace Dialect

def name : Dialect → String
  | mysql => "mysql"
  | mariadb => "mariadb"
  | sqlite => "sqlite"

/-- The character around a name. -/
def quoteChar : Dialect → Char
  | mysql | mariadb => Text.backtick
  | sqlite => '"'

/-- A name as an identifier. -/
def quote (d : Dialect) (name : String) : String :=
  Text.encloseName d.quoteChar name

/-- Gives a row if the table is there. Values: the table. -/
def existsSql : Dialect → String
  | mysql | mariadb =>
    "SELECT \x60table_name\x60 FROM \x60information_schema\x60.\x60tables\x60 " ++
      "WHERE \x60table_schema\x60 = DATABASE() AND \x60table_name\x60 = ?"
  | sqlite => "SELECT name FROM sqlite_master WHERE type = 'table' AND name = ?"

/-- Creates the table of records unless it is there. -/
def createSql (d : Dialect) (table : String) : String :=
  match d with
  | mysql | mariadb =>
    "CREATE TABLE IF NOT EXISTS " ++ d.quote table ++ " (\n" ++
      "  \x60name\x60 varchar(255) NOT NULL DEFAULT '',\n" ++
      "  \x60created_at\x60 datetime NOT NULL DEFAULT current_timestamp(),\n" ++
      "  \x60updated_at\x60 datetime DEFAULT NULL ON UPDATE current_timestamp(),\n" ++
      "  \x60down_queries\x60 text,\n" ++
      "  PRIMARY KEY (\x60name\x60)\n" ++
      ") ENGINE=InnoDB"
  | sqlite =>
    "CREATE TABLE IF NOT EXISTS " ++ d.quote table ++ " (\n" ++
      "  name TEXT NOT NULL PRIMARY KEY DEFAULT '',\n" ++
      "  created_at TEXT NOT NULL DEFAULT (datetime('now')),\n" ++
      "  updated_at TEXT DEFAULT NULL,\n" ++
      "  down_queries TEXT\n" ++
      ")"

/-- Adds a record, or renews the one of that name. Values: the name, the down text. -/
def upsertSql (d : Dialect) (table : String) : String :=
  match d with
  | mysql =>
    "INSERT INTO " ++ d.quote table ++ " (\x60name\x60, \x60down_queries\x60) VALUES (?, ?) AS \x60new\x60 " ++
      "ON DUPLICATE KEY UPDATE \x60updated_at\x60 = NOW(), \x60down_queries\x60 = \x60new\x60.\x60down_queries\x60"
  | mariadb =>
    "INSERT INTO " ++ d.quote table ++ " (\x60name\x60, \x60down_queries\x60) VALUES (?, ?) " ++
      "ON DUPLICATE KEY UPDATE \x60updated_at\x60 = NOW(), \x60down_queries\x60 = VALUES(\x60down_queries\x60)"
  | sqlite =>
    "INSERT INTO " ++ d.quote table ++ " (name, down_queries) VALUES (?, ?) " ++
      "ON CONFLICT(name) DO UPDATE SET updated_at = datetime('now'), down_queries = excluded.down_queries"

/-- Removes a record. Values: the name. -/
def deleteSql (d : Dialect) (table : String) : String :=
  "DELETE FROM " ++ d.quote table ++ " WHERE " ++ d.quote "name" ++ " = ?"

/-- All records by name: the name, both times and the down text. -/
def selectSql (d : Dialect) (table : String) : String :=
  match d with
  | mysql | mariadb =>
    "SELECT \x60name\x60, CAST(\x60created_at\x60 AS CHAR), CAST(\x60updated_at\x60 AS CHAR), " ++
      "\x60down_queries\x60 FROM " ++ d.quote table ++ " ORDER BY \x60name\x60"
  | sqlite =>
    "SELECT name, created_at, updated_at, down_queries FROM " ++ d.quote table ++ " ORDER BY name"

/-- The dialect of a connection URL: its scheme, which is all that stands before the first colon, in any case. -/
def ofUrl (url : String) : Except MigrationError Dialect :=
  let scheme := Text.lowerText (String.ofList (url.toList.takeWhile (· != ':')))
  if scheme == "mysql" then .ok mysql
  else if scheme == "mariadb" then .ok mariadb
  else if scheme == "sqlite" then .ok sqlite
  else .error (.unsupportedDatabase url)

end Dialect

end SchemaMigration
