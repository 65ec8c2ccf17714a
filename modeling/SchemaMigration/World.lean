import SchemaMigration.Host
import SchemaMigration.Store.Address

/-!
# Closed worlds

A world holds all that a host can be asked about: a file tree, the open database, a clock that stands still, the lines
that a user has yet to write and the text that was written for the user. A program is run on a world without anything
outside.
-/

namespace SchemaMigration

/-- An open database. -/
inductive Connection where
  | none
  /-- In memory, gone with the connection. -/
  | memory (store : Store)
  /-- In the file at a place. -/
  | file (place : Place)

/-- A world. -/
structure World where
  files : FileTree := {}
  connection : Connection := .none
  now : Instant
  /-- What the user writes. -/
  input : String := ""
  /-- What was written for the user, the last text first. -/
  printed : List String := []

namespace World

/-- The text that was written for the user. -/
def output (w : World) : String :=
  String.join w.printed.reverse

/-- The open database; a file that is none of a database holds an empty one if it is empty. -/
def store (w : World) : Except DatabaseError Store :=
  match w.connection with
  | .none => .error (.reported 14 "unable to open database file")
  | .memory store => .ok store
  | .file place =>
    match w.files.node? place with
    | some (.database store) => .ok store
    | some (.text "") | some (.octets []) => .ok {}
    | some _ => .error (.reported 26 "file is not a database")
    | none => .error (.reported 14 "unable to open database file")

/-- The world with another content of the open database. -/
def withStore (w : World) (store : Store) : World :=
  match w.connection with
  | .none => w
  | .memory _ => { w with connection := .memory store }
  | .file place => { w with files := w.files.put place (.database store) }

/-! ## Connections -/

/-- The error of a file that cannot be opened. -/
def cannotOpen : DatabaseError := .reported 14 "unable to open database file"

/-- The world with a file as its database, created if need be and allowed. -/
def openFile (w : World) (path : String) (mayCreate : Bool) : Except DatabaseError World :=
  match w.files.resolve path with
  | .error _ => .error cannotOpen
  | .ok place =>
    match w.files.node? place with
    | some .directory => .error cannotOpen
    | some _ => .ok { w with connection := .file place }
    | none =>
      if mayCreate then .ok { w with files := w.files.put place (.database {}), connection := .file place }
      else .error cannotOpen

/-- The world with the database behind an address open. -/
def connect (w : World) (address : String) : Except DatabaseError World := do
  match ← Store.Address.read address with
  | .memory => return { w with connection := .memory {} }
  | .file path mayCreate => w.openFile path mayCreate

/-! ## Replies -/

/-- The first line of a text, with its end, and what follows it. -/
def firstLine : List Char → List Char × List Char
  | [] => ([], [])
  | c :: r => if c == '\n' then ([c], r) else ((c :: (firstLine r).1), (firstLine r).2)

/-- The reply to a request, and the world after it. -/
def answer : (r : Host.Request) → World → Host.Reply r × World
  | .now, w => (w.now, w)
  | .print text, w => ((), { w with printed := text :: w.printed })
  | .readLine, w =>
    let (line, rest) := firstLine w.input.toList
    (String.ofList line, { w with input := String.ofList rest })
  | .kind path, w => (w.files.kind? path, w)
  | .entries path, w => (w.files.entries path, w)
  | .read path, w => (w.files.read path, w)
  | .createDirectories path, w =>
    let (reply, files) := w.files.createDirectories path
    (reply, { w with files })
  | .create path content, w =>
    match w.files.create path (.text content) with
    | .ok files => (Except.ok (), { w with files })
    | .error e => (Except.error e, w)
  | .connect url, w =>
    match w.connect url with
    | .ok w => (Except.ok (), w)
    | .error e => (Except.error e, w)
  | .execute sql values, w =>
    match w.store with
    | .error e => (Except.error e, w)
    | .ok store =>
      let (reply, store) := store.execute w.now sql values
      (reply, w.withStore store)

/-- A program run on a world. -/
def run {α : Type} (w : World) (p : Program Host α) : α × World :=
  p.run (I := Host) answer w

end World

end SchemaMigration
