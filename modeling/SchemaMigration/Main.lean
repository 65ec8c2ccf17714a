import Std.Time.DateTime.Timestamp
import SchemaMigration.Cli.Run
import SchemaMigration.Store.Address

/-!
# The program

Carries out the command line on the machine: each request to the host becomes an action on its files, its clock and its
terminal. A database file holds the text that makes the store again.
-/

namespace SchemaMigration.Machine

/-- The open database and the file it is kept in, if there is one. -/
structure Session where
  store : Store
  file : Option String

/-- An action that may be refused by the file system. -/
def attempt {α : Type} (action : IO α) : IO (Except FileError α) := do
  match ← action.toBaseIO with
  | .ok a => return .ok a
  | .error (.noFileOrDirectory ..) => return .error .notFound
  | .error (.alreadyExists ..) => return .error .exists
  | .error e => return .error (.refused (toString e))

/-- The kind of what stands at a path, if anything does. -/
def kind (path : String) : IO (Option FileKind) := do
  match ← attempt ((← IO.currentDir) / path).metadata with
  | .ok data => return some (if data.type == .dir then .directory else .file)
  | .error _ => return none

/-- What stands directly in a directory, a link as what it leads to. -/
def entries (path : String) : IO (Except FileError (List (String × FileKind))) := do
  let path := (← IO.currentDir) / path
  attempt do
    let found ← path.readDir
    let kinds ← found.toList.mapM fun entry => return (entry.fileName, ← kind entry.path.toString)
    return kinds.filterMap fun (name, kind) => kind.map fun kind => (name, kind)

/-- The text of a file. -/
def read (path : String) : IO (Except FileError String) := do
  let content ← attempt (IO.FS.readBinFile path)
  return content.bind fun octets => (Text.decodeUtf8? octets.toList).elim (.error .notText) .ok

/-- A new file. -/
def create (path content : String) : IO (Except FileError Unit) :=
  attempt do
    let handle ← IO.FS.Handle.mk path .writeNew
    handle.putStr content

/-- Opens the database behind an address. -/
def connect (address : String) : IO (Except DatabaseError Session) := do
  match Store.Address.read address with
  | .error e => return .error e
  | .ok .memory => return .ok { store := {}, file := none }
  | .ok (.file path mayCreate) =>
    let cannotOpen := DatabaseError.reported 14 "unable to open database file"
    if mayCreate && (← kind path).isNone then discard (create path "")
    match ← read path with
    | .ok text => return (Store.ofScript text).map fun store => { store, file := some path }
    | .error .notText => return .error (.reported 26 "file is not a database")
    | .error _ => return .error cannotOpen

/-- The time. -/
def now : IO Instant := do
  let t ← Std.Time.Timestamp.now
  return { seconds := t.toSecondsSinceUnixEpoch.val }

/-- Runs statements on a database and keeps what becomes of it. -/
def execute (session : Session) (sql : String) (values : Option (List BoundValue)) :
    IO (Except DatabaseError Store.Outcome × Session) := do
  let (reply, store) := session.store.execute (← now) sql values
  match session.file with
  | some path => if store.script != session.store.script then IO.FS.writeFile path store.script
  | none => pure ()
  return (reply, { session with store })

/-- The reply of the machine to a request. -/
def answer : (r : Host.Request) → StateT (Option Session) IO (Host.Reply r)
  | .now => now
  | .print text => do
    let out ← IO.getStdout
    out.putStr text
    out.flush
  | .readLine => do (← IO.getStdin).getLine
  | .kind path => kind path
  | .entries path => entries path
  | .read path => read path
  | .createDirectories path => attempt (IO.FS.createDirAll path)
  | .create path content => create path content
  | .connect address => do
    match ← connect address with
    | .ok session =>
      set (some session)
      return Except.ok ()
    | .error e => return Except.error e
  | .execute sql values => do
    match ← get with
    | none => return Except.error (.reported 14 "unable to open database file")
    | some session =>
      let (reply, session) ← execute session sql values
      set (some session)
      return reply

end SchemaMigration.Machine

open SchemaMigration in
/-- Runs the command line and ends with its exit code. -/
def main (arguments : List String) : IO UInt32 := do
  let names := Cli.mainForm.flags.filterMap (·.variableName)
  let environment ← names.filterMapM fun name => return (← IO.getEnv name).map fun value => (name, value)
  let program := Cli.run environment arguments
  let (exit, _) ← (Program.interpret (I := Host) Machine.answer program).run none
  IO.eprint exit.report
  return UInt32.ofNat exit.code
