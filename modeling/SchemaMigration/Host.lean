import SchemaMigration.Files.Tree
import SchemaMigration.Program

/-!
# The host

What the outermost layer of a run asks of the machine it runs on: files, a database behind an address, the clock, and
the lines that a user writes and reads.
-/

namespace SchemaMigration

namespace Host

/-- What a host can be asked. -/
inductive Request where
  | now
  /-- Text for the user. -/
  | print (text : String)
  /-- A line from the user, empty where there is none. -/
  | readLine
  | kind (path : String)
  | entries (path : String)
  | read (path : String)
  | createDirectories (path : String)
  /-- A new file; one that is there stays as it is. -/
  | create (path content : String)
  /-- Opens the database behind an address. -/
  | connect (url : String)
  /-- Runs statements on the open database, with values for their placeholders unless they bind none. -/
  | execute (sql : String) (values : Option (List BoundValue))

/-- The type of the reply to each request. -/
def Reply : Request → Type
  | .now => Instant
  | .print _ => Unit
  | .readLine => String
  | .kind _ => Option FileKind
  | .entries _ => Except FileError (List (String × FileKind))
  | .read _ => Except FileError String
  | .createDirectories _ => Except FileError Unit
  | .create .. => Except FileError Unit
  | .connect _ => Except DatabaseError Unit
  | .execute .. => Except DatabaseError Store.Outcome

end Host

/-- What a host can be asked, and its replies. -/
def Host : Interface := ⟨Host.Request, Host.Reply⟩

namespace Host

def now : Program Host Instant := Program.request (I := Host) .now
def print (text : String) : Program Host Unit := Program.request (I := Host) (.print text)
def readLine : Program Host String := Program.request (I := Host) .readLine
def kind (path : String) : Program Host (Option FileKind) := Program.request (I := Host) (.kind path)

def entries (path : String) : Program Host (Except FileError (List (String × FileKind))) :=
  Program.request (I := Host) (.entries path)

def read (path : String) : Program Host (Except FileError String) := Program.request (I := Host) (.read path)

def createDirectories (path : String) : Program Host (Except FileError Unit) :=
  Program.request (I := Host) (.createDirectories path)

def create (path content : String) : Program Host (Except FileError Unit) :=
  Program.request (I := Host) (.create path content)

def connect (url : String) : Program Host (Except DatabaseError Unit) :=
  Program.request (I := Host) (.connect url)

def execute (sql : String) (values : Option (List BoundValue)) : Program Host (Except DatabaseError Store.Outcome) :=
  Program.request (I := Host) (.execute sql values)

end Host

end SchemaMigration
