import SchemaMigration.Error
import SchemaMigration.Files.Path
import SchemaMigration.Store.Basic
import SchemaMigration.Text.Utf8

/-!
# File trees

A tree of directories and files as a list of places and what stands there. A place is the list of names that leads to it
from the root, which is always a directory; a path is resolved to a place name by name, each name in a directory that is
there. All paths are relative to the root: an absolute one leads out of the tree, where nothing stands.
-/

namespace SchemaMigration

/-- A place in a file tree. -/
abbrev Place := List String

/-- What can stand at a place. -/
inductive FileNode where
  | directory
  /-- A file that holds text. -/
  | text (content : String)
  /-- A file that holds octets. -/
  | octets (content : List UInt8)
  /-- A file that holds a database. -/
  | database (store : Store)

/-- What stands at a place, as far as a listing of its directory tells. -/
inductive FileKind where
  | directory | file
  deriving Repr, DecidableEq

def FileNode.kind : FileNode → FileKind
  | .directory => .directory
  | .text _ | .octets _ | .database _ => .file

/-- A file tree. -/
structure FileTree where
  nodes : List (Place × FileNode) := []

namespace FileTree

/-- The greatest length of a name, in octets. -/
def longestName : Nat := 255

/-- The greatest length of a path, in octets. -/
def longestPath : Nat := 4095

/-- What stands at a place. -/
def node? (t : FileTree) (place : Place) : Option FileNode :=
  if place.isEmpty then some .directory else t.nodes.lookup place

/-- The place that names lead to from a place. Each name but the last has to be that of a directory. -/
def follow (t : FileTree) (place : Place) : List String → Except FileError Place
  | [] => .ok place
  | name :: rest =>
    if name == "" then follow t place rest
    else
      match t.node? place with
      | none => .error .notFound
      | some .directory =>
        if name == "." then follow t place rest
        else if name == ".." then follow t place.dropLast rest
        else if longestName < name.utf8ByteSize then .error .nameTooLong
        else follow t (place ++ [name]) rest
      | some _ => .error .notADirectory

/-- The place of a path relative to the root. Nothing is found at an absolute path, which leads out of the tree. -/
def resolve (t : FileTree) (path : String) : Except FileError Place :=
  if path.toList.any (·.toNat == 0) then .error .nulInName
  else if path == "" || path.startsWith "/" then .error .notFound
  else if longestPath < path.utf8ByteSize then .error .nameTooLong
  else t.follow [] (Path.names path)

/-- The node at a path. -/
def find (t : FileTree) (path : String) : Except FileError FileNode := do
  match t.node? (← t.resolve path) with
  | some node => return node
  | none => throw .notFound

/-- The kind of what stands at a path, if anything does. -/
def kind? (t : FileTree) (path : String) : Option FileKind :=
  (t.find path).toOption.map (·.kind)

/-- The tree with a node at a place, whatever stood there before. -/
def put (t : FileTree) (place : Place) (node : FileNode) : FileTree :=
  { nodes := t.nodes.filter (·.1 != place) ++ [(place, node)] }

/-- The tree without a place and all that is below it. -/
def remove (t : FileTree) (place : Place) : FileTree :=
  { nodes := t.nodes.filter fun (other, _) => !place.isPrefixOf other }

/-- The name of a place in its directory, if it is directly in it. -/
def nameIn? (dir place : Place) : Option String :=
  match place.getLast? with
  | some name => if place == dir ++ [name] then some name else none
  | none => none

/-- What stands directly in a directory. -/
def entries (t : FileTree) (path : String) : Except FileError (List (String × FileKind)) := do
  let place ← t.resolve path
  match t.node? place with
  | none => throw .notFound
  | some .directory =>
    return t.nodes.filterMap fun (other, node) => (nameIn? place other).map fun name => (name, node.kind)
  | some _ => throw .notADirectory

/-- The text of a file. -/
def read (t : FileTree) (path : String) : Except FileError String := do
  match ← t.find path with
  | .directory => throw .isADirectory
  | .text content => return content
  | .octets content => (Text.decodeUtf8? content).elim (throw .notText) pure
  | .database _ => throw .notText

/-- The tree with a new file, unless something stands there. -/
def create (t : FileTree) (path : String) (node : FileNode) : Except FileError FileTree := do
  let place ← t.resolve path
  if (t.node? place).isSome then throw .exists
  return t.put place node

/-- The tree with directories at a path and on the way to it. What was made before an error stays. -/
def createDirectoriesFrom (t : FileTree) (place : Place) : List String → Except FileError Unit × FileTree
  | [] => (.ok (), t)
  | name :: rest =>
    match t.follow place [name] with
    | .error e => (.error e, t)
    | .ok next =>
      match t.node? next with
      | some .directory => createDirectoriesFrom t next rest
      | some _ => (.error (if rest.isEmpty then .exists else .notADirectory), t)
      | none => createDirectoriesFrom (t.put next .directory) next rest

/-- The tree with directories at a path relative to the root and on the way to it. None are made outside the tree. -/
def createDirectories (t : FileTree) (path : String) : Except FileError Unit × FileTree :=
  if path.toList.any (·.toNat == 0) then (.error .nulInName, t)
  else if path.startsWith "/" then (.error .notFound, t)
  else createDirectoriesFrom t [] (Path.names path)

end FileTree

end SchemaMigration
