/-!
# Paths

Paths as texts: names between slashes. A path that starts with a slash is absolute, and joining it to a directory leaves
the directory out.
-/

namespace SchemaMigration.Path

/-- A path below a directory. -/
def join (dir path : String) : String :=
  if path.startsWith "/" || dir == "" then path
  else if dir.endsWith "/" then dir ++ path
  else dir ++ "/" ++ path

/-- The names of a path, in order. -/
def names (path : String) : List String :=
  (path.toList.splitOn '/').map String.ofList

/-- What stands before the extension of a file name. A name that is all extension has none. -/
def stem? (extension name : String) : Option String :=
  let suffix := '.' :: extension.toList
  let cs := name.toList
  if suffix.isSuffixOf cs && suffix.length < cs.length then
    some (String.ofList (cs.take (cs.length - suffix.length)))
  else none

end SchemaMigration.Path
