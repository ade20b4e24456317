/-!
# Paths

A path is a text whose names are separated by slashes; it is absolute if it starts with one.
-/

namespace GuardElision.Path

/-- The path of a file seen from a directory: an absolute path stands for itself, and a
slash is put in between only where one is missing. -/
def join (directory file : String) : String :=
  if file.startsWith "/" then file
  else if directory.isEmpty || directory.endsWith "/" then directory ++ file
  else directory ++ "/" ++ file

/-- The names on a path. -/
def names (path : String) : List String :=
  ((path.toList.splitOn '/').filter (!·.isEmpty)).map String.ofList

end GuardElision.Path
