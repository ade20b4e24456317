import GuardElision.Files.Failure
import GuardElision.Files.Path

/-!
# File trees

The files a run can see, as a value: a directory maps names to files and directories. Paths
are followed name by name, from the top of the tree if they start with a slash, else from the
working directory; `.` stays and `..` goes up, which at the top stays as well. A file may be
damaged, so that it cannot be read to its end, and what is closed can be neither opened nor
passed.
-/

namespace GuardElision

/-- A spot of a file that cannot be read: the bytes in front of it can. -/
structure Damage where
  offset : Nat
  cause : FileFailure
  deriving DecidableEq, Repr

/-- What a name in a directory stands for. -/
inductive FileNode where
  /-- A file with its bytes. -/
  | file (content : List UInt8) (damage : Option Damage := none)
  /-- A directory with its entries. -/
  | directory (entries : List (String × FileNode))
  /-- What can be neither opened nor passed, and why. -/
  | closed (cause : FileFailure)
  deriving Inhabited

/-- All files, and the directory in which paths start that have no slash in front. -/
structure FileTree where
  top : FileNode
  /-- The names from the top to the working directory. -/
  working : List String

/-- The bytes of a file up to where it is damaged. -/
def ByteStream.ofFile (content : List UInt8) : Option Damage → ByteStream
  | none => { bytes := content }
  | some d =>
    if d.offset ≤ content.length then { bytes := content.take d.offset, fault := some d.cause }
    else { bytes := content }

namespace FileNode

/-- The directory without entries. -/
def empty : FileNode := .directory []

/-- What is read once this is opened. A directory can be opened, but reading from it fails. -/
def stream : FileNode → Except FileFailure ByteStream
  | .file content damage => .ok (.ofFile content damage)
  | .directory _ => .ok { bytes := [], fault := some .isDirectory }
  | .closed cause => .error cause

/-- The longest name a directory entry can have, in bytes. -/
def longestName : Nat := 255

/-- Where a walk from the top of a tree stands: at the end of a trail, the last step first. -/
abbrev Trail := List (String × FileNode)

/-- What a walk has reached. -/
def Trail.node (top : FileNode) : Trail → FileNode
  | [] => top
  | (_, child) :: _ => child

/-- Where some names lead. Going through anything but a directory fails. -/
def follow (top : FileNode) : Trail → List String → Except FileFailure Trail
  | trail, [] => .ok trail
  | trail, name :: rest =>
    match trail.node top with
    | .file .. => .error .notDirectory
    | .closed cause => .error cause
    | .directory entries =>
      if name = "." then follow top trail rest
      else if name = ".." then follow top trail.tail rest
      else if longestName < name.utf8ByteSize then .error .nameTooLong
      else
        match entries.lookup name with
        | some child => follow top ((name, child) :: trail) rest
        | none => .error .notFound

/-- What lies at the end of a chain of names. -/
def descend (node : FileNode) : List String → Option FileNode
  | [] => some node
  | name :: rest =>
    match node with
    | .directory entries => (entries.lookup name).bind fun child => child.descend rest
    | .file .. | .closed _ => none

/-- The entries with one of them set. -/
def setEntry (entries : List (String × FileNode)) (name : String) (child : FileNode) :
    List (String × FileNode) :=
  if entries.any (·.1 == name) then
    entries.map fun e => if e.1 == name then (name, child) else e
  else entries ++ [(name, child)]

/-- The tree with something put at the end of a chain of names, which may pass through
directories that do not exist yet; a file on the way is replaced. -/
def put (node : FileNode) : List String → FileNode → FileNode
  | [], leaf => leaf
  | name :: rest, leaf =>
    let entries :=
      match node with
      | .directory entries => entries
      | .file .. | .closed _ => []
    let child := (entries.lookup name).getD empty
    .directory (setEntry entries name (put child rest leaf))

/-- The tree with directories along some names, made where they are missing, from a chain of
names on that comes in reverse. -/
def makeAlong : FileNode → (above : List String) → List String → Except FileFailure FileNode
  | top, _, [] => .ok top
  | top, above, name :: rest =>
    if name = "." then makeAlong top above rest
    else if name = ".." then makeAlong top above.tail rest
    else if longestName < name.utf8ByteSize then .error .nameTooLong
    else
      let place := (name :: above).reverse
      match top.descend place with
      | some (.file ..) => .error .notDirectory
      | some (.closed cause) => .error cause
      | some (.directory _) => makeAlong top (name :: above) rest
      | none => makeAlong (top.put place empty) (name :: above) rest

mutual

/-- The paths and bytes of all files below a path. -/
def filesFrom (above : String) : FileNode → List (String × List UInt8)
  | .file content _ => [(above, content)]
  | .directory entries => filesIn above entries
  | .closed _ => []

/-- The paths and bytes of all files below some entries. -/
def filesIn (above : String) : List (String × FileNode) → List (String × List UInt8)
  | [] => []
  | (name, child) :: rest =>
    filesFrom (if above.isEmpty then name else above ++ "/" ++ name) child ++ filesIn above rest

end

end FileNode

namespace FileTree

/-- An empty working directory under the top. -/
def empty : FileTree := { top := .directory [("work", .empty)], working := ["work"] }

/-- The longest path, in bytes. -/
def longestPath : Nat := 4095

/-- Whether the path ends in a slash. -/
def wantsDirectory (path : String) : Bool := path.endsWith "/"

/-- The faults of a path that need no look at the tree. -/
def checkPath (path : String) : Except FileFailure Unit :=
  if path.toList.contains '\x00' then .error .zeroInPath
  else if path.isEmpty then .error .notFound
  else if longestPath < path.utf8ByteSize then .error .nameTooLong
  else .ok ()

/-- The names from the top of the tree to what a path names. -/
def namesOf (t : FileTree) (path : String) : List String :=
  if path.startsWith "/" then Path.names path else t.working ++ Path.names path

/-- What lies at a path. -/
def lookup (t : FileTree) (path : String) : Except FileFailure FileNode := do
  checkPath path
  let trail ← t.top.follow [] (t.namesOf path)
  match trail.node t.top with
  | .file content damage =>
    if wantsDirectory path then throw .notDirectory else return .file content damage
  | node => return node

/-- What is read from the file at a path once it is opened. -/
def stream (t : FileTree) (path : String) : Except FileFailure ByteStream := do
  (← t.lookup path).stream

/-- Where a file would be created: the names from the top. A path that ends in a slash names a
directory, whatever its last name is. -/
def placeOf (t : FileTree) (path : String) : Except FileFailure (List String) := do
  checkPath path
  let names := t.namesOf path
  match names.getLast? with
  | none => throw .isDirectory
  | some last =>
    let trail ← t.top.follow [] names.dropLast
    match trail.node t.top with
    | .file .. => throw .notDirectory
    | .closed cause => throw cause
    | .directory _ =>
      if last = "." ∨ last = ".." ∨ wantsDirectory path then throw .isDirectory
      else if FileNode.longestName < last.utf8ByteSize then throw .nameTooLong
      else return (trail.map (·.1)).reverse ++ [last]

/-- The tree after the bytes of the file at a path were changed; a file that does not exist is
created from no bytes. -/
def update (t : FileTree) (path : String) (change : List UInt8 → List UInt8) :
    Except FileFailure FileTree := do
  let place ← t.placeOf path
  match t.top.descend place with
  | some (.directory _) => throw .isDirectory
  | some (.closed cause) => throw cause
  | some (.file content damage) =>
    return { t with top := t.top.put place (.file (change content) damage) }
  | none => return { t with top := t.top.put place (.file (change [])) }

/-- The tree after bytes were appended to the file at a path, which is created if it does not
exist. -/
def append (t : FileTree) (path : String) (bytes : List UInt8) : Except FileFailure FileTree :=
  t.update path (· ++ bytes)

/-- The tree with directories along some names, from the directory on in which a path starts. -/
def makeNames (t : FileTree) (path : String) (names : List String) :
    Except FileFailure FileTree := do
  let start := if path.startsWith "/" then [] else t.working.reverse
  return { t with top := ← t.top.makeAlong start names }

/-- The tree with a directory at a path, and those on the way. -/
def makeDirectory (t : FileTree) (path : String) : Except FileFailure FileTree :=
  if path.toList.contains '\x00' then .error .zeroInPath else t.makeNames path (Path.names path)

/-- The tree with a file of the given bytes at a path, and the directories on the way. -/
def create (t : FileTree) (path : String) (bytes : List UInt8) : Except FileFailure FileTree := do
  checkPath path
  let t ← t.makeNames path (Path.names path).dropLast
  t.update path fun _ => bytes

/-- The paths and bytes of all files in the working directory and below it. -/
def files (t : FileTree) : List (String × List UInt8) :=
  ((t.top.descend t.working).map (·.filesFrom "")).getD []

end FileTree

end GuardElision
