import Arbor.Files.Path
import Arbor.Files.Store

/-!
# File trees

Files and directories as a value, with the operations of a file store on it. A place in the
tree is the list of names from it up to the root, so that the directory around a place is the
tail of the list.
-/

namespace Arbor

/-- What is at a place. -/
inductive FileEntry where
  | file (content : ByteArray)
  | directory

/-- Files and directories, and the directory that relative paths start from. -/
structure FileTree where
  entries : List (List String × FileEntry)
  workingDirectory : List String

namespace FileTree

/-- What is at a place; the root is always a directory. -/
def entry? (tree : FileTree) (place : List String) : Option FileEntry :=
  match place with
  | [] => some .directory
  | _ :: _ => tree.entries.lookup place

/-- The tree with an entry at a place. -/
def insert (tree : FileTree) (place : List String) (entry : FileEntry) : FileTree :=
  { tree with entries := (place, entry) :: tree.entries.filter fun e => e.1 != place }

/-- A place that paths can lead through. -/
def enter (tree : FileTree) (place : List String) : Except FileError Unit :=
  match tree.entry? place with
  | some .directory => .ok ()
  | some (.file _) => .error .notDirectory
  | none => .error .notFound

/-- A name that an entry can have. -/
def checkName (name : String) : Except FileError Unit :=
  if 255 < name.utf8ByteSize then .error .nameTooLong else .ok ()

/-- The place that segments lead to. Only the last one may be missing. -/
def follow (tree : FileTree) : List String → List String → Except FileError (List String)
  | here, [] => .ok here
  | here, segment :: rest => do
    tree.enter here
    checkName segment
    if Path.isIdle segment then follow tree here rest
    else if segment = ".." then follow tree here.tail rest
    else follow tree (segment :: here) rest

/-- Where a path starts. A path without characters leads nowhere. -/
def start (tree : FileTree) (path : String) : Except FileError (List String) :=
  if path.toList.contains '\x00' then .error .nulInPath
  else if path = "" then .error .notFound
  else if 4096 ≤ path.utf8ByteSize then .error .nameTooLong
  else if Path.isAbsolute path then .ok []
  else .ok tree.workingDirectory

/-- The place of a path. -/
def locate (tree : FileTree) (path : String) : Except FileError (List String) := do
  tree.follow (← tree.start path) (Path.segments path)

/-- The directory in which the last segment of a path is a name, and that name. No name is left
of the root, nor of a path that ends in a segment of dots. The name has not been looked at. -/
def locateName (tree : FileTree) (path : String) :
    Except FileError (List String × Option String) := do
  let start ← tree.start path
  match ((Path.segments path).filter fun segment => segment != "").reverse with
  | [] => .ok (start, none)
  | last :: before =>
    let place ← tree.follow start before.reverse
    tree.enter place
    if last = "." || last = ".." then .ok (place, none)
    else .ok (place, some last)

/-- The path leads to a directory. -/
def isDirectory (tree : FileTree) (path : String) : Bool :=
  match tree.locate path with
  | .ok place => match tree.entry? place with
    | some .directory => true
    | _ => false
  | .error _ => false

/-- The content of the file a path leads to. -/
def read (tree : FileTree) (path : String) : Except FileError ByteArray := do
  match tree.entry? (← tree.locate path) with
  | some (.file content) => .ok content
  | some .directory => .error .isDirectory
  | none => .error .notFound

/-- The tree with a file of this content where the path leads. A slash at the end asks for a
directory, whatever the name before it. -/
def write (tree : FileTree) (path : String) (content : ByteArray) :
    Except FileError FileTree := do
  match ← tree.locateName path with
  | (_, none) => .error .isDirectory
  | (place, some name) =>
    if Path.endsInSlash path then .error .isDirectory
    else
      checkName name
      match tree.entry? (name :: place) with
      | some .directory => .error .isDirectory
      | _ => .ok (tree.insert (name :: place) (.file content))

/-- The tree with a new directory where the path leads. -/
def createDirectory (tree : FileTree) (path : String) : Except FileError FileTree := do
  match ← tree.locateName path with
  | (_, none) => .error .alreadyExists
  | (place, some name) =>
    checkName name
    match tree.entry? (name :: place) with
    | some _ => .error .alreadyExists
    | none => .ok (tree.insert (name :: place) .directory)

/-- Makes the first of the paths a directory, after the others if it needs them. Each path is
the parent of the one before it. -/
def createAll (tree : FileTree) : List String → Except FileError FileTree
  | [] => .error (.other "failed to create whole tree")
  | path :: parents =>
    if path = "" then .ok tree
    else match tree.createDirectory path with
      | .ok tree => .ok tree
      | .error .notFound => do
        let tree ← createAll tree parents
        match tree.createDirectory path with
        | .ok tree => .ok tree
        | .error error => if tree.isDirectory path then .ok tree else .error error
      | .error error => if tree.isDirectory path then .ok tree else .error error

/-- A change of the tree as an operation. A change that fails leaves the tree alone. -/
def attempt (change : FileTree → Except FileError FileTree) :
    StateM FileTree (Except FileError Unit) := do
  match change (← get) with
  | .ok tree =>
    set tree
    return .ok ()
  | .error error => return .error error

/-- A tree as a file store. -/
def store : FileStore (StateM FileTree) where
  read path := do return (← get).read path
  createDirectories path :=
    attempt fun tree => tree.createAll (Path.ancestors path.length path)
  write path text := attempt fun tree => tree.write path text.toUTF8

end FileTree

end Arbor
