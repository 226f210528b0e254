/-
  Loading the classes of a directory.

  Of the entries of a directory, the regular files whose name has something before `.class` are
  read, in the order of the characters of their names, whatever order the listing has.  The first
  file that cannot be loaded ends the loading.

  `FileTree` is a tree of files, in which a path is followed name by name.
-/
import Bytecode.Machine.ClassTable

namespace Bytecode

/-- An entry of a directory: its name and, if it is a regular file, what is in it. -/
structure DirEntry where
  name : String
  contents? : Option Octets
  deriving DecidableEq, Repr

namespace Classpath

/-- Whether a file of this name holds a class. -/
def isClassName (name : String) : Bool :=
  name.endsWith ".class" && name ≠ ".class"

def entryPath (dir name : String) : String :=
  if dir = "" ∨ dir.endsWith "/" then dir ++ name else dir ++ "/" ++ name

/-- The class files of a directory: their names and what is in them, in the order of names. -/
def classFiles (entries : List DirEntry) : List (String × Octets) :=
  let found := entries.filterMap fun e =>
    if isClassName e.name then e.contents?.map (e.name, ·) else none
  found.mergeSort fun a b => decide (a.1 ≤ b.1)

/-- Loads files into a table, up to the first that fails. -/
def loadFiles (dir : String) (t : ClassTable) :
    List (String × Octets) → Except RunError ClassTable × List Event
  | [] => (.ok t, [])
  | (name, octets) :: rest =>
    let reading := Event.reading (entryPath dir name)
    match RunError.ofFormat (ClassFile.parse octets) >>= t.insert with
    | .error e => (.error e, [reading])
    | .ok (t', loaded) =>
      let (result, events) := loadFiles dir t' rest
      (result, reading :: loaded :: events)

/-- Loads the classes of a directory, given what listing it gave. -/
def load (dir : String) : Except PathFault (List DirEntry) →
    Except RunError ClassTable × List Event
  | .error fault => (.error (.unreadable dir fault), [])
  | .ok entries => loadFiles dir .empty (classFiles entries)

end Classpath

/-- A file, or a directory with what it holds. -/
inductive FileTree where
  | file (contents : Octets)
  | directory (entries : List (String × FileTree))

namespace FileTree

/-! ## Building -/

/-- What a directory holds; a file holds nothing. -/
def entries : FileTree → List (String × FileTree)
  | .file _ => []
  | .directory entries => entries

/-- The tree with the part at the end of a path changed by `f`.  Directories that are missing on
    the way are made; so is an empty one at the end, for `f` to change. -/
def alter (f : FileTree → FileTree) : List String → FileTree → FileTree
  | [], t => f t
  | name :: rest, t =>
    let old := (t.entries.lookup name).getD (.directory [])
    .directory (t.entries.filter (·.1 ≠ name) ++ [(name, alter f rest old)])

def names (path : String) : List String :=
  (path.splitOn "/").filter fun name => name ≠ "" && name ≠ "."

/-- Puts a file at a path, in place of what stood there. -/
def addFile (t : FileTree) (path : String) (contents : Octets) : FileTree :=
  t.alter (fun _ => .file contents) (names path)

/-- Makes a directory at a path, unless one stands there. -/
def addDirectory (t : FileTree) (path : String) : FileTree :=
  t.alter (fun old => .directory old.entries) (names path)

/-! ## Looking -/

/-- The part of a tree at the end of a path, with the directories above it, the nearest first.
    A directory is its own `.`, and the top of the tree its own `..`. -/
def follow : FileTree → List FileTree → List String → Except PathFault FileTree
  | t, _, [] => .ok t
  | .file _, _, _ :: _ => .error .notDirectory
  | .directory entries, above, name :: rest =>
    if name = "" ∨ name = "." then follow (.directory entries) above rest
    else if name = ".." then
      match above with
      | [] => follow (.directory entries) [] rest
      | t :: above => follow t above rest
    else
      match entries.lookup name with
      | some t => follow t (.directory entries :: above) rest
      | none => .error .missing

def at? (t : FileTree) (path : String) : Except PathFault FileTree :=
  if path = "" then .error .missing else follow t [] (path.splitOn "/")

/-- The entry of a directory for a part of a tree. -/
def entry (name : String) : FileTree → DirEntry
  | .file contents => ⟨name, some contents⟩
  | .directory _ => ⟨name, none⟩

def list (t : FileTree) (path : String) : Except PathFault (List DirEntry) := do
  match ← t.at? path with
  | .file _ => .error .notDirectory
  | .directory entries => return entries.map fun (name, t) => entry name t

/-- Lists the directory at a path that starts from the directory `here`. -/
def listFrom (t : FileTree) (here path : String) : Except PathFault (List DirEntry) :=
  if path = "" then .error .missing else t.list (here ++ "/" ++ path)

end FileTree

end Bytecode
