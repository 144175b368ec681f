import Changelog.Fault
import Changelog.Files.Path
import Changelog.Text.Encoding

/-! # Files

The files that an operation can see, by their absolute paths. A path leads through directories; a directory is
there if it is listed or holds something.
-/

namespace Changelog

inductive FileEntry where
  | directory
  | file (content : ByteArray)
  deriving Inhabited

/-- Files and directories by absolute paths without double dots. -/
abbrev Files := List (Path × FileEntry)

namespace Files

/-- What is at a path that needs no walk. -/
def entry? (files : Files) (path : Path) : Option FileEntry :=
  match List.find? (fun item => item.1 = path) files with
  | some item => some item.2
  | none =>
    if files.any fun item => item.1.root = path.root && path.names.isPrefixOf item.1.names then some .directory
    else none

/-- Walks along names from a directory; double dots lead up. `shown` is the path that a fault names. -/
def walk (files : Files) (shown : Path) (place : Path) : List Text → Except FileFault Path
  | [] => .ok place
  | name :: names =>
    match files.entry? place with
    | none => .error (.missing shown.text)
    | some (.file _) => .error (.notDirectory shown.text)
    | some .directory =>
      walk files shown (if name = ['.', '.'] then place.parent else { place with names := place.names ++ [name] }) names

def find (files : Files) (path : Path) : Except FileFault FileEntry := do
  let place ← files.walk path { root := path.root } path.names
  match files.entry? place with
  | some entry => return entry
  | none => .error (.missing path.text)

def isFile (files : Files) (path : Path) : Bool :=
  match files.find path with
  | .ok (.file _) => true
  | _ => false

def read (files : Files) (path : Path) : Except FileFault ByteArray := do
  if path.holdsNull then .error .nullCharacter
  match ← files.find path with
  | .file content => return content
  | .directory => .error (.isDirectory path.text)

def write (files : Files) (path : Path) (content : ByteArray) : Files :=
  match files.walk path { root := path.root } path.names with
  | .error _ => files
  | .ok place =>
    if (files.any fun item => item.1 = place) then
      files.map fun item => if item.1 = place then (place, .file content) else item
    else files ++ [(place, .file content)]

/-- What is there when something was found at an absolute path: the entry itself and the directories on the way. -/
def found (path : Path) (entry : FileEntry) : Files :=
  let collapsed := fun (path : Path) => { path with names := Path.collapse [] path.names }
  (collapsed path, entry) :: path.ancestors.tail.map fun place => (collapsed place, .directory)

/-- The files of `after` that are not the same in `before`. -/
def changes (before after : Files) : List (Path × ByteArray) :=
  after.filterMap fun (path, entry) =>
    match entry, before.entry? path with
    | .directory, _ => none
    | .file content, some (.file old) => if content == old then none else some (path, content)
    | .file content, _ => some (path, content)

end Files

end Changelog
