import Changelog.Fault

/-! # Paths

A path is a root and a list of names. Empty names and single dots are left out; double dots stay, since what
they lead to depends on the files.
-/

namespace Changelog

/-- A path. The root is empty for a path that is relative. -/
structure Path where
  root : Text := []
  names : List Text := []
  deriving Repr, DecidableEq, Inhabited

namespace Path

def isAbsolute (path : Path) : Bool := !path.root.isEmpty

/-- The path that a text stands for. Exactly two slashes in front are a root of their own. -/
def ofText (text : Text) : Path :=
  { root :=
      match (text.takeWhile (· == '/')).length with
      | 0 => []
      | 2 => ['/', '/']
      | _ => ['/']
    names := (text.splitOn '/').filter fun name => !name.isEmpty && name != ['.'] }

/-- How a path is shown; an empty relative path is a dot. -/
def text (path : Path) : Text :=
  let shown := path.root ++ Text.join ['/'] path.names
  if shown.isEmpty then ['.'] else shown

/-- `path` seen from `base`. -/
def under (base path : Path) : Path :=
  if path.isAbsolute then path else { base with names := base.names ++ path.names }

def parent (path : Path) : Path := { path with names := path.names.dropLast }

def name (path : Path) : Text := path.names.getLast?.getD []

/-- The last name without its last extension. A name has an extension after a full stop that is neither its
    first nor its last character. -/
def stem (path : Path) : Text :=
  let extension := (path.name.reverse.takeWhile (· != '.')).length
  let width := path.name.length - extension - 1
  if 1 ≤ extension && 1 ≤ width && extension < path.name.length then path.name.take width else path.name

/-- Takes double dots as the way up. -/
def collapse : (kept : List Text) → List Text → List Text
  | kept, [] => kept.reverse
  | kept, name :: names =>
    if name = ['.', '.'] then collapse kept.tail names else collapse (name :: kept) names

/-- Does a name hold the character zero? The system takes such a name for no name at all. -/
def holdsNull (path : Path) : Bool := path.names.any fun name => name.any fun c => c.toNat == 0

/-- The absolute path without double dots, seen from the directory `base`, where no name on the way is a link. -/
def resolve (base path : Path) : Except Fault Path :=
  let whole := base.under path
  if whole.holdsNull then .error (.file .nullCharacter) else .ok { whole with names := collapse [] whole.names }

def ancestors (path : Path) : List Path :=
  (List.range (path.names.length + 1)).reverse.map fun count => { path with names := path.names.take count }

end Path

end Changelog
