import Changelog.Text.Letter
import Changelog.Text.Blank

/-! # Where a repository is hosted

A repository is given as owner and name, as an address with a scheme, or in the short form of secure shell. All
of them have one browsable address.
-/

namespace Changelog.Hosting

open Text (ofString)

def isNameChar (c : Char) : Bool := isWordChar c || c == '.' || c == '-'

def isPathChar (c : Char) : Bool := isNameChar c || c == '/'

/-- Splits at the first character that is not one of a name; the part before it must not be empty. -/
def readName (text : Text) : Option (Text × Text) :=
  let name := text.takeWhile isNameChar
  if name.isEmpty then none else some (name, text.dropWhile isNameChar)

/-- Owner and name, with or without the name of the host in front. -/
def shorthand? (text : Text) : Option (Text × Text) := do
  let plain := (Text.dropLeadFolded? (ofString "github:") text).getD text
  let (owner, after) ← readName plain
  let (name, rest) ← readName (← Text.dropLead? ['/'] after)
  if rest.isEmpty then some (owner, name) else none

/-- `text` without the ending, if something is left then. -/
def dropEnding? (ending text : Text) : Option Text := (Text.dropTail? ending text).filter (!·.isEmpty)

/-- The path of a repository without the extension and one slash at its end. -/
def dropExtension (path : Text) : Text :=
  (dropEnding? (ofString ".git/") path <|> dropEnding? (ofString ".git") path <|> dropEnding? ['/'] path).getD path

/-- A path up to the end, without extension and without slashes around it. -/
def readPath (text : Text) : Option Text :=
  if !text.isEmpty && text.all isPathChar then
    some (Text.dropTailWhile (· == '/') ((dropExtension text).dropWhile (· == '/')))
  else none

def dropUser? (text : Text) : Option Text :=
  let user := text.takeWhile fun c => c != '@' && c != '/'
  if user.isEmpty then none else Text.dropLead? ['@'] (text.drop user.length)

def dropPort (text : Text) : Option Text :=
  match text with
  | ':' :: rest =>
    if (rest.takeWhile isDecimalDigit).isEmpty then none else some (rest.dropWhile isDecimalDigit)
  | _ => some text

def readHostPath (text : Text) : Option (Text × Text) := do
  let inHost := fun (c : Char) => c != '/' && c != ':'
  let host := text.takeWhile inHost
  if host.isEmpty then none
  else
    let after ← dropPort (text.dropWhile inHost)
    let path ← readPath (← Text.dropLead? ['/'] after)
    return (host, path)

def dropScheme? (text : Text) : Option Text :=
  let plain := (Text.dropLead? (ofString "git+") text).getD text
  [ofString "https://", ofString "http://", ofString "git://", ofString "ssh://"].findSome? fun scheme =>
    Text.dropLead? scheme plain

/-- Host and path of an address with a scheme. What looks like a user belongs to the host if no host would be
    left. -/
def address? (text : Text) : Option (Text × Text) := do
  let rest ← dropScheme? text
  ((dropUser? rest).bind readHostPath) <|> readHostPath rest

/-- Host and path in the short form of secure shell: an optional user, the host, a colon and the path. -/
def shell? (text : Text) : Option (Text × Text) := do
  let (first, after) ← readName text
  let (host, after) ←
    match after with
    | '@' :: rest => readName rest
    | _ => some (first, after)
  let path ← Text.dropLead? [':'] after
  if path.startsWith ['/', '/'] then none
  else
    let path ← readPath path
    return (host, path)

def browsable (host path : Text) : Text := ofString "https://" ++ host ++ '/' :: path

/-- The browsable address of a repository, if its form is known. -/
def url? (repository : Text) : Option Text :=
  let trimmed := Text.strip repository
  match shorthand? trimmed with
  | some (owner, name) => some (browsable (ofString "github.com") (owner ++ '/' :: name))
  | none => (address? trimmed <|> shell? trimmed).map fun (host, path) => browsable host path

end Changelog.Hosting
