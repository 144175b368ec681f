import Changelog.Data.Toml
import Changelog.Files.Store
import Changelog.Journal
import Changelog.Text.Line
import Changelog.Text.Lowercase

/-! # Project manifests

The manifest of a project is a file in its directory or above. It declares the name, the version and the
repository of the project.
-/

namespace Changelog

/-- What a manifest declares. Parts that are left out are null; nothing promises that the others are texts. -/
structure Manifest where
  path : Path
  name : Data := .null
  version : Data := .null
  repository : Data := .null
  deriving Repr

namespace Manifest

open Text (ofString)

/-- The file names of manifests, the preferred one first. -/
def fileNames : List Text := [ofString "pyproject.toml", ofString "package.json"]

/-- The keys under which a manifest gives the address of the repository, the preferred one first. -/
def repositoryKeys : List Text :=
  ["repository", "source", "source code", "code", "homepage"].map String.toList

/-- Where the manifest of a project in a directory can be, the closest place first. -/
def candidates (directory : Path) : List Path :=
  directory.ancestors.flatMap fun place => fileNames.map fun name => { place with names := place.names ++ [name] }

def find? (files : Files) (directory : Path) : Option Path := (candidates directory).find? files.isFile

def fieldsOf : Data → Except Fault (List (Text × Data))
  | .object fields => .ok fields
  | _ => .error .noSuchPart

/-- The value of a field; null if it is left out. -/
def fieldOr (standIn : Data) (key : String) (fields : List (Text × Data)) : Data :=
  (Data.lookup? key.toList fields).getD standIn

/-- What a manifest of a package declares. The repository is a text, or an object with its address. -/
def ofPackage (path : Path) (data : Data) : Except Fault Manifest := do
  let fields ← fieldsOf data
  let repository :=
    match fieldOr .null "repository" fields with
    | .object parts => fieldOr .null "url" parts
    | value => value
  let repository :=
    match repository with
    | .text url => .text url
    | _ => .null
  return { path, name := fieldOr .null "name" fields, version := fieldOr .null "version" fields, repository }

/-- The values of some fields by their keys in lower case; of equal keys the later one counts. -/
def lowercaseKeys (fields : List (Text × Data)) : List (Text × Data) :=
  fields.foldl (fun lowered (key, value) => Data.insert (Text.lowercase key) value lowered) []

/-- What a manifest with a project table declares. The repository is among its addresses. -/
def ofProject (path : Path) (data : Data) : Except Fault Manifest := do
  let project ← fieldsOf (fieldOr (.object []) "project" (← fieldsOf data))
  let urls := lowercaseKeys (← fieldsOf (fieldOr (.object []) "urls" project))
  return {
    path, name := fieldOr .null "name" project, version := fieldOr .null "version" project
    repository := (repositoryKeys.findSome? fun key => Data.lookup? key urls).getD .null }

def decode? (isPackage : Bool) (content : ByteArray) : Option Data := do
  let text ← Text.decode? content
  if isPackage then Json.parse? (Text.unifyNewlines text) else Toml.parse? text

def ofBytes (path : Path) (content : ByteArray) : Except Fault Manifest :=
  let isPackage := decide (path.name = ofString "package.json")
  match decode? isPackage content with
  | none => .error (.setup (.manifestUnreadable path.text (ofString "not well-formed")))
  | some data => if isPackage then ofPackage path data else ofProject path data

def read (files : Files) (path : Path) : Except Fault Manifest :=
  match files.read path with
  | .error cause => .error (.setup (.manifestUnreadable path.text cause.message))
  | .ok content => ofBytes path content

/-- What the closest manifest declares, if there is one. -/
def load (files : Files) (directory : Path) : Action (Option Manifest) := do
  match find? files directory with
  | some path => some <$> Action.ofExcept (read files path)
  | none =>
    Action.log .debug .project (ofString "No manifest found from " ++ directory.text)
    return none

end Manifest

end Changelog
