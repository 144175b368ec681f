import Changelog.Outline.Basic
import Changelog.Review.Context
import Changelog.Review.Finding

/-! # Release links

The heading of every release but the oldest is a link reference, and its definition leads to the comparison of
the release with the next older one.
-/

namespace Changelog.Review

open Text (ofString)

/-- The address of the comparison of a version with an older one. -/
def compareUrl (project : Project) (version previous : Text) : Text :=
  let right := if version = unreleased then ofString "HEAD" else Version.tag version project.tags
  project.url ++ ofString "/compare/" ++ Version.tag previous project.tags ++ ofString "..." ++ right

/-- The version and the next older version of a release that can be linked. -/
def linkable? (isLast : Bool) (r : Release) : Option (Text × Text) :=
  if isLast then none
  else
    match r.version?, r.previous.filter (!·.isEmpty) with
    | some version, some previous => some (version, previous)
    | _, _ => none

/-- What stands in the heading of what is not released yet. -/
def unreleasedText : Text := ofString "Unreleased"

def datePlaceholder : Text := ofString "YYYY-MM-DD"

def linkedHeading (r : Release) (version : Text) : List Node :=
  let identifier := Text.lowercase version
  if r.isUnreleased then [Node.linkReference identifier identifier .full [Node.ofText unreleasedText]]
  else
    let date := (r.date.filter (!·.isEmpty)).getD datePlaceholder
    [Node.linkReference identifier identifier .shortcut [Node.ofText version],
      Node.ofText (ReleaseHeading.dateSeparator ++ date)]

/-- Links one release: its new heading, and the definitions with its own. -/
def linkRelease (project : Project) (isLast : Bool) (r : Release) (definitions : Definitions) :
    Release × Definitions :=
  match linkable? isLast r with
  | some (version, previous) =>
    let identifier := Text.lowercase version
    (r.withHeadingNodes (linkedHeading r version),
      definitions.insert identifier (Node.definition identifier identifier (compareUrl project version previous)))
  | none =>
    (if r.isUnreleased then r.withHeadingNodes [Node.ofText unreleasedText] else r, definitions)

def linkReleases (project : Project) : List Release → Definitions → List Release × Definitions
  | [], definitions => ([], definitions)
  | r :: rest, definitions =>
    let (linked, definitions) := linkRelease project rest.isEmpty r definitions
    let (others, definitions) := linkReleases project rest definitions
    (linked :: others, definitions)

def linkFindings (project : Project) (definitions : Definitions) (isLast : Bool) (r : Release) : List Finding :=
  match linkable? isLast r with
  | none => []
  | some (version, previous) =>
    match r.link with
    | none => [.noLink]
    | some .linkReference =>
      let url := compareUrl project version previous
      let existing := (definitions.find? (Text.lowercase version)).bind Node.url
      if existing = some url then [] else [.otherTarget url]
    | some _ => [.inlineLink]

def linkRemarks (project : Project) (definitions : Definitions) : List Release → List Remark
  | [] => []
  | r :: rest =>
    (linkFindings project definitions rest.isEmpty r).map (fun finding => { finding, position := r.heading.position })
      ++ linkRemarks project definitions rest

end Changelog.Review
