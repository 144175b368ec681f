import Changelog.Gather
import Changelog.Markdown.Block
import Changelog.Markdown.Printer
import Changelog.Review.Addition
import Changelog.Review.Backfill
import Changelog.Review.Link
import Changelog.Review.Release

/-! # Reviews

A review looks at a document and reports what is wrong with it. If it is asked to fix the document, it also
gives it its title, sorts and links its releases, fills those that are empty, and sorts the definitions.
-/

namespace Changelog.Review

open Text (ofString)

/-- The name that the file of a changelog has to have. -/
def fileName : Text := ofString "CHANGELOG.md"

/-- Names without extension that are often used for changelogs. -/
def otherNames : List Text := ["history", "releases", "changelog"].map String.toList

def remark (path : Option Path) (remarks : List Remark) : Action Unit :=
  Action.report (remarks.map (Remark.diagnostic path))

/-! ## Releases -/

/-- Reviews one release after others with the versions `seen`. -/
def reviewRelease (path : Option Path) (fix : Bool) (project : Project) (fetch : Fetch) (seen : List Text)
    (r : Release) : Action Release := do
  remark path (headingRemarks fix seen r)
  if !isReadable r then return r
  else
    let (r, findings) ← backfill fix project fetch r
    remark path (findings.map fun finding => { finding, position := r.heading.position })
    remark path (r.groups.flatMap (groupRemarks r))
    return r

/-- The reviews of releases. The versions seen are those of the releases in front, since a review looks at them before
    it pauses. -/
def reviews (path : Option Path) (fix : Bool) (project : Project) (fetch : Fetch) :
    (seen : List Text) → List Release → List (Action Release)
  | _, [] => []
  | seen, r :: rest =>
    reviewRelease path fix project fetch seen r :: reviews path fix project fetch (seenAfter seen r) rest

/-- Reviews releases side by side. -/
def reviewReleases (schedule : List Nat) (path : Option Path) (fix : Bool) (project : Project) (fetch : Fetch)
    (releases : List Release) : Action (List Release) :=
  Action.gather schedule (reviews path fix project fetch [] releases)

/-! ## The outline -/

def addRequested (env : Environment) (path : Option Path) (project : Project) (request : Option Text) (root : Node)
    (o : Outline) : Action Outline := do
  match request.filter (!·.isEmpty) with
  | none => return o
  | some request =>
    let version ← Action.ofExcept (requestedVersion env.sorting project o.releases request)
    match addVersion env.today version o with
    | .ok added =>
      Action.log .info .review (ofString "Added release " ++ version)
      return added
    | .error finding =>
      remark path [{ finding, position := (o.heading.getD root).position }]
      return o

/-- The outline with its title and the release that is asked for, sorted. -/
def arrange (env : Environment) (path : Option Path) (options : Options) (project : Project) (root : Node)
    (o : Outline) : Action Outline := do
  let o ← addRequested env path project options.add root o.setTitle
  return { o with releases := ← Action.ofExcept (env.sorting.sort o.releases) }

/-- Remarks on the title and on the order of the releases. The outline is sorted for the other rules. -/
def inspectOrder (sorting : Sorting) (path : Option Path) (root : Node) (o : Outline) : Action Outline := do
  if !o.hasTitle then
    remark path [{ finding := .noTitle, position := (o.heading.getD root).position }]
  if ← Action.ofExcept (Release.isSorted o.releases) then return o
  else
    remark path [{ finding := .releasesUnsorted, position := root.position }]
    return { o with releases := ← Action.ofExcept (sorting.sort o.releases) }

/-- Links the releases and sorts the definitions. -/
def link (project : Project) (o : Outline) : Action Outline := do
  let (releases, definitions) := linkReleases project o.releases o.definitions
  return { o with releases, definitions := ← Action.ofExcept definitions.sort }

/-- Remarks on the links and on the order of the definitions. -/
def inspectLinks (path : Option Path) (project : Project) (root : Node) (o : Outline) : Action Unit := do
  remark path (linkRemarks project o.definitions o.releases)
  if !(← Action.ofExcept o.definitions.isSorted) then
    remark path [{ finding := .definitionsUnsorted, position := root.position }]

/-- Reviews an outline; if it is to be fixed, the result is the fixed outline. -/
def reviewOutline (env : Environment) (path : Option Path) (options : Options) (project : Project) (fetch : Fetch)
    (root : Node) (o : Outline) : Action Outline := do
  let o ← if options.fix then arrange env path options project root o else inspectOrder env.sorting path root o
  let releases ← reviewReleases env.schedule path options.fix project fetch (Release.relate o.releases)
  let o := { o with releases }
  if options.fix then link project o
  else
    inspectLinks path project root o
    return o

/-! ## Documents -/

/-- Is the document looked into? One without a path is. -/
def isReviewed (path : Option Path) : Bool := (path.map fun path => decide (path.name = fileName)).getD true

/-- The remark on a file with another name, if it is one that is often used for changelogs. -/
def nameRemarks (path : Option Path) (root : Node) : List Remark :=
  match path with
  | some path =>
    if Text.lowercase path.stem ∈ otherNames then [{ finding := .otherName, position := root.position }] else []
  | none => []

/-- Reviews a document. The result is its blocks after fixing, or nothing if they stay as they are. -/
def run (env : Environment) (path : Option Path) (options : Options) (root : Node) : Action (Option (List Node)) := do
  let directory ← Action.ofExcept (projectDirectory env options path)
  if !isReviewed path then
    remark path (nameRemarks path root)
    return none
  else if root.kind ≠ .root then Action.fail (.setup .rootExpected)
  else
    let project ← findProject env options directory
    let o := Outline.ofNodes root.children
    Action.log .debug .review
      (ofString "Linting " ++ (path.map Path.text).getD (ofString "None") ++ ofString " with " ++
        Text.ofNat o.releases.length ++ ofString " releases")
    let o ← reviewOutline env path options project (fetchFrom env.git options directory) root o
    return if options.fix then some o.nodes else none

structure Report where
  diagnostics : List Diagnostic
  /-- The text after fixing; the text itself if it was left alone. -/
  content : Text
  changed : Bool
  deriving Repr, DecidableEq

def text (env : Environment) (path : Option Path) (options : Options) (content : Text) : Action Report :=
  let root := Document.parse content
  let review := run env path options root
  { outcome := review.outcome.map fun
      | none => { diagnostics := review.diagnostics, content, changed := false }
      | some blocks =>
        let fixed := Document.print { root with children := blocks }
        { diagnostics := review.diagnostics, content := fixed, changed := decide (fixed ≠ content) }
    events := review.events }

/-- Reviews a document that was read before: the diagnostics, and the document after fixing. -/
def tree (env : Environment) (path : Option Path) (options : Options) (root : Node) : Action (List Diagnostic × Node) :=
  let review := run env path options root
  { outcome := review.outcome.map fun blocks =>
      (review.diagnostics, { root with children := blocks.getD root.children })
    events := review.events }

/-- Reviews the file at a path. A text that was changed is written back. -/
def file (env : Environment) (path : Path) (options : Options) : Action (Report × Files) := do
  let place := env.directory.under path
  match env.files.read place with
  | .error (.missing _) => Action.fail (.setup (.changelogMissing path.text))
  | .error cause => Action.fail (.file cause)
  | .ok bytes =>
    match Text.decode? bytes with
    | none => Action.fail (.undecodable path.text)
    | some content =>
      let report ← text env (some path) options (Text.unifyNewlines content)
      if report.changed then
        Action.log .info .review (ofString "Wrote fixed changelog to " ++ path.text)
        return (report, env.files.write place (Text.encode report.content))
      else return (report, env.files)

end Changelog.Review
