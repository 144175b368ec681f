import Changelog.Outline.Basic
import Changelog.Review.Context
import Changelog.Review.Finding

/-! # Adding a release

A release can be added by its version, or by a bump of the newest valid version there is.
-/

namespace Changelog.Review

/-- The newest valid version of some releases. -/
def newestVersion? (sorting : Sorting) (releases : List Release) : Except Fault (Option Text) :=
  (sorting.sort releases).map fun sorted => (sorted.filterMap (·.version)).find? Version.isValid

/-- The version that is asked for: the result of a bump, or a version with or without the letter of its tag.
    Anything else is left as it is. -/
def requestedVersion (sorting : Sorting) (project : Project) (releases : List Release) (request : Text) : Except Fault Text :=
  match Bump.ofKeyword? request with
  | some _ => do
    let newest ← newestVersion? sorting releases
    Version.bumpText (newest.getD project.version) request
  | none =>
    match Text.dropLead? ['v'] request with
    | some plain => .ok (if Version.isValid plain then plain else request)
    | none => .ok request

/-- The heading of a release that comes out on a day. -/
def datedHeading (version today : Text) : Node :=
  Node.heading 2 [Node.ofText (version ++ ReleaseHeading.dateSeparator ++ today)]

/-- The outline with the release of a version, or why it cannot be added. -/
def addVersion (today version : Text) (o : Outline) : Except Finding Outline :=
  if !Version.isValid version then .error .noVersionToAdd
  else if o.releases.any fun r => r.version = some version then .error (.versionExists version)
  else .ok (o.addRelease (datedHeading version today))

end Changelog.Review
