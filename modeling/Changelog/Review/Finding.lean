import Changelog.Diagnostic
import Changelog.Entry.Classify
import Changelog.Fault
import Changelog.Files.Path
import Changelog.Version.Bump

/-! # Findings

What a review can find, by which rule, and how it is said.
-/

namespace Changelog

inductive Rule where
  | filename
  | title
  | latestReleaseFirst
  | latestDefinitionFirst
  | addNewRelease
  | releaseHeadingDepth
  | releaseHeading
  | uniqueRelease
  | releaseVersion
  | releaseDate
  | noEmptyRelease
  | groupHeading
  | groupHeadingType
  | noUncategorizedChanges
  | noEmptyGroup
  | releaseVersionLink
  | releaseVersionLinkReference
  deriving Repr, DecidableEq

def Rule.name : Rule → Text
  | filename => Text.ofString "filename"
  | title => Text.ofString "title"
  | latestReleaseFirst => Text.ofString "latest-release-first"
  | latestDefinitionFirst => Text.ofString "latest-definition-first"
  | addNewRelease => Text.ofString "add-new-release"
  | releaseHeadingDepth => Text.ofString "release-heading-depth"
  | releaseHeading => Text.ofString "release-heading"
  | uniqueRelease => Text.ofString "unique-release"
  | releaseVersion => Text.ofString "release-version"
  | releaseDate => Text.ofString "release-date"
  | noEmptyRelease => Text.ofString "no-empty-release"
  | groupHeading => Text.ofString "group-heading"
  | groupHeadingType => Text.ofString "group-heading-type"
  | noUncategorizedChanges => Text.ofString "no-uncategorized-changes"
  | noEmptyGroup => Text.ofString "no-empty-group"
  | releaseVersionLink => Text.ofString "release-version-link"
  | releaseVersionLinkReference => Text.ofString "release-version-link-reference"

/-- What is wrong with a changelog. -/
inductive Finding where
  /-- The file has a name that is often used for changelogs. -/
  | otherName
  | noTitle
  | releasesUnsorted
  | definitionsUnsorted
  /-- What was asked to be added is no version and no bump. -/
  | noVersionToAdd
  | versionExists (version : Text)
  | wrongDepth
  | unclearHeading
  | repeatedVersion
  /-- The heading of what is not released yet says more than that. -/
  | impureUnreleased
  | noVersion
  | invalidVersion
  | noDate
  | unclearDate
  | noCommits (version : Text) (cause : GitFault)
  | emptyRelease (version : Option Text)
  | unclearGroup
  | unknownGroup
  | uncategorizedChanges (version : Option Text)
  | emptyGroup (type : Option Text)
  | noLink
  | inlineLink
  | otherTarget (url : Text)
  deriving Repr, DecidableEq

namespace Finding

open Text (ofString)

def rule : Finding → Rule
  | otherName => .filename
  | noTitle => .title
  | releasesUnsorted => .latestReleaseFirst
  | definitionsUnsorted => .latestDefinitionFirst
  | noVersionToAdd | versionExists _ => .addNewRelease
  | wrongDepth => .releaseHeadingDepth
  | unclearHeading | impureUnreleased => .releaseHeading
  | repeatedVersion => .uniqueRelease
  | noVersion | invalidVersion => .releaseVersion
  | noDate | unclearDate => .releaseDate
  | noCommits _ _ | emptyRelease _ => .noEmptyRelease
  | unclearGroup => .groupHeading
  | unknownGroup => .groupHeadingType
  | uncategorizedChanges _ => .noUncategorizedChanges
  | emptyGroup _ => .noEmptyGroup
  | noLink | otherTarget _ => .releaseVersionLink
  | inlineLink => .releaseVersionLinkReference

def versionOr (version : Option Text) : Text := (version.filter (!·.isEmpty)).getD (ofString "n/a")

def message : Finding → Text
  | otherName => ofString "Filename must be CHANGELOG.md"
  | noTitle => ofString "Changelog must start with a top-level \"Changelog\" heading"
  | releasesUnsorted => ofString "Releases must be sorted latest-first"
  | definitionsUnsorted => ofString "Definitions must be sorted latest-first"
  | noVersionToAdd =>
    ofString "Version to add must be semver-valid or one of " ++ Text.join (ofString ", ") (Bump.all.map Bump.keyword)
  | versionExists version => ofString "Release (" ++ version ++ ofString ") already exists"
  | wrongDepth => ofString "Release must start with second-level heading"
  | unclearHeading => ofString "Release heading must be \"Unreleased\" or have the format \"<version> - <date>\""
  | repeatedVersion => ofString "Release version must be unique"
  | impureUnreleased => ofString "Release heading must be \"Unreleased\""
  | noVersion => ofString "Release must have a version"
  | invalidVersion => ofString "Release version must be semver-valid"
  | noDate => ofString "Release must have date"
  | unclearDate => ofString "Release date must have format YYYY-MM-DD"
  | noCommits version cause =>
    ofString "Failed to get commits for release (" ++ version ++ ofString "): " ++ cause.message
  | emptyRelease version => ofString "Release (" ++ versionOr version ++ ofString ") is empty"
  | unclearGroup => ofString "Group must start with a third-level, text-only heading"
  | unknownGroup => ofString "Group heading must be one of " ++ Text.join (ofString ", ") changeTypes
  | uncategorizedChanges version => ofString "Release (" ++ versionOr version ++ ofString ") has uncategorized changes"
  | emptyGroup type => ofString "Group (" ++ type.getD (ofString "None") ++ ofString ") is empty"
  | noLink => ofString "Release version must have a link"
  | inlineLink => ofString "Use link reference in release heading"
  | otherTarget url => ofString "Expected link to " ++ url

end Finding

/-- A finding with its place. -/
structure Remark where
  finding : Finding
  position : Option Position := none
  deriving Repr, DecidableEq

/-- The remark as it is shown for the document at a path. -/
def Remark.diagnostic (path : Option Path) (remark : Remark) : Diagnostic :=
  { message := remark.finding.message, rule := remark.finding.rule.name, path := path.map Path.text
    position := remark.position }

end Changelog
