import Changelog.Entry.Classify
import Changelog.History.Range
import Changelog.Outline.Basic
import Changelog.Review.Context
import Changelog.Review.Finding

/-! # Filling empty releases

A release without entries is filled from the commits after the next older release, up to its own tag, or up to
the head if it is not tagged yet.
-/

namespace Changelog.Review

open Text (ofString)

/-- The names between which the commits of a release are looked for: after the first, and up to the head or
    before the second. -/
structure Gap where
  after : Text
  before : Option Text
  deriving Repr, DecidableEq

namespace Gap

def range (gap : Gap) : Range :=
  match gap.before with
  | none => Range.ofRefs (some gap.after) none none (some (ofString "HEAD"))
  | some before => Range.ofRefs (some gap.after) none (some before) none

def text (gap : Gap) : Text :=
  let (key, ref) :=
    match gap.before with
    | none => (ofString "lte", ofString "HEAD")
    | some before => (ofString "lt", before)
  ofString "\x7b'gt': " ++ Text.quoted gap.after ++ ofString ", " ++ Text.quoted key ++ ofString ": " ++
    Text.quoted ref ++ ofString "\x7d"

end Gap

/-- The gap in which the commits of a version are looked for, given the next older version. A version that is
    not released yet, or newer than the current one, has no tag so far. -/
def gapOf (project : Project) (version previous : Text) : Except Fault Gap := do
  let ahead ← if version = unreleased then pure true else Version.isNewer version project.version
  return {
    after := Version.tag previous project.tags
    before := if ahead then none else some (Version.tag version project.tags) }

/-- Reads the commits of a range. -/
abbrev Fetch := Range → Action (List Commit)

/-- Reads commits from git in the project directory, as the options ask for. -/
def fetchFrom (git : Git) (options : Options) (directory : Path) : Fetch := fun range =>
  if options.submodules then History.commitsWithSubmodules git directory.text range options.commitLimit
  else History.commits git directory.text range options.commitLimit

def groupsOf (commits : List Commit) : List Section :=
  (classify commits).filterMap fun (type, entries) =>
    if entries.isEmpty then none else some ((Section.group 3 type).addEntries entries)

/-- The version and the next older version of an empty release that can be filled. -/
def fillable? (fix : Bool) (r : Release) : Option (Text × Text) :=
  if fix && r.isEmpty then
    match r.version?, r.previous.filter (!·.isEmpty) with
    | some version, some previous => some (version, previous)
    | _, _ => none
  else none

/-- The release with the groups that its commits make; without groups it is remarked on. -/
def fill (r : Release) (version : Text) (commits : List Commit) : Release × List Finding :=
  let groups := groupsOf commits
  if groups.isEmpty then (r, [.emptyRelease (some version)])
  else (r.mapBody fun s => { s with children := s.children ++ groups }, [])

/-- Fetches the commits of a release and fills it. If git fails the release stays as it is. -/
def fillFrom (project : Project) (fetch : Fetch) (r : Release) (version previous : Text) :
    Action (Release × List Finding) := do
  let gap ← Action.ofExcept (gapOf project version previous)
  Action.log .debug .review
    (ofString "Fetching commits for release " ++ version ++ ofString ": " ++ gap.text)
  match ← Action.attemptGit (Action.inThread (fetch gap.range)) with
  | .error cause =>
    Action.log .warning .review
      (ofString "Failed to get commits for release " ++ version ++ ofString ": " ++ cause.message)
    return (r, [.noCommits version cause])
  | .ok commits =>
    let (filled, findings) := fill r version commits
    if findings.isEmpty then
      Action.log .info .review
        (ofString "Filled release " ++ version ++ ofString " from " ++ Text.ofNat commits.length ++
          ofString " commits")
    return (filled, findings)

/-- A release that is empty is filled if it can be, and remarked on if it stays empty. -/
def backfill (fix : Bool) (project : Project) (fetch : Fetch) (r : Release) : Action (Release × List Finding) :=
  if !r.isEmpty then pure (r, [])
  else
    match fillable? fix r with
    | some (version, previous) => fillFrom project fetch r version previous
    | none => pure (r, [.emptyRelease r.version])

end Changelog.Review
