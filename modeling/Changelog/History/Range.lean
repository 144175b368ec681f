import Changelog.Files.Path
import Changelog.History.Git
import Changelog.History.Log
import Changelog.History.Merge
import Changelog.Version.Basic

/-! # Ranges of commits

The commits between two names, latest first. Each end is part of the range or not; a range without a lower
end goes back to the beginning.
-/

namespace Changelog

structure Bound where
  ref : Text
  inclusive : Bool
  deriving Repr, DecidableEq

structure Range where
  lower : Option Bound
  upper : Bound
  deriving Repr, DecidableEq

namespace Range

/-- The range given by an exclusive or inclusive lower and upper name. An exclusive name wins over an inclusive
    one; an empty name is none, and the upper end is the head if none is given. -/
def ofRefs (gt gte lt lte : Option Text) : Range :=
  let named := fun (ref : Option Text) (inclusive : Bool) =>
    match ref with
    | some (c :: rest) => some { ref := c :: rest, inclusive : Bound }
    | _ => none
  { lower := if gt.isSome then named gt false else named gte true
    upper := (if lt.isSome then named lt false else named lte true).getD
      { ref := Text.ofString "HEAD", inclusive := lt.isNone } }

end Range

namespace History

/-- How many commits are read if nothing else is asked for. -/
def defaultLimit : Int := 1000

/-- The first `limit` items; a negative limit leaves out that many at the end. -/
def takeLimit {α : Type} (limit : Int) (items : List α) : List α :=
  if 0 ≤ limit then items.take limit.toNat else items.take (items.length - (-limit).toNat)

/-- The arguments with which git lists `count` commits up to `upper`, without those up to `lower`. -/
def logArguments (count : Int) (upper : Text) (lower : Option Text) : List Text :=
  [Text.ofString "log", Text.ofString "--format=" ++ LogRecord.format,
    Text.ofString "--max-count=" ++ Text.ofInt count, upper] ++ lower.toList.map ('^' :: ·)

/-- The commits that git lists up to `upper`, without those up to `lower`. -/
def readLog (git : Git) (directory : Text) (count : Int) (upper : Text) (lower : Option Text) :
    Action (List Commit) := do
  if Version.isLong count.natAbs then Action.fail .numberTooLong
  else
    let output ← git.run directory (logArguments count upper lower)
    Action.ofExcept (Commit.ofLog output)

/-- The commits of a range whose ends are the commits `upper` and `lower`, before merges are credited. -/
def readRange (git : Git) (directory : Text) (range : Range) (limit : Int) (upper : Text) (lower : Option Text) :
    Action (List Commit) := do
  let listed ← readLog git directory (if range.upper.inclusive then limit else limit + 1) upper lower
  let kept := if range.upper.inclusive then listed else listed.filter fun commit => commit.oid != upper
  match lower, range.lower with
  | some oid, some bound =>
    if bound.inclusive && decide ((kept.length : Int) < limit) then
      let last ← readLog git directory 1 oid none
      return takeLimit limit (kept ++ last)
    else return takeLimit limit kept
  | _, _ => return takeLimit limit kept

/-- The commits that the ends of a range stand for, upper end first. -/
def resolveRange (git : Git) (directory : Text) (range : Range) : Action (Text × Option Text) := do
  let lower ← match range.lower with
    | none => pure none
    | some bound => some <$> git.resolve directory bound.ref
  let upper ← git.resolve directory range.upper.ref
  return (upper, lower)

def readResolved (git : Git) (directory : Text) (range : Range) (limit : Int) (upper : Text) (lower : Option Text) :
    Action (List Commit) := do
  let commits ← readRange git directory range limit upper lower
  let lowerName := (range.lower.map Bound.ref).getD (Text.ofString "None")
  Action.log .debug .history
    (Text.ofString "Read " ++ Text.ofNat commits.length ++ Text.ofString " commits in range " ++ lowerName ++
      Text.ofString ".." ++ range.upper.ref)
  return attributeMerges commits limit.toNat

/-- The commits of a range, latest first, at most `limit` of them. -/
def commits (git : Git) (directory : Text) (range : Range) (limit : Int) : Action (List Commit) := do
  let (upper, lower) ← resolveRange git directory range
  readResolved git directory range limit upper lower

/-! ## Submodules -/

/-- A submodule that stands at another commit at the end of a range than at its start. -/
structure SubmoduleChange where
  path : Text
  old : Text
  new : Text
  deriving Repr, DecidableEq

def submoduleMode : Text := Text.ofString "160000"

def SubmoduleChange.ofLine? (line : Text) : Option SubmoduleChange :=
  let (fields, path) := (Text.cutAt '\t' line).getD (line, [])
  match Text.words (fields.dropWhile (· == ':')) with
  | before :: after :: old :: new :: _ =>
    if before = submoduleMode && after = submoduleMode then some { path, old, new } else none
  | _ => none

/-- The commits of a submodule between its two states. If git fails they are left out. -/
def submoduleCommits (git : Git) (directory : Text) (limit : Int) (change : SubmoduleChange) :
    Action (List Commit) := do
  let place := (Path.ofText directory).under (Path.ofText change.path)
  let range := Range.ofRefs (some change.old) none none (some change.new)
  match ← Action.attemptGit (commits git place.text range limit) with
  | .ok found => return found.map fun commit => { commit with submodule := some (Path.ofText change.path).name }
  | .error cause =>
    Action.log .warning .history
      (Text.ofString "Skipping submodule " ++ change.path ++ Text.ofString ": " ++ cause.message)
    return []

def changedSubmodules (git : Git) (directory : Text) (limit : Int) (upper lower : Text) : Action (List Commit) := do
  let output ← git.run directory [Text.ofString "diff", Text.ofString "--raw", Text.ofString "--no-abbrev", lower, upper]
  let changes := (Text.lines output).filterMap SubmoduleChange.ofLine?
  return (← changes.mapM (submoduleCommits git directory limit)).flatten

/-- The commits of a range, followed by those of the submodules that changed in it. -/
def commitsWithSubmodules (git : Git) (directory : Text) (range : Range) (limit : Int) : Action (List Commit) := do
  let (upper, lower) ← resolveRange git directory range
  let own ← readResolved git directory range limit upper lower
  match lower with
  | none => return own
  | some lower => return own ++ (← changedSubmodules git directory limit upper lower)

end History

end Changelog
