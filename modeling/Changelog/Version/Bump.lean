import Changelog.Version.Order

/-! # Bumps

The next version after a given one. A bump to a prerelease of a final version first bumps one of the
numbers, so that the result is newer.
-/

namespace Changelog

inductive Bump where
  | major | minor | patch | premajor | preminor | prepatch | prerelease
  deriving Repr, DecidableEq

namespace Bump

/-- All bumps, in the order in which they are listed to the user. -/
def all : List Bump := [major, minor, patch, premajor, preminor, prepatch, prerelease]

def keyword : Bump → Text
  | major => Text.ofString "major"
  | minor => Text.ofString "minor"
  | patch => Text.ofString "patch"
  | premajor => Text.ofString "premajor"
  | preminor => Text.ofString "preminor"
  | prepatch => Text.ofString "prepatch"
  | prerelease => Text.ofString "prerelease"

def ofKeyword? (word : Text) : Option Bump := all.find? fun bump => bump.keyword = word

end Bump

namespace Version

def nextMajor (v : Version) : Version := { major := v.major + 1, minor := 0, patch := 0 }

def nextMinor (v : Version) : Version := { major := v.major, minor := v.minor + 1, patch := 0 }

def nextPatch (v : Version) : Version := { major := v.major, minor := v.minor, patch := v.patch + 1 }

/-- The identifiers of the next prerelease: the last one is raised if it is a number, and followed by a zero
    if it is not. -/
def raiseLast : List Text → List Text
  | [] => []
  | [last] => if isNumeric last then [Text.ofNat (Nat.ofDigitChars 10 last 0 + 1)] else [last, ['0']]
  | first :: next :: rest => first :: raiseLast (next :: rest)

/-- The next prerelease of the same numbers; the first candidate if there was none. -/
def nextPrerelease (v : Version) : Version :=
  { major := v.major, minor := v.minor, patch := v.patch,
    prerelease := if v.prerelease.isEmpty then [Text.ofString "rc", ['1']] else raiseLast v.prerelease }

def bump (v : Version) : Bump → Version
  | .major => v.nextMajor
  | .minor => v.nextMinor
  | .patch => v.nextPatch
  | .premajor => v.nextMajor.nextPrerelease
  | .preminor => v.nextMinor.nextPrerelease
  | .prepatch => v.nextPatch.nextPrerelease
  | .prerelease => if v.prerelease.isEmpty then v.nextPatch.nextPrerelease else v.nextPrerelease

/-- Did the bump make the last identifier a number with too many digits? -/
def hasLongLast (v : Version) : Bool :=
  (v.prerelease.getLast?.map fun last => isNumeric last && decide (maxNumberDigits < last.length)).getD false

/-- The text of the version after the one that `text` stands for, by the bump that `keyword` names. -/
def bumpText (text keyword : Text) : Except Fault Text := do
  let v ← read text
  match Bump.ofKeyword? keyword with
  | none => .error (.unknownBump keyword)
  | some bump =>
    let next := v.bump bump
    if next.hasLongNumber || next.hasLongLast then .error .numberTooLong else .ok next.text

end Version

end Changelog
