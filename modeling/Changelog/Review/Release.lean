import Changelog.Outline.Basic
import Changelog.Review.Finding

/-! # Rules for releases and groups

What the heading of a release and the groups in it have to look like.
-/

namespace Changelog.Review

/-- Is the text a date: four digits, two and two, with dashes between them? A line feed at the end is let
    pass. -/
def isDate (text : Text) : Bool :=
  let date := (Text.dropTail? ['\n'] text).getD text
  match date with
  | [a, b, c, d, dash, e, f, dash', g, h] =>
    [a, b, c, d, e, f, g, h].all isDecimalDigit && dash == '-' && dash' == '-'
  | _ => false

/-- Is the heading of a release one that is looked into? -/
def isReadable (r : Release) : Bool := r.heading.depth = some 2 && r.isParseable

def versionFindings (r : Release) : List Finding :=
  let version :=
    match r.version? with
    | none => [.noVersion]
    | some version => if Version.isValid version then [] else [.invalidVersion]
  let date :=
    match r.date.filter (!·.isEmpty) with
    | none => [.noDate]
    | some date => if isDate date then [] else [.unclearDate]
  version ++ date

/-- What is wrong with a readable heading, after releases with the versions `seen`. What the heading of an
    unreleased release says besides is let pass when the heading is going to be fixed. -/
def headingFindings (fix : Bool) (seen : List Text) (r : Release) : List Finding :=
  let known :=
    match r.version? with
    | none => []
    | some version =>
      (if version ∈ seen then [.repeatedVersion] else []) ++
        (if !fix && r.isUnreleased && r.title != some (Text.ofString "Unreleased") then [.impureUnreleased] else [])
  known ++ if r.isUnreleased then [] else versionFindings r

def releaseFindings (fix : Bool) (seen : List Text) (r : Release) : List Finding :=
  if r.heading.depth ≠ some 2 then [.wrongDepth]
  else if !r.isParseable then [.unclearHeading]
  else headingFindings fix seen r

def seenAfter (seen : List Text) (r : Release) : List Text :=
  if isReadable r then seen ++ r.version?.toList else seen

def groupFindings (version : Option Text) (group : Section) : List Finding :=
  if !group.hasGroupHeading then [.unclearGroup]
  else
    let type := group.groupType?
    (if type = some uncategorized then [.uncategorizedChanges version]
      else if (type.map changeTypes.contains).getD false then []
      else [.unknownGroup]) ++
      if group.isEmpty then [.emptyGroup type] else []

/-- The remarks on a group; one without a place is shown at the heading of its release. -/
def groupRemarks (r : Release) (group : Section) : List Remark :=
  (groupFindings r.version group).map fun finding =>
    { finding, position := group.heading.position <|> r.heading.position }

def headingRemarks (fix : Bool) (seen : List Text) (r : Release) : List Remark :=
  (releaseFindings fix seen r).map fun finding => { finding, position := r.heading.position }

end Changelog.Review
