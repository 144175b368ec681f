import Changelog.Outline.Section
import Changelog.Version.Order
import Changelog.Text.Letter

/-! # Releases

The heading of a release says which version it is and when it came out. It is plain text, a version and a date
or the word for what is not released yet, or it begins with a link around the version.
-/

namespace Changelog

/-- What a release heading says. -/
structure ReleaseHeading where
  version : Option Text := none
  date : Option Text := none
  /-- The whole text of a heading that is a single node. -/
  title : Option Text := none
  /-- Is the version a link or a link reference? -/
  link : Option Kind := none
  /-- Does the heading have a form that is understood? -/
  isParseable : Bool := false
  deriving Repr, DecidableEq, Inhabited

namespace ReleaseHeading

def dateSeparator : Text := Text.ofString " - "

def saysUnreleased (text : Text) : Bool := Text.containsFolded unreleased text

/-- What plain text says: it speaks of what is not released yet, or it is a version with or without a date. -/
def ofPlain (text : Text) : ReleaseHeading :=
  if saysUnreleased text then { version := some unreleased, title := some text, isParseable := true }
  else
    match Text.splitAll dateSeparator text with
    | [version] => { version := some version, title := some text, isParseable := true }
    | [version, date] => { version := some version, date := some date, title := some text, isParseable := true }
    | _ => { title := some text }

/-- What a linked version says when `after` follows it in the heading. -/
def ofLinked (kind : Kind) (version : Text) (after : List Node) : ReleaseHeading :=
  match after with
  | [] =>
    { version := some (if saysUnreleased version then unreleased else version)
      title := some version, link := some kind, isParseable := true }
  | [{ kind := .text, value, .. }] =>
    match Text.splitAll dateSeparator (value.getD []) with
    | [[], date] => { version := some version, date := some date, link := some kind, isParseable := true }
    | _ => { link := some kind }
  | _ => { link := some kind }

def ofNodes : List Node → ReleaseHeading
  | [] => {}
  | first :: after =>
    if first.kind = .text && after.isEmpty then ofPlain (first.value.getD [])
    else if first.kind = .link || first.kind = .linkReference then
      match first.soleChild? .text with
      | some label => ofLinked first.kind (label.value.getD []) after
      | none => {}
    else {}

end ReleaseHeading

/-- A release: a section with what its heading said when it was read. The index counts releases in the order in
    which they came to the outline. -/
structure Release extends ReleaseHeading where
  body : Section
  index : Nat
  /-- Version of the next older release. -/
  previous : Option Text := none
  deriving Repr, Inhabited

namespace Release

def ofHeading (index : Nat) (heading : Node) : Release :=
  { ReleaseHeading.ofNodes heading.children with body := { heading }, index }

def heading (r : Release) : Node := r.body.heading

def groups (r : Release) : List Section := r.body.children

def isEmpty (r : Release) : Bool := r.body.isEmpty

def isUnreleased (r : Release) : Bool := r.version = some unreleased

/-- The version, unless there is none or it is empty. -/
def version? (r : Release) : Option Text := r.version.filter (!·.isEmpty)

def mapBody (f : Section → Section) (r : Release) : Release := { r with body := f r.body }

/-- The release with other inline nodes in its heading. What the heading said stays known. -/
def withHeadingNodes (nodes : List Node) (r : Release) : Release :=
  r.mapBody fun s => { s with heading := { s.heading with children := nodes } }

/-! ## Order -/

/-- How far apart two releases stand: by version, newest first, as minus one, zero or one, or by index if one of
    them has no version. -/
def distance (a b : Release) : Except Fault Int :=
  match a.version?, b.version? with
  | some v, some w =>
    (Version.compareNewest v w).map fun
      | .lt => -1
      | .eq => 0
      | .gt => 1
  | _, _ => .ok ((a.index : Int) - b.index)

/-- Order of two releases, newest first; by index if one of them has no version. -/
def newestFirst (a b : Release) : Ordering :=
  match a.version?, b.version? with
  | some v, some w => Version.newestFirst v w
  | _, _ => compare a.index b.index

def compareNewest (a b : Release) : Except Fault Ordering :=
  match a.version?, b.version? with
  | some v, some w => Version.compareNewest v w
  | _, _ => .ok (compare a.index b.index)

def isSorted (releases : List Release) : Except Fault Bool := isSortedBy compareNewest releases

/-- Releases newest first. Those that are in order are left as they are. -/
def sort (releases : List Release) : Except Fault (List Release) := do
  if ← isSorted releases then return releases
  else if Version.anyClash (releases.filterMap version?) then .error .numberTooLong
  else return stableSort newestFirst releases

/-- Points every release at the version of the next one. -/
def relate : List Release → List Release
  | [] => []
  | r :: rest => { r with previous := rest.head?.bind (·.version) } :: relate rest

end Release

end Changelog
