import Changelog.Proofs.Markdown.Fragment
import Changelog.Review.Link

/-! # Tidy changelogs

How a changelog looks when it is kept as the rules ask for: releases from the newest to the oldest, each with its
version, its date and groups of entries, every one but the oldest linked to the comparison with the next older one. The
text is written down here line by line, without regard to how it is read.
-/

namespace Changelog

open Text (ofString)

/-- The text of an entry: one line that holds more than dashes with blanks between them. -/
structure TidyItem where
  text : Text
  unbroken : text.IsUnbroken
  marked : IsMarked text

structure TidyGroup where
  type : Text
  items : List TidyItem
  known : type ∈ changeTypes
  filled : items ≠ []

/-- Is the text a date in plain digits, four, two and two, with dashes between them? -/
def isPlainDate : Text → Bool
  | [a, b, c, d, dash, e, f, dash', g, h] =>
    [a, b, c, d, e, f, g, h].all isPlainDigit && dash == '-' && dash' == '-'
  | _ => false

/-- A version in lower case, and when it came out. -/
structure TidyVersion where
  version : Text
  date : Text
  valid : Version.isValid version
  lower : ∀ c ∈ version, c.isUpper = false
  released : Text.contains unreleased version = false
  comparable : Version.hasLongCandidate version = false
  dated : isPlainDate date

inductive TidyTitle where
  | unreleased
  | released (version : TidyVersion)

structure TidyRelease where
  title : TidyTitle
  groups : List TidyGroup
  filled : groups ≠ []

/-- The version by which releases are compared. -/
def TidyTitle.version : TidyTitle → Text
  | unreleased => Changelog.unreleased
  | released v => v.version

def TidyRelease.version (r : TidyRelease) : Text := r.title.version

/-- Releases, each strictly newer than the next one. What is not released yet is newer than every version, so it can
    only come first. -/
structure TidyChangelog where
  releases : List TidyRelease
  newestFirst : releases.IsChain fun r s => Version.compareNewest r.version s.version = .ok .lt

/-! ## Texts -/

def TidyItem.line (item : TidyItem) : Text := ofString "- " ++ item.text

/-- A group as it is written: its heading, and its entries in neighbouring lines. -/
def TidyGroup.blocks (group : TidyGroup) : List Text :=
  [ofString "### " ++ group.type, Text.unlines (group.items.map TidyItem.line)]

/-- The heading of a release, which is linked if there is an older one. -/
def TidyTitle.line (linked : Bool) : TidyTitle → Text
  | unreleased => if linked then ofString "## [Unreleased][unreleased]" else ofString "## Unreleased"
  | released v =>
    ofString "## " ++ (if linked then '[' :: v.version ++ [']'] else v.version) ++ ofString " - " ++ v.date

def TidyRelease.related : List TidyRelease → List (TidyRelease × Option Text)
  | [] => []
  | r :: rest => (r, rest.head?.map TidyRelease.version) :: related rest

namespace TidyChangelog

/-- Each release with the version of the next older one. -/
def related (log : TidyChangelog) : List (TidyRelease × Option Text) := TidyRelease.related log.releases

def blocks (log : TidyChangelog) : List Text :=
  ofString "# Changelog" :: log.related.flatMap fun (r, previous) =>
    r.title.line previous.isSome :: r.groups.flatMap TidyGroup.blocks

/-- The links: for each release with an older one, the version of both. -/
def links (log : TidyChangelog) : List (Text × Text) :=
  log.related.filterMap fun (r, previous) => previous.map (r.version, ·)

def definitionLines (project : Review.Project) (log : TidyChangelog) : List Text :=
  log.links.map fun (version, previous) =>
    '[' :: version ++ ofString "]: " ++ Review.compareUrl project version previous

/-- The whole text: blocks with a blank line between them, and the definitions as the last block. -/
def text (project : Review.Project) (log : TidyChangelog) : Text :=
  let definitions := log.definitionLines project
  let last := if definitions.isEmpty then [] else [Text.unlines definitions]
  Text.join ['\n', '\n'] (log.blocks ++ last) ++ ['\n']

end TidyChangelog

end Changelog
