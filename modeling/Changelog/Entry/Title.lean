import Changelog.History.Commit
import Changelog.Text.Letter
import Changelog.Text.Blank

/-! # Titles of entries

The title of an entry is that of its commit, with the subsystem and a warning of breaking changes in front and
the pull request or the commit behind.
-/

namespace Changelog

open Text (ofString)

/-- A title with a subsystem in front, if there is one, and with the word for a breaking change made a label. -/
def labelledTitle (title : Text) (subsystem : Option Text) : Text :=
  let subsystem := subsystem.getD []
  let (title, label) :=
    match Text.dropLeadFolded? (ofString "breaking:") title with
    | some rest =>
      (Text.strip rest, if subsystem.isEmpty then ofString "Breaking" else subsystem ++ ofString " (breaking)")
    | none => (title, subsystem)
  if label.isEmpty then title else ofString "**" ++ label ++ ofString ":** " ++ title

namespace Commit

/-- The pull request of a commit; a request without a number is none. -/
def requestNumber? (commit : Commit) : Option Nat := commit.request.filter (· != 0)

/-- The title of a commit with what it refers to: the pull request, or else the commit itself. -/
def entryTitle (commit : Commit) : Text :=
  let submodule := commit.submodule.getD []
  let title := labelledTitle commit.title commit.submodule
  let reference :=
    match commit.requestNumber? with
    | some request => submodule ++ '#' :: Text.ofNat request
    | none => if submodule.isEmpty then commit.shortOid else submodule ++ '@' :: commit.shortOid
  title ++ ofString " (" ++ reference ++ [')']

end Commit

end Changelog
