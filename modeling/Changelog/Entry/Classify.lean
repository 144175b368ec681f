import Changelog.Entry.Basic
import Changelog.Entry.Reference
import Changelog.Entry.Title

/-! # Entries from commits

Every commit that is no merge becomes an entry. The entries are put into groups; so far all of them belong to
the group that a reader still has to sort.
-/

namespace Changelog

def changeTypes : List Text :=
  ["Changed", "Added", "Deprecated", "Removed", "Fixed", "Security"].map String.toList

/-- The group of entries that were not yet assigned a type. -/
def uncategorized : Text := Text.ofString "Uncategorized"

/-- Entries by groups, in the order of the groups. -/
abbrev GroupedEntries := List (Text × List Entry)

namespace Commit

/-- Was the commit written by a program that updates dependencies? -/
def isByBot (author : Signature) : Bool :=
  author.name = Text.ofString "Greenkeeper" || author.name = Text.ofString "greenkeeper[bot]" ||
    author.email.endsWith (Text.ofString "@greenkeeper.io")

/-- Who is named in the entry: the author, or in place of a program the one who merged or recorded the commit. -/
def credited (commit : Commit) : Signature :=
  if isByBot commit.author then (commit.merger.map Merger.author).getD commit.committer else commit.author

def entry (commit : Commit) : Entry :=
  let (description, references) := Reference.take commit.description
  let parenthesized := fun text => Text.ofString " (" ++ text ++ [')']
  { title := commit.entryTitle ++ references.flatMap parenthesized ++ parenthesized commit.credited.name
    description }

end Commit

def classify (commits : List Commit) : GroupedEntries :=
  changeTypes.map (·, []) ++ [(uncategorized, (commits.filter (!·.isMerge)).map Commit.entry)]

end Changelog
