import Changelog.Markdown.Block

/-! # Entries

An entry is a title and a longer text. In a changelog it is a list item: the title, and under it the text as
blocks, or as a list of its own if the text is nothing but items.
-/

namespace Changelog

/-- A single entry of a changelog. -/
structure Entry where
  title : Text
  description : Text := []
  deriving Repr, DecidableEq, Inhabited

/-- The lines of a text that are not blank, without white space around them. -/
def filledLines (text : Text) : List Text := ((Text.lines text).map Text.strip).filter (!·.isEmpty)

/-- What stands on a line after a bullet and a space. -/
def dropBullet? : Text → Option Text
  | '*' :: ' ' :: rest => some rest
  | '-' :: ' ' :: rest => some rest
  | _ => none

/-- Is a text made of items only, as those of squashed merges are? -/
def isItemized (text : Text) : Bool :=
  let lines := filledLines text
  !lines.isEmpty && lines.all fun line => (dropBullet? line).isSome

/-- The blocks of a text, or else a paragraph of `standIn`. -/
def blocksOr (text standIn : Text) : List Node :=
  let blocks := Document.parseFragment text
  if blocks.isEmpty then [Node.paragraph [Node.ofText standIn]] else blocks

namespace Entry

def node (entry : Entry) : Node :=
  let head := blocksOr entry.title entry.title
  if Text.isBlank entry.description then Node.listItem head
  else if isItemized entry.description then
    let items := (filledLines entry.description).map fun line => Node.listItem (blocksOr (line.drop 2) [])
    Node.listItem (head ++ [Node.list items])
  else Node.listItem (head ++ Document.parseFragment entry.description) true

/-- The list of some entries. It is spread if one of its items is. -/
def list (entries : List Entry) : Node :=
  let items := entries.map Entry.node
  Node.list items (items.any Node.spread)

end Entry

end Changelog
