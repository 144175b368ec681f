import Changelog.Markdown.Node
import Changelog.Text.Line

/-! # Printing nodes

Documents are written with one blank line between blocks. Definitions that follow each other, and blocks
that touched in the source, stay on neighbouring lines.
-/

namespace Changelog

namespace Node

def orEmpty (part : Option Text) : Text := part.getD []

/-- The first of two optional texts that is not empty, or else the second. -/
def firstNonempty (first second : Option Text) : Option Text :=
  if (orEmpty first).isEmpty then second else first

/-- Code between backticks, two on each side if the code holds one. -/
def inlineCodeText (code : Text) : Text :=
  let fence : Text := if '\x60' ∈ code then ['\x60', '\x60'] else ['\x60']
  fence ++ code ++ fence

def linkText (content : Text) (url title : Option Text) : Text :=
  let target := if (orEmpty title).isEmpty then orEmpty url
    else orEmpty url ++ [' ', '\x22'] ++ orEmpty title ++ ['\x22']
  '[' :: content ++ [']', '('] ++ target ++ [')']

/-- A link reference around `content`. A full one without label and identifier shows `None`. -/
def referenceText (content : Text) (identifier label : Option Text) (form : Option ReferenceForm) : Text :=
  let bracketed := '[' :: content ++ [']']
  match form with
  | some .full => bracketed ++ '[' :: (firstNonempty label identifier).getD (Text.ofString "None") ++ [']']
  | some .collapsed => bracketed ++ ['[', ']']
  | _ => bracketed

mutual

def inlineText : Node → Text
  | { kind, value, url, title, identifier, label, form, children, .. } =>
    match kind with
    | .text => orEmpty value
    | .inlineCode => inlineCodeText (orEmpty value)
    | .link => linkText (inlineTextAll children) url title
    | .linkReference => referenceText (inlineTextAll children) identifier label form
    | _ =>
      match value with
      | some value => if children.isEmpty then value else inlineTextAll children
      | none => inlineTextAll children

def inlineTextAll : List Node → Text
  | [] => []
  | node :: nodes => node.inlineText ++ inlineTextAll nodes

end

/-- A heading as it is written; without content it is its marks alone. -/
def headingText (depth : Option Nat) (children : List Node) : Text :=
  let marks := List.replicate (depth.getD 1) '#'
  let content := inlineTextAll children
  if content.isEmpty then marks else marks ++ ' ' :: content

/-- A definition as it is written. A destination that is empty or holds white space stands between angle
    brackets. -/
def definitionText (identifier label url title : Option Text) : Text :=
  let url := orEmpty url
  let target := if url.isEmpty || url.any isBlankChar then '<' :: url ++ ['>'] else url
  let line := '[' :: orEmpty (firstNonempty label identifier) ++ [']', ':', ' '] ++ target
  if (orEmpty title).isEmpty then line else line ++ [' ', '\x22'] ++ orEmpty title ++ ['\x22']

/-- What stands between items or the blocks of an item. -/
def gap (spread : Bool) : Text := if spread then ['\n', '\n'] else ['\n']

/-- A list item with the given content: a dash before the first line, and two spaces before every other line
    that is not empty. -/
def itemText (content : Text) : Text :=
  match content.splitOn '\n' with
  | [] => ['-']
  | first :: rest =>
    let head : Text := if first.isEmpty then ['-'] else '-' :: ' ' :: first
    Text.unlines (head :: rest.map fun line => if line.isEmpty then [] else ' ' :: ' ' :: line)

mutual

/-- A block as it is written, without the line feed at its end. -/
def blockText : Node → Text
  | { kind, depth, value, url, title, identifier, label, spread, children, .. } =>
    match kind with
    | .heading => headingText depth children
    | .definition => definitionText identifier label url title
    | kind =>
      if kind = .list && !children.isEmpty then Text.join (gap spread) (itemTexts children)
      else if kind = .paragraph && !children.isEmpty then inlineTextAll children
      else
        match value with
        | some value => value
        | none => Text.join ['\n', '\n'] (blockTexts children)

def blockTexts : List Node → List Text
  | [] => []
  | node :: nodes => node.blockText :: blockTexts nodes

def itemTexts : List Node → List Text
  | [] => []
  | { spread, children, .. } :: items => itemText (Text.join (gap spread) (blockTexts children)) :: itemTexts items

end

/-- Do two blocks stand on neighbouring lines? -/
def isAdjacent (a b : Node) : Bool :=
  (a.kind = .definition && b.kind = .definition) ||
    match a.position, b.position with
    | some p, some q => p.endLine + 1 = q.startLine
    | _, _ => false

end Node

namespace Document

def blocksText : List Node → Text
  | [] => []
  | [node] => node.blockText
  | node :: next :: rest =>
    node.blockText ++ Node.gap (!node.isAdjacent next) ++ blocksText (next :: rest)

/-- A document as it is written: its blocks and a line feed; nothing for no blocks. -/
def print (root : Node) : Text :=
  if root.children.isEmpty then [] else blocksText root.children ++ ['\n']

end Document

end Changelog
