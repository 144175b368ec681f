import Changelog.Markdown.LineForm

/-! # Blocks

A document is a sequence of blocks with blank lines around them. The first line of a block decides its
form, and the form decides how many of the following lines belong to it.
-/

namespace Changelog

open LineForm

/-- What the first line of a block makes of it. -/
inductive BlockForm where
  | atx (heading : Atx)
  | fence (fence : Fence)
  | thematicBreak
  | definition (parts : Definition)
  /-- A list with the family of its items. -/
  | list (family : Char)
  | blockquote
  /-- Raw HTML with what follows its opening on the first line, or other HTML. -/
  | html (raw : Option (RawHtml × Text))
  | indentedCode
  | paragraph
  /-- A paragraph whose last line is an underline. -/
  | setext (depth : Nat)
  deriving Repr, DecidableEq

namespace BlockForm

/-- The form of a block that begins with `line`; a paragraph may still turn out to be underlined. -/
def ofLine (line : Text) : BlockForm :=
  match atx? line with
  | some heading => .atx heading
  | none =>
    match fence? line with
    | some opening => .fence opening
    | none =>
      if isThematicBreak line then .thematicBreak
      else
        match definition? line with
        | some parts => .definition parts
        | none =>
          match item? line with
          | some item => .list item.family
          | none =>
            if isBlockquote line then .blockquote
            else if isHtml line then .html (rawHtml? line)
            else if isIndentedCode line then .indentedCode
            else .paragraph

end BlockForm

namespace Block

/-! ## How far a block goes

Each function counts the lines, of those after the first, that belong to the block.
-/

/-- Up to and with the first line that satisfies `p`; all lines if there is none. -/
def reachThrough (p : Text → Bool) : List Text → Nat
  | [] => 0
  | line :: rest => if p line then 1 else reachThrough p rest + 1

def reachBlank (lines : List Text) : Nat := (lines.takeWhile (!Text.isBlank ·)).length

/-- As long as lines are indented. Blank lines count when an indented line comes after them; `gap` is how many
    were just passed. -/
def reachIndented (gap : Nat) : List Text → Nat
  | [] => 0
  | line :: rest =>
    if Text.isBlank line then reachIndented (gap + 1) rest
    else if isIndentedCode line then gap + 1 + reachIndented 0 rest
    else 0

/-- Does a line that is not blank go on with a list, right after one of its lines? -/
def continuesList (family : Char) (line : Text) : Bool :=
  if 2 ≤ Text.indent line then true
  else if isThematicBreak line then false
  else if isItemOf family line then true
  else !(startsBlock line || (definition? line).isSome || (item? line).isSome)

/-- Does a line that is not blank go on with a list after blank lines? -/
def resumesList (family : Char) (line : Text) : Bool :=
  2 ≤ Text.indent line || (isItemOf family line && !isThematicBreak line)

/-- As long as lines belong to a list. Blank lines count when a line that resumes the list comes after them;
    `gap` is how many were just passed. -/
def reachList (family : Char) (gap : Nat) : List Text → Nat
  | [] => 0
  | line :: rest =>
    if Text.isBlank line then reachList family (gap + 1) rest
    else if (if gap = 0 then continuesList family line else resumesList family line) then
      gap + 1 + reachList family 0 rest
    else 0

/-- As long as nothing ends a paragraph, and the depth of the heading if an underline does. -/
def reachParagraph : List Text → Nat × Option Nat
  | [] => (0, none)
  | line :: rest =>
    if Text.isBlank line then (0, none)
    else
      match underline? line with
      | some depth => (1, some depth)
      | none =>
        if interrupts line then (0, none)
        else
          let (reach, depth) := reachParagraph rest
          (reach + 1, depth)

/-- The form of the block that begins with `line`, and how many of the lines after it belong to it. -/
def read (line : Text) (rest : List Text) : BlockForm × Nat :=
  match BlockForm.ofLine line with
  | .fence fence => (.fence fence, reachThrough (closesFence fence) rest)
  | .list family => (.list family, reachList family 0 rest)
  | .blockquote => (.blockquote, reachBlank rest)
  | .html none => (.html none, reachBlank rest)
  | .html (some (raw, after)) =>
    (.html (some (raw, after)), if raw.endsIn after then 0 else reachThrough raw.endsIn rest)
  | .indentedCode => (.indentedCode, reachIndented 0 rest)
  | .paragraph =>
    match reachParagraph rest with
    | (reach, some depth) => (.setext depth, reach)
    | (reach, none) => (.paragraph, reach)
  | form => (form, 0)

end Block

/-- A block: the number of its first line, its lines and its form. -/
structure Block where
  first : Nat
  lines : List Text
  form : BlockForm
  deriving Repr, DecidableEq

namespace Block

/-- The blocks in lines that are numbered from `number` on. The first `skip` lines belong to a block that was
    already read. -/
def ofLinesFrom (number skip : Nat) : List Text → List Block
  | [] => []
  | line :: rest =>
    match skip with
    | skip + 1 => ofLinesFrom (number + 1) skip rest
    | 0 =>
      if Text.isBlank line then ofLinesFrom (number + 1) 0 rest
      else
        let (form, reach) := read line rest
        { first := number, lines := line :: rest.take reach, form } :: ofLinesFrom (number + 1) reach rest

def ofLines (lines : List Text) : List Block := ofLinesFrom 1 0 lines

/-- The stretch of lines from the first to the last one. Without lines it is empty. -/
def span (first : Nat) (lines : List Text) : Position :=
  match lines.getLast? with
  | none => { startLine := first, startColumn := 1, endLine := first, endColumn := 1 }
  | some last =>
    { startLine := first, startColumn := 1, endLine := first + lines.length - 1, endColumn := last.length + 1 }

def position (block : Block) : Position := span block.first block.lines

/-- A block that keeps its source. -/
def opaqueNode (block : Block) (kind : Kind) : Node :=
  { kind, value := some (Text.unlines block.lines), position := some block.position }

def atxNode (block : Block) (heading : Atx) : Node :=
  { kind := .heading, depth := some heading.depth
    children := Inline.parse (some block.first) heading.column heading.content
    position := some block.position }

/-- The heading that an underlined paragraph is. Its lines are joined; columns then mean nothing any more
    unless there was only one line. -/
def setextNode (block : Block) (depth : Nat) : Node :=
  let content := block.lines.dropLast
  let indent := ((content.head?.getD []).takeWhile isBlankChar).length
  let children := Inline.parse (some block.first) (indent + 1) (Text.join [' '] (content.map Text.strip))
  { kind := .heading, depth := some depth
    children := if content.length ≤ 1 then children else Node.withoutPositionsAll children
    position := some block.position }

def definitionNode (block : Block) (parts : Definition) : Node :=
  { Node.definition (normalizeLabel parts.label) parts.label parts.url parts.title with
    position := some block.position }

def node (block : Block) : Node :=
  match block.form with
  | .atx heading => block.atxNode heading
  | .setext depth => block.setextNode depth
  | .definition parts => block.definitionNode parts
  | .fence _ | .indentedCode => block.opaqueNode .code
  | .thematicBreak => block.opaqueNode .thematicBreak
  | .list _ => block.opaqueNode .list
  | .blockquote => block.opaqueNode .blockquote
  | .html _ => block.opaqueNode .html
  | .paragraph => block.opaqueNode .paragraph

end Block

namespace Document

def ofLines (lines : List Text) : Node :=
  { kind := .root, children := (Block.ofLines lines).map Block.node, position := some (Block.span 1 lines) }

def parse (text : Text) : Node := ofLines (Text.lines text)

/-- The blocks of a piece of a document, without positions. -/
def parseFragment (text : Text) : List Node := Node.withoutPositionsAll (parse text).children

end Document

end Changelog
