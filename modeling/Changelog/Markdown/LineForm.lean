import Changelog.Markdown.Inline
import Changelog.Text.Line

/-! # What a line can begin

Recognizers for single lines: the marks of headings, fences, thematic breaks, definitions, list items,
quotes, HTML and indented code. All but indented code allow up to three spaces in front.
-/

namespace Changelog.LineForm

/-- The line after its indentation, if that is at most three spaces. -/
def dropIndent? (line : Text) : Option Text :=
  if (line.takeWhile (· == ' ')).length ≤ 3 then some (line.dropWhile (· == ' ')) else none

/-- A heading marked with number signs: its level, the column of its content from one, and its content. -/
structure Atx where
  depth : Nat
  column : Nat
  content : Text
  deriving Repr, DecidableEq

/-- The content of a heading without the closing run of number signs, which stands after blanks. -/
def dropClosing (text : Text) : Text :=
  let trimmed := Text.dropTailWhile isSpaceOrTab text
  let stem := Text.dropTailWhile (· == '#') trimmed
  if (stem.getLast?.map isSpaceOrTab).getD false && stem.length < trimmed.length then
    Text.dropTailWhile isSpaceOrTab stem
  else trimmed

/-- A heading of one to six number signs, followed by blanks or the end of the line. -/
def atx? (line : Text) : Option Atx := do
  let marked ← dropIndent? line
  let depth := (marked.takeWhile (· == '#')).length
  let after := marked.dropWhile (· == '#')
  let content := after.dropWhile isSpaceOrTab
  if 1 ≤ depth && depth ≤ 6 && (after.isEmpty || content.length < after.length) then
    some { depth, column := line.length - content.length + 1, content := dropClosing content }
  else none

/-- The level of the heading that a line of equal signs or dashes makes of the paragraph above it. -/
def underline? (line : Text) : Option Nat := do
  let marked ← dropIndent? line
  let runOf := fun (mark : Char) => ((marked.dropWhile (· == mark)).dropWhile isSpaceOrTab).isEmpty
  match marked with
  | '=' :: _ => if runOf '=' then some 1 else none
  | '-' :: _ => if runOf '-' then some 2 else none
  | _ => none

/-- The mark of a code fence and how often it stands. -/
structure Fence where
  mark : Char
  size : Nat
  deriving Repr, DecidableEq

/-- A run of at least three backticks or tildes. -/
def fence? (line : Text) : Option Fence := do
  let marked ← dropIndent? line
  match marked with
  | mark :: _ =>
    let size := (marked.takeWhile (· == mark)).length
    if (mark == '\x60' || mark == '~') && 3 ≤ size then some { mark, size } else none
  | [] => none

/-- Does the line close a fence? It is at least as long a run of the same mark and nothing else but blanks. -/
def closesFence (fence : Fence) (line : Text) : Bool :=
  ((dropIndent? line).map fun marked =>
    decide (fence.size ≤ (marked.takeWhile (· == fence.mark)).length) &&
      (marked.dropWhile (· == fence.mark)).all isSpaceOrTab).getD false

/-- Three or more of the same mark, with or without blanks between them. -/
def isThematicBreak (line : Text) : Bool :=
  match dropIndent? line with
  | some (mark :: rest) =>
    (mark == '-' || mark == '*' || mark == '_') && rest.all (fun c => c == mark || isSpaceOrTab c) &&
      decide (2 ≤ rest.count mark)
  | _ => false

def isBlockquote (line : Text) : Bool :=
  match dropIndent? line with
  | some ('>' :: _) => true
  | _ => false

def isIndentedCode (line : Text) : Bool :=
  Text.startsWith line [' ', ' ', ' ', ' '] || Text.startsWith line ['\t']

/-! ## HTML -/

def isHtml (line : Text) : Bool :=
  match dropIndent? line with
  | some ('<' :: c :: _) => isPlainLetter c || c == '/' || c == '!' || c == '?'
  | _ => false

/-- HTML blocks that go on past blank lines, up to a mark of their own. -/
inductive RawHtml where
  /-- An element whose content is raw text. -/
  | element
  | comment
  | instruction
  | declaration
  | cdata
  deriving Repr, DecidableEq

/-- The elements whose content is raw text. -/
def rawElements : List Text :=
  [Text.ofString "script", Text.ofString "pre", Text.ofString "style", Text.ofString "textarea"]

/-- The opening tag of a raw text element, up to white space or the end of the tag: what follows it. -/
def dropRawElement? (text : Text) : Option Text :=
  rawElements.findSome? fun name => do
    let after ← Text.dropLeadFolded? name text
    match after with
    | [] => some []
    | c :: rest => if isBlankChar c || c == '>' then some rest else none

/-- What kind of raw HTML a line begins, and what follows its opening. -/
def rawHtml? (line : Text) : Option (RawHtml × Text) := do
  let marked ← dropIndent? line
  let inside ← Text.dropLead? ['<'] marked
  (dropRawElement? inside).map (RawHtml.element, ·) <|>
    (Text.dropLead? (Text.ofString "!--") inside).map (RawHtml.comment, ·) <|>
    (Text.dropLead? ['?'] inside).map (RawHtml.instruction, ·) <|>
    (match inside with
      | '!' :: c :: rest => if isPlainLetter c then some (RawHtml.declaration, rest) else none
      | _ => none) <|>
    (Text.dropLead? (Text.ofString "![CDATA[") inside).map (RawHtml.cdata, ·)

def RawHtml.endsIn (raw : RawHtml) (text : Text) : Bool :=
  match raw with
  | .element =>
    rawElements.any fun name => Text.containsFolded (['<', '/'] ++ name ++ ['>']) text
  | .comment => Text.contains (Text.ofString "-->") text
  | .instruction => Text.contains (Text.ofString "?>") text
  | .declaration => Text.contains ['>'] text
  | .cdata => Text.contains (Text.ofString "]]>") text

/-! ## Lists -/

/-- The family of a list item, and the line after its marker and the blanks behind it. Items of one list
    have the same bullet, or the same mark after their numbers. -/
structure Item where
  family : Char
  content : Text
  deriving Repr, DecidableEq

/-- The mark of a list item: a bullet, or up to nine digits with a full stop or parenthesis. -/
def bullet? : Text → Option (Char × Text)
  | [] => none
  | c :: rest =>
    if c == '-' || c == '*' || c == '+' then some (c, rest)
    else
      let digits := (c :: rest).takeWhile isDecimalDigit
      match (c :: rest).dropWhile isDecimalDigit with
      | mark :: after =>
        if (mark == '.' || mark == ')') && 1 ≤ digits.length && digits.length ≤ 9 then some (mark, after) else none
      | [] => none

/-- A list item: a marker followed by blanks or the end of the line. -/
def item? (line : Text) : Option Item := do
  let marked ← dropIndent? line
  let (family, after) ← bullet? marked
  let content := after.dropWhile isSpaceOrTab
  if after.isEmpty || content.length < after.length then some { family, content } else none

def isItemOf (family : Char) (line : Text) : Bool := ((item? line).map fun item => item.family == family).getD false

/-! ## Definitions -/

structure Definition where
  label : Text
  url : Text
  title : Option Text := none
  deriving Repr, DecidableEq

/-- What follows the destination of a definition: an optional title after blanks, and blanks. -/
def readDefinitionEnd (text : Text) : Option (Option Text) :=
  let after := text.dropWhile isSpaceOrTab
  if after.isEmpty then some none
  else if after.length < text.length then
    match Inline.readTitle after with
    | some (title, rest) => if rest.all isSpaceOrTab then some (some title) else none
    | none => none
  else none

/-- A destination with its end: between angle brackets if that fits, else up to white space. -/
def readDefinitionTarget (text : Text) : Option (Text × Option Text) :=
  let angled := do
    let (destination, after) ← Inline.readAngled text
    let title ← readDefinitionEnd after
    return (Inline.dropAngles destination, title)
  angled <|>
    (let destination := text.takeWhile (!isBlankChar ·)
    if destination.isEmpty then none
    else
      (readDefinitionEnd (text.dropWhile (!isBlankChar ·))).map fun title =>
        (Inline.dropAngles destination, title))

/-- A link reference definition: a label in brackets, a colon, a destination and an optional title. -/
def definition? (line : Text) : Option Definition := do
  let marked ← dropIndent? line
  let bracketed ← Text.dropLead? ['['] marked
  let (label, after) ← Inline.readLabel bracketed
  if label.isEmpty then none
  else
    let target ← Text.dropLead? [':'] after
    let (url, title) ← readDefinitionTarget (target.dropWhile isSpaceOrTab)
    return { label, url, title }

/-! ## Interruptions -/

/-- Does the line begin a block that ends a paragraph or a list above it? -/
def startsBlock (line : Text) : Bool :=
  (atx? line).isSome || (fence? line).isSome || isThematicBreak line || isBlockquote line || isHtml line

/-- Does the line begin a block that ends a paragraph above it? An item without content does not. -/
def interrupts (line : Text) : Bool :=
  startsBlock line || ((item? line).map fun item => !Text.isBlank item.content).getD false

end Changelog.LineForm
