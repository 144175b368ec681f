import Changelog.Outline.Release

/-! # The outline of a changelog

A changelog is a title, blocks in front of the first release, releases, and link reference definitions. It is
built from a sequence of blocks: a cursor says where the next one goes, and a heading that is not deeper than
the section at the cursor closes it. Definitions go to the outline itself wherever they stand.
-/

namespace Changelog

/-- Definitions by their identifiers in lower case. -/
abbrev Definitions := List (Text × Node)

namespace Definitions

/-- Sets a definition; one that was there is replaced and keeps its place. -/
def insert (identifier : Text) (node : Node) : Definitions → Definitions
  | [] => [(identifier, node)]
  | (key, old) :: rest =>
    if key = identifier then (key, node) :: rest else (key, old) :: insert identifier node rest

def find? (identifier : Text) (definitions : Definitions) : Option Node :=
  (List.find? (fun entry => entry.1 = identifier) definitions).map (·.2)

/-- Definitions by identifier, newest version first. -/
def sort (definitions : Definitions) : Except Fault Definitions := Version.sortNewest (·.1) definitions

def isSorted (definitions : Definitions) : Except Fault Bool :=
  isSortedBy Version.compareNewest (definitions.map (·.1))

end Definitions

/-- A changelog in sections. -/
structure Outline where
  heading : Option Node := none
  /-- Blocks in front of the first release. -/
  content : List Node := []
  releases : List Release := []
  definitions : Definitions := []
  deriving Repr, Inhabited

/-- Where the next block goes: the outline itself, or the end of a way through the sections of the release with
    an index. -/
inductive Cursor where
  | root
  | inside (index : Nat) (way : List Nat)
  deriving Repr, DecidableEq

namespace Cursor

def depth : Cursor → Nat
  | root => 1
  | inside _ way => way.length + 2

/-- The nearest section on the way back that is less deep than a heading of the given depth, or the root. -/
def climb (depth : Nat) : Cursor → Cursor
  | root => root
  | inside index way => if depth ≤ 2 then root else inside index (way.take (depth - 3))

end Cursor

namespace Outline

def titleText : Text := Text.ofString "Changelog"

/-- The title as it has to be written. -/
def titleNode : Node := Node.heading 1 [Node.ofText titleText]

def isEmpty (o : Outline) : Bool := o.content.isEmpty && o.releases.isEmpty

def release? (o : Outline) (index : Nat) : Option Release := o.releases.find? fun r => r.index == index

def modifyRelease (index : Nat) (f : Release → Release) (o : Outline) : Outline :=
  { o with releases := o.releases.map fun r => if r.index == index then f r else r }

def section? (o : Outline) : Cursor → Option Section
  | .root => none
  | .inside index way => (o.release? index).bind fun r => r.body.at? way

def addRelease (heading : Node) (o : Outline) : Outline :=
  { o with releases := o.releases ++ [Release.ofHeading o.releases.length heading] }

/-- Does a heading become the title? Only one of first level does, before everything else. -/
def takesTitle (o : Outline) (depth : Nat) : Bool := depth == 1 && o.heading.isNone && o.isEmpty

/-- Opens a section for a heading at a cursor; the new cursor is that section. -/
def openAt (heading : Node) (depth : Nat) (o : Outline) : Cursor → Outline × Cursor
  | .root =>
    if o.takesTitle depth then ({ o with heading := some heading }, .root)
    else (o.addRelease heading, .inside o.releases.length [])
  | .inside index way =>
    let place := ((o.section? (.inside index way)).map (·.children.length)).getD 0
    (o.modifyRelease index (Release.mapBody (Section.modifyAt (Section.addChild heading) way)),
      .inside index (way ++ [place]))

/-- Puts a block that opens no section at a cursor; definitions go to the outline itself. -/
def addBlock (block : Node) (o : Outline) (cursor : Cursor) : Outline :=
  match block.kind, block.identifier with
  | .definition, some identifier =>
    { o with definitions := o.definitions.insert (Text.lowercase identifier) block }
  | _, _ =>
    match cursor with
    | .root => { o with content := o.content ++ [block] }
    | .inside index way => o.modifyRelease index (Release.mapBody (Section.modifyAt (Section.addBlock block) way))

/-- Adds a block at a cursor, and says where the next one goes. -/
def add (o : Outline) (cursor : Cursor) (block : Node) : Outline × Cursor :=
  match block.headingDepth? with
  | some depth => openAt block depth o (cursor.climb depth)
  | none => (o.addBlock block cursor, cursor)

def addAll (start : Outline × Cursor) (blocks : List Node) : Outline × Cursor :=
  blocks.foldl (fun (o, cursor) block => o.add cursor block) start

def ofNodes (blocks : List Node) : Outline := (addAll ({}, .root) blocks).1

/-- The blocks of an outline in the order in which they are written. -/
def nodes (o : Outline) : List Node :=
  o.heading.toList ++ o.content ++ o.releases.flatMap (·.body.nodes) ++ o.definitions.map (·.2)

def hasTitle (o : Outline) : Bool :=
  match o.heading with
  | some heading =>
    heading.depth = some 1 && ((heading.soleChild? .text).bind Node.value) = some titleText
  | none => false

def setTitle (o : Outline) : Outline :=
  match o.heading with
  | some heading =>
    if heading.depth = some 1 then { o with heading := some { heading with children := titleNode.children } }
    else { o with heading := some titleNode }
  | none => { o with heading := some titleNode }

/-! ## Summaries -/

def levelName : Nat → Text
  | 0 | 1 => Text.ofString "Changelog"
  | 2 => Text.ofString "Release"
  | 3 => Text.ofString "Group"
  | _ => Text.ofString "Section"

/-- A section in a few words: what it is, its depth and the number of sections in it. -/
def summary (depth children : Nat) : Text :=
  levelName depth ++ Text.ofString "(depth=" ++ Text.ofNat depth ++ Text.ofString ", children=" ++
    Text.ofNat children ++ [')']

def summaryAt (o : Outline) (cursor : Cursor) : Text :=
  match cursor with
  | .root => summary 1 o.releases.length
  | cursor => summary cursor.depth (((o.section? cursor).map (·.children.length)).getD 0)

end Outline

end Changelog
