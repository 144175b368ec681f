import Changelog.Entry.Basic

/-! # Sections

A section is a heading with everything up to the next heading of equal or lower depth: first blocks, then
sections of its own. Depth in the outline counts from the title, which has depth one.
-/

namespace Changelog

/-- A heading and what stands under it. -/
structure Section where
  heading : Node
  content : List Node := []
  children : List Section := []
  deriving Repr, Inhabited

namespace Section

def isEmpty (s : Section) : Bool := s.content.isEmpty && s.children.isEmpty

/-- The section at the end of a way, which names a child at each step. -/
def at? : (way : List Nat) → Section → Option Section
  | [], s => some s
  | step :: way, s => s.children[step]?.bind (at? way)

def modifyAt (f : Section → Section) : (way : List Nat) → Section → Section
  | [], s => f s
  | step :: way, s => { s with children := s.children.modify step (modifyAt f way) }

/-- Puts a block at the end of what stands directly under the heading. -/
def addBlock (block : Node) (s : Section) : Section := { s with content := s.content ++ [block] }

def append (child s : Section) : Section := { s with children := s.children ++ [child] }

def addChild (heading : Node) (s : Section) : Section := append { heading } s

mutual

def nodes : Section → List Node
  | { heading, content, children } => heading :: content ++ nodesAll children

def nodesAll : List Section → List Node
  | [] => []
  | s :: rest => s.nodes ++ nodesAll rest

end

/-! ## Groups

The sections of a release are groups of entries of one type.
-/

/-- Is the heading that of a group, of third level and nothing but text? -/
def hasGroupHeading (s : Section) : Bool := s.heading.depth = some 3 && (s.heading.soleChild? .text).isSome

def groupType? (s : Section) : Option Text :=
  if s.heading.depth = some 3 then (s.heading.soleChild? .text).bind Node.value else none

/-- Puts a list of entries at the end of a group. -/
def addEntries (entries : List Entry) (s : Section) : Section := s.addBlock (Entry.list entries)

/-- A group of the given type, in the outline under a section of the given depth. -/
def group (depth : Nat) (type : Text) : Section := { heading := Node.heading depth [Node.ofText type] }

end Section

end Changelog
