import Changelog.Text.Basic

/-! # Nodes

A document is a tree of nodes. Headings carry inline nodes, link reference definitions carry their parts,
and every other block that was read keeps its source as its value; blocks that were built carry children.
-/

namespace Changelog

/-- A stretch of the source, by lines and columns from one. The end column is just past the last
    character. -/
structure Position where
  startLine : Nat := 1
  startColumn : Nat := 1
  endLine : Nat := 1
  endColumn : Nat := 1
  deriving Repr, DecidableEq, Inhabited

def Position.text (p : Position) : Text :=
  Text.ofNat p.startLine ++ ':' :: Text.ofNat p.startColumn ++ '-' :: Text.ofNat p.endLine ++
    ':' :: Text.ofNat p.endColumn

inductive Kind where
  | root | heading | definition | paragraph | list | listItem | code | thematicBreak | blockquote | html
  | text | link | linkReference | inlineCode
  /-- A kind that nothing here gives a meaning to. -/
  | other (name : Text)
  deriving Repr, DecidableEq, Inhabited

namespace Kind

def known : List Kind :=
  [root, heading, definition, paragraph, list, listItem, code, thematicBreak, blockquote, html,
    text, link, linkReference, inlineCode]

def name : Kind → Text
  | root => Text.ofString "root"
  | heading => Text.ofString "heading"
  | definition => Text.ofString "definition"
  | paragraph => Text.ofString "paragraph"
  | list => Text.ofString "list"
  | listItem => Text.ofString "listItem"
  | code => Text.ofString "code"
  | thematicBreak => Text.ofString "thematicBreak"
  | blockquote => Text.ofString "blockquote"
  | html => Text.ofString "html"
  | text => Text.ofString "text"
  | link => Text.ofString "link"
  | linkReference => Text.ofString "linkReference"
  | inlineCode => Text.ofString "inlineCode"
  | other name => name

def ofName (name : Text) : Kind := (known.find? fun kind => kind.name = name).getD (other name)

end Kind

/-- How a link reference is written: with a label of its own, with empty brackets, or as the label alone. -/
inductive ReferenceForm where
  | full | collapsed | shortcut
  deriving Repr, DecidableEq, Inhabited

namespace ReferenceForm

def name : ReferenceForm → Text
  | full => Text.ofString "full"
  | collapsed => Text.ofString "collapsed"
  | shortcut => Text.ofString "shortcut"

def ofName? (name : Text) : Option ReferenceForm :=
  [full, collapsed, shortcut].find? fun form => form.name = name

end ReferenceForm

/-- A block or an inline construct. -/
structure Node where
  kind : Kind
  /-- Level of a heading. -/
  depth : Option Nat := none
  /-- Text, or the source of a block that is not interpreted. -/
  value : Option Text := none
  url : Option Text := none
  title : Option Text := none
  /-- Label in the form by which references find definitions. -/
  identifier : Option Text := none
  /-- Label as it is written. -/
  label : Option Text := none
  form : Option ReferenceForm := none
  /-- Do blank lines separate the items? -/
  spread : Bool := false
  children : List Node := []
  /-- Where the node was read; generated nodes have no position. -/
  position : Option Position := none
  deriving Repr, Inhabited

namespace Node

mutual

def decEq : (a b : Node) → Decidable (a = b)
  | ⟨k, d, v, u, t, i, l, f, s, cs, p⟩, ⟨k', d', v', u', t', i', l', f', s', cs', p'⟩ =>
    match decEqAll cs cs' with
    | isTrue h =>
      decidable_of_iff
        (k = k' ∧ d = d' ∧ v = v' ∧ u = u' ∧ t = t' ∧ i = i' ∧ l = l' ∧ f = f' ∧ s = s' ∧ p = p')
        (by subst h; simp)
    | isFalse h => isFalse (by simp [h])

def decEqAll : (as bs : List Node) → Decidable (as = bs)
  | [], [] => isTrue rfl
  | [], _ :: _ => isFalse nofun
  | _ :: _, [] => isFalse nofun
  | a :: as, b :: bs =>
    match a.decEq b, decEqAll as bs with
    | isTrue h, isTrue h' => isTrue (by simp [h, h'])
    | isFalse h, _ => isFalse (by simp [h])
    | _, isFalse h => isFalse (by simp [h])

end

instance : DecidableEq Node := decEq

/-! ## Built nodes -/

def ofText (value : Text) : Node := { kind := .text, value := some value }

def heading (depth : Nat) (children : List Node) : Node := { kind := .heading, depth := some depth, children }

def paragraph (children : List Node) : Node := { kind := .paragraph, children }

def linkReference (identifier label : Text) (form : ReferenceForm) (children : List Node) : Node :=
  { kind := .linkReference, identifier := some identifier, label := some label, form := some form, children }

def definition (identifier label url : Text) (title : Option Text := none) : Node :=
  { kind := .definition, identifier := some identifier, label := some label, url := some url, title }

def list (items : List Node) (spread : Bool := false) : Node := { kind := .list, children := items, spread }

def listItem (children : List Node) (spread : Bool := false) : Node := { kind := .listItem, children, spread }

/-! ## Questions -/

/-- The level of a heading; other nodes, and headings without a level, have none. -/
def headingDepth? (node : Node) : Option Nat := if node.kind = .heading then node.depth else none

/-- The only child, if it is of the given kind. -/
def soleChild? (node : Node) (kind : Kind) : Option Node :=
  match node.children with
  | [child] => if child.kind = kind then some child else none
  | _ => none

mutual

/-- The text of a node without markup. -/
def plain : Node → Text
  | { value, children, .. } =>
    match value with
    | some value => if children.isEmpty then value else plainAll children
    | none => plainAll children

def plainAll : List Node → Text
  | [] => []
  | node :: nodes => node.plain ++ plainAll nodes

end

mutual

def withoutPositions : Node → Node
  | { kind, depth, value, url, title, identifier, label, form, spread, children, .. } =>
    { kind, depth, value, url, title, identifier, label, form, spread,
      children := withoutPositionsAll children }

def withoutPositionsAll : List Node → List Node
  | [] => []
  | node :: nodes => node.withoutPositions :: withoutPositionsAll nodes

end

end Node

end Changelog
