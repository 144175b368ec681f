import Changelog.Proofs.Markdown.ListLines
import Changelog.Proofs.Markdown.RoundTrip
import Changelog.Proofs.Outline.ReadBack

/-! # Blocks that are read as they are written

A node without places whose lines are read as just this node can be written down in a document: if no list goes on with
what stands behind it, the document is read as the nodes that it was written from.
-/

namespace Changelog

open LineForm

namespace Node

variable {node again other : Node}

/-- The lines of a node are one block, which is this node at some place. -/
structure IsExact (node : Node) : Prop where
  whole : node.IsWhole
  same : (node.reread 1).withoutPositions = node

instance (node : Node) : Decidable node.IsExact :=
  decidable_of_iff (node.IsWhole ∧ (node.reread 1).withoutPositions = node)
    ⟨fun ⟨whole, same⟩ => ⟨whole, same⟩, fun ⟨whole, same⟩ => ⟨whole, same⟩⟩

/-- A node is another one at some place. -/
def IsCopy (node again : Node) : Prop := again.withoutPositions = node

theorem position_withoutPositions (node : Node) : node.withoutPositions.position = none := by
  cases node
  rfl

theorem url_withoutPositions (node : Node) : node.withoutPositions.url = node.url := by
  cases node
  rfl

namespace IsCopy

theorem kind_eq (h : node.IsCopy again) : again.kind = node.kind := by
  rw [← h, kind_withoutPositions]

theorem depth_eq (h : node.IsCopy again) : again.depth = node.depth := by
  rw [← h, depth_withoutPositions]

theorem url_eq (h : node.IsCopy again) : again.url = node.url := by
  rw [← h, url_withoutPositions]

theorem headingDepth?_eq (h : node.IsCopy again) : again.headingDepth? = node.headingDepth? := by
  rw [← h, headingDepth?_withoutPositions]

theorem key?_eq (h : node.IsCopy again) : again.key? = node.key? := by
  rw [← h, key?_withoutPositions]

theorem blockText_eq (h : node.IsCopy again) : again.blockText = node.blockText := by
  rw [← h, blockText_withoutPositions]

theorem position_eq (h : node.IsCopy again) : node.position = none := by
  rw [← h, position_withoutPositions]

theorem ofNodes_eq (h : node.IsCopy again) : ReleaseHeading.ofNodes again.children = ReleaseHeading.ofNodes node.children := by
  rw [← h, children_withoutPositions, ReleaseHeading.ofNodes_withoutPositions]

theorem withChildren {children : List Node} (h : node.IsCopy again) (same : withoutPositionsAll children = node.children) :
    node.IsCopy { again with children } := by
  obtain rfl : again.withoutPositions = node := h
  cases again
  rw [withoutPositions] at same
  rw [IsCopy, withoutPositions, withoutPositions, same]

theorem exists_soleChild {text : Text} (h : node.IsCopy again) (sole : node.soleChild? .text = some (ofText text)) :
    ∃ child, again.soleChild? .text = some child ∧ child.value = some text := by
  rw [← h, soleChild?_withoutPositions] at sole
  obtain ⟨child, hchild, same⟩ := Option.map_eq_some_iff.mp sole
  refine ⟨child, hchild, ?_⟩
  rw [← value_withoutPositions, same]
  rfl

end IsCopy

theorem IsExact.isCopy_reread (h : node.IsExact) (number : Nat) : node.IsCopy (node.reread number) :=
  (node.withoutPositions_reread number).trans h.same

/-! ## Headings -/

theorem isExact_heading {depth : Nat} {children : List Node} (bounds : 1 ≤ depth ∧ depth ≤ 6)
    (unbroken : (inlineTextAll children).IsUnbroken)
    (content : withoutPositionsAll (Inline.parse none 1
      (dropClosing ((inlineTextAll children).dropWhile isSpaceOrTab))) = children) : (heading depth children).IsExact := by
  have plain : (heading depth children).IsPlainHeading := ⟨rfl, ⟨depth, rfl, bounds⟩, unbroken⟩
  refine ⟨plain.isWhole, ?_⟩
  have inside : withoutPositionsAll ((heading depth children).reread 1).children = children :=
    plain.withoutPositionsAll_reread.trans content
  obtain ⟨column, hread⟩ := plain.reread_eq
  obtain ⟨position, hread⟩ := hread 1
  rw [hread] at inside ⊢
  rw [withoutPositions, inside]
  rfl

theorem IsPlainHeading.runsInto_eq_false (h : node.IsPlainHeading) (next : Node) : node.runsInto next = false := by
  obtain ⟨heading, hform⟩ := h.form_eq 1
  rw [runsInto, hform]
  rfl

/-! ## Lists -/

section

variable {lines : List Text}

def listOf (lines : List Text) : Node := { kind := .list, value := some (Text.unlines lines) }

theorem lines_listOf (h : IsListing lines) (unbroken : ∀ line ∈ lines, line.IsUnbroken) : (listOf lines).lines = lines := by
  obtain ⟨first, rest, hlines, -⟩ := h.opening
  exact Text.lines_unlines (by simp [hlines]) unbroken

theorem form_listOf (h : IsListing lines) (unbroken : ∀ line ∈ lines, line.IsUnbroken) (number : Nat) :
    ((listOf lines).block number).form = .list '-' := by
  rw [block, lines_listOf h unbroken]
  obtain ⟨first, rest, rfl, -⟩ := h.opening
  exact congrArg Prod.fst (Block.read_of_isListing h)

theorem isExact_listOf (h : IsListing lines) (unbroken : ∀ line ∈ lines, line.IsUnbroken) : (listOf lines).IsExact := by
  refine ⟨?_, ?_⟩
  · have hlines := lines_listOf h unbroken
    obtain ⟨first, rest, rfl, hfirst, -⟩ := h.opening
    exact ⟨first, rest, hlines, hfirst.isBlank_eq, congrArg Prod.snd (Block.read_of_isListing h)⟩
  · have value : ((listOf lines).block 1).lines = lines := lines_listOf h unbroken
    have kept : ((listOf lines).block 1).form.keptKind? = some .list := by
      rw [form_listOf h unbroken]
      rfl
    rw [reread, Block.node_of_keptKind? kept, Block.opaqueNode, value]
    rfl

theorem runsInto_listOf (h : IsListing lines) (unbroken : ∀ line ∈ lines, line.IsUnbroken) (next : other.HasMark) :
    (listOf lines).runsInto other = false := by
  obtain ⟨c, text, htext, hc, begins⟩ := next
  rw [runsInto, form_listOf h unbroken, htext]
  exact Block.keepsList_of_mark hc begins

end

/-! ## Definitions -/

section

variable {label url : Text}

theorem isUnbroken_of_filled {text : Text} (h : ∀ c ∈ text, isBlankChar c = false) : text.IsUnbroken := by
  intro c hc
  rw [Bool.eq_false_iff]
  intro ends
  exact Bool.false_ne_true ((h c hc).symm.trans (isBlankChar_of_isLineEnd ends))

/-- A definition whose label is in its normal form, with a destination that needs no brackets. -/
structure IsShortDefinition (label url : Text) : Prop where
  label_ne_nil : label ≠ []
  bare : Inline.IsBare label
  normal : normalizeLabel label = label
  unbroken : label.IsUnbroken
  filled : ∀ c ∈ url, isBlankChar c = false
  url_ne_nil : url ≠ []
  head : url.head? ≠ some '<'

namespace IsShortDefinition

theorem targetText_eq (h : IsShortDefinition label url) : targetText url = url := by
  have noBlank : url.any isBlankChar = false := by simpa using h.filled
  have hne : url.isEmpty = false := by simpa using h.url_ne_nil
  rw [targetText, hne, noBlank]
  rfl

theorem isPlainDefinition (h : IsShortDefinition label url) : (definition label label url).IsPlainDefinition label url where
  kind := rfl
  label_eq := rfl
  url_eq := rfl
  identifier_eq := congrArg some h.normal.symm
  label_ne_nil := h.label_ne_nil
  isLabel := h.bare.isLabel
  target := Or.inr h.filled
  unbroken := by
    have marks : ∀ c ∈ ['[', ']', ':', ' '], isLineEnd c = false := by decide
    have title : (titleText (definition label label url).title).IsUnbroken := Text.isUnbroken_nil
    have target := isUnbroken_of_filled h.filled
    simp [definitionLine, h.targetText_eq, h.unbroken, target, title, marks]

theorem blockText_eq (h : IsShortDefinition label url) :
    (definition label label url).blockText = '[' :: label ++ [']', ':', ' '] ++ url := by
  rw [h.isPlainDefinition.blockText_eq, definitionLine, h.targetText_eq]
  simp [definition, titleText, orEmpty]

theorem isExact (h : IsShortDefinition label url) : (definition label label url).IsExact := by
  have quote : '\x22' ∉ orEmpty (definition label label url).title := List.not_mem_nil
  refine ⟨h.isPlainDefinition.isWhole quote, ?_⟩
  obtain ⟨target, htarget, hread⟩ := h.isPlainDefinition.reread_eq quote
  obtain ⟨position, hread⟩ := hread 1
  rw [h.targetText_eq, readDefinitionTarget_of_head h.filled h.url_ne_nil h.head quote] at htarget
  cases htarget
  rw [hread, h.normal]
  rfl

theorem runsInto_eq_false (h : IsShortDefinition label url) (next : Node) :
    (definition label label url).runsInto next = false := by
  have quote : '\x22' ∉ orEmpty (definition label label url).title := List.not_mem_nil
  obtain ⟨target, -, hread⟩ := h.isPlainDefinition.definition?_line quote
  have hform : ((definition label label url).block 1).form = .definition ⟨label, target.1, target.2⟩ := by
    rw [block, h.isPlainDefinition.lines_eq, List.head?_cons, Option.getD_some, List.tail_cons, Block.read,
      ofLine_of_definition? hread]
  rw [runsInto, hform]
  rfl

end IsShortDefinition

end

end Node

/-! ## Documents -/

namespace Document

variable {nodes front definitions : List Node}

/-- A document of such nodes is read as these nodes. -/
theorem forall₂_isCopy_parse (hne : nodes ≠ []) (exact : ∀ node ∈ nodes, node.IsExact)
    (apart : nodes.IsChain fun a b => a.runsInto b = false) :
    List.Forall₂ Node.IsCopy nodes (parse (blocksText nodes ++ ['\n'])).children ∧
      contacts (parse (blocksText nodes ++ ['\n'])).children = contacts nodes := by
  have children : (parse (blocksText nodes ++ ['\n'])).children = (blocksFrom 1 nodes).map Block.node :=
    congrArg (List.map Block.node) (ofLinesFrom_blocksText 1 hne (fun node hnode => (exact node hnode).whole) apart)
  rw [children]
  refine ⟨?_, contacts_blocksFrom 1 fun node hnode number => ((exact node hnode).isCopy_reread number).kind_eq⟩
  refine ((List.forall₂_and_left _ _).mpr ⟨exact, forall₂_blocksFrom 1 nodes⟩).imp ?_
  rintro node again ⟨hnode, number, rfl⟩
  exact hnode.isCopy_reread number

theorem blocksText_definitions (h : ∀ node ∈ definitions, node.kind = .definition) :
    blocksText definitions = Text.unlines (definitions.map Node.blockText) := by
  induction definitions with
  | nil => rfl
  | cons node definitions ih =>
      obtain ⟨hnode, hrest⟩ := List.forall_mem_cons.mp h
      cases definitions with
      | nil => rfl
      | cons next definitions =>
          have adjacent : node.isAdjacent next = true := by simp [Node.isAdjacent, hnode, hrest next List.mem_cons_self]
          have rest := ih hrest
          rw [List.map_cons] at rest
          rw [blocksText, adjacent, rest, List.map_cons, List.map_cons, Text.unlines, Text.unlines, Text.join]
          rfl

/-- Blocks that touch nothing are written with blank lines between them, and definitions behind them as one more
    block. -/
theorem blocksText_append (hne : front ≠ []) (apart : ∀ node ∈ front, node.position = none ∧ node.kind ≠ .definition)
    (h : ∀ node ∈ definitions, node.kind = .definition) :
    blocksText (front ++ definitions) = Text.join ['\n', '\n'] (front.map Node.blockText ++
      if definitions.isEmpty then [] else [Text.unlines (definitions.map Node.blockText)]) := by
  induction front with
  | nil => contradiction
  | cons node front ih =>
      obtain ⟨⟨hplace, hkind⟩, hrest⟩ := List.forall_mem_cons.mp apart
      have separate : ∀ next : Node, Node.gap (!node.isAdjacent next) = ['\n', '\n'] := by
        intro next
        simp [Node.isAdjacent, hkind, hplace, Node.gap]
      cases front with
      | nil =>
          cases definitions with
          | nil => rfl
          | cons next definitions =>
              rw [List.singleton_append, blocksText, separate, blocksText_definitions h]
              rfl
      | cons next front =>
          have rest := ih (List.cons_ne_nil next front) hrest
          rw [List.cons_append, List.map_cons, List.cons_append] at rest
          rw [List.cons_append, List.cons_append, blocksText, separate, rest, List.map_cons, List.map_cons,
            List.cons_append, List.cons_append, Text.join]

end Document

end Changelog
