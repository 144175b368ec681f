import Changelog.Markdown.Printer

/-! # Nodes without their places

Where a node was read plays no part in what it is and how it is written by itself.
-/

namespace Changelog.Node

@[simp] theorem kind_withoutPositions (node : Node) : node.withoutPositions.kind = node.kind := by
  cases node
  rfl

@[simp] theorem value_withoutPositions (node : Node) : node.withoutPositions.value = node.value := by
  cases node
  rfl

@[simp] theorem children_withoutPositions (node : Node) :
    node.withoutPositions.children = withoutPositionsAll node.children := by
  cases node
  rfl

theorem soleChild?_withoutPositions (node : Node) (kind : Kind) :
    node.withoutPositions.soleChild? kind = (node.soleChild? kind).map withoutPositions := by
  unfold soleChild?
  rw [children_withoutPositions]
  cases node.children with
  | nil => rfl
  | cons child rest =>
      cases rest with
      | nil =>
          simp only [withoutPositionsAll, kind_withoutPositions]
          split <;> rfl
      | cons next rest => rfl

@[simp] theorem depth_withoutPositions (node : Node) : node.withoutPositions.depth = node.depth := by
  cases node
  rfl

@[simp] theorem headingDepth?_withoutPositions (node : Node) :
    node.withoutPositions.headingDepth? = node.headingDepth? := by
  rw [headingDepth?, headingDepth?, kind_withoutPositions, depth_withoutPositions]

theorem isEmpty_withoutPositionsAll (nodes : List Node) : (withoutPositionsAll nodes).isEmpty = nodes.isEmpty := by
  cases nodes <;> rfl

mutual

theorem inlineText_withoutPositions : (node : Node) → node.withoutPositions.inlineText = node.inlineText
  | ⟨kind, depth, value, url, title, identifier, label, form, spread, children, position⟩ => by
    simp only [withoutPositions, inlineText, inlineTextAll_withoutPositions children, isEmpty_withoutPositionsAll]

theorem inlineTextAll_withoutPositions :
    (nodes : List Node) → inlineTextAll (withoutPositionsAll nodes) = inlineTextAll nodes
  | [] => rfl
  | node :: nodes => by
    rw [withoutPositionsAll, inlineTextAll, inlineTextAll, inlineText_withoutPositions node,
      inlineTextAll_withoutPositions nodes]

end

mutual

theorem blockText_withoutPositions : (node : Node) → node.withoutPositions.blockText = node.blockText
  | ⟨kind, depth, value, url, title, identifier, label, form, spread, children, position⟩ => by
    simp only [withoutPositions, blockText, headingText, inlineTextAll_withoutPositions, isEmpty_withoutPositionsAll,
      blockTexts_withoutPositions children, itemTexts_withoutPositions children]

theorem blockTexts_withoutPositions : (nodes : List Node) → blockTexts (withoutPositionsAll nodes) = blockTexts nodes
  | [] => rfl
  | node :: nodes => by
    rw [withoutPositionsAll, blockTexts, blockTexts, blockText_withoutPositions node, blockTexts_withoutPositions nodes]

theorem itemTexts_withoutPositions : (items : List Node) → itemTexts (withoutPositionsAll items) = itemTexts items
  | [] => rfl
  | ⟨kind, depth, value, url, title, identifier, label, form, spread, children, position⟩ :: items => by
    rw [withoutPositionsAll, withoutPositions, itemTexts, itemTexts, blockTexts_withoutPositions children,
      itemTexts_withoutPositions items]

end

theorem blockText_place (node : Node) (position : Option Position) : { node with position }.blockText = node.blockText := by
  cases node
  rfl

end Changelog.Node
