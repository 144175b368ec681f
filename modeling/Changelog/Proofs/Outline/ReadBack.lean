import Changelog.Proofs.Markdown.Rearranged
import Changelog.Proofs.Outline.Heading
import Changelog.Proofs.Outline.Parallel

/-! # Blocks that are read back

A block reads back if its lines are one block of the same kind, with the same level if it is a heading and the same
key if it is a definition. Headings and blocks that keep their source always do.
-/

namespace Changelog

open LineForm

theorem Block.withoutPositions_node (block : Block) (first : Nat) :
    ({ block with first } : Block).node.withoutPositions = block.node.withoutPositions := by
  obtain ⟨start, lines, form⟩ := block
  cases form with
  | atx heading =>
      simp only [node, atxNode, Node.withoutPositions]
      rw [Inline.withoutPositionsAll_parse]
  | setext depth =>
      simp only [node, setextNode, Node.withoutPositions]
      split
      · rw [Inline.withoutPositionsAll_parse]
      · rw [Inline.withoutPositionsAll_parse]
  | fence | thematicBreak | definition | list | blockquote | html | indentedCode | paragraph => rfl

namespace Node

variable {lines : List Text} {node again : Node}

theorem withoutPositions_reread (number : Nat) (node : Node) :
    (node.reread number).withoutPositions = (node.reread 1).withoutPositions :=
  Block.withoutPositions_node (node.block 1) number

theorem key?_withoutPositions (node : Node) : node.withoutPositions.key? = node.key? := by
  cases node
  rfl

/-- The lines of a node are one block of the same kind. -/
structure ReadsBack (node : Node) : Prop where
  whole : node.IsWhole
  kind : (node.reread 1).kind = node.kind
  depth : (node.reread 1).headingDepth? = node.headingDepth?
  key : (node.reread 1).key? = node.key?

instance (node : Node) : Decidable node.ReadsBack :=
  decidable_of_iff (node.IsWhole ∧ (node.reread 1).kind = node.kind ∧
      (node.reread 1).headingDepth? = node.headingDepth? ∧ (node.reread 1).key? = node.key?)
    ⟨fun ⟨whole, kind, depth, key⟩ => ⟨whole, kind, depth, key⟩, fun ⟨whole, kind, depth, key⟩ => ⟨whole, kind, depth, key⟩⟩

theorem IsPlainHeading.readsBack (h : node.IsPlainHeading) : node.ReadsBack := by
  obtain ⟨column, hread⟩ := h.reread_eq
  obtain ⟨position, hread⟩ := hread 1
  refine ⟨h.isWhole, ?_, ?_, ?_⟩
  · rw [hread, h.kind]
  · rw [hread, headingDepth?, headingDepth?, h.kind]
  · rw [hread, key?, key?, h.kind]
    rfl

/-- Is a block written from its parts? Every other one keeps its source. -/
def isComposed (node : Node) : Bool :=
  node.kind = .heading || node.kind = .definition || node.kind = .list && node.value.isNone

/-- Every block reads back, if the definitions and the lists that were built do. -/
theorem IsDrawnFrom.readsBack (h : node.IsDrawnFrom lines) (unbroken : ∀ line ∈ lines, line.IsUnbroken)
    (built : node.kind ≠ .heading → node.isComposed → node.ReadsBack) : node.ReadsBack := by
  cases h with
  | kept standing kept =>
      have hread := standing.reread_node unbroken kept 1
      exact ⟨standing.isWhole_node unbroken kept, by rw [hread], by rw [hread]; rfl, by rw [hread]; rfl⟩
  | heading plain _ => exact plain.readsBack
  | definition hkind _ => exact built (by rw [hkind]; nofun) (by simp [isComposed, hkind])
  | list hkind hvalue _ => exact built (by rw [hkind]; nofun) (by simp [isComposed, hkind, hvalue])

theorem IsDrawnFrom.blockText_reread (h : node.IsDrawnFrom lines) (unbroken : ∀ line ∈ lines, line.IsUnbroken)
    (composed : node.isComposed → (node.reread 1).blockText = node.blockText) :
    (node.reread 1).blockText = node.blockText := by
  cases h with
  | kept standing kept =>
      rw [standing.reread_node unbroken kept]
      exact blockText_place _ _
  | heading plain _ => exact composed (by simp [isComposed, plain.kind])
  | definition hkind _ => exact composed (by simp [isComposed, hkind])
  | list hkind hvalue _ => exact composed (by simp [isComposed, hkind, hvalue])

/-- A node is what another one reads back as, but for its place. -/
structure IsAgain (node again : Node) : Prop where
  readsBack : node.ReadsBack
  same : again.withoutPositions = (node.reread 1).withoutPositions
  placed : again.position.isSome

namespace IsAgain

theorem kind_eq (h : node.IsAgain again) : again.kind = node.kind := by
  rw [← kind_withoutPositions, h.same, kind_withoutPositions, h.readsBack.kind]

theorem headingDepth?_eq (h : node.IsAgain again) : again.headingDepth? = node.headingDepth? := by
  rw [← headingDepth?_withoutPositions, h.same, headingDepth?_withoutPositions, h.readsBack.depth]

theorem key?_eq (h : node.IsAgain again) : again.key? = node.key? := by
  rw [← key?_withoutPositions, h.same, key?_withoutPositions, h.readsBack.key]

theorem blockText_eq (h : node.IsAgain again) : again.blockText = (node.reread 1).blockText := by
  rw [← blockText_withoutPositions, h.same, blockText_withoutPositions]

theorem ofNodes_eq (h : node.IsAgain again) :
    ReleaseHeading.ofNodes again.children = ReleaseHeading.ofNodes (node.reread 1).children := by
  rw [← ReleaseHeading.ofNodes_withoutPositions, ← children_withoutPositions, h.same, children_withoutPositions,
    ReleaseHeading.ofNodes_withoutPositions]

end IsAgain

end Node

namespace Document

variable {lines : List Text} {nodes : List Node}

/-- Does no list, code or HTML go on with what is printed behind it? -/
def IsClosed (nodes : List Node) : Prop := nodes.IsChain fun a b => a.kind ∈ Node.openKinds → a.runsInto b = false

instance (nodes : List Node) : Decidable (IsClosed nodes) := inferInstanceAs (Decidable (List.IsChain _ _))

theorem IsClosed.isChain (closed : IsClosed nodes) (unbroken : ∀ line ∈ lines, line.IsUnbroken)
    (drawn : ∀ node ∈ nodes, node.IsDrawnFrom lines) (readsBack : ∀ node ∈ nodes, node.ReadsBack) :
    nodes.IsChain fun a b => a.runsInto b = false := by
  induction nodes with
  | nil => exact .nil
  | cons a nodes ih =>
      cases nodes with
      | nil => exact .singleton a
      | cons b nodes =>
          obtain ⟨hab, hrest⟩ := List.isChain_cons_cons.mp closed
          have defined : a.kind = .definition → (a.reread 1).kind = .definition := fun hkind =>
            (readsBack a List.mem_cons_self).kind.trans hkind
          refine List.isChain_cons_cons.mpr ⟨?_, ?_⟩
          · exact Node.runsInto_eq_false unbroken (drawn a List.mem_cons_self) (drawn b (by simp)) defined hab
          · exact ih hrest (fun c hc => drawn c (List.mem_cons_of_mem a hc)) fun c hc => readsBack c (List.mem_cons_of_mem a hc)

theorem isAgain_reread {node : Node} (readsBack : node.ReadsBack) (number : Nat) : node.IsAgain (node.reread number) :=
  ⟨readsBack, node.withoutPositions_reread number, by rw [Node.reread, position_node]; rfl⟩

/-- A document that is put together anew is read block by block as it was written. -/
theorem forall₂_parse_print {root : Node} (hne : root.children ≠ []) (unbroken : ∀ line ∈ lines, line.IsUnbroken)
    (drawn : ∀ node ∈ root.children, node.IsDrawnFrom lines) (readsBack : ∀ node ∈ root.children, node.ReadsBack)
    (closed : IsClosed root.children) :
    List.Forall₂ Node.IsAgain root.children (parse (print root)).children ∧
      contacts (parse (print root)).children = contacts root.children := by
  have whole : ∀ node ∈ root.children, node.IsWhole := fun node hnode => (readsBack node hnode).whole
  rw [children_parse_print hne whole (closed.isChain unbroken drawn readsBack)]
  refine ⟨?_, ?_⟩
  · refine ((List.forall₂_and_left _ _).mpr ⟨readsBack, forall₂_blocksFrom 1 root.children⟩).imp ?_
    rintro node again ⟨hnode, number, rfl⟩
    exact isAgain_reread hnode number
  · refine contacts_blocksFrom 1 fun node hnode number => ?_
    exact (isAgain_reread (readsBack node hnode) number).kind_eq

end Document

end Changelog
