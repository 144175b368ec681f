import Changelog.Proofs.Markdown.HeadingLine

/-! # Blocks of a document put together anew

When blocks of a document are printed in another order, with other headings and definitions between them, only lists,
code and HTML can run into what comes to stand behind them. Every other block ends at a blank line or with its own
lines, or it stood in front of the same block before.
-/

namespace Changelog

open LineForm

namespace Node

/-- A node that is to be printed again: a block of the source, a heading or a definition at the place of one or at
    none, or a list that was built. -/
inductive IsDrawnFrom (lines : List Text) : Node → Prop where
  | kept {block : Block} : block.StandsIn 1 lines → block.node.value.isSome → IsDrawnFrom lines block.node
  | heading {node : Node} : node.IsPlainHeading →
    (∀ p ∈ node.position, ∃ block : Block, block.StandsIn 1 lines ∧ block.position = p) → IsDrawnFrom lines node
  | definition {node : Node} : node.kind = .definition →
    (∀ p ∈ node.position, ∃ block : Block, block.StandsIn 1 lines ∧ block.position = p ∧
      ∃ parts, block.form = .definition parts) → IsDrawnFrom lines node
  | list {node : Node} : node.kind = .list → node.value = none → node.position = none → IsDrawnFrom lines node

/-- The kinds of blocks that do not end at a blank line. -/
def openKinds : List Kind := [.list, .code, .html]

variable {lines : List Text} {node : Node}

theorem isDrawnFrom_of_standsIn {block : Block} (standing : block.StandsIn 1 lines)
    (unbroken : ∀ line ∈ lines, line.IsUnbroken) : block.node.IsDrawnFrom lines := by
  have place : ∀ p ∈ block.node.position, ∃ other : Block, other.StandsIn 1 lines ∧ other.position = p := by
    intro p hp
    rw [Document.position_node] at hp
    exact ⟨block, standing, Option.some.inj hp⟩
  cases hvalue : block.node.value.isSome with
  | true => exact .kept standing hvalue
  | false =>
      have unkept : block.form.keptKind? = none := by simpa [Block.value_node] using hvalue
      cases hform : block.form with
      | atx | setext =>
          have hkind : block.node.kind = .heading := by rw [Block.kind_node, hform]; rfl
          exact .heading (standing.isPlainHeading unbroken hkind) place
      | definition parts =>
          have hkind : block.node.kind = .definition := by rw [Block.kind_node, hform]; rfl
          refine .definition hkind fun p hp => ?_
          rw [Document.position_node] at hp
          exact ⟨block, standing, Option.some.inj hp, parts, hform⟩
      | fence | thematicBreak | list | blockquote | html | indentedCode | paragraph =>
          rw [hform] at unkept
          contradiction

theorem isDrawnFrom_of_mem_parse {content : Text} (h : node ∈ (Document.parse content).children) :
    node.IsDrawnFrom (Text.lines content) := by
  obtain ⟨block, hblock, rfl⟩ := List.mem_map.mp h
  exact isDrawnFrom_of_standsIn (Block.standsIn_of_mem_ofLinesFrom hblock) fun _ => Text.isUnbroken_of_mem_lines

theorem IsDrawnFrom.isPlainHeading (h : node.IsDrawnFrom lines) (hkind : node.kind = .heading) : node.IsPlainHeading ∧
    ∀ p ∈ node.position, ∃ block : Block, block.StandsIn 1 lines ∧ block.position = p := by
  cases h with
  | kept _ kept =>
      obtain ⟨kind, hkept⟩ := Block.keptKind?_of_value kept
      rw [Block.node_of_keptKind? hkept] at hkind
      rw [show kind = .heading from hkind] at hkept
      unfold BlockForm.keptKind? at hkept
      split at hkept <;> contradiction
  | heading plain place => exact ⟨plain, place⟩
  | definition hkind' _ => exact absurd (hkind.symm.trans hkind') nofun
  | list hkind' _ _ => exact absurd (hkind.symm.trans hkind') nofun

theorem IsDrawnFrom.exists_standsIn {p : Position} (h : node.IsDrawnFrom lines) (hp : node.position = some p) :
    ∃ block : Block, block.StandsIn 1 lines ∧ block.position = p := by
  cases h with
  | @kept block standing _ => exact ⟨block, standing, Option.some.inj ((Document.position_node block).symm.trans hp)⟩
  | heading _ place => exact place p hp
  | definition _ place =>
      obtain ⟨block, standing, hposition, -⟩ := place p hp
      exact ⟨block, standing, hposition⟩
  | list _ _ noPlace =>
      rw [noPlace] at hp
      contradiction

theorem IsDrawnFrom.withChildren (h : node.IsDrawnFrom lines) (hkind : node.kind = .heading) {children : List Node}
    (unbroken : (inlineTextAll children).IsUnbroken) : { node with children }.IsDrawnFrom lines := by
  obtain ⟨plain, place⟩ := h.isPlainHeading hkind
  exact .heading ⟨hkind, plain.depth, unbroken⟩ place

end Node

namespace LineForm

variable {line : Text} {parts : Definition}

theorem definition?_of_ofLine (h : BlockForm.ofLine line = .definition parts) : definition? line = some parts :=
  Block.isSaidBy_of_ofLine h

theorem exists_of_definition? (h : definition? line = some parts) : ∃ target,
    dropIndent? line = some ('[' :: (parts.label ++ ']' :: ':' :: target)) ∧ Inline.IsLabel parts.label ∧ parts.label ≠ [] ∧
      readDefinitionTarget (target.dropWhile isSpaceOrTab) = some (parts.url, parts.title) := by
  simp only [definition?, Option.bind_eq_bind, Option.bind_eq_some_iff, Prod.exists] at h
  obtain ⟨marked, hmarked, bracketed, hbracketed, label, after, hlabel, h⟩ := h
  split at h
  · contradiction
  next filled =>
    simp only [Option.bind_eq_some_iff, Prod.exists] at h
    obtain ⟨target, htarget, url, title, hread, h⟩ := h
    cases h
    have opened : ['['] ++ bracketed = marked := List.isPrefixOf?_eq_some_iff_append_eq.mp hbracketed
    have colon : [':'] ++ target = after := List.isPrefixOf?_eq_some_iff_append_eq.mp htarget
    refine ⟨target, ?_, Inline.isLabel_of_readLabel hlabel, by simpa using filled, hread⟩
    rw [hmarked, ← opened, Inline.eq_of_readLabel hlabel, ← colon]
    rfl

theorem dropIndent?_of_definition? (h : definition? line = some parts) : ∃ rest, dropIndent? line = some ('[' :: rest) := by
  obtain ⟨target, hmarked, -⟩ := exists_of_definition? h
  exact ⟨_, hmarked⟩

theorem interrupts_of_definition? (h : definition? line = some parts) : interrupts line = false ∧ underline? line = none := by
  obtain ⟨rest, hmarked⟩ := dropIndent?_of_definition? h
  have fence : fence? line = none := by simp [fence?, hmarked]
  have atx : atx? line = none := by simp [atx?, hmarked]
  have item : item? line = none := by
    have noDigit : isDecimalDigit '[' = false := by decide
    have bullet : bullet? ('[' :: rest) = none := by simp [bullet?, noDigit]
    simp [item?, hmarked, bullet]
  refine ⟨?_, ?_⟩
  · simp [interrupts, startsBlock, atx, fence, item, isThematicBreak, isBlockquote, isHtml, hmarked]
  · simp [underline?, hmarked]

end LineForm

namespace Block

variable {lines : List Text} {number : Nat} {block next : Block}

theorem StandsIn.position_eq (h : StandsIn number lines block) : block.position.startLine = block.first ∧
    block.position.endLine + 1 = block.first + block.lines.length := by
  obtain ⟨line, rest, hlines, _⟩ := h.read_own
  have filled : block.lines ≠ [] := by simp [hlines]
  have length : 0 < block.lines.length := List.length_pos_of_ne_nil filled
  obtain ⟨last, hlast⟩ := Option.isSome_iff_exists.mp (List.getLast?_isSome.mpr filled)
  simp only [position, span, hlast, true_and]
  omega

/-- What stood on the next line did not belong to the block. -/
theorem StandsIn.goesOn_of_touching (h : StandsIn number lines block) (hnext : StandsIn number lines next)
    (touching : block.position.endLine + 1 = next.position.startLine) :
    goesOn block.form block.lines.tail true (next.lines.head?.getD []) = false := by
  refine h.goesOn_eq_false hnext ?_
  rw [← h.position_eq.2, touching, hnext.position_eq.1]

theorem StandsIn.exists_definition? (h : StandsIn number lines block) {parts : Definition}
    (hform : block.form = .definition parts) : ∃ line rest, block.lines = line :: rest ∧ definition? line = some parts := by
  obtain ⟨line, rest, hlines, _, hread⟩ := h.read_own
  rw [hform] at hread
  exact ⟨line, rest, hlines, definition?_of_ofLine ((ofLine_of_read hread).resolve_right (by simp))⟩

end Block

namespace Node

variable {lines : List Text} {a b : Node}

theorem positions_of_isAdjacent (h : a.isAdjacent b) (hkind : a.kind ≠ .definition) :
    ∃ p q, a.position = some p ∧ b.position = some q ∧ p.endLine + 1 = q.startLine := by
  unfold isAdjacent at h
  simp only [hkind, decide_false, Bool.false_and, Bool.false_or] at h
  split at h
  next p q hp hq => exact ⟨p, q, hp, hq, by simpa using h⟩
  next => contradiction

theorem runsInto_of_closed {block : Block} (unbroken : ∀ line ∈ lines, line.IsUnbroken) (ha : block.StandsIn 1 lines)
    (kept : block.node.value.isSome) (hform : block.form = .paragraph ∨ block.form = .blockquote)
    (hb : b.IsDrawnFrom lines) : block.node.runsInto b = false := by
  rw [runsInto, ha.block_node unbroken kept, ha.lines_node unbroken kept]
  cases hadjacent : block.node.isAdjacent b with
  | false => rcases hform with hform | hform <;> simp [Block.goesOn, hform]
  | true =>
      have hkind : block.node.kind ≠ .definition := by
        rw [Block.kind_node]
        rcases hform with hform | hform <;> simp [hform, BlockForm.kind]
      -- what touches the block stood on the line behind it, and did not belong to it there
      obtain ⟨p, q, hp, hq, touching⟩ := positions_of_isAdjacent hadjacent hkind
      have hposition : block.position = p := Option.some.inj ((Document.position_node block).symm.trans hp)
      subst hposition
      cases hb with
      | @kept next hnext hkept =>
          have : next.position = q := Option.some.inj ((Document.position_node next).symm.trans hq)
          rw [hnext.lines_node unbroken hkept]
          exact ha.goesOn_of_touching hnext (this ▸ touching)
      | heading plain place =>
          obtain ⟨next, hnext, hposition⟩ := place q hq
          have stopped := ha.goesOn_of_touching hnext (hposition ▸ touching)
          rcases hform with hform | hform
          · obtain ⟨depth, _, positive, small, hlines⟩ := plain.lines_eq
            simp [Block.goesOn, hform, hlines, underline?_headingLine _ positive, interrupts_headingLine _ positive small]
          · rw [hform] at stopped
            contradiction
      | definition _ place =>
          obtain ⟨next, hnext, hposition, parts, hparts⟩ := place q hq
          have stopped := ha.goesOn_of_touching hnext (hposition ▸ touching)
          obtain ⟨line, rest, hlines, hread⟩ := hnext.exists_definition? hparts
          have quiet := interrupts_of_definition? hread
          rcases hform with hform | hform <;> simp [Block.goesOn, hform, hlines, quiet] at stopped
      | list _ _ noPlace =>
          rw [noPlace] at hq
          contradiction

/-- Only lists, code and HTML can run into what is printed behind them. -/
theorem runsInto_eq_false (unbroken : ∀ line ∈ lines, line.IsUnbroken) (ha : a.IsDrawnFrom lines) (hb : b.IsDrawnFrom lines)
    (defined : a.kind = .definition → (a.reread 1).kind = .definition)
    (closed : a.kind ∈ openKinds → a.runsInto b = false) : a.runsInto b = false := by
  cases ha with
  | @kept block hblock hkept =>
      obtain ⟨kind, hkept'⟩ := Block.keptKind?_of_value hkept
      rw [Block.node_of_keptKind? hkept'] at closed
      cases hform : block.form with
      | paragraph => exact runsInto_of_closed unbroken hblock hkept (Or.inl hform) hb
      | blockquote => exact runsInto_of_closed unbroken hblock hkept (Or.inr hform) hb
      | thematicBreak => simp only [runsInto, hblock.block_node unbroken hkept, Block.goesOn, hform]
      | list | fence | indentedCode | html =>
          rw [Block.node_of_keptKind? hkept']
          rw [hform] at hkept'
          cases hkept'
          exact closed (by simp [Block.opaqueNode, openKinds])
      | atx | setext | definition =>
          rw [hform] at hkept'
          contradiction
  | heading plain _ =>
      obtain ⟨heading, hform⟩ := plain.form_eq 1
      rw [runsInto, hform, Block.goesOn]
  | definition hkind _ =>
      obtain ⟨parts, hform⟩ := Block.exists_parts_of_kind (defined hkind)
      rw [runsInto, hform, Block.goesOn]
  | list hkind _ _ => exact closed (by rw [hkind]; decide)

end Node

end Changelog
