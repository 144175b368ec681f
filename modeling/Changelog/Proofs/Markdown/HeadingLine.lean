import Changelog.Proofs.Markdown.Inline
import Changelog.Proofs.Markdown.Reprint
import Changelog.Proofs.Markdown.Unplaced
import Changelog.Proofs.Text.Parts

/-! # Headings printed

A heading is printed as a single line of number signs and content, however it was written, and this line is read as a
heading of the same level. It ends every block above it that a heading can end.
-/

namespace Changelog

open LineForm

def headingLine (depth : Nat) (content : Text) : Text :=
  List.replicate depth '#' ++ if content.isEmpty then [] else ' ' :: content

theorem isUnbroken_headingLine (depth : Nat) {content : Text} (unbroken : content.IsUnbroken) :
    (headingLine depth content).IsUnbroken := by
  intro c hc
  rcases List.mem_append.mp hc with hc | hc
  · rw [List.eq_of_mem_replicate hc]
    decide
  · split at hc
    · contradiction
    · rcases List.mem_cons.mp hc with rfl | hc
      · decide
      · exact unbroken c hc

namespace LineForm

variable {depth : Nat} {line content : Text} {heading : Atx}

theorem headingLine_eq_cons (content : Text) (h : 1 ≤ depth) : ∃ rest, headingLine depth content = '#' :: rest := by
  obtain ⟨k, rfl⟩ := Nat.exists_eq_add_of_le' h
  exact ⟨_, by rw [headingLine, List.replicate_succ, List.cons_append]⟩

theorem dropIndent?_of_cons {c : Char} (h : c ≠ ' ') (rest : Text) : dropIndent? (c :: rest) = some (c :: rest) := by
  simp [dropIndent?, h]

theorem atx?_marked {after : Text} (stops : ∀ c ∈ after.head?, isSpaceOrTab c) (positive : 1 ≤ depth) (small : depth ≤ 6) :
    atx? (List.replicate depth '#' ++ after) =
      some ⟨depth, depth + (after.takeWhile isSpaceOrTab).length + 1, dropClosing (after.dropWhile isSpaceOrTab)⟩ := by
  have marked : dropIndent? (List.replicate depth '#' ++ after) = some (List.replicate depth '#' ++ after) := by
    obtain ⟨k, rfl⟩ := Nat.exists_eq_add_of_le' positive
    exact dropIndent?_of_cons (by decide) _
  have signs : ∀ c ∈ List.replicate depth '#', (c == '#') = true := by simp
  have behind : after.takeWhile (· == '#') = [] ∧ after.dropWhile (· == '#') = after := by
    cases after with
    | nil => exact ⟨rfl, rfl⟩
    | cons c after =>
        have other : c ≠ '#' := by
          rintro rfl
          exact absurd (stops '#' rfl) (by decide)
        simp [other]
  have depth_eq : ((List.replicate depth '#' ++ after).takeWhile (· == '#')).length = depth := by
    rw [List.takeWhile_append_of_pos signs, behind.1]
    simp
  have after_eq : (List.replicate depth '#' ++ after).dropWhile (· == '#') = after := by
    rw [List.dropWhile_append_of_pos signs, behind.2]
  have separated : (after.isEmpty || decide ((after.dropWhile isSpaceOrTab).length < after.length)) = true := by
    cases after with
    | nil => rfl
    | cons c after =>
        have shorter := (List.dropWhile_suffix isSpaceOrTab (l := after)).length_le
        rw [List.dropWhile_cons_of_pos (stops c rfl)]
        simp only [List.isEmpty_cons, Bool.false_or, decide_eq_true_eq, List.length_cons]
        omega
  have column : (List.replicate depth '#' ++ after).length - (after.dropWhile isSpaceOrTab).length =
      depth + (after.takeWhile isSpaceOrTab).length := by
    have parts := congrArg List.length (List.takeWhile_append_dropWhile (p := isSpaceOrTab) (l := after))
    rw [List.length_append] at parts
    rw [List.length_append, List.length_replicate]
    omega
  simp only [atx?, marked, Option.bind_eq_bind, Option.bind_some, depth_eq, after_eq, separated, positive, small,
    decide_true, Bool.and_true, if_true, column]

theorem atx?_headingLine (content : Text) (positive : 1 ≤ depth) (small : depth ≤ 6) : ∃ column,
    atx? (headingLine depth content) = some ⟨depth, column, dropClosing (content.dropWhile isSpaceOrTab)⟩ := by
  cases content with
  | nil => exact ⟨_, atx?_marked nofun positive small⟩
  | cons c content =>
      have stops : ∀ d ∈ (' ' :: c :: content).head?, isSpaceOrTab d := by
        rintro d ⟨⟩
        decide
      exact ⟨_, atx?_marked stops positive small⟩

theorem isBlank_headingLine (content : Text) (positive : 1 ≤ depth) : Text.isBlank (headingLine depth content) = false := by
  obtain ⟨rest, hline⟩ := headingLine_eq_cons content positive
  rw [hline, Text.isBlank, List.all_cons, show isBlankChar '#' = false by decide, Bool.false_and]

theorem underline?_headingLine (content : Text) (positive : 1 ≤ depth) : underline? (headingLine depth content) = none := by
  obtain ⟨rest, hline⟩ := headingLine_eq_cons content positive
  rw [hline, underline?, dropIndent?_of_cons (by decide)]
  rfl

theorem interrupts_headingLine (content : Text) (positive : 1 ≤ depth) (small : depth ≤ 6) :
    interrupts (headingLine depth content) := by
  obtain ⟨column, hread⟩ := atx?_headingLine content positive small
  simp [interrupts, startsBlock, hread]

theorem ofLine_headingLine (content : Text) (positive : 1 ≤ depth) (small : depth ≤ 6) : ∃ column,
    BlockForm.ofLine (headingLine depth content) = .atx ⟨depth, column, dropClosing (content.dropWhile isSpaceOrTab)⟩ := by
  obtain ⟨column, hread⟩ := atx?_headingLine content positive small
  exact ⟨column, by rw [BlockForm.ofLine, hread]⟩

/-! ## Headings that are read -/

theorem exists_dropClosing (text : Text) :
    ∃ front, front <+: text ∧ dropClosing text = Text.dropTailWhile isSpaceOrTab front := by
  unfold dropClosing
  dsimp only
  split
  · exact ⟨_, (Text.dropTailWhile_isPrefix _ _).trans (Text.dropTailWhile_isPrefix _ _), rfl⟩
  · exact ⟨text, List.prefix_rfl, rfl⟩

theorem dropClosing_isInfix (text : Text) : dropClosing text <:+: text := by
  obtain ⟨front, hfront, heq⟩ := exists_dropClosing text
  rw [heq]
  exact ((Text.dropTailWhile_isPrefix _ _).trans hfront).isInfix

theorem dropIndent?_suffix {marked : Text} (h : dropIndent? line = some marked) : marked <:+ line := by
  unfold dropIndent? at h
  split at h
  · cases h
    exact List.dropWhile_suffix _
  · contradiction

theorem bounds_of_atx? (h : atx? line = some heading) :
    1 ≤ heading.depth ∧ heading.depth ≤ 6 ∧ 1 ≤ heading.column ∧ heading.content <:+: line := by
  simp only [atx?, Option.bind_eq_bind, Option.bind_eq_some_iff] at h
  obtain ⟨marked, hmarked, h⟩ := h
  split at h
  next hbounds =>
    cases h
    simp only [Bool.and_eq_true, decide_eq_true_eq] at hbounds
    refine ⟨hbounds.1.1, hbounds.1.2, Nat.le_add_left 1 _, ?_⟩
    have marks : (marked.dropWhile (· == '#')).dropWhile isSpaceOrTab <:+ line :=
      (List.dropWhile_suffix _).trans ((List.dropWhile_suffix _).trans (dropIndent?_suffix hmarked))
    exact (dropClosing_isInfix _).trans marks.isInfix
  next => contradiction

theorem bounds_of_underline? (h : underline? line = some depth) : 1 ≤ depth ∧ depth ≤ 6 := by
  simp only [underline?, Option.bind_eq_bind, Option.bind_eq_some_iff] at h
  obtain ⟨marked, _, h⟩ := h
  split at h
  · split at h
    · cases h
      decide
    · contradiction
  · split at h
    · cases h
      decide
    · contradiction
  · contradiction

end LineForm

/-- A heading that is printed in one line. -/
structure Node.IsPlainHeading (node : Node) : Prop where
  kind : node.kind = .heading
  depth : ∃ depth, node.depth = some depth ∧ 1 ≤ depth ∧ depth ≤ 6
  unbroken : (inlineTextAll node.children).IsUnbroken

namespace Block

variable {line : Text} {lines rest post : List Text} {number length : Nat} {form : BlockForm} {block : Block}

theorem bounds_of_reachParagraph {depth : Nat} (h : (reachParagraph lines).2 = some depth) : 1 ≤ depth ∧ depth ≤ 6 := by
  induction lines with
  | nil => contradiction
  | cons line lines ih =>
      rw [reachParagraph] at h
      split at h
      · contradiction
      · split at h
        next hunderline =>
          cases h
          exact bounds_of_underline? hunderline
        next =>
          split at h
          · contradiction
          · exact ih h

/-- The form of a block is that of its first line, but for a heading with an underline. -/
theorem ofLine_of_read (h : read line rest = (form, length)) :
    BlockForm.ofLine line = form ∨ ∃ depth, form = .setext depth ∧ 1 ≤ depth ∧ depth ≤ 6 := by
  cases reaches_of_read h with
  | setext _ reach => exact Or.inr ⟨_, rfl, bounds_of_reachParagraph (by rw [reach])⟩
  | alone own | fence own | list own | indentedCode own | upToBlank own | rawHtml own | paragraph own => exact Or.inl own

theorem atx?_of_ofLine {heading : Atx} (h : BlockForm.ofLine line = .atx heading) : atx? line = some heading :=
  isSaidBy_of_ofLine h

theorem ofLine_ne_setext (depth : Nat) : BlockForm.ofLine line ≠ .setext depth := isSaidBy_of_ofLine

/-! ### What a heading says -/

/-- The text that the inline nodes of a block are read from, without the white space around its lines. -/
def content (block : Block) : Text :=
  match block.form with
  | .atx heading => heading.content
  | .setext _ => Text.join [' '] (block.lines.dropLast.map Text.strip)
  | _ => []

/-- The inline nodes of a block are those of its content. They have no places if its lines had to be joined. -/
theorem StandsIn.exists_children (h : StandsIn number lines block) : ∃ column, 1 ≤ column ∧
    (block.node.children = Inline.parse (some block.first) column block.content ∨
      block.node.children = Node.withoutPositionsAll (Inline.parse (some block.first) column block.content)) := by
  obtain ⟨line, rest, _, _, hread⟩ := h.read_own
  have hfirst := ofLine_of_read hread
  unfold Block.node content
  cases hform : block.form with
  | atx heading =>
      obtain ⟨-, -, counted, -⟩ := bounds_of_atx? (atx?_of_ofLine ((hform ▸ hfirst).resolve_right (by simp)))
      exact ⟨heading.column, counted, Or.inl rfl⟩
  | setext depth =>
      refine ⟨_, Nat.le_add_left 1 ((block.lines.dropLast.head?.getD []).takeWhile isBlankChar).length, ?_⟩
      dsimp only [setextNode]
      split
      · exact Or.inl rfl
      · exact Or.inr rfl
  | fence | thematicBreak | definition | list | blockquote | html | indentedCode | paragraph =>
      exact ⟨1, le_rfl, Or.inl (Inline.parse_nil ..).symm⟩

theorem StandsIn.exists_inlineText (h : StandsIn number lines block) : ∃ column,
    Node.inlineTextAll block.node.children = Node.inlineTextAll (Inline.parse (some block.first) column block.content) := by
  obtain ⟨column, -, hchildren | hchildren⟩ := h.exists_children
  · exact ⟨column, congrArg _ hchildren⟩
  · exact ⟨column, by rw [hchildren, Node.inlineTextAll_withoutPositions]⟩

theorem StandsIn.content_cases (h : StandsIn number lines block) : (∃ line ∈ block.lines, block.content <:+: line) ∨
    block.content = Text.join [' '] (block.lines.dropLast.map Text.strip) := by
  obtain ⟨line, rest, hlines, _, hread⟩ := h.read_own
  have own : line ∈ block.lines := hlines ▸ List.mem_cons_self
  have hfirst := ofLine_of_read hread
  unfold content
  cases hform : block.form with
  | atx heading =>
      obtain ⟨-, -, -, stretch⟩ := bounds_of_atx? (atx?_of_ofLine ((hform ▸ hfirst).resolve_right (by simp)))
      exact Or.inl ⟨line, own, stretch⟩
  | setext depth => exact Or.inr rfl
  | fence | thematicBreak | definition | list | blockquote | html | indentedCode | paragraph =>
      exact Or.inl ⟨line, own, List.nil_infix⟩

theorem StandsIn.depth_node (h : StandsIn number lines block) :
    block.node.kind = .heading ∧ (∃ depth, block.node.depth = some depth ∧ 1 ≤ depth ∧ depth ≤ 6) ∨
      block.node.kind ≠ .heading ∧ block.node.depth = none := by
  obtain ⟨line, rest, _, _, hread⟩ := h.read_own
  have hfirst := ofLine_of_read hread
  unfold Block.node
  cases hform : block.form with
  | atx heading =>
      obtain ⟨positive, small, -⟩ := bounds_of_atx? (atx?_of_ofLine ((hform ▸ hfirst).resolve_right (by simp)))
      exact Or.inl ⟨rfl, heading.depth, rfl, positive, small⟩
  | setext depth =>
      obtain ⟨_, same, bounds⟩ := (hform ▸ hfirst).resolve_left (ofLine_ne_setext depth)
      cases same
      exact Or.inl ⟨rfl, depth, rfl, bounds⟩
  | fence | thematicBreak | definition | list | blockquote | html | indentedCode | paragraph =>
      exact Or.inr ⟨nofun, rfl⟩

theorem isUnbroken_parse {text : Text} (h : text.IsUnbroken) (line : Option Nat) (column : Nat) :
    (Node.inlineTextAll (Inline.parse line column text)).IsUnbroken :=
  Inline.forall_mem_inlineTextAll_parse (by decide) line column h

theorem StandsIn.isUnbroken_content (h : StandsIn number lines block) (unbroken : ∀ line ∈ lines, line.IsUnbroken) :
    block.content.IsUnbroken := by
  have own : ∀ line ∈ block.lines, line.IsUnbroken := fun line hline => unbroken line (h.mem_lines hline)
  intro c hc
  rcases h.content_cases with ⟨line, hline, stretch⟩ | joined
  · exact own line hline c (stretch.subset hc)
  · rw [joined] at hc
    rcases Text.mem_join hc with hc | ⟨part, hpart, hc⟩
    · rw [List.mem_singleton.mp hc]
      decide
    · obtain ⟨line, hline, rfl⟩ := List.mem_map.mp hpart
      exact own line (List.dropLast_subset _ hline) c ((Text.strip_isInfix line).subset hc)

theorem StandsIn.isPlainHeading (h : StandsIn number lines block) (unbroken : ∀ line ∈ lines, line.IsUnbroken)
    (hkind : block.node.kind = .heading) : block.node.IsPlainHeading := by
  refine ⟨hkind, (h.depth_node.resolve_right fun other => other.1 hkind).2, ?_⟩
  obtain ⟨column, htext⟩ := h.exists_inlineText
  rw [htext]
  exact isUnbroken_parse (h.isUnbroken_content unbroken) _ _

end Block

/-! ## Headings that are printed and read again -/

namespace Node

variable {node : Node}

theorem blockText_of_heading (h : node.kind = .heading) : node.blockText = headingText node.depth node.children := by
  obtain ⟨kind⟩ := node
  cases h
  rfl

theorem headingText_eq (depth : Nat) (children : List Node) :
    headingText (some depth) children = headingLine depth (inlineTextAll children) := by
  rw [headingText, headingLine, Option.getD_some]
  split <;> simp

namespace IsPlainHeading

theorem blockText_eq (h : node.IsPlainHeading) : ∃ depth, node.depth = some depth ∧ 1 ≤ depth ∧ depth ≤ 6 ∧
    node.blockText = headingLine depth (inlineTextAll node.children) ∧ node.blockText.IsUnbroken := by
  obtain ⟨depth, hdepth, positive, small⟩ := h.depth
  have htext : node.blockText = headingLine depth (inlineTextAll node.children) := by
    rw [blockText_of_heading h.kind, hdepth, headingText_eq]
  exact ⟨depth, hdepth, positive, small, htext, htext ▸ isUnbroken_headingLine depth h.unbroken⟩

theorem lines_eq (h : node.IsPlainHeading) : ∃ depth, node.depth = some depth ∧ 1 ≤ depth ∧ depth ≤ 6 ∧
    node.lines = [headingLine depth (inlineTextAll node.children)] := by
  obtain ⟨depth, hdepth, positive, small, htext, unbroken⟩ := h.blockText_eq
  exact ⟨depth, hdepth, positive, small, htext ▸ Text.lines_of_isUnbroken unbroken⟩

theorem reread_eq (h : node.IsPlainHeading) : ∃ column, ∀ number, ∃ position, node.reread number =
    { kind := .heading, depth := node.depth, position,
      children := Inline.parse (some number) column (dropClosing ((inlineTextAll node.children).dropWhile isSpaceOrTab)) } := by
  obtain ⟨depth, hdepth, positive, small, hlines⟩ := h.lines_eq
  obtain ⟨column, hform⟩ := ofLine_headingLine (inlineTextAll node.children) positive small
  refine ⟨column, fun number => ⟨some (Block.span number node.lines), ?_⟩⟩
  have hread : (Block.read (headingLine depth (inlineTextAll node.children)) []).1 =
      .atx ⟨depth, column, dropClosing ((inlineTextAll node.children).dropWhile isSpaceOrTab)⟩ := by
    rw [Block.read, hform]
  rw [Node.reread, Node.block, hlines, List.head?_cons, Option.getD_some, List.tail_cons, hread, hdepth]
  rfl

theorem isWhole (h : node.IsPlainHeading) : node.IsWhole := by
  obtain ⟨depth, _, positive, small, hlines⟩ := h.lines_eq
  obtain ⟨column, hform⟩ := ofLine_headingLine (inlineTextAll node.children) positive small
  exact ⟨_, [], hlines, isBlank_headingLine _ positive, by rw [Block.read, hform]; rfl⟩

theorem form_eq (h : node.IsPlainHeading) (number : Nat) : ∃ heading, (node.block number).form = .atx heading := by
  obtain ⟨depth, _, positive, small, hlines⟩ := h.lines_eq
  obtain ⟨column, hform⟩ := ofLine_headingLine (inlineTextAll node.children) positive small
  exact ⟨_, by rw [Node.block, hlines, List.head?_cons, Option.getD_some, Block.read, hform]⟩

end IsPlainHeading

end Node

end Changelog
