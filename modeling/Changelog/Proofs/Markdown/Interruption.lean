import Changelog.Proofs.Markdown.RoundTrip
import Changelog.Proofs.Markdown.Tiling

/-! # Headings below other blocks

A heading that is not indented ends the list, code or paragraph above it, also where blank lines stand between. Code
between fences and raw HTML go on through it. So does a quote, which goes on up to the next blank line.
-/

namespace Changelog

open LineForm

namespace Block

variable {line : Text} {lines rest : List Text} {number : Nat} {form : BlockForm} {block : Block} {blocks : List Block}

/-! ## The block that a line lies in -/

namespace Tiles

theorem exists_block (h : Tiles number lines blocks) {i : Nat} (hline : lines[i]? = some line)
    (filled : Text.isBlank line = false) :
    ∃ block ∈ blocks, block.first ≤ number + i ∧ number + i < block.first + block.lines.length := by
  by_contra free
  push Not at free
  have blank := h.isBlank_of_free hline fun block hblock within => absurd (free block hblock within.1) (by omega)
  rw [blank] at filled
  contradiction

theorem eq_of_common (h : Tiles number lines blocks) {a b : Block} (ha : a ∈ blocks) (hb : b ∈ blocks) {i : Nat}
    (first : a.first ≤ i ∧ i < a.first + a.lines.length) (second : b.first ≤ i ∧ i < b.first + b.lines.length) : a = b := by
  have apart : blocks.Pairwise fun a b => a.first + a.lines.length ≤ b.first ∨ b.first + b.lines.length ≤ a.first :=
    h.pairwise.imp Or.inl
  have symmetric : Std.Symm fun a b : Block =>
      a.first + a.lines.length ≤ b.first ∨ b.first + b.lines.length ≤ a.first := ⟨fun _ _ => Or.symm⟩
  by_contra distinct
  have := apart.forall ha hb distinct
  omega

end Tiles

/-! ## Lines that a block takes -/

/-- The blocks that take a heading for one of their lines. -/
theorem form_of_heading_mem {text : Text} (hread : read line rest = (form, rest.length)) (hmem : '#' :: text ∈ rest)
    (heading : (atx? ('#' :: text)).isSome) : form = .blockquote ∨ (∃ raw, form = .html raw) ∨ ∃ fence, form = .fence fence := by
  have filled : Text.isBlank ('#' :: text) = false := isBlank_eq_false_of_mem List.mem_cons_self (by decide)
  have begins : startsBlock ('#' :: text) := by simp [startsBlock, heading]
  have none : rest.length ≠ 0 := by
    have := List.length_pos_of_mem hmem
    omega
  cases reaches_of_read hread with
  | alone _ reach => exact absurd reach none
  | fence => exact Or.inr (Or.inr ⟨_, rfl⟩)
  | rawHtml => exact Or.inr (Or.inl ⟨_, rfl⟩)
  | upToBlank _ hform => exact hform.imp id fun html => Or.inl ⟨_, html⟩
  | list _ reach =>
      obtain ⟨direct, own⟩ := belongs_of_reachOver 0 (by rw [reach, Nat.zero_add]) _ hmem filled
      rw [keepsList_of_mark (Or.inl rfl) (Or.inl begins)] at own
      contradiction
  | indentedCode _ reach =>
      obtain ⟨_, own⟩ := belongs_of_reachOver 0 (by rw [reach, Nat.zero_add]) _ hmem filled
      rw [isIndentedCode_of_mark (Or.inl rfl)] at own
      contradiction
  | paragraph _ reach | setext _ reach =>
      cases (passed_of_reachParagraph reach _ hmem).2 with
      | inl underlined => simp [underline?, dropIndent?] at underlined
      | inr calm => simp [interrupts, begins] at calm

end Block

/-! ## Documents -/

namespace Node

/-- Is a block code between fences, as its first line says? -/
def IsFenced (node : Node) (lines : List Text) : Prop :=
  node.kind = .code ∧ ∃ p ∈ node.position, ∃ line ∈ lines[p.startLine - 1]?, (fence? line).isSome

instance (node : Node) (lines : List Text) : Decidable (node.IsFenced lines) := inferInstanceAs (Decidable (_ ∧ _))

/-- The heading that a line is with number signs, a space and some content. -/
def headingAt (number depth : Nat) (content : Text) : Node :=
  let column := depth + (content.takeWhile isSpaceOrTab).length + 2
  { kind := .heading, depth := some depth
    children := Inline.parse (some number) column (dropClosing (content.dropWhile isSpaceOrTab))
    position := some { startLine := number, startColumn := 1, endLine := number, endColumn := depth + content.length + 2 } }

end Node

namespace Block

variable {lines : List Text} {block : Block} {content : Text} {depth i : Nat}

theorem atx?_spaced (content : Text) (positive : 1 ≤ depth) (small : depth ≤ 6) :
    atx? (List.replicate depth '#' ++ ' ' :: content) =
      some ⟨depth, depth + (content.takeWhile isSpaceOrTab).length + 2, dropClosing (content.dropWhile isSpaceOrTab)⟩ := by
  have spaced : ∀ c ∈ (' ' :: content).head?, isSpaceOrTab c := by
    rintro c ⟨⟩
    decide
  rw [atx?_marked spaced positive small, List.takeWhile_cons_of_pos (spaced ' ' rfl),
    List.dropWhile_cons_of_pos (spaced ' ' rfl)]
  rfl

theorem StandsIn.node_eq_headingAt (h : block.StandsIn 1 lines) (positive : 1 ≤ depth) (small : depth ≤ 6)
    (begins : block.lines.head? = some (List.replicate depth '#' ++ ' ' :: content)) :
    block.node = Node.headingAt block.first depth content := by
  obtain ⟨line, rest, hlines, _, hread⟩ := h.read_own
  rw [hlines, List.head?_cons, Option.some_inj] at begins
  subst begins
  have hform : BlockForm.ofLine (List.replicate depth '#' ++ ' ' :: content) =
      .atx ⟨depth, depth + (content.takeWhile isSpaceOrTab).length + 2, dropClosing (content.dropWhile isSpaceOrTab)⟩ := by
    rw [BlockForm.ofLine, atx?_spaced content positive small]
  rw [read, hform, Prod.mk.injEq] at hread
  obtain ⟨own, alone⟩ := hread
  rw [List.length_eq_zero_iff.mp alone.symm] at hlines
  have width : (List.replicate depth '#' ++ ' ' :: content).length + 1 = depth + content.length + 2 := by
    rw [List.length_append, List.length_replicate, List.length_cons]
    omega
  have place : block.position = ⟨block.first, 1, block.first, depth + content.length + 2⟩ := by
    rw [position, hlines, span, List.getLast?_singleton, List.length_singleton, Nat.add_sub_cancel, ← width]
  rw [Block.node, ← own]
  show atxNode block _ = _
  rw [atxNode, place]
  rfl

/-- What a heading lies in that no block begins with. -/
theorem StandsIn.kind_of_heading_mem {text : Text} (h : block.StandsIn 1 lines) (hmem : '#' :: text ∈ block.lines.tail)
    (heading : (atx? ('#' :: text)).isSome) :
    block.node.kind = .blockquote ∨ block.node.kind = .html ∨ block.node.IsFenced lines := by
  obtain ⟨opening, rest, hlines, _, hread⟩ := h.read_own
  rw [hlines, List.tail_cons] at hmem
  rcases form_of_heading_mem hread hmem heading with hform | ⟨raw, hform⟩ | ⟨fence, hform⟩
  · refine Or.inl ?_
    rw [kind_node, hform]
    rfl
  · refine Or.inr (Or.inl ?_)
    rw [kind_node, hform]
    rfl
  · refine Or.inr (Or.inr ⟨?_, block.position, Document.position_node block, opening, ?_, ?_⟩)
    · rw [kind_node, hform]
      rfl
    · have first := h.getElem?_lines (k := 0) (by simp [hlines])
      rwa [hlines, ← h.position_eq.1] at first
    · have own := ofLine_of_read hread
      rw [hform] at own
      rw [fence?_of_ofLine (own.resolve_right (by simp))]
      rfl

/-- A heading is a block, or it lies in one that goes on through it. -/
theorem StandsIn.node_of_heading (h : block.StandsIn 1 lines) (positive : 1 ≤ depth) (small : depth ≤ 6)
    (hline : lines[i]? = some (List.replicate depth '#' ++ ' ' :: content)) (inside : block.position.GoesOver (i + 1)) :
    block.node = Node.headingAt (i + 1) depth content ∨ block.node.kind = .blockquote ∨ block.node.kind = .html ∨
      block.node.IsFenced lines := by
  rw [h.goesOver_iff] at inside
  have first := h.bounds.1
  have here : block.lines[i + 1 - block.first]? = some (List.replicate depth '#' ++ ' ' :: content) := by
    have index : block.first - 1 + (i + 1 - block.first) = i := by omega
    rw [← h.getElem?_lines (by omega), index, hline]
  cases offset : i + 1 - block.first with
  | zero =>
      rw [offset, ← List.head?_eq_getElem?] at here
      have number : i + 1 = block.first := by omega
      rw [number]
      exact Or.inl (h.node_eq_headingAt positive small here)
  | succ k =>
      rw [offset, ← List.getElem?_tail] at here
      have heading := atx?_spaced content positive small
      obtain ⟨depth, rfl⟩ := Nat.exists_eq_add_of_le' positive
      rw [List.replicate_succ, List.cons_append] at here heading
      exact Or.inr (h.kind_of_heading_mem (List.mem_of_getElem? here) (Option.isSome_of_eq_some heading))

end Block

namespace Document

open Text (ofString)

/-- No two blocks go over the same line. -/
theorem eq_node_of_goesOver {text : Text} {block : Block} {node : Node} {p : Position} {number : Nat}
    (hblock : block ∈ Block.ofLines (Text.lines text)) (inside : block.position.GoesOver number)
    (hnode : node ∈ (parse text).children) (hp : p ∈ node.position) (within : p.GoesOver number) : node = block.node := by
  obtain ⟨other, hother, rfl⟩ := List.mem_map.mp hnode
  rw [position_node] at hp
  cases hp
  have standing : ∀ block ∈ Block.ofLines (Text.lines text), block.StandsIn 1 (Text.lines text) :=
    fun _ => Block.standsIn_of_mem_ofLinesFrom
  rw [(standing block hblock).goesOver_iff] at inside
  rw [(standing other hother).goesOver_iff] at within
  rw [(Block.tiles_ofLines (Text.lines text)).eq_of_common hother hblock within inside]

/-- A line with number signs and a space that lies neither between fences nor in raw HTML is a heading of the document,
    unless a quote goes on with it. -/
theorem heading_iff_unquoted {text content : Text} {i depth : Nat} (positive : 1 ≤ depth) (small : depth ≤ 6)
    (hline : (Text.lines text)[i]? = some (List.replicate depth '#' ++ ' ' :: content))
    (plain : ∀ node ∈ (parse text).children, ∀ p ∈ node.position, p.GoesOver (i + 1) →
      ¬node.IsFenced (Text.lines text) ∧ node.kind ≠ .html) :
    Node.headingAt (i + 1) depth content ∈ (parse text).children ↔
      ∀ node ∈ (parse text).children, ∀ p ∈ node.position, p.GoesOver (i + 1) → node.kind ≠ .blockquote := by
  have filled : Text.isBlank (List.replicate depth '#' ++ ' ' :: content) = false :=
    Block.isBlank_eq_false_of_mem (List.mem_append_left _ (List.mem_replicate.mpr ⟨by omega, rfl⟩)) (by decide)
  obtain ⟨block, hblock, inside⟩ := (Block.tiles_ofLines (Text.lines text)).exists_block hline filled
  have standing : block.StandsIn 1 (Text.lines text) := Block.standsIn_of_mem_ofLinesFrom hblock
  rw [Nat.add_comm 1 i, ← standing.goesOver_iff] at inside
  have mem : block.node ∈ (parse text).children := List.mem_map_of_mem hblock
  obtain ⟨unfenced, noHtml⟩ := plain block.node mem block.position (position_node block) inside
  rcases standing.node_of_heading positive small hline inside with heading | quote | html | fenced
  · refine iff_of_true (heading ▸ mem) ?_
    intro node hnode p hp within
    rw [eq_node_of_goesOver hblock inside hnode hp within, heading]
    nofun
  · refine iff_of_false ?_ ?_
    · intro hnode
      rw [← eq_node_of_goesOver hblock inside hnode rfl ⟨le_rfl, le_rfl⟩] at quote
      contradiction
    · intro unquoted
      exact unquoted block.node mem block.position (position_node block) inside quote
  · exact absurd html noHtml
  · exact absurd fenced unfenced

/-- A list ends above a heading, though its text could go on there. -/
theorem heading_iff_unquoted_sample :
    let text := ofString "> q\n\n- a\n## [b]\n~~~\n# c\n"
    (Text.lines text)[3]? = some (List.replicate 2 '#' ++ ' ' :: ofString "[b]") ∧
      (∀ node ∈ (parse text).children, ∀ p ∈ node.position, p.GoesOver 4 →
        ¬node.IsFenced (Text.lines text) ∧ node.kind ≠ .html) ∧
      Node.headingAt 4 2 (ofString "[b]") ∈ (parse text).children := by
  intro text
  have line : (Text.lines text)[3]? = some (List.replicate 2 '#' ++ ' ' :: ofString "[b]") := by decide
  have plain : ∀ node ∈ (parse text).children, ∀ p ∈ node.position, p.GoesOver 4 →
      ¬node.IsFenced (Text.lines text) ∧ node.kind ≠ .html := by decide
  exact ⟨line, plain, (heading_iff_unquoted (by decide) (by decide) line plain).mpr (by decide)⟩

/-- The heading right below a quote is no block of its own. -/
theorem heading_below_quote :
    let text := ofString "> q\n# Heading\n"
    (Text.lines text)[1]? = some (List.replicate 1 '#' ++ ' ' :: ofString "Heading") ∧
      (∀ node ∈ (parse text).children, ¬node.IsFenced (Text.lines text) ∧ node.kind ≠ .html) ∧
      ∀ node ∈ (parse text).children, node.kind ≠ .heading := by
  decide

end Document

end Changelog
