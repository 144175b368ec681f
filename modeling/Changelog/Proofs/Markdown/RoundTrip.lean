import Changelog.Proofs.Markdown.DefinitionLine

/-! # Documents printed and read again

Printing a document collapses blank lines, writes every heading in one line and glues definitions together. None of
this changes which blocks are read: each block is read as one of the same kind, level, source and key, as long as no
title of a definition holds a double quote.
-/

namespace Changelog

open LineForm

namespace Block

variable {line : Text} {c : Char} {family : Char} {direct : Bool}

/-! ## Lines that no list and no code go on with -/

theorem item?_of_mark (hc : c = '#' ∨ c = '[') (rest : Text) : item? (c :: rest) = none := by
  have hspace : c ≠ ' ' := by rcases hc with rfl | rfl <;> decide
  have hbullet : (c == '-' || c == '*' || c == '+') = false := by rcases hc with rfl | rfl <;> decide
  have hdigit : isDecimalDigit c = false := by rcases hc with rfl | rfl <;> decide
  have bullet : bullet? (c :: rest) = none := by simp [bullet?, hbullet, hdigit]
  rw [item?, dropIndent?_of_cons hspace]
  simp [bullet]

theorem keepsList_of_mark (hc : c = '#' ∨ c = '[') {rest : Text}
    (begins : startsBlock (c :: rest) ∨ (definition? (c :: rest)).isSome) : keepsList family direct (c :: rest) = false := by
  have upright : ¬2 ≤ Text.indent (c :: rest) := by
    rcases hc with rfl | rfl <;> simp [Text.indent, Text.indentFrom, isBlankChar]
  have thematic : isThematicBreak (c :: rest) = false := by
    rcases hc with rfl | rfl <;> simp [isThematicBreak, dropIndent?]
  have noItem := item?_of_mark hc rest
  have foreign : isItemOf family (c :: rest) = false := by simp [isItemOf, noItem]
  cases direct with
  | true =>
      rcases begins with begins | begins <;>
        simp [keepsList, continuesList, upright, thematic, foreign, begins]
  | false => simp [keepsList, resumesList, upright, foreign]

theorem isIndentedCode_of_mark (hc : c = '#' ∨ c = '[') (rest : Text) : isIndentedCode (c :: rest) = false := by
  rcases hc with rfl | rfl <;> rfl

/-- A list, code or HTML that ends above some block ends above a heading or a definition in its place. -/
theorem goesOn_of_mark {form : BlockForm} {rest : List Text} {next : Text} (hc : c = '#' ∨ c = '[') {text : Text}
    (begins : startsBlock (c :: text) ∨ (definition? (c :: text)).isSome) (hform : form ≠ .paragraph)
    (ends : goesOn form rest direct next = false) : goesOn form rest direct (c :: text) = false := by
  cases form with
  | list family => exact keepsList_of_mark hc begins
  | indentedCode => exact isIndentedCode_of_mark hc text
  | paragraph => contradiction
  | html raw => cases raw <;> exact ends
  | atx | fence | thematicBreak | definition | blockquote | setext => exact ends

end Block

namespace Node

/-- Does a node begin with a line that ends every list, code and HTML above it that a heading can end? -/
def HasMark (node : Node) : Prop := ∃ c text, node.lines.head?.getD [] = c :: text ∧ (c = '#' ∨ c = '[') ∧
  (startsBlock (c :: text) ∨ (definition? (c :: text)).isSome)

theorem IsPlainHeading.hasMark {node : Node} (h : node.IsPlainHeading) : node.HasMark := by
  obtain ⟨depth, -, positive, small, hlines⟩ := h.lines_eq
  obtain ⟨text, htext⟩ := headingLine_eq_cons (inlineTextAll node.children) positive
  obtain ⟨column, hread⟩ := atx?_headingLine (inlineTextAll node.children) positive small
  rw [htext] at hread
  exact ⟨'#', text, by rw [hlines, ← htext]; rfl, Or.inl rfl, Or.inl (by simp [startsBlock, hread])⟩

theorem IsPlainDefinition.hasMark {node : Node} {label url : Text} (h : node.IsPlainDefinition label url)
    (quote : '\x22' ∉ orEmpty node.title) : node.HasMark := by
  obtain ⟨target, -, hread⟩ := h.definition?_line quote
  exact ⟨'[', _, by rw [h.lines_eq]; rfl, Or.inr rfl, Or.inr (Option.isSome_of_eq_some hread)⟩

/-- What a block keeps when it is printed and read again. -/
structure KeepsShape (node again : Node) : Prop where
  kind : again.kind = node.kind
  depth : again.depth = node.depth
  value : again.value = node.value
  label : again.label = node.label
  identifier : again.identifier = node.identifier

variable {lines : List Text} {block next : Block}

theorem isAdjacent_node (ha : block.StandsIn 1 lines) (hb : next.StandsIn 1 lines) (hkind : block.node.kind ≠ .definition) :
    block.node.isAdjacent next.node = decide (block.first + block.lines.length = next.first) := by
  simp only [isAdjacent, hkind, decide_false, Bool.false_and, Bool.false_or, Document.position_node, ha.position_eq.2,
    hb.position_eq.1]

/-- A block that did not go on with the next one does not run into it when both are printed. -/
theorem runsInto_of_runsOn (ha : block.StandsIn 1 lines) (hb : next.StandsIn 1 lines)
    (unbroken : ∀ line ∈ lines, line.IsUnbroken)
    (hquote : block.node.kind = .definition → '\x22' ∉ orEmpty block.node.title)
    (hquote' : next.node.kind = .definition → '\x22' ∉ orEmpty next.node.title) (apart : block.runsOn next = false) :
    block.node.runsInto next.node = false := by
  refine runsInto_eq_false unbroken (isDrawnFrom_of_standsIn ha unbroken) (isDrawnFrom_of_standsIn hb unbroken) ?_ ?_
  · intro hkind
    obtain ⟨label, url, plain⟩ := ha.isPlainDefinition unbroken hkind
    obtain ⟨target, -, hread⟩ := plain.reread_eq (hquote hkind)
    obtain ⟨position, hread⟩ := hread 1
    rw [hread]
    rfl
  · intro hopen
    have notPlain : block.node.kind ≠ .heading ∧ block.node.kind ≠ .definition := by
      constructor <;> intro hkind <;> rw [hkind] at hopen <;> exact absurd hopen (by decide)
    have kept : block.node.value.isSome := by
      rcases ha.kept_or_plain unbroken with kept | plain | ⟨_, _, plain⟩
      · exact kept
      · exact absurd plain.kind notPlain.1
      · exact absurd plain.kind notPlain.2
    have hform : block.form ≠ .paragraph := by
      intro hform
      rw [Block.node, hform] at hopen
      exact absurd hopen (by simp [Block.opaqueNode, openKinds])
    -- the block is written in its own lines; the next one begins with its own line, or with a mark in its place
    rw [runsInto, ha.block_node unbroken kept, ha.lines_node unbroken kept, isAdjacent_node ha hb notPlain.2]
    rcases hb.kept_or_plain unbroken with kept' | plain | ⟨label, url, plain⟩
    · rw [hb.lines_node unbroken kept']
      exact apart
    · obtain ⟨c, text, htext, hc, begins⟩ := plain.hasMark
      rw [htext]
      exact Block.goesOn_of_mark hc begins hform apart
    · obtain ⟨c, text, htext, hc, begins⟩ := plain.hasMark (hquote' plain.kind)
      rw [htext]
      exact Block.goesOn_of_mark hc begins hform apart

theorem parts_of_heading (h : block.node.kind = .heading) :
    block.node.value = none ∧ block.node.label = none ∧ block.node.identifier = none := by
  unfold Block.node at h ⊢
  cases hform : block.form <;> rw [hform] at h <;> first | contradiction | exact ⟨rfl, rfl, rfl⟩

theorem parts_of_definition (h : block.node.kind = .definition) : block.node.value = none ∧ block.node.depth = none := by
  obtain ⟨parts, hform⟩ := Block.exists_parts_of_kind h
  rw [Block.node, hform]
  exact ⟨rfl, rfl⟩

theorem isWhole_and_keepsShape (h : block.StandsIn 1 lines) (unbroken : ∀ line ∈ lines, line.IsUnbroken)
    (quote : block.node.kind = .definition → '\x22' ∉ orEmpty block.node.title) :
    block.node.IsWhole ∧ ∀ number, block.node.KeepsShape (block.node.reread number) := by
  rcases h.kept_or_plain unbroken with kept | plain | ⟨label, url, plain⟩
  · refine ⟨h.isWhole_node unbroken kept, fun number => ?_⟩
    rw [h.reread_node unbroken kept number]
    exact ⟨rfl, rfl, rfl, rfl, rfl⟩
  · refine ⟨plain.isWhole, fun number => ?_⟩
    obtain ⟨column, hread⟩ := plain.reread_eq
    obtain ⟨position, hread⟩ := hread number
    obtain ⟨value, label, identifier⟩ := parts_of_heading plain.kind
    rw [hread]
    exact ⟨plain.kind.symm, rfl, value.symm, label.symm, identifier.symm⟩
  · refine ⟨plain.isWhole (quote plain.kind), fun number => ?_⟩
    obtain ⟨target, -, hread⟩ := plain.reread_eq (quote plain.kind)
    obtain ⟨position, hread⟩ := hread number
    obtain ⟨value, depth⟩ := parts_of_definition plain.kind
    rw [hread]
    exact ⟨plain.kind.symm, depth.symm, value.symm, plain.label_eq.symm, plain.identifier_eq.symm⟩

end Node

namespace Document

/-- A document without double quotes in the titles of its definitions is read again block by block, each from the lines
    that it is printed in. -/
theorem children_parse_print_parse (text : Text)
    (quote : ∀ node ∈ (parse text).children, node.kind = .definition → '\x22' ∉ Node.orEmpty node.title) :
    (∀ node ∈ (parse text).children, ∀ number, node.KeepsShape (node.reread number)) ∧
      (parse (print (parse text))).children = (blocksFrom 1 (parse text).children).map Block.node := by
  have unbroken : ∀ line ∈ Text.lines text, line.IsUnbroken := fun _ => Text.isUnbroken_of_mem_lines
  have standing : ∀ block ∈ Block.ofLines (Text.lines text), block.StandsIn 1 (Text.lines text) :=
    fun _ => Block.standsIn_of_mem_ofLinesFrom
  have hquote : ∀ block ∈ Block.ofLines (Text.lines text), block.node.kind = .definition →
      '\x22' ∉ Node.orEmpty block.node.title := fun block hblock => quote _ (List.mem_map_of_mem hblock)
  have children : (parse text).children = (Block.ofLines (Text.lines text)).map Block.node := rfl
  have shape : ∀ node ∈ (parse text).children, node.IsWhole ∧ ∀ number, node.KeepsShape (node.reread number) := by
    rw [children]
    refine List.forall_mem_map.mpr fun block hblock => ?_
    exact Node.isWhole_and_keepsShape (standing block hblock) unbroken (hquote block hblock)
  refine ⟨fun node hnode => (shape node hnode).2, ?_⟩
  by_cases hne : (parse text).children = []
  · rw [print, hne]
    rfl
  · refine children_parse_print hne (fun node hnode => (shape node hnode).1) ?_
    rw [children, List.isChain_map]
    refine (Block.isChain_ofLinesFrom 1 0 (Text.lines text)).imp_of_mem_imp fun a b ha hb => ?_
    exact Node.runsInto_of_runsOn (standing a ha) (standing b hb) unbroken (hquote a ha) (hquote b hb)

/-- Printing a document and reading it again keeps its blocks, one by one, if no title of a definition holds a double
    quote. -/
theorem parse_print_keepsShape (text : Text)
    (quote : ∀ node ∈ (parse text).children, node.kind = .definition → '\x22' ∉ Node.orEmpty node.title) :
    List.Forall₂ Node.KeepsShape (parse text).children (parse (print (parse text))).children := by
  obtain ⟨shape, again⟩ := children_parse_print_parse text quote
  rw [again]
  refine ((List.forall₂_and_left _ _).mpr ⟨shape, forall₂_blocksFrom 1 (parse text).children⟩).imp ?_
  rintro node again ⟨hnode, number, rfl⟩
  exact hnode number

/-- A heading with an underline, a list over a blank line with a heading right behind it, a definition in another
    spelling right behind code, and a fence that is not closed. -/
theorem parse_print_keepsShape_sample :
    let text := Text.ofString
      "Title\n===\n\n\n- a\n\n  b\n### c ###\n\tcode\n\n [Key]:  <x y> 'z'\n\n[two]: <>\n<!-- a\n\n-->\n~~~\n# d\n"
    (∀ node ∈ (parse text).children, node.kind = .definition → '\x22' ∉ Node.orEmpty node.title) ∧
      (parse text).children.map Node.kind =
        [.heading, .list, .heading, .code, .definition, .definition, .html, .code] ∧
      List.Forall₂ Node.KeepsShape (parse text).children (parse (print (parse text))).children := by
  intro text
  have quote : ∀ node ∈ (parse text).children, node.kind = .definition → '\x22' ∉ Node.orEmpty node.title := by
    decide
  exact ⟨quote, by decide, parse_print_keepsShape text quote⟩

end Document

end Changelog
