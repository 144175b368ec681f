import Changelog.Proofs.Markdown.Exact
import Changelog.Proofs.Markdown.Rewritten
import Changelog.Proofs.Markdown.Settled

/-! # Texts whose blocks come back

Whether the blocks of a text come back from their print can be told from the text. Headings do whose content can be
written as it can be read, and definitions without a double quote in the title and without angle brackets to lose. No
list, code or HTML has to be kept apart from what it could come to stand in front of.
-/

namespace Changelog

open LineForm

namespace Node

variable {node a b : Node} {children : List Node} {label url : Text} {lines : List Text}

/-- A block whose lines are read as a block of its kind and its key, which is written in the same way. A definition leads
    to the same address, and a heading says the same. -/
structure ComesBack (node : Node) : Prop where
  readsBack : node.ReadsBack
  text : (node.reread 1).blockText = node.blockText
  url : node.kind = .definition → (node.reread 1).url = node.url
  said : node.kind = .heading →
    ReleaseHeading.ofNodes (node.reread 1).children = ReleaseHeading.ofNodes node.children

theorem IsPlainHeading.comesBack (h : node.IsPlainHeading)
    (read : withoutPositionsAll
      (Inline.parse none 1 (dropClosing ((inlineTextAll node.children).dropWhile isSpaceOrTab))) = children)
    (text : inlineTextAll children = inlineTextAll node.children)
    (said : ReleaseHeading.ofNodes children = ReleaseHeading.ofNodes node.children) : node.ComesBack := by
  have inside : withoutPositionsAll (node.reread 1).children = children := h.withoutPositionsAll_reread.trans read
  refine ⟨h.readsBack, ?_, fun hkind => absurd (h.kind.symm.trans hkind) nofun, fun _ => ?_⟩
  · obtain ⟨column, hread⟩ := h.reread_eq
    obtain ⟨position, hread⟩ := hread 1
    have depth : (node.reread 1).depth = node.depth := by rw [hread]
    have content : inlineTextAll (node.reread 1).children = inlineTextAll node.children := by
      rw [← inlineTextAll_withoutPositions, inside, text]
    rw [blockText_of_heading h.kind, blockText_of_heading (h.readsBack.kind.trans h.kind), headingText, headingText, depth,
      content]
  · rw [← ReleaseHeading.ofNodes_withoutPositions, inside, said]

theorem IsPlainDefinition.comesBack (h : node.IsPlainDefinition label url) (quote : '\x22' ∉ orEmpty node.title)
    (kept : writtenUrl url = url) : node.ComesBack := by
  obtain ⟨target, htarget, hread⟩ := h.reread_eq quote
  obtain ⟨position, hread⟩ := hread 1
  rw [readDefinitionTarget_written h.target quote, kept] at htarget
  cases htarget
  refine ⟨⟨h.isWhole quote, ?_, ?_, ?_⟩, ?_, fun _ => ?_, fun hkind => absurd (h.kind.symm.trans hkind) nofun⟩
  · rw [hread, h.kind]
    rfl
  · rw [hread, headingDepth?, headingDepth?, h.kind]
    rfl
  · rw [hread, key?, key?, h.kind, h.identifier_eq]
    rfl
  · exact (h.blockText_reread_iff quote 1).mpr (.inl kept)
  · rw [hread, h.url_eq]
    rfl

theorem IsExact.comesBack (h : node.IsExact) : node.ComesBack := by
  have copy : node.IsCopy (node.reread 1) := h.isCopy_reread 1
  exact ⟨⟨h.whole, copy.kind_eq, copy.headingDepth?_eq, copy.key?_eq⟩, copy.blockText_eq, fun _ => copy.url_eq,
    fun _ => copy.ofNodes_eq⟩

/-- A definition that has no double quote in its title and no angle brackets of its own around its destination. -/
structure IsSteadyDefinition (node : Node) : Prop where
  quote : '\x22' ∉ orEmpty node.title
  url : writtenUrl (orEmpty node.url) = orEmpty node.url

end Node

namespace Block

variable {lines : List Text} {block : Block}

/-- A heading whose content can be written as it can be read, and is not closed by number signs of its own then. -/
structure IsSteadyHeading (block : Block) : Prop where
  rewritable : Inline.IsRewritable block.content
  unclosed : dropClosing (Inline.written block.content) = Inline.written block.content

theorem IsSteadyHeading.of_written (h : Inline.written block.content = block.content)
    (unclosed : dropClosing block.content = block.content) : block.IsSteadyHeading :=
  ⟨.kept h, by rw [h, unclosed]⟩

theorem StandsIn.comesBack_heading (h : block.StandsIn 1 lines) (plain : block.node.IsPlainHeading)
    (steady : block.IsSteadyHeading) : block.node.ComesBack := by
  obtain ⟨column, htext⟩ := h.exists_inlineText
  obtain ⟨column', -, hchildren⟩ := h.exists_children
  have content : Node.inlineTextAll block.node.children = Inline.written block.content := by
    rw [htext, Inline.inlineTextAll_parse]
  have again : Inline.parse none 1 (dropClosing ((Node.inlineTextAll block.node.children).dropWhile isSpaceOrTab)) =
      Inline.parse none 1 block.content := by
    rw [(h.isTrimmed plain.kind).dropWhile_eq, content, steady.unclosed, steady.rewritable.parse_written]
  refine plain.comesBack rfl ?_ ?_
  · rw [again, Node.inlineTextAll_withoutPositions, Inline.inlineTextAll_parse, content]
  · rw [again, ← Inline.withoutPositionsAll_parse (some block.first) none column' 1, ReleaseHeading.ofNodes_withoutPositions]
    rcases hchildren with hchildren | hchildren
    · rw [hchildren]
    · rw [hchildren, ReleaseHeading.ofNodes_withoutPositions]

theorem StandsIn.comesBack (h : block.StandsIn 1 lines) (unbroken : ∀ line ∈ lines, line.IsUnbroken)
    (heading : block.node.kind = .heading → block.IsSteadyHeading)
    (definition : block.node.kind = .definition → block.node.IsSteadyDefinition) : block.node.ComesBack := by
  rcases h.kept_or_plain unbroken with kept | plain | ⟨label, url, plain⟩
  · have hread := h.reread_node unbroken kept 1
    have whole : block.node.ReadsBack :=
      ⟨h.isWhole_node unbroken kept, by rw [hread], by rw [hread]; rfl, by rw [hread]; rfl⟩
    refine ⟨whole, ?_, fun _ => by rw [hread], fun _ => by rw [hread]⟩
    rw [hread]
    exact Node.blockText_place _ _
  · exact h.comesBack_heading plain (heading plain.kind)
  · have steady := definition plain.kind
    have url := steady.url
    rw [plain.url_eq] at url
    exact plain.comesBack steady.quote url

end Block

namespace Node

variable {lines : List Text} {block : Block} {b : Node}

/-- A block that would not go on with a title behind it goes on with no heading and no definition in its place. -/
theorem runsInto_of_hasMark (ha : block.StandsIn 1 lines) (unbroken : ∀ line ∈ lines, line.IsUnbroken)
    (hkind : block.node.kind ∈ openKinds) (ended : block.node.runsInto Outline.titleNode = false) (hb : b.IsDrawnFrom lines)
    (mark : b.HasMark) : block.node.runsInto b = false := by
  obtain ⟨c, text, hline, hc, begins⟩ := mark
  have kept : block.node.value.isSome := by
    rcases ha.kept_or_plain unbroken with kept | plain | ⟨_, _, plain⟩
    · exact kept
    · rw [plain.kind] at hkind
      exact absurd hkind (by decide)
    · rw [plain.kind] at hkind
      exact absurd hkind (by decide)
  have notParagraph : block.form ≠ .paragraph := by
    intro hform
    rw [Block.kind_node, hform] at hkind
    exact absurd hkind (by decide)
  have notDefinition : block.node.kind ≠ .definition := by
    intro hdefinition
    rw [hdefinition] at hkind
    exact absurd hkind (by decide)
  rw [runsInto, ha.block_node unbroken kept, ha.lines_node unbroken kept] at ended ⊢
  rw [hline]
  cases hadjacent : block.node.isAdjacent b with
  | false =>
      have apart : block.node.isAdjacent Outline.titleNode = false := by
        simp [isAdjacent, notDefinition, Outline.titleNode, heading]
      rw [apart] at ended
      exact Block.goesOn_of_mark hc begins notParagraph ended
  | true =>
      -- what touches the block stood on the line behind it, and did not belong to it there
      obtain ⟨p, q, hp, hq, touching⟩ := positions_of_isAdjacent hadjacent notDefinition
      obtain rfl : block.position = p := Option.some.inj ((Document.position_node block).symm.trans hp)
      obtain ⟨next, hnext, rfl⟩ := hb.exists_standsIn hq
      exact Block.goesOn_of_mark hc begins notParagraph (ha.goesOn_of_touching hnext touching)

end Node

namespace Document

variable {content : Text} {node : Node}

/-- A text whose blocks come back from their print. No list, code or HTML in it goes on with what stands behind it when
    definitions are taken out, or with a title. -/
structure IsSteady (content : Text) : Prop where
  headings : ∀ block ∈ Block.ofLines (Text.lines content), block.node.kind = .heading → block.IsSteadyHeading
  definitions : ∀ node ∈ (parse content).children, node.kind = .definition → node.IsSteadyDefinition
  closed : IsClosed ((parse content).children.filter (!·.isNamed))
  ended : ∀ node ∈ (parse content).children, node.kind ∈ Node.openKinds → node.runsInto Outline.titleNode = false

theorem IsSteady.of_written
    (headings : ∀ block ∈ Block.ofLines (Text.lines content), block.node.kind = .heading →
      Inline.written block.content = block.content ∧ dropClosing block.content = block.content)
    (bare : ∀ node ∈ (parse content).children, node.kind ≠ .definition) (closed : IsClosed (parse content).children)
    (ended : ∀ node ∈ (parse content).children, node.kind ∈ Node.openKinds → node.runsInto Outline.titleNode = false) :
    IsSteady content where
  headings block hblock hkind := .of_written (headings block hblock hkind).1 (headings block hblock hkind).2
  definitions node hnode hkind := absurd hkind (bare node hnode)
  closed := by
    rwa [List.filter_eq_self.mpr]
    intro node hnode
    simpa using fun named => bare node hnode (Node.kind_of_isNamed named)
  ended

theorem IsSteady.comesBack (h : IsSteady content) (hnode : node ∈ (parse content).children) : node.ComesBack := by
  obtain ⟨block, hblock, rfl⟩ := List.mem_map.mp hnode
  exact (Block.standsIn_of_mem_ofLinesFrom hblock).comesBack (fun _ => Text.isUnbroken_of_mem_lines)
    (h.headings block hblock) (h.definitions block.node hnode)

end Document

end Changelog
