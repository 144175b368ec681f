import Changelog.Proofs.Markdown.Plain
import Changelog.Proofs.Markdown.Rearranged
import Changelog.Proofs.Text.Search

/-! # Definitions printed

A definition is printed as a label, its destination and its title between double quotes. If the title holds no double
quote, this line is read as a definition with the same label; a destination may be read in another way, since one that
was written without angle brackets can begin with one.
-/

namespace Changelog

def targetText (url : Text) : Text :=
  if url.isEmpty || url.any isBlankChar then '<' :: url ++ ['>'] else url

def titleText (title : Option Text) : Text :=
  if (Node.orEmpty title).isEmpty then [] else [' ', '\x22'] ++ Node.orEmpty title ++ ['\x22']

def definitionLine (label url : Text) (title : Option Text) : Text :=
  '[' :: (label ++ ']' :: ':' :: ' ' :: (targetText url ++ titleText title))

variable {label url line text rest : Text} {title : Option Text}

theorem Node.definitionText_eq (identifier : Option Text) (hne : label ≠ []) :
    definitionText identifier (some label) (some url) title = definitionLine label url title := by
  have filled : label.isEmpty = false := by simpa using hne
  have first : orEmpty (firstNonempty (some label) identifier) = label := by simp [firstNonempty, orEmpty, filled]
  rw [definitionText, first, definitionLine, titleText]
  split <;> simp [targetText, orEmpty]

namespace Inline

theorem IsBare.isLabel (h : IsBare label) : IsLabel label := readLabel_of_isBare h

theorem readUntil_append {close : Char} (h : close ∉ text) (rest : Text) :
    readUntil close (text ++ close :: rest) = some (text, rest) := Text.cutAt_append_cons h rest

theorem not_mem_of_readUntil {close : Char} {inside : Text} (h : readUntil close text = some (inside, rest)) :
    close ∉ inside := by
  induction text generalizing inside with
  | nil => contradiction
  | cons c text ih =>
      rw [readUntil, Text.cutAt] at h
      split at h
      · cases h
        exact List.not_mem_nil
      next hc =>
        simp only [Option.map_eq_some_iff, Prod.exists, Prod.mk.injEq] at h
        obtain ⟨before, after, hread, rfl, rfl⟩ := h
        exact List.not_mem_cons_of_ne_of_not_mem (Ne.symm hc) (ih hread)

theorem exists_of_readAngled (h : readAngled text = some (url, rest)) :
    ∃ inside, url = '<' :: (inside ++ ['>']) ∧ '>' ∉ inside := by
  unfold readAngled at h
  split at h
  · simp only [Option.map_eq_some_iff, Prod.exists, Prod.mk.injEq] at h
    obtain ⟨inside, after, hread, rfl, rfl⟩ := h
    exact ⟨inside, rfl, not_mem_of_readUntil hread⟩
  · contradiction

theorem dropAngles_angled (inside : Text) : dropAngles ('<' :: (inside ++ ['>'])) = inside := by
  have closed : Text.dropTail? ['>'] (inside ++ ['>']) = some inside := by simp [Text.dropTail?, List.isSuffixOf?]
  rw [dropAngles, Text.dropLead?_singleton]
  simp [closed]

theorem dropAngles_of_head (h : url.head? ≠ some '<') : dropAngles url = url := by
  have unopened : Text.dropLead? ['<'] url = none := by
    cases url with
    | nil => rfl
    | cons c url =>
        have hc : c ≠ '<' := fun hc => h (by rw [hc]; rfl)
        simp [Text.dropLead?, List.isPrefixOf?, hc.symm]
  rw [dropAngles, unopened]

end Inline

namespace LineForm

/-- A title as it is read back: an empty one is none. -/
def writtenTitle (title : Option Text) : Option Text := if (Node.orEmpty title).isEmpty then none else title

theorem readDefinitionEnd_titleText (h : '\x22' ∉ Node.orEmpty title) :
    readDefinitionEnd (titleText title) = some (writtenTitle title) := by
  rw [titleText, writtenTitle]
  split
  next => rfl
  next filled =>
    obtain ⟨title, rfl⟩ : ∃ inside, title = some inside := by
      cases title with
      | none => exact absurd rfl filled
      | some title => exact ⟨title, rfl⟩
    have quoted : Inline.readTitle ('\x22' :: (title ++ ['\x22'])) = some (title, []) := Inline.readUntil_append h []
    have dropped : (' ' :: '\x22' :: (title ++ ['\x22'])).dropWhile isSpaceOrTab = '\x22' :: (title ++ ['\x22']) := rfl
    show readDefinitionEnd (' ' :: '\x22' :: (title ++ ['\x22'])) = some (some title)
    rw [readDefinitionEnd, dropped, quoted]
    simp

theorem readDefinitionTarget_angled (hurl : '>' ∉ url) (htitle : '\x22' ∉ Node.orEmpty title) :
    readDefinitionTarget ('<' :: (url ++ '>' :: titleText title)) = some (url, writtenTitle title) := by
  have hread : Inline.readAngled ('<' :: (url ++ '>' :: titleText title)) = some ('<' :: (url ++ ['>']), titleText title) := by
    rw [Inline.readAngled, Inline.readUntil_append hurl]
    rfl
  rw [readDefinitionTarget, hread]
  simp [readDefinitionEnd_titleText htitle, Inline.dropAngles_angled]

theorem stop_titleText (title : Option Text) : (titleText title).takeWhile (!isBlankChar ·) = [] ∧
    (titleText title).dropWhile (!isBlankChar ·) = titleText title := by
  have blank : isBlankChar ' ' := by decide
  rw [titleText]
  split <;> simp [blank]

/-- A destination without blanks ends where its title begins, unless it can be read between angle brackets. -/
theorem readDefinitionTarget_eq (hurl : ∀ c ∈ url, isBlankChar c = false) (hne : url ≠ [])
    (htitle : '\x22' ∉ Node.orEmpty title) :
    readDefinitionTarget (url ++ titleText title) =
      ((do
        let (destination, after) ← Inline.readAngled (url ++ titleText title)
        let title ← readDefinitionEnd after
        return (Inline.dropAngles destination, title)) <|> some (Inline.dropAngles url, writtenTitle title)) := by
  have filled : ∀ c ∈ url, (!isBlankChar c) = true := by simpa using hurl
  rw [readDefinitionTarget, List.takeWhile_append_of_pos filled, List.dropWhile_append_of_pos filled, (stop_titleText title).1,
    (stop_titleText title).2,
    readDefinitionEnd_titleText htitle, List.append_nil]
  simp only [hne, List.isEmpty_iff, if_false, Option.map_some]

theorem readDefinitionTarget_of_head (hurl : ∀ c ∈ url, isBlankChar c = false) (hne : url ≠ []) (head : url.head? ≠ some '<')
    (htitle : '\x22' ∉ Node.orEmpty title) :
    readDefinitionTarget (url ++ titleText title) = some (url, writtenTitle title) := by
  obtain ⟨c, url, rfl⟩ := List.exists_cons_of_ne_nil hne
  have hc : c ≠ '<' := fun hc => head (by rw [hc]; rfl)
  have unopened : Inline.readAngled (c :: url ++ titleText title) = none := by simp [Inline.readAngled, hc]
  rw [readDefinitionTarget_eq hurl hne htitle, unopened, Inline.dropAngles_of_head head]
  rfl

theorem exists_of_readDefinitionTarget (h : readDefinitionTarget text = some (url, title)) : ∃ destination after,
    url = Inline.dropAngles destination ∧ readDefinitionEnd after = some title ∧
      (Inline.readAngled text = some (destination, after) ∨
        destination = text.takeWhile (!isBlankChar ·) ∧ after = text.dropWhile (!isBlankChar ·)) := by
  rw [readDefinitionTarget, Option.orElse_eq_orElse, Option.orElse_eq_or, Option.or_eq_some_iff] at h
  rcases h with h | ⟨-, h⟩
  · simp only [Option.bind_eq_bind, Option.bind_eq_some_iff, Prod.exists] at h
    obtain ⟨destination, after, hread, end', hend, h⟩ := h
    cases h
    exact ⟨destination, after, rfl, hend, Or.inl hread⟩
  · dsimp only at h
    split at h
    · contradiction
    · simp only [Option.map_eq_some_iff, Prod.mk.injEq] at h
      obtain ⟨_, hend, rfl, rfl⟩ := h
      exact ⟨_, _, rfl, hend, Or.inr ⟨rfl, rfl⟩⟩

theorem of_readDefinitionTarget (h : readDefinitionTarget text = some (url, title)) :
    '>' ∉ url ∨ ∀ c ∈ url, isBlankChar c = false := by
  obtain ⟨destination, after, rfl, -, hread | ⟨rfl, -⟩⟩ := exists_of_readDefinitionTarget h
  · obtain ⟨inside, rfl, hinside⟩ := Inline.exists_of_readAngled hread
    rw [Inline.dropAngles_angled]
    exact Or.inl hinside
  · refine Or.inr fun c hc => ?_
    have := List.all_eq_true.mp (List.all_takeWhile (l := text) (p := (!isBlankChar ·))) c ((Inline.dropAngles_sublist _).subset hc)
    simpa using this

theorem not_mem_of_angled (hurl : '>' ∉ url ∨ ∀ c ∈ url, isBlankChar c = false)
    (angled : (url.isEmpty || url.any isBlankChar) = true) : '>' ∉ url := by
  rcases hurl with hurl | hurl
  · exact hurl
  · have noBlank : url.any isBlankChar = false := by simpa using hurl
    rw [noBlank, Bool.or_false, List.isEmpty_iff] at angled
    simp [angled]

theorem exists_readDefinitionTarget (hurl : '>' ∉ url ∨ ∀ c ∈ url, isBlankChar c = false)
    (htitle : '\x22' ∉ Node.orEmpty title) :
    ∃ target, readDefinitionTarget (targetText url ++ titleText title) = some target := by
  rw [targetText]
  split
  next angled =>
    refine ⟨(url, writtenTitle title), ?_⟩
    rw [List.append_assoc]
    exact readDefinitionTarget_angled (not_mem_of_angled hurl angled) htitle
  next plain =>
    simp only [Bool.or_eq_true, not_or, List.isEmpty_iff, List.any_eq_true, not_exists, not_and, Bool.not_eq_true] at plain
    rw [readDefinitionTarget_eq plain.2 plain.1 htitle]
    exact Option.isSome_iff_exists.mp (by simp)

theorem subset_of_readDefinitionEnd (h : readDefinitionEnd text = some title) : ∀ t ∈ title, t ⊆ text := by
  unfold readDefinitionEnd at h
  dsimp only at h
  split at h
  · cases h
    nofun
  · split at h
    · split at h
      next inside rest hread =>
        split at h
        · cases h
          rintro _ ⟨⟩
          exact List.Subset.trans (Inline.takes_of_readTitle hread).subset.1 (List.dropWhile_subset _)
        · contradiction
      next => contradiction
    · contradiction

theorem subset_of_readDefinitionTarget (h : readDefinitionTarget text = some (url, title)) :
    url ⊆ text ∧ ∀ t ∈ title, t ⊆ text := by
  obtain ⟨destination, after, rfl, hend, hread⟩ := exists_of_readDefinitionTarget h
  have parts : destination ⊆ text ∧ after ⊆ text := by
    rcases hread with hread | ⟨rfl, rfl⟩
    · exact (Inline.takes_of_readAngled hread).subset
    · exact ⟨List.takeWhile_subset _, List.dropWhile_subset _⟩
  exact ⟨List.Subset.trans (Inline.dropAngles_sublist _).subset parts.1,
    fun t ht => List.Subset.trans (subset_of_readDefinitionEnd hend t ht) parts.2⟩

/-! ## Lines that are definitions -/

/-- What is known of the parts of a definition that was read from a line. -/
structure Definition.IsReadFrom (line : Text) (parts : Definition) : Prop where
  label_ne_nil : parts.label ≠ []
  isLabel : Inline.IsLabel parts.label
  target : '>' ∉ parts.url ∨ ∀ c ∈ parts.url, isBlankChar c = false
  label_subset : parts.label ⊆ line
  url_subset : parts.url ⊆ line
  title_subset : Node.orEmpty parts.title ⊆ line

theorem isReadFrom_of_definition? {parts : Definition} (h : definition? line = some parts) : parts.IsReadFrom line := by
  obtain ⟨target, hmarked, hlabel, hne, hread⟩ := exists_of_definition? h
  have inside := (dropIndent?_suffix hmarked).subset
  have behind : target.dropWhile isSpaceOrTab ⊆ line := fun c hc =>
    inside (by simp [List.dropWhile_subset isSpaceOrTab hc])
  have within := subset_of_readDefinitionTarget hread
  refine ⟨hne, hlabel, of_readDefinitionTarget hread, fun c hc => inside (by simp [hc]),
    List.Subset.trans within.1 behind, ?_⟩
  cases htitle : parts.title with
  | none => exact List.nil_subset _
  | some title => exact List.Subset.trans (within.2 title htitle) behind

theorem dropWhile_targetText (text : Text) :
    (' ' :: (targetText url ++ text)).dropWhile isSpaceOrTab = targetText url ++ text := by
  rw [List.dropWhile_cons_of_pos (by decide), targetText]
  split
  next => rfl
  next plain =>
    cases url with
    | nil => exact absurd rfl plain
    | cons c url =>
        have hc : isSpaceOrTab c = false := by
          cases hblank : isSpaceOrTab c with
          | false => rfl
          | true => exact absurd (by simp [isBlankChar_of_isSpaceOrTab hblank]) plain
        rw [List.cons_append, List.dropWhile_cons_of_neg (by simp [hc])]

theorem definition?_definitionLine (hlabel : Inline.IsLabel label) (hne : label ≠ []) :
    definition? (definitionLine label url title) =
      (readDefinitionTarget (targetText url ++ titleText title)).map fun target =>
        { label, url := target.1, title := target.2 } := by
  have filled : label.isEmpty = false := by simpa using hne
  have hread := hlabel (':' :: ' ' :: (targetText url ++ titleText title))
  rw [definition?, definitionLine, dropIndent?_of_cons (by decide)]
  simp only [Option.bind_eq_bind, Option.bind_some, Text.dropLead?_singleton, hread, filled, Bool.false_eq_true, if_false,
    dropWhile_targetText]
  cases readDefinitionTarget (targetText url ++ titleText title) <;> rfl

theorem ofLine_of_definition? {parts : Definition} (h : definition? line = some parts) :
    BlockForm.ofLine line = .definition parts := by
  have quiet : startsBlock line = false := by
    have := (interrupts_of_definition? h).1
    rw [interrupts, Bool.or_eq_false_iff] at this
    exact this.1
  simp only [startsBlock, Bool.or_eq_false_iff, Option.isSome_eq_false_iff, Option.isNone_iff_eq_none] at quiet
  obtain ⟨⟨⟨⟨atx, fence⟩, thematic⟩, -⟩, -⟩ := quiet
  simp [BlockForm.ofLine, atx, fence, thematic, h]

end LineForm

/-! ## Definitions that are printed and read again -/

/-- A definition that is printed in one line. -/
structure Node.IsPlainDefinition (node : Node) (label url : Text) : Prop where
  kind : node.kind = .definition
  label_eq : node.label = some label
  url_eq : node.url = some url
  identifier_eq : node.identifier = some (normalizeLabel label)
  label_ne_nil : label ≠ []
  isLabel : Inline.IsLabel label
  target : '>' ∉ url ∨ ∀ c ∈ url, isBlankChar c = false
  unbroken : (definitionLine label url node.title).IsUnbroken

namespace Node

variable {node : Node}

theorem blockText_of_definition (h : node.kind = .definition) :
    node.blockText = definitionText node.identifier node.label node.url node.title := by
  obtain ⟨kind⟩ := node
  cases h
  rfl

theorem isBlank_definitionLine (label url : Text) (title : Option Text) :
    Text.isBlank (definitionLine label url title) = false := by
  rw [definitionLine, Text.isBlank, List.all_cons, show isBlankChar '[' = false by decide, Bool.false_and]

namespace IsPlainDefinition

theorem blockText_eq (h : node.IsPlainDefinition label url) : node.blockText = definitionLine label url node.title := by
  rw [blockText_of_definition h.kind, h.label_eq, h.url_eq, definitionText_eq _ h.label_ne_nil]

theorem lines_eq (h : node.IsPlainDefinition label url) : node.lines = [definitionLine label url node.title] := by
  rw [Node.lines, h.blockText_eq]
  exact Text.lines_of_isUnbroken h.unbroken

section

variable (h : node.IsPlainDefinition label url) (quote : '\x22' ∉ orEmpty node.title)

include h quote

theorem definition?_line : ∃ target,
    LineForm.readDefinitionTarget (targetText url ++ titleText node.title) = some target ∧
      LineForm.definition? (definitionLine label url node.title) = some { label, url := target.1, title := target.2 } := by
  obtain ⟨target, htarget⟩ := LineForm.exists_readDefinitionTarget h.target quote
  refine ⟨target, htarget, ?_⟩
  rw [LineForm.definition?_definitionLine h.isLabel h.label_ne_nil, htarget]
  rfl

theorem isWhole : node.IsWhole := by
  obtain ⟨target, -, hread⟩ := h.definition?_line quote
  exact ⟨_, [], h.lines_eq, isBlank_definitionLine _ _ _, by rw [Block.read, LineForm.ofLine_of_definition? hread]; rfl⟩

theorem reread_eq : ∃ target,
    LineForm.readDefinitionTarget (targetText url ++ titleText node.title) = some target ∧
      ∀ number, ∃ position, node.reread number =
        { definition (normalizeLabel label) label target.1 target.2 with position } := by
  obtain ⟨target, htarget, hread⟩ := h.definition?_line quote
  refine ⟨target, htarget, fun number => ⟨some (Block.span number node.lines), ?_⟩⟩
  rw [reread, Node.block, h.lines_eq, List.head?_cons, Option.getD_some, List.tail_cons, Block.read,
    LineForm.ofLine_of_definition? hread]
  rfl

end

end IsPlainDefinition

end Node

namespace Block

variable {number : Nat} {lines : List Text} {block : Block}

theorem StandsIn.isPlainDefinition (h : StandsIn number lines block) (unbroken : ∀ line ∈ lines, line.IsUnbroken)
    (hkind : block.node.kind = .definition) : ∃ label url, block.node.IsPlainDefinition label url := by
  obtain ⟨parts, hform⟩ := exists_parts_of_kind hkind
  obtain ⟨line, rest, hlines, hread⟩ := h.exists_definition? hform
  have own : line.IsUnbroken := unbroken line (h.mem_lines (by rw [hlines]; exact List.mem_cons_self))
  have readFrom := LineForm.isReadFrom_of_definition? hread
  have hnode : block.node = block.definitionNode parts := by rw [Block.node, hform]
  rw [hnode]
  refine ⟨parts.label, parts.url, rfl, rfl, rfl, rfl, readFrom.label_ne_nil, readFrom.isLabel, readFrom.target, ?_⟩
  have label := own.mono readFrom.label_subset
  have url := own.mono readFrom.url_subset
  have title := own.mono readFrom.title_subset
  have target : (targetText parts.url).IsUnbroken := by
    rw [targetText]
    split
    · simp [url, show isLineEnd '<' = false by decide, show isLineEnd '>' = false by decide]
    · exact url
  have behind : (titleText parts.title).IsUnbroken := by
    rw [titleText]
    split
    · simp
    · simp [title, show isLineEnd ' ' = false by decide, show isLineEnd '\x22' = false by decide]
  show (definitionLine parts.label parts.url parts.title).IsUnbroken
  have marks : ∀ c ∈ ['[', ']', ':', ' '], isLineEnd c = false := by decide
  simp [definitionLine, label, target, behind, marks]

/-- The three ways in which a block is printed: in its own lines, as a heading, or as a definition. -/
theorem StandsIn.kept_or_plain (h : StandsIn number lines block) (unbroken : ∀ line ∈ lines, line.IsUnbroken) :
    block.node.value.isSome ∨ block.node.IsPlainHeading ∨ ∃ label url, block.node.IsPlainDefinition label url := by
  have hkind := block.kind_node
  cases hform : block.form with
  | atx | setext =>
      rw [hform] at hkind
      exact Or.inr (Or.inl (h.isPlainHeading unbroken hkind))
  | definition =>
      rw [hform] at hkind
      exact Or.inr (Or.inr (h.isPlainDefinition unbroken hkind))
  | fence | thematicBreak | list | blockquote | html | indentedCode | paragraph =>
      left
      rw [value_node, hform]
      rfl

end Block

end Changelog
