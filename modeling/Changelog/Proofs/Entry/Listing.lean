import Changelog.Outline.Section
import Changelog.Proofs.Markdown.ItemText

/-! # Entries stay in their list

Titles and descriptions of entries are read as documents of their own, printed again and indented. Whatever they hold,
the list that they are printed in is read as one list: no line of theirs begins another block.
-/

namespace Changelog

namespace Entry

/-- An entry that stays in its list: its title is one line with more than dashes, and its description does not end with a
    blank. -/
structure IsProper (entry : Entry) : Prop where
  filled : Text.isBlank entry.title = false
  unbroken : entry.title.IsUnbroken
  marked : IsMarked entry.title
  trimmed : ∀ c ∈ entry.description.getLast?, isBlankChar c = false

theorem blocksOr_of_nil {text : Text} (h : (Document.parse text).children = []) (standIn : Text) :
    blocksOr text standIn = [Node.paragraph [Node.ofText standIn]] := by
  rw [blocksOr, Document.parseFragment, h]
  rfl

theorem map_blockText_parseFragment (text : Text) :
    (Document.parseFragment text).map Node.blockText = (Document.parse text).children.map Node.blockText := by
  rw [← Node.blockTexts_eq_map, ← Node.blockTexts_eq_map]
  exact Node.blockTexts_withoutPositions _

theorem map_blockText_blocksOr {text : Text} (h : (Document.parse text).children ≠ []) (standIn : Text) :
    (blocksOr text standIn).map Node.blockText = (Document.parse text).children.map Node.blockText := by
  have filled : (Document.parseFragment text).isEmpty = false := by
    rw [Document.parseFragment, Node.isEmpty_withoutPositionsAll]
    simpa using h
  rw [blocksOr, ← map_blockText_parseFragment, filled]
  rfl

theorem IsProper.exists_head {entry : Entry} (h : entry.IsProper) : ∃ text first,
    (blocksOr entry.title entry.title).map Node.blockText = [text] ∧ text.IsFed ∧ Text.rows text = [first] ∧
      IsMarked first ∧ Text.isBlank first = false := by
  obtain ⟨node, first, hparse, hlines, hfirst, marked⟩ := Document.parse_of_isUnbroken h.unbroken h.filled
  refine ⟨node.blockText, first, ?_, ?_, hlines, marked h.marked, hfirst⟩
  · rw [map_blockText_blocksOr (by simp [hparse]), hparse]
    rfl
  · exact Document.isFed_of_mem_parse (by rw [hparse]; exact List.mem_singleton_self node)

theorem content_listItem (blocks : List Node) (spread : Bool) :
    (Node.listItem blocks spread).content = Text.join (Node.gap spread) (blocks.map Node.blockText) := rfl

theorem IsProper.isItemContent_title {entry : Entry} (h : entry.IsProper) :
    IsItemContent (Node.listItem (blocksOr entry.title entry.title)).content := by
  obtain ⟨text, first, htexts, fed, hrows, marked, filled⟩ := h.exists_head
  rw [content_listItem, htexts]
  exact ⟨fed, ⟨first, [], hrows, marked⟩, hrows ▸ Text.isRounded_singleton filled⟩

/-- Behind its title an item may hold any blocks whose last line is not blank. -/
theorem IsProper.isItemContent_append {entry : Entry} (h : entry.IsProper) (spread : Bool) {blocks : List Node}
    {parts : List Text} {last : Text} (texts : blocks.map Node.blockText = parts ++ [last])
    (hparts : ∀ part ∈ parts ++ [last], part.IsFed) (rounded : Text.IsRounded (Text.rows last)) :
    IsItemContent (Node.listItem (blocksOr entry.title entry.title ++ blocks) spread).content := by
  obtain ⟨text, first, htexts, fed, hrows, marked, -⟩ := h.exists_head
  rw [content_listItem, List.map_append, htexts, texts]
  refine ⟨?_, ?_, Text.isRounded_join spread (text :: parts) rounded⟩
  · exact Text.isFed_join (Text.isFed_gap spread) (List.forall_mem_cons.mpr ⟨fed, hparts⟩)
  · rw [List.singleton_append, Text.join_cons_of_ne_nil _ _ (by simp), Text.rows_append_gap, hrows]
    exact ⟨first, _, rfl, marked⟩

theorem isUnbroken_of_mem_filledLines {text line : Text} (h : line ∈ filledLines text) : line.IsUnbroken := by
  obtain ⟨hmem, -⟩ := List.mem_filter.mp h
  obtain ⟨source, hsource, rfl⟩ := List.mem_map.mp hmem
  exact (Text.isUnbroken_of_mem_lines hsource).mono (Text.strip_isInfix source).subset

theorem exists_row_of_isUnbroken {line : Text} (h : line.IsUnbroken) : ∃ row,
    Text.rows (Node.itemText (Node.listItem (blocksOr line [])).content) = [row] ∧ Text.isBlank row = false ∧
      (Node.itemText (Node.listItem (blocksOr line [])).content).IsFed := by
  obtain ⟨text, first, hcontent, fed, hrows⟩ : ∃ text first,
      (Node.listItem (blocksOr line [])).content = text ∧ text.IsFed ∧ Text.rows text = [first] := by
    cases hblank : Text.isBlank line with
    | true =>
        rw [blocksOr_of_nil (Document.children_parse_of_isBlank h hblank)]
        exact ⟨[], [], rfl, Text.isFed_nil, rfl⟩
    | false =>
        obtain ⟨node, first, hparse, hlines, -, -⟩ := Document.parse_of_isUnbroken h hblank
        have texts := @map_blockText_blocksOr line (by simp [hparse]) []
        rw [hparse] at texts
        refine ⟨node.blockText, first, ?_, ?_, hlines⟩
        · show Text.join _ ((blocksOr line []).map Node.blockText) = node.blockText
          rw [texts]
          rfl
        · exact Document.isFed_of_mem_parse (by rw [hparse]; exact List.mem_singleton_self node)
  have item := Node.rows_itemText fed hrows
  rw [hcontent]
  exact ⟨Node.dashed first, item.1, Node.isBlank_dashed first, item.2⟩

theorem isRounded_items (lines : List Text) (hne : lines ≠ []) (h : ∀ line ∈ lines, line.IsUnbroken) :
    (Node.list (lines.map fun line => Node.listItem (blocksOr line []))).blockText.IsFed ∧
      Text.IsRounded (Text.rows (Node.list (lines.map fun line => Node.listItem (blocksOr line []))).blockText) := by
  rw [Node.blockText_list (by simpa using hne), List.map_map]
  refine ⟨Text.isFed_join (Text.isFed_gap _) (List.forall_mem_map.mpr fun line hline => ?_), ?_⟩
  · obtain ⟨row, -, -, fed⟩ := exists_row_of_isUnbroken (h line hline)
    exact fed
  · obtain ⟨front, last, rfl⟩ := (List.eq_nil_or_concat' lines).resolve_left hne
    obtain ⟨row, hrow, hfilled, -⟩ := exists_row_of_isUnbroken (h last (by simp))
    rw [List.map_append]
    refine Text.isRounded_join false _ ?_
    show Text.IsRounded (Text.rows (Node.itemText (Node.listItem (blocksOr last [])).content))
    rw [hrow]
    exact Text.isRounded_singleton hfilled

theorem IsProper.exists_texts {entry : Entry} (h : entry.IsProper) (hne : entry.description ≠ []) : ∃ parts last,
    (Document.parseFragment entry.description).map Node.blockText = parts ++ [last] ∧
      (∀ part ∈ parts ++ [last], part.IsFed) ∧ Text.IsRounded (Text.rows last) := by
  obtain ⟨front, c, hdescription⟩ := (List.eq_nil_or_concat' entry.description).resolve_left hne
  have hc : isBlankChar c = false := h.trimmed c (by rw [hdescription, List.getLast?_concat]; rfl)
  obtain ⟨nodes, last, hparse, rounded⟩ := Document.exists_last_of_parse hc front
  rw [← hdescription] at hparse
  refine ⟨nodes.map Node.blockText, last.blockText, ?_, ?_, rounded⟩
  · rw [map_blockText_parseFragment, hparse, List.map_append]
    rfl
  · have each : ∀ node ∈ nodes ++ [last], node.blockText.IsFed := fun node hnode =>
      Document.isFed_of_mem_parse (hparse ▸ hnode)
    simpa [or_imp, forall_and] using each

theorem isItemContent_node {entry : Entry} (h : entry.IsProper) : IsItemContent entry.node.content := by
  unfold node
  dsimp only
  split
  next => exact h.isItemContent_title
  next filled =>
    split
    next itemized =>
      have hne : filledLines entry.description ≠ [] := by
        rintro hnil
        simp [isItemized, hnil] at itemized
      obtain ⟨fed, rounded⟩ := isRounded_items ((filledLines entry.description).map (List.drop 2))
        (by simpa using hne) (List.forall_mem_map.mpr fun line hline =>
          (isUnbroken_of_mem_filledLines hline).mono (List.drop_subset 2 line))
      rw [List.map_map] at fed rounded
      -- the items of the description are one list below the title
      refine @IsProper.isItemContent_append entry h false _ [] _ rfl ?_ rounded
      exact List.forall_mem_singleton.mpr fed
    next =>
      have hne : entry.description ≠ [] := by
        rintro hnil
        rw [hnil] at filled
        exact filled rfl
      obtain ⟨parts, last, texts, fed, rounded⟩ := h.exists_texts hne
      exact h.isItemContent_append true texts fed rounded

/-! ## The list -/

/-- The list of some entries, printed alone, is read as that list and nothing else. -/
theorem parse_print_addEntries (s : Section) {entries : List Entry} (hne : entries ≠ [])
    (proper : ∀ entry ∈ entries, entry.IsProper) :
    ∃ node source position, (s.addEntries entries).content = s.content ++ [node] ∧
      Document.print { kind := .root, children := [node] } = source ++ ['\n'] ∧
      (Document.parse (Document.print { kind := .root, children := [node] })).children =
        [{ kind := .list, value := some source, position := some position }] := by
  have items : ∀ text ∈ (entries.map Entry.node).map Node.content, IsItemContent text := by
    rw [List.map_map]
    exact List.forall_mem_map.mpr fun entry hentry => isItemContent_node (proper entry hentry)
  have hsource : (list entries).blockText = Text.join (Node.gap ((entries.map Entry.node).any Node.spread))
      (((entries.map Entry.node).map Node.content).map Node.itemText) := by
    rw [list, Node.blockText_list (by simpa using hne), List.map_map (g := Node.itemText)]
    rfl
  have listing := isListing_join ((entries.map Entry.node).any Node.spread) (by simpa using hne) items
  rw [← hsource] at listing
  have fed : (list entries).blockText.IsFed := by
    rw [hsource]
    refine Text.isFed_join (Text.isFed_gap _) (List.forall_mem_map.mpr fun text htext => ?_)
    obtain ⟨first, rest, hrows, -⟩ := (items text htext).opening
    exact (Node.rows_itemText (items text htext).fed hrows).2
  obtain ⟨position, hread⟩ := Document.children_ofLines_of_isListing listing
  refine ⟨list entries, (list entries).blockText, position, rfl, rfl, ?_⟩
  rw [Text.unlines_rows fed] at hread
  exact hread

/-- A title that is a heading, with a fence that is not closed below it, a title that is a definition, with items, and a
    title that is a fence. -/
theorem parse_print_addEntries_sample :
    let s := Section.group 3 (Text.ofString "Fixed")
    let entries : List Entry :=
      [⟨Text.ofString "# a #", Text.ofString "b\n===\n\n[c]: d\n```\n\n## e"⟩,
        ⟨Text.ofString "[f]: <g h> 'i'", Text.ofString "* # j\n\n* - - -"⟩,
        ⟨Text.ofString "~~~ <!-- k", []⟩]
    (∀ entry ∈ entries, entry.IsProper) ∧
      ∃ node source position, (s.addEntries entries).content = s.content ++ [node] ∧
        Document.print { kind := .root, children := [node] } = source ++ ['\n'] ∧
        (Document.parse (Document.print { kind := .root, children := [node] })).children =
          [{ kind := .list, value := some source, position := some position }] := by
  intro s entries
  have proper : ∀ entry ∈ entries, entry.IsProper := by
    simp only [entries, List.forall_mem_cons, List.not_mem_nil, false_implies, implies_true, and_true]
    exact ⟨⟨by decide, by decide, by decide, by rintro _ ⟨⟩; rfl⟩, ⟨by decide, by decide, by decide, by rintro _ ⟨⟩; rfl⟩,
      ⟨by decide, by decide, by decide, by rintro _ ⟨⟩⟩⟩
  exact ⟨proper, parse_print_addEntries s (by simp [entries]) proper⟩

end Entry

end Changelog
