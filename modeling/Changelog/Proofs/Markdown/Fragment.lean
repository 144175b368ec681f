import Changelog.Proofs.Markdown.DefinitionLine
import Changelog.Proofs.Text.Rows

/-! # Pieces of documents

What the blocks of a text are printed in when they stand somewhere else: a text of one line is one block, printed in one
line, and the last block of a text is printed with a last line that is not blank, if the text has one.
-/

namespace Changelog

/-- Does a line hold more than dashes with blanks between them? -/
def IsMarked (line : Text) : Prop := ∃ c ∈ line, c ≠ '-' ∧ isSpaceOrTab c = false

instance (line : Text) : Decidable (IsMarked line) := inferInstanceAs (Decidable (∃ c ∈ line, _))

namespace Block

variable {line : Text} {lines : List Text} {number : Nat} {block : Block}

theorem exists_last_of_ofLinesFrom {last : Text} (hlast : Text.isBlank last = false) (number skip : Nat) (front : List Text)
    (hskip : skip ≤ front.length) : ∃ blocks block, ofLinesFrom number skip (front ++ [last]) = blocks ++ [block] ∧
      Text.IsRounded block.lines := by
  induction front generalizing number skip with
  | nil =>
      rw [Nat.le_zero.mp hskip, List.nil_append, ofLinesFrom_cons hlast]
      exact ⟨[], _, rfl, [], last, by rw [List.take_nil]; rfl, hlast⟩
  | cons line front ih =>
      cases skip with
      | succ skip => exact ih (number + 1) skip (Nat.le_of_succ_le_succ hskip)
      | zero =>
          rw [List.cons_append]
          cases hline : Text.isBlank line with
          | true =>
              rw [ofLinesFrom_blank hline]
              exact ih (number + 1) 0 (Nat.zero_le _)
          | false =>
              rw [ofLinesFrom_cons hline]
              have reach := read_le line (front ++ [last])
              by_cases hreach : (read line (front ++ [last])).2 ≤ front.length
              · obtain ⟨blocks, block, hblocks, rounded⟩ := ih (number + 1) _ hreach
                exact ⟨_ :: blocks, block, by rw [hblocks]; rfl, rounded⟩
              · rw [ofLinesFrom_skip, List.drop_eq_nil_of_le (by simp at reach ⊢; omega), List.take_of_length_le
                  (by simp at reach ⊢; omega)]
                exact ⟨[], _, rfl, line :: front, last, rfl, hlast⟩

/-! ## Blocks printed -/

theorem StandsIn.isFed_node (h : StandsIn number lines block) (unbroken : ∀ line ∈ lines, line.IsUnbroken) :
    block.node.blockText.IsFed := by
  rcases h.kept_or_plain unbroken with kept | plain | ⟨label, url, plain⟩
  · obtain ⟨kind, hkind⟩ := keptKind?_of_value kept
    rw [node_of_keptKind? hkind, blockText_opaqueNode hkind]
    exact Text.isFed_unlines fun line hline => unbroken line (h.mem_lines hline)
  · obtain ⟨_, _, _, _, _, unbroken⟩ := plain.blockText_eq
    exact unbroken.isFed
  · rw [plain.blockText_eq]
    exact plain.unbroken.isFed

/-- A block is printed in its own lines, or in one that begins with a mark. -/
theorem StandsIn.lines_node_or_mark (h : StandsIn number lines block) (unbroken : ∀ line ∈ lines, line.IsUnbroken) :
    block.node.lines = block.lines ∨ ∃ c rest, block.node.lines = [c :: rest] ∧ (c = '#' ∨ c = '[') := by
  rcases h.kept_or_plain unbroken with kept | plain | ⟨label, url, plain⟩
  · exact Or.inl (h.lines_node unbroken kept)
  · obtain ⟨depth, -, positive, -, hlines⟩ := plain.lines_eq
    obtain ⟨rest, hrest⟩ := LineForm.headingLine_eq_cons (Node.inlineTextAll block.node.children) positive
    exact Or.inr ⟨'#', rest, by rw [hlines, hrest], Or.inl rfl⟩
  · exact Or.inr ⟨'[', _, plain.lines_eq, Or.inr rfl⟩

theorem isMarked_of_mark {c : Char} (hc : c = '#' ∨ c = '[') (rest : Text) : IsMarked (c :: rest) :=
  ⟨c, List.mem_cons_self, by rcases hc with rfl | rfl <;> decide⟩

theorem isBlank_of_mark {c : Char} (hc : c = '#' ∨ c = '[') (rest : Text) : Text.isBlank (c :: rest) = false := by
  have hblank : isBlankChar c = false := by rcases hc with rfl | rfl <;> decide
  rw [Text.isBlank, List.all_cons, hblank, Bool.false_and]

theorem StandsIn.isRounded_node (h : StandsIn number lines block) (unbroken : ∀ line ∈ lines, line.IsUnbroken)
    (rounded : Text.IsRounded block.lines) : Text.IsRounded block.node.lines := by
  rcases h.lines_node_or_mark unbroken with hlines | ⟨c, rest, hlines, hc⟩
  · rw [hlines]
    exact rounded
  · rw [hlines]
    exact Text.isRounded_singleton (isBlank_of_mark hc rest)

end Block

namespace Document

variable {line text : Text}

theorem isFed_of_mem_parse {node : Node} (h : node ∈ (parse text).children) : node.blockText.IsFed := by
  obtain ⟨block, hblock, rfl⟩ := List.mem_map.mp h
  exact (Block.standsIn_of_mem_ofLinesFrom hblock).isFed_node fun _ => Text.isUnbroken_of_mem_lines

/-- A text of one line is one block. -/
theorem ofLines_of_isUnbroken (unbroken : line.IsUnbroken) (filled : Text.isBlank line = false) :
    Block.ofLines (Text.lines line) = [⟨1, [line], (Block.read line []).1⟩] := by
  have hne : line ≠ [] := by
    rintro rfl
    contradiction
  rw [Text.lines_of_ne_nil unbroken hne, Block.ofLines, Block.ofLinesFrom_cons filled, List.take_nil]
  rfl

theorem parse_of_isUnbroken (unbroken : line.IsUnbroken) (filled : Text.isBlank line = false) :
    ∃ node first, (parse line).children = [node] ∧ node.lines = [first] ∧ Text.isBlank first = false ∧
      (IsMarked line → IsMarked first) := by
  have hne : line ≠ [] := by
    rintro rfl
    contradiction
  have hlines := Text.lines_of_ne_nil unbroken hne
  have blocks := ofLines_of_isUnbroken unbroken filled
  rw [hlines] at blocks
  have standing : Block.StandsIn 1 [line] ⟨1, [line], (Block.read line []).1⟩ :=
    Block.standsIn_of_mem_ofLinesFrom (by rw [← Block.ofLines, blocks]; exact List.mem_singleton_self _)
  have children : (parse line).children = [(⟨1, [line], (Block.read line []).1⟩ : Block).node] := by
    rw [parse, hlines, ofLines, blocks]
    rfl
  have each : ∀ other ∈ [line], Text.IsUnbroken other := by simpa using unbroken
  rcases standing.lines_node_or_mark each with hnode | ⟨c, rest, hnode, hc⟩
  · exact ⟨_, line, children, hnode, filled, id⟩
  · exact ⟨_, c :: rest, children, hnode, Block.isBlank_of_mark hc rest, fun _ => Block.isMarked_of_mark hc rest⟩

theorem children_parse_of_isBlank (unbroken : line.IsUnbroken) (blank : Text.isBlank line) : (parse line).children = [] := by
  cases line with
  | nil => rfl
  | cons c line =>
      rw [parse, Text.lines_of_ne_nil unbroken (List.cons_ne_nil c line), ofLines, Block.ofLines,
        Block.ofLinesFrom_blank blank]
      rfl

theorem exists_last_of_parse {c : Char} (hc : isBlankChar c = false) (text : Text) :
    ∃ nodes node, (parse (text ++ [c])).children = nodes ++ [node] ∧ Text.IsRounded node.lines := by
  have inside : isLineEnd c = false := by
    cases hend : isLineEnd c with
    | false => rfl
    | true => rw [isBlankChar_of_isLineEnd hend] at hc; contradiction
  obtain ⟨front, last, hlines, hmem⟩ := Text.exists_last_of_lines inside text
  have hlast : Text.isBlank last = false := by
    rw [Text.isBlank, List.all_eq_false]
    exact ⟨c, hmem, by simp [hc]⟩
  obtain ⟨blocks, block, hblocks, rounded⟩ := Block.exists_last_of_ofLinesFrom hlast 1 0 front (Nat.zero_le _)
  have unbroken : ∀ line ∈ front ++ [last], line.IsUnbroken := fun line hline =>
    Text.isUnbroken_of_mem_lines (hlines ▸ hline)
  have standing : block.StandsIn 1 (front ++ [last]) :=
    Block.standsIn_of_mem_ofLinesFrom (by rw [hblocks]; exact List.mem_append_right _ (List.mem_singleton_self block))
  refine ⟨blocks.map Block.node, block.node, ?_, standing.isRounded_node unbroken rounded⟩
  rw [parse, hlines, ofLines, Block.ofLines, hblocks, List.map_append]
  rfl

end Document

end Changelog
