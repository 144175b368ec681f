import Changelog.Proofs.Markdown.RoundTrip
import Changelog.Proofs.Markdown.Tiling

/-! # Documents read in parts

A heading that is not indented ends every block above it that is not left open and has a blank line behind it. So what
stands above such a heading and what begins with it can be read apart, but for the numbers of the lines.
-/

namespace Changelog

open LineForm

/-! ## Moving down -/

def Position.moved (count : Nat) (p : Position) : Position :=
  { p with startLine := p.startLine + count, endLine := p.endLine + count }

namespace Node

mutual

def moved (count : Nat) : Node → Node
  | { kind, depth, value, url, title, identifier, label, form, spread, children, position } =>
    { kind, depth, value, url, title, identifier, label, form, spread,
      children := movedAll count children, position := position.map (Position.moved count) }

def movedAll (count : Nat) : List Node → List Node
  | [] => []
  | node :: nodes => node.moved count :: movedAll count nodes

end

variable {count : Nat}

theorem movedAll_append (nodes others : List Node) :
    movedAll count (nodes ++ others) = movedAll count nodes ++ movedAll count others := by
  induction nodes with
  | nil => rfl
  | cons node nodes ih => rw [List.cons_append, movedAll, movedAll, ih, List.cons_append]

mutual

theorem moved_withoutPositions : (node : Node) → node.withoutPositions.moved count = node.withoutPositions
  | ⟨kind, depth, value, url, title, identifier, label, form, spread, children, position⟩ => by
    simp only [withoutPositions, moved, movedAll_withoutPositionsAll children, Option.map_none]

theorem movedAll_withoutPositionsAll : (nodes : List Node) → movedAll count (withoutPositionsAll nodes) = withoutPositionsAll nodes
  | [] => rfl
  | node :: nodes => by
    rw [withoutPositionsAll, movedAll, moved_withoutPositions node, movedAll_withoutPositionsAll nodes]

end

end Node

namespace Inline

theorem movedAll_textNodes (count : Nat) (line : Option Nat) (column : Nat) (text : Text) :
    Node.movedAll count (textNodes line column text) = textNodes (line.map (· + count)) column text := by
  unfold textNodes
  split
  · rfl
  · cases line <;> rfl

theorem movedAll_parse (count : Nat) (line : Option Nat) (column : Nat) (text : Text) :
    Node.movedAll count (parse line column text) = parse (line.map (· + count)) column text := by
  fun_induction parse line column text with
  | case1 column text before hfind =>
      rw [parse_of_none hfind]
      exact movedAll_textNodes count line column before
  | case2 column text before construct hfind start width ihInner ihRest =>
      rw [parse_of_some hfind, Node.movedAll_append, movedAll_textNodes, Node.movedAll, Node.moved, ihInner, ihRest]
      cases line <;> rfl

end Inline

namespace Block

variable {line next : Text} {lines rest post : List Text} {number count : Nat} {form : BlockForm} {block : Block}
  {blocks others : List Block}

def moved (count : Nat) (block : Block) : Block := { block with first := block.first + count }

theorem span_moved (first count : Nat) (lines : List Text) : span (first + count) lines = (span first lines).moved count := by
  unfold span
  cases hlast : lines.getLast? with
  | none => rfl
  | some last =>
      have filled : 0 < lines.length := List.length_pos_of_mem (List.mem_of_getLast? hlast)
      simp only [Position.moved, Position.mk.injEq, true_and, and_true]
      omega

theorem node_moved (count : Nat) (block : Block) : (block.moved count).node = block.node.moved count := by
  obtain ⟨first, lines, form⟩ := block
  have place := span_moved first count lines
  cases form with
  | atx heading =>
      simp only [moved, node, atxNode, position, Node.moved, place, Inline.movedAll_parse, Option.map_some]
  | setext depth =>
      by_cases single : lines.dropLast.length ≤ 1
      · simp only [moved, node, setextNode, position, Node.moved, place, Option.map_some, single, if_true,
          Inline.movedAll_parse]
      · have children := fun column text => Inline.withoutPositionsAll_parse (some (first + count)) (some first) column column text
        simp only [moved, node, setextNode, position, Node.moved, place, Option.map_some, single, if_false,
          Node.movedAll_withoutPositionsAll, children]
  | fence | thematicBreak | definition | list | blockquote | html | indentedCode | paragraph =>
      simp only [moved, node, opaqueNode, definitionNode, Node.definition, position, Node.moved, Node.movedAll, place,
        Option.map_some]

theorem ofLinesFrom_moved (number skip count : Nat) (lines : List Text) :
    ofLinesFrom (number + count) skip lines = (ofLinesFrom number skip lines).map (moved count) := by
  induction lines generalizing number skip with
  | nil => rfl
  | cons line lines ih =>
      have later := fun skip => ih (number + 1) skip
      simp only [Nat.add_right_comm number 1 count] at later
      cases skip with
      | succ skip => exact later skip
      | zero =>
          cases hline : Text.isBlank line with
          | true => rw [ofLinesFrom_blank hline, ofLinesFrom_blank hline, later]
          | false =>
              rw [ofLinesFrom_cons hline, ofLinesFrom_cons hline, later]
              rfl

/-! ## Headings that end blocks -/

theorem goesOn_heading {text : Text} (heading : (atx? ('#' :: text)).isSome) (hne : post ≠ [])
    (ends : EndsBefore form rest post) : goesOn form rest false ('#' :: text) = false := by
  cases form with
  | fence fence =>
      have closed := ends.resolve_right hne
      simp [goesOn, closed]
  | list family => exact keepsList_of_mark (Or.inl rfl) (Or.inl (by simp [startsBlock, heading]))
  | indentedCode => rfl
  | html raw =>
      cases raw with
      | none => rfl
      | some opening =>
          obtain ⟨raw, after⟩ := opening
          rcases ends with closed | closed | whole
          · simp [goesOn, closed]
          · simp [goesOn, closed]
          · contradiction
  | blockquote | paragraph | atx | thematicBreak | definition | setext => rfl

/-- What ends a block in front of some lines ends it there when a heading comes behind them. -/
theorem EndsBefore.append_heading {text : Text} (ends : EndsBefore form rest post) (hne : post ≠ [])
    (heading : (atx? ('#' :: text)).isSome) (others : List Text) :
    EndsBefore form rest (post ++ ('#' :: text) :: others) := by
  have filled : Text.isBlank ('#' :: text) = false := isBlank_eq_false_of_mem List.mem_cons_self (by decide)
  have gap := List.takeWhile_append_dropWhile (p := Text.isBlank) (l := post)
  have blanks : ∀ line ∈ post.takeWhile Text.isBlank, Text.isBlank line := fun line hline =>
    List.all_eq_true.mp List.all_takeWhile line hline
  cases hnext : post.dropWhile Text.isBlank with
  | nil =>
      rw [hnext, List.append_nil] at gap
      rw [gap] at blanks
      apply (endsBefore_iff form rest blanks filled others).mpr
      have separated : post.isEmpty = false := by simpa using hne
      rw [separated]
      exact goesOn_heading heading hne ends
  | cons next tail =>
      -- the block ended in front of the next line that is not blank, and does so still
      have hfilled : Text.isBlank next = false := by
        have := List.head?_dropWhile_not Text.isBlank post
        rw [hnext] at this
        simpa using this
      rw [hnext] at gap
      rw [← gap] at ends ⊢
      rw [List.append_assoc, List.cons_append]
      exact (endsBefore_iff form rest blanks hfilled _).mpr ((endsBefore_iff form rest blanks hfilled tail).mp ends)

/-- Blocks that end above the last of their lines stay as they are when a heading comes behind. -/
theorem Tiles.append {text : Text} (h : Tiles number lines blocks)
    (early : ∀ block ∈ blocks, block.first + block.lines.length < number + lines.length)
    (heading : (atx? ('#' :: text)).isSome) (later : Tiles (number + lines.length) (('#' :: text) :: post) others) :
    Tiles number (lines ++ ('#' :: text) :: post) (blocks ++ others) := by
  induction h with
  | nil => exact later
  | @blank number line lines blocks hline _ ih =>
      apply Tiles.blank hline
      apply ih
      · intro block hblock
        have := early block hblock
        rw [List.length_cons] at this
        omega
      · rw [List.length_cons] at later
        rwa [Nat.add_right_comm, Nat.add_assoc]
  | @block number line rest behind form blocks hline hread _ ih =>
      have own := early _ List.mem_cons_self
      simp only [List.length_cons, List.length_append] at own
      have hne : behind ≠ [] := by
        rintro rfl
        simp at own
      obtain ⟨taken, ends⟩ := (read_append line rest behind form).mp hread
      have still := (read_append line rest _ form).mpr ⟨taken, ends.append_heading hne heading post⟩
      rw [List.cons_append, List.append_assoc]
      apply Tiles.block hline still
      apply ih
      · intro block hblock
        have := early block (List.mem_cons_of_mem _ hblock)
        simp only [List.length_cons, List.length_append] at this
        omega
      · have place : number + 1 + rest.length + behind.length = number + (line :: (rest ++ behind)).length := by
          simp only [List.length_cons, List.length_append]
          omega
        rwa [place]

end Block

/-! ## Documents -/

namespace Text

/-- The text of lines, with a line feed at the end of each. -/
def ended (lines : List Text) : Text := lines.flatMap (· ++ ['\n'])

theorem lines_ended {parts : List Text} (unbroken : ∀ line ∈ parts, line.IsUnbroken) : lines (ended parts) = parts := by
  induction parts with
  | nil => rfl
  | cons line parts ih =>
      obtain ⟨hline, hparts⟩ := List.forall_mem_cons.mp unbroken
      have split : ended (line :: parts) = line ++ '\n' :: ended parts := by simp [ended]
      rw [split, lines_append, lines_of_isUnbroken hline, ih hparts]
      rfl

end Text

namespace Document

open Text (ended ofString)

/-- What stands above a heading that is not indented and what begins with it are read apart, if no block above it takes the
    last line above it, which is blank then. -/
theorem children_parse_append {above below : List Text} (unbroken : ∀ line ∈ above ++ below, line.IsUnbroken)
    (free : ∀ node ∈ (parse (ended above)).children, ∀ p ∈ node.position, ¬p.GoesOver above.length)
    (heading : ∃ text rest, below = ('#' :: text) :: rest ∧ (atx? ('#' :: text)).isSome) :
    (parse (ended (above ++ below))).children =
      (parse (ended above)).children ++ (parse (ended below)).children.map (Node.moved above.length) := by
  obtain ⟨text, rest, rfl, heading⟩ := heading
  obtain ⟨habove, hbelow⟩ := List.forall_mem_append.mp unbroken
  have first := Block.tiles_ofLines above
  have second := Block.tiles_ofLinesFrom (1 + above.length) 0 (('#' :: text) :: rest)
  have early : ∀ block ∈ Block.ofLines above, block.first + block.lines.length < 1 + above.length := by
    intro block hblock
    have standing : block.StandsIn 1 above := Block.standsIn_of_mem_ofLinesFrom hblock
    have bounds := standing.bounds
    obtain ⟨line, rest, hlines, _⟩ := standing.read_own
    have filled : 0 < block.lines.length := by simp [hlines]
    rw [parse, Text.lines_ended habove] at free
    have := free block.node (List.mem_map_of_mem hblock) block.position (position_node block)
    rw [standing.goesOver_iff] at this
    omega
  have whole := (first.append early heading second).eq_ofLinesFrom
  rw [Block.ofLinesFrom_moved] at whole
  rw [parse, parse, parse, Text.lines_ended unbroken, Text.lines_ended habove, Text.lines_ended hbelow]
  show (Block.ofLines (above ++ ('#' :: text) :: rest)).map Block.node =
    (Block.ofLines above).map Block.node ++
      ((Block.ofLines (('#' :: text) :: rest)).map Block.node).map (Node.moved above.length)
  rw [Block.ofLines, ← whole, List.map_append, List.map_map, List.map_map]
  congr 1
  apply List.map_congr_left
  intro block _
  exact Block.node_moved above.length block

/-- A list that looks for more of it over the blank lines behind it. -/
theorem children_parse_append_sample :
    let above := [ofString "# a", ofString "[b]: c", [], ofString "- d", [], []]
    let below := [ofString "## [e] - `f`", ofString "- g"]
    (∀ line ∈ above ++ below, line.IsUnbroken) ∧
      (∀ node ∈ (parse (ended above)).children, ∀ p ∈ node.position, ¬p.GoesOver above.length) ∧
      (∃ text rest, below = ('#' :: text) :: rest ∧ (atx? ('#' :: text)).isSome) ∧
      (parse (ended (above ++ below))).children =
        (parse (ended above)).children ++ (parse (ended below)).children.map (Node.moved above.length) := by
  intro above below
  have unbroken : ∀ line ∈ above ++ below, line.IsUnbroken := by decide
  have free : ∀ node ∈ (parse (ended above)).children, ∀ p ∈ node.position, ¬p.GoesOver above.length := by decide
  have heading : ∃ text rest, below = ('#' :: text) :: rest ∧ (atx? ('#' :: text)).isSome :=
    ⟨ofString "# [e] - `f`", [ofString "- g"], rfl, by decide⟩
  exact ⟨unbroken, free, heading, children_parse_append unbroken free heading⟩

end Document

end Changelog
