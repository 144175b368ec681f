import Changelog.Markdown.Printer
import Changelog.Proofs.Markdown.Standing
import Changelog.Proofs.Text.Lines
import Mathlib.Data.List.Chain
import Mathlib.Data.List.Forall2

/-! # Printed documents read again

A document that is printed is read block by block as it was written, if the lines of each block are one block when
they are read by themselves, and no block goes on with the one behind it. Blocks that keep their source are always read
as what they are.
-/

namespace Changelog

namespace Node

variable {node : Node}

def lines (node : Node) : List Text := Text.lines (node.blockText ++ ['\n'])

/-- The block that is read from the lines of a node, if these are the lines of one block. -/
def block (number : Nat) (node : Node) : Block :=
  { first := number, lines := node.lines, form := (Block.read (node.lines.head?.getD []) node.lines.tail).1 }

/-- The node that is read from the lines of a node, if these are the lines of one block. -/
def reread (number : Nat) (node : Node) : Node := (node.block number).node

/-- The lines of a node are the lines of one block. -/
def IsWhole (node : Node) : Prop :=
  ∃ line rest, node.lines = line :: rest ∧ Text.isBlank line = false ∧ (Block.read line rest).2 = rest.length

instance (node : Node) : Decidable node.IsWhole :=
  decidable_of_iff (Text.isBlank (node.lines.head?.getD []) = false ∧
    node.lines ≠ [] ∧ (Block.read (node.lines.head?.getD []) node.lines.tail).2 = node.lines.tail.length) <| by
    unfold IsWhole
    cases node.lines with
    | nil => simp
    | cons line rest => simp

/-- Does a node that is written in front of another one go on with its first line? -/
def runsInto (a b : Node) : Bool :=
  Block.goesOn (a.block 1).form a.lines.tail (a.isAdjacent b) (b.lines.head?.getD [])

theorem lines_ne_nil (node : Node) : node.lines ≠ [] := Text.lines_ne_nil (by simp)

end Node

namespace Document

variable {node next : Node} {rest nodes : List Node}

def gapLines (a b : Node) : List Text := if a.isAdjacent b then [] else [[]]

theorem isBlank_of_mem_gapLines {blank : Text} (h : blank ∈ gapLines node next) : Text.isBlank blank := by
  unfold gapLines at h
  split at h
  · contradiction
  · rw [List.mem_singleton.mp h]
    rfl

theorem isEmpty_gapLines (node next : Node) : (gapLines node next).isEmpty = node.isAdjacent next := by
  unfold gapLines
  cases node.isAdjacent next <;> rfl

theorem ofLinesFrom_gapLines (node next : Node) (number : Nat) (lines : List Text) :
    Block.ofLinesFrom number 0 (gapLines node next ++ lines) =
      Block.ofLinesFrom (number + (gapLines node next).length) 0 lines := by
  unfold gapLines
  split
  · rfl
  · exact Block.ofLinesFrom_blank rfl _ _

theorem lines_blocksText (node next : Node) (rest : List Node) :
    Text.lines (blocksText (node :: next :: rest) ++ ['\n']) =
      node.lines ++ (gapLines node next ++ Text.lines (blocksText (next :: rest) ++ ['\n'])) := by
  rw [blocksText, gapLines, Node.lines]
  cases node.isAdjacent next with
  | true =>
      simp only [Bool.not_true, Node.gap, Bool.false_eq_true, if_false, List.append_assoc, List.singleton_append, if_true,
        List.nil_append]
      exact Text.lines_append _ _
  | false =>
      simp only [Bool.not_false, Node.gap, if_true, List.append_assoc, List.cons_append, List.nil_append,
        Bool.false_eq_true, if_false]
      rw [Text.lines_append]
      rfl

/-- The blocks of a printed document with lines that are numbered from `number` on. -/
def blocksFrom (number : Nat) : List Node → List Block
  | [] => []
  | [node] => [node.block number]
  | node :: next :: rest =>
    node.block number :: blocksFrom (number + node.lines.length + (gapLines node next).length) (next :: rest)

theorem lines_eq_head (nodes : List Node) (h : next.lines = line :: tail) :
    ∃ post, Text.lines (blocksText (next :: nodes) ++ ['\n']) = line :: (tail ++ post) := by
  cases nodes with
  | nil => exact ⟨[], by rw [List.append_nil]; exact h⟩
  | cons other nodes => exact ⟨_, by rw [lines_blocksText, h, List.cons_append]⟩

/-- A printed document is read block by block. -/
theorem ofLinesFrom_blocksText (number : Nat) (hne : nodes ≠ []) (whole : ∀ node ∈ nodes, node.IsWhole)
    (apart : nodes.IsChain fun a b => a.runsInto b = false) :
    Block.ofLinesFrom number 0 (Text.lines (blocksText nodes ++ ['\n'])) = blocksFrom number nodes := by
  induction nodes generalizing number with
  | nil => contradiction
  | cons node nodes ih =>
      obtain ⟨line, rest, hlines, hline, hreach⟩ := whole node List.mem_cons_self
      have hread : Block.read line rest = ((node.block number).form, rest.length) := by
        rw [← hreach, Node.block, hlines]
        rfl
      have hblock : node.block number = ⟨number, line :: rest, (node.block number).form⟩ := by
        rw [Node.block, hlines]
      cases nodes with
      | nil =>
          have own := (Block.read_append line rest [] (node.block number).form).mpr ⟨hread, Block.endsBefore_nil⟩
          have hwhole : Text.lines (blocksText [node] ++ ['\n']) = line :: (rest ++ []) := by rw [List.append_nil]; exact hlines
          rw [hwhole, Block.ofLinesFrom_block hline own, blocksFrom, ← hblock]
          rfl
      | cons next nodes =>
          obtain ⟨first, tail, hnext, hfirst, _⟩ := whole next (by simp)
          obtain ⟨post, hpost⟩ := lines_eq_head nodes hnext
          -- the first line of the next node decides where this one ends
          have separate := (List.isChain_cons_cons.mp apart).1
          rw [Node.runsInto, hlines, hnext] at separate
          have ends := (Block.endsBefore_iff (node.block number).form rest (fun _ => isBlank_of_mem_gapLines) hfirst
            (tail ++ post)).mpr (isEmpty_gapLines node next ▸ separate)
          have own := (Block.read_append line rest _ _).mpr ⟨hread, ends⟩
          have later := ih (number + node.lines.length + (gapLines node next).length) (List.cons_ne_nil next nodes)
            (fun other hother => whole other (List.mem_cons_of_mem node hother)) (List.isChain_cons_cons.mp apart).2
          rw [lines_blocksText, hlines, hpost, List.cons_append, Block.ofLinesFrom_block hline own, blocksFrom, ← hblock,
            ← later, hpost, hlines, List.length_cons, ofLinesFrom_gapLines, Nat.add_right_comm number 1, Nat.add_assoc number]

theorem children_parse_print {root : Node} (hne : root.children ≠ []) (whole : ∀ node ∈ root.children, node.IsWhole)
    (apart : root.children.IsChain fun a b => a.runsInto b = false) :
    (parse (print root)).children = (blocksFrom 1 root.children).map Block.node := by
  have filled : root.children.isEmpty = false := by simpa using hne
  rw [print, filled]
  exact congrArg (List.map Block.node) (ofLinesFrom_blocksText 1 hne whole apart)

theorem forall₂_blocksFrom (number : Nat) (nodes : List Node) :
    List.Forall₂ (fun node again => ∃ number, again = node.reread number) nodes ((blocksFrom number nodes).map Block.node) := by
  induction nodes generalizing number with
  | nil => exact .nil
  | cons node nodes ih =>
      cases nodes with
      | nil => exact .cons ⟨number, rfl⟩ .nil
      | cons next nodes => exact .cons ⟨number, rfl⟩ (ih _)

/-! ## Neighbours -/

/-- For each block but the last, whether the next one stands on the neighbouring line. -/
def contacts : List Node → List Bool
  | [] => []
  | [_] => []
  | node :: next :: rest => node.isAdjacent next :: contacts (next :: rest)

/-- The print of a document depends on the print of its blocks and on what touches. -/
theorem blocksText_congr {nodes others : List Node} (text : others.map Node.blockText = nodes.map Node.blockText)
    (touch : contacts others = contacts nodes) : blocksText others = blocksText nodes := by
  induction nodes generalizing others with
  | nil => rw [List.map_eq_nil_iff.mp text]
  | cons node nodes ih =>
      obtain ⟨other, others, rfl, hother, hothers⟩ := List.map_eq_cons_iff.mp text
      cases nodes with
      | nil =>
          rw [List.map_eq_nil_iff.mp hothers]
          exact hother
      | cons next nodes =>
          obtain ⟨second, others, rfl, hsecond, -⟩ := List.map_eq_cons_iff.mp hothers
          rw [contacts, contacts, List.cons.injEq] at touch
          rw [blocksText, blocksText, hother, touch.1, ih hothers touch.2]

theorem isAdjacent_eq_of_no_place {a b : Node} (h : a.position = none ∨ b.position = none) :
    a.isAdjacent b = (decide (a.kind = .definition) && decide (b.kind = .definition)) := by
  unfold Node.isAdjacent
  rcases h with h | h <;> simp [h]

theorem isAdjacent_congr {a b c d : Node} (hkind : c.kind = a.kind) (hkind' : d.kind = b.kind)
    (hplace : c.position = a.position) (hplace' : d.position = b.position) : c.isAdjacent d = a.isAdjacent b := by
  simp only [Node.isAdjacent, hkind, hkind', hplace, hplace']

theorem contacts_eq {nodes places others : List Node}
    (place : List.Forall₂ (fun p q => q.kind = p.kind ∧ (q.position = p.position ∨ q.position = none)) places others)
    (same : List.Forall₂ (fun n q => q.kind = n.kind ∧ (q.position = none → n.position = none)) nodes others)
    (touch : contacts places = contacts nodes) : contacts others = contacts nodes := by
  induction place generalizing nodes with
  | nil =>
      rw [List.forall₂_nil_right_iff.mp same]
  | @cons p q places others hq hothers ih =>
      obtain ⟨n, nodes, hn, hnodes, rfl⟩ := List.forall₂_cons_right_iff.mp same
      cases hothers with
      | nil =>
          rw [List.forall₂_nil_right_iff.mp hnodes]
          rfl
      | @cons p' q' places others hq' hothers =>
          obtain ⟨n', nodes, hn', hnodes', rfl⟩ := List.forall₂_cons_right_iff.mp hnodes
          rw [contacts, contacts, List.cons.injEq] at touch
          rw [contacts, contacts, ih hnodes touch.2, List.cons.injEq, eq_self, and_true]
          have placed : q.position = none ∨ q'.position = none ∨ q.position = p.position ∧ q'.position = p'.position := by
            rcases hq.2 with h | h
            · rcases hq'.2 with h' | h'
              · exact Or.inr (Or.inr ⟨h, h'⟩)
              · exact Or.inr (Or.inl h')
            · exact Or.inl h
          rcases placed with h | h | ⟨h, h'⟩
          · rw [isAdjacent_eq_of_no_place (Or.inl h), isAdjacent_eq_of_no_place (Or.inl (hn.2 h)), hn.1, hn'.1]
          · rw [isAdjacent_eq_of_no_place (Or.inr h), isAdjacent_eq_of_no_place (Or.inr (hn'.2 h)), hn.1, hn'.1]
          · rw [isAdjacent_congr hq.1 hq'.1 h h', touch.1]

theorem position_node (block : Block) : block.node.position = some block.position := by
  unfold Block.node
  split <;> rfl

theorem exists_position_reread (number : Nat) (node : Node) : ∃ p, (node.reread number).position = some p ∧
    p.startLine = number ∧ p.endLine + 1 = number + node.lines.length := by
  obtain ⟨last, hlast⟩ := Option.isSome_iff_exists.mp (List.getLast?_isSome.mpr node.lines_ne_nil)
  have length : 0 < node.lines.length := List.length_pos_of_ne_nil node.lines_ne_nil
  refine ⟨_, position_node _, ?_, ?_⟩
  · simp only [Block.position, Block.span, Node.block, hlast]
  · simp only [Block.position, Block.span, Node.block, hlast]
    omega

/-- What touched when it was written touches when it is read again. -/
theorem contacts_blocksFrom (number : Nat) (hkind : ∀ node ∈ nodes, ∀ number, (node.reread number).kind = node.kind) :
    contacts ((blocksFrom number nodes).map Block.node) = contacts nodes := by
  induction nodes generalizing number with
  | nil => rfl
  | cons node nodes ih =>
      cases nodes with
      | nil => rfl
      | cons next nodes =>
          have later := ih (number + node.lines.length + (gapLines node next).length) fun other hother =>
            hkind other (List.mem_cons_of_mem node hother)
          have touch : (node.reread number).isAdjacent
              (next.reread (number + node.lines.length + (gapLines node next).length)) = node.isAdjacent next := by
            obtain ⟨p, hp, _, hend⟩ := exists_position_reread number node
            obtain ⟨q, hq, hstart, _⟩ :=
              exists_position_reread (number + node.lines.length + (gapLines node next).length) next
            rw [Node.isAdjacent, hp, hq, hkind node List.mem_cons_self, hkind next (by simp)]
            simp only [hstart, hend]
            cases hadjacent : node.isAdjacent next with
            | true => simp [gapLines, hadjacent]
            | false =>
                have kinds : (decide (node.kind = .definition) && decide (next.kind = .definition)) = false :=
                  (Bool.or_eq_false_iff.mp hadjacent).1
                simp [gapLines, hadjacent, kinds]
          cases nodes with
          | nil => exact congrArg (· :: []) touch
          | cons other nodes => exact (List.cons.injEq ..).mpr ⟨touch, later⟩

end Document

/-! ## The kinds of blocks -/

/-- The kind of the node that a block of a form becomes. -/
def BlockForm.kind : BlockForm → Kind
  | atx _ | setext _ => .heading
  | definition _ => .definition
  | fence _ | indentedCode => .code
  | thematicBreak => .thematicBreak
  | list _ => .list
  | blockquote => .blockquote
  | html _ => .html
  | paragraph => .paragraph

namespace Block

theorem kind_node (block : Block) : block.node.kind = block.form.kind := by
  unfold Block.node
  cases block.form <;> rfl

theorem exists_parts_of_kind {block : Block} (h : block.node.kind = .definition) :
    ∃ parts, block.form = .definition parts := by
  rw [kind_node] at h
  cases hform : block.form with
  | definition parts => exact ⟨parts, rfl⟩
  | atx | setext | fence | thematicBreak | list | blockquote | html | indentedCode | paragraph =>
      rw [hform] at h
      cases h

end Block

/-! ## Blocks that keep their source -/

/-- The kind of the node that a block of a form becomes, if it keeps its source. -/
def BlockForm.keptKind? : BlockForm → Option Kind
  | fence _ | indentedCode => some .code
  | thematicBreak => some .thematicBreak
  | list _ => some .list
  | blockquote => some .blockquote
  | html _ => some .html
  | paragraph => some .paragraph
  | atx _ | setext _ | definition _ => none

namespace Block

variable {lines : List Text} {number : Nat} {block : Block} {kind : Kind}

theorem node_of_keptKind? (h : block.form.keptKind? = some kind) : block.node = block.opaqueNode kind := by
  unfold Block.node
  cases hform : block.form <;> rw [hform] at h <;> cases h <;> rfl

theorem value_node (block : Block) : block.node.value = block.form.keptKind?.map fun _ => Text.unlines block.lines := by
  unfold Block.node
  cases block.form <;> rfl

theorem blockText_opaqueNode (h : block.form.keptKind? = some kind) :
    (block.opaqueNode kind).blockText = Text.unlines block.lines := by
  cases hform : block.form <;> rw [hform] at h <;> cases h <;> rfl

theorem keptKind?_of_value (h : block.node.value.isSome) : ∃ kind, block.form.keptKind? = some kind := by
  rw [value_node, Option.isSome_map] at h
  exact Option.isSome_iff_exists.mp h

theorem StandsIn.lines_node (h : StandsIn number lines block) (unbroken : ∀ line ∈ lines, line.IsUnbroken)
    (kept : block.node.value.isSome) : block.node.lines = block.lines := by
  obtain ⟨kind, hkind⟩ := keptKind?_of_value kept
  have filled : block.lines ≠ [] := by
    obtain ⟨line, rest, hlines, _⟩ := h.read_own
    simp [hlines]
  rw [Node.lines, node_of_keptKind? hkind, blockText_opaqueNode hkind]
  exact Text.lines_unlines filled fun line hline => unbroken line (h.mem_lines hline)

theorem StandsIn.block_node (h : StandsIn number lines block) (unbroken : ∀ line ∈ lines, line.IsUnbroken)
    (kept : block.node.value.isSome) (first : Nat) : block.node.block first = { block with first } := by
  obtain ⟨line, rest, hlines, _, hread⟩ := h.read_own
  rw [Node.block, h.lines_node unbroken kept, hlines, List.head?_cons, Option.getD_some, List.tail_cons, hread, ← hlines]

theorem StandsIn.isWhole_node (h : StandsIn number lines block) (unbroken : ∀ line ∈ lines, line.IsUnbroken)
    (kept : block.node.value.isSome) : block.node.IsWhole := by
  obtain ⟨line, rest, hlines, hline, hread⟩ := h.read_own
  exact ⟨line, rest, (h.lines_node unbroken kept).trans hlines, hline, by rw [hread]⟩

theorem StandsIn.reread_node (h : StandsIn number lines block) (unbroken : ∀ line ∈ lines, line.IsUnbroken)
    (kept : block.node.value.isSome) (first : Nat) :
    block.node.reread first = { block.node with position := some (span first block.lines) } := by
  obtain ⟨kind, hkind⟩ := keptKind?_of_value kept
  have moved : ({ block with first } : Block).form.keptKind? = some kind := hkind
  rw [Node.reread, h.block_node unbroken kept, node_of_keptKind? moved, node_of_keptKind? hkind]
  rfl

end Block

end Changelog
