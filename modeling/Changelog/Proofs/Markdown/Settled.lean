import Changelog.Proofs.Markdown.DefinitionAgain
import Changelog.Proofs.Markdown.HeadingAgain
import Changelog.Proofs.Markdown.RoundTrip

/-! # Documents that are printed twice

What is printed for a document can be read and printed again. Blocks that keep their source are printed as they were, and
so is what stands between two blocks. Only headings and definitions are written anew, each in its one line, so a second
print differs from the first one just where one of these lines does.
-/

namespace Changelog

variable {text label url : Text} {title : Option Text}

/-! ## Definitions -/

namespace LineForm

theorem titleText_writtenTitle (title : Option Text) : titleText (writtenTitle title) = titleText title := by
  rw [writtenTitle]
  split
  next empty => rw [titleText, titleText, if_pos empty]; rfl
  next => rfl

/-- A destination is written as it was unless it loses angle brackets; those that stand around nothing come back. -/
theorem targetText_writtenUrl_iff : targetText (writtenUrl url) = targetText url ↔
    writtenUrl url = url ∨ url = ['<', '>'] := by
  constructor
  · intro same
    by_cases hblank : url.any isBlankChar = true
    · exact Or.inl (by rw [writtenUrl, if_pos hblank])
    · have hurl : writtenUrl url = Inline.dropAngles url := by rw [writtenUrl, if_neg hblank]
      rw [hurl] at same ⊢
      refine (Inline.dropAngles_cases url).imp_right fun angled => ?_
      -- without its brackets the destination is too short to be written as it was, unless nothing is left of it
      have filled : targetText url = url := by
        rw [targetText, if_neg]
        rw [angled] at hblank ⊢
        simpa using hblank
      by_cases hnil : Inline.dropAngles url = []
      · rw [angled, hnil]
        rfl
      · have noBlank : ¬(Inline.dropAngles url).any isBlankChar = true := fun h =>
          hblank (List.any_eq_true.mpr ((List.any_eq_true.mp h).imp fun c hc => ⟨(Inline.dropAngles_sublist url).subset hc.1, hc.2⟩))
        rw [filled, targetText, if_neg (by simp [hnil, noBlank])] at same
        have length := congrArg List.length angled
        rw [same, List.length_cons, List.length_append] at length
        omega
  · rintro (same | rfl)
    · rw [same]
    · decide

end LineForm

namespace Node

variable {node again : Node}

theorem IsPlainDefinition.blockText_reread_iff (h : node.IsPlainDefinition label url) (quote : '\x22' ∉ orEmpty node.title)
    (number : Nat) : (node.reread number).blockText = node.blockText ↔
      LineForm.writtenUrl url = url ∨ url = ['<', '>'] := by
  obtain ⟨target, htarget, hread⟩ := h.reread_eq quote
  obtain ⟨position, hread⟩ := hread number
  rw [LineForm.readDefinitionTarget_written h.target quote] at htarget
  obtain rfl := Option.some.inj htarget
  have text : (node.reread number).blockText =
      definitionLine label (LineForm.writtenUrl url) (LineForm.writtenTitle node.title) := by
    rw [hread, blockText_of_definition rfl]
    exact definitionText_eq _ h.label_ne_nil
  rw [text, h.blockText_eq, ← LineForm.targetText_writtenUrl_iff, definitionLine, definitionLine,
    LineForm.titleText_writtenTitle]
  simp

/-! ## Blocks -/

/-- A node that is printed in the same way when its print is read and printed again: a heading has no closing run of number
    signs and its content is printed as it is, and a definition has no angle brackets around its destination to lose. -/
structure IsSettled (node : Node) : Prop where
  heading : node.kind = .heading →
    LineForm.dropClosing (inlineTextAll node.children) = inlineTextAll node.children ∧
      Inline.written (inlineTextAll node.children) = inlineTextAll node.children
  definition : node.kind = .definition →
    LineForm.writtenUrl (orEmpty node.url) = orEmpty node.url ∨ orEmpty node.url = ['<', '>']

instance (node : Node) : Decidable node.IsSettled :=
  decidable_of_iff ((node.kind = .heading →
      LineForm.dropClosing (inlineTextAll node.children) = inlineTextAll node.children ∧
        Inline.written (inlineTextAll node.children) = inlineTextAll node.children) ∧
    (node.kind = .definition →
      LineForm.writtenUrl (orEmpty node.url) = orEmpty node.url ∨ orEmpty node.url = ['<', '>']))
    ⟨fun ⟨heading, definition⟩ => ⟨heading, definition⟩, fun ⟨heading, definition⟩ => ⟨heading, definition⟩⟩

variable {lines lines' : List Text} {block other : Block}

theorem blockText_of_value (h : block.node.value = some text) : block.node.blockText = text := by
  obtain ⟨kind, hkind⟩ := Block.keptKind?_of_value (Option.isSome_of_eq_some h)
  rw [Block.value_node, hkind] at h
  rw [Block.node_of_keptKind? hkind, Block.blockText_opaqueNode hkind]
  exact Option.some.inj h

theorem isSettled_of_value (h : block.node.value.isSome) : block.node.IsSettled := by
  constructor <;> intro hkind
  · rw [(parts_of_heading hkind).1] at h
    contradiction
  · rw [(parts_of_definition hkind).1] at h
    contradiction

theorem blockText_reread_iff (h : block.StandsIn 1 lines) (unbroken : ∀ line ∈ lines, line.IsUnbroken)
    (quote : block.node.kind = .definition → '\x22' ∉ orEmpty block.node.title) (number : Nat) :
    (block.node.reread number).blockText = block.node.blockText ↔ block.node.IsSettled := by
  rcases h.kept_or_plain unbroken with kept | plain | ⟨label, url, plain⟩
  · rw [h.reread_node unbroken kept, blockText_place]
    exact iff_of_true rfl (isSettled_of_value kept)
  · rw [plain.blockText_reread_iff (h.isTrimmed plain.kind)]
    exact ⟨fun settled => ⟨fun _ => settled, fun hkind => absurd (plain.kind.symm.trans hkind) nofun⟩,
      fun settled => settled.heading plain.kind⟩
  · have hurl : orEmpty block.node.url = url := by rw [plain.url_eq]; rfl
    rw [plain.blockText_reread_iff (quote plain.kind), ← hurl]
    exact ⟨fun settled => ⟨fun hkind => absurd (plain.kind.symm.trans hkind) nofun, fun _ => settled⟩,
      fun settled => settled.definition plain.kind⟩

theorem KeepsShape.length_lines_eq (h : block.node.KeepsShape other.node) (ha : block.StandsIn 1 lines)
    (hb : other.StandsIn 1 lines') (unbroken : ∀ line ∈ lines, line.IsUnbroken)
    (unbroken' : ∀ line ∈ lines', line.IsUnbroken) : other.node.lines.length = block.node.lines.length := by
  rcases ha.kept_or_plain unbroken with kept | plain | ⟨label, url, plain⟩
  · obtain ⟨text, htext⟩ := Option.isSome_iff_exists.mp kept
    rw [Node.lines, Node.lines, blockText_of_value htext, blockText_of_value (h.value.trans htext)]
  · obtain ⟨_, -, -, -, hlines⟩ := plain.lines_eq
    obtain ⟨_, -, -, -, hlines'⟩ := (hb.isPlainHeading unbroken' (h.kind.trans plain.kind)).lines_eq
    rw [hlines, hlines']
    rfl
  · obtain ⟨label', url', plain'⟩ := hb.isPlainDefinition unbroken' (h.kind.trans plain.kind)
    rw [plain.lines_eq, plain'.lines_eq]
    rfl

end Node

/-! ## Documents -/

namespace Document

variable {nodes others : List Node}

/-- The blocks of two documents that are printed in the same way stand in the same lines, if they touch in the same way and
    each takes as many lines as the other one. -/
theorem forall₂_lines_eq (touch : contacts others = contacts nodes)
    (length : List.Forall₂ (fun node other => other.lines.length = node.lines.length) nodes others)
    (same : Text.lines (blocksText others ++ ['\n']) = Text.lines (blocksText nodes ++ ['\n'])) :
    List.Forall₂ (fun node other => other.lines = node.lines) nodes others := by
  induction length with
  | nil => exact .nil
  | @cons node other nodes others hlength hlater ih =>
      cases hlater with
      | nil => exact .cons same .nil
      | cons hlength' hrest =>
          rw [contacts, contacts, List.cons.injEq] at touch
          rw [lines_blocksText, lines_blocksText, gapLines, gapLines, touch.1] at same
          obtain ⟨first, later⟩ := List.append_inj same hlength
          exact .cons first (ih touch.2 (List.append_cancel_left later))

/-- Two such documents are printed in the same way just if their blocks are, one by one. -/
theorem blocksText_eq_iff (touch : contacts others = contacts nodes)
    (each : List.Forall₂ (fun node other => node.blockText.IsFed ∧ other.blockText.IsFed ∧
      other.lines.length = node.lines.length) nodes others) :
    blocksText others = blocksText nodes ↔ List.Forall₂ (fun node other => other.blockText = node.blockText) nodes others := by
  constructor
  · intro same
    have lines := forall₂_lines_eq touch (each.imp fun _ _ h => h.2.2) (by rw [same])
    refine List.Forall₂.mp ?_ each lines
    rintro node other ⟨fed, fed', -⟩ heq
    rw [← Text.unlines_rows fed, ← Text.unlines_rows fed']
    exact congrArg Text.unlines heq
  · intro each
    have text : nodes.map Node.blockText = others.map Node.blockText := by
      rw [← List.forall₂_eq_eq_eq, List.forall₂_map_left_iff, List.forall₂_map_right_iff]
      exact each.imp fun _ _ => Eq.symm
    exact blocksText_congr text.symm touch

theorem print_eq_iff {root other : Node} (length : other.children.length = root.children.length) :
    print other = print root ↔ blocksText other.children = blocksText root.children := by
  unfold print
  cases hroot : root.children with
  | nil =>
      rw [hroot] at length
      rw [List.length_eq_zero_iff.mp length]
      simp
  | cons node nodes =>
      have filled : other.children ≠ [] := List.ne_nil_of_length_pos (by simp [length, hroot])
      simp [filled]

/-- The print of a document is printed in the same way again if and only if each heading and each definition in the
    document is. No title of a definition holds a double quote. -/
theorem print_parse_print_iff (text : Text)
    (quote : ∀ node ∈ (parse text).children, node.kind = .definition → '\x22' ∉ Node.orEmpty node.title) :
    print (parse (print (parse text))) = print (parse text) ↔ ∀ node ∈ (parse text).children, node.IsSettled := by
  obtain ⟨shape, again⟩ := children_parse_print_parse text quote
  have touch : contacts (parse (print (parse text))).children = contacts (parse text).children := by
    rw [again]
    exact contacts_blocksFrom 1 fun node hnode number => (shape node hnode number).kind
  have pairs : List.Forall₂ (fun node other => (node.blockText.IsFed ∧ other.blockText.IsFed ∧
      other.lines.length = node.lines.length) ∧ (other.blockText = node.blockText ↔ node.IsSettled))
      (parse text).children (parse (print (parse text))).children := by
    have rereads := forall₂_blocksFrom 1 (parse text).children
    rw [← again, List.forall₂_iff_zip] at rereads
    refine List.forall₂_iff_zip.mpr ⟨rereads.1, fun {node other} hmem => ?_⟩
    obtain ⟨hnode, hother⟩ := List.of_mem_zip hmem
    obtain ⟨number, hreread⟩ := rereads.2 hmem
    have keeps := shape node hnode number
    obtain ⟨block, hblock, rfl⟩ := List.mem_map.mp hnode
    obtain ⟨block', hblock', rfl⟩ := List.mem_map.mp hother
    have standing := Block.standsIn_of_mem_ofLinesFrom hblock
    have unbroken : ∀ {text : Text}, ∀ line ∈ Text.lines text, line.IsUnbroken := fun _ => Text.isUnbroken_of_mem_lines
    rw [← hreread] at keeps
    refine ⟨⟨isFed_of_mem_parse hnode, isFed_of_mem_parse hother, ?_⟩, ?_⟩
    · exact keeps.length_lines_eq standing (Block.standsIn_of_mem_ofLinesFrom hblock') unbroken unbroken
    · rw [hreread]
      exact Node.blockText_reread_iff standing unbroken (quote _ hnode) number
  rw [print_eq_iff pairs.length_eq.symm, blocksText_eq_iff touch (pairs.imp fun _ _ h => h.1)]
  constructor
  · intro same
    have settled : List.Forall₂ (fun node _ => node.IsSettled ∧ True) (parse text).children _ :=
      List.Forall₂.mp (fun _ _ h heq => ⟨h.2.mp heq, trivial⟩) pairs same
    exact ((List.forall₂_and_left _ _).mp settled).1
  · intro settled
    exact ((List.forall₂_and_left _ _).mpr ⟨settled, pairs⟩).imp fun _ _ h => h.2.2.mpr h.1

section

open Text (ofString)

/-- A heading over an underline and one with a closing run, whose link and code are written anew, a definition in
    another spelling, a list and code. -/
def settledText : Text := ofString
  "Log of [it](<x>  'y')\n===\n\n\n## The ```f``` [bug] ##\n- a\n\n  b\n# c#\n [Key]:  <x y> 'z'\n\n[two]: <>\n~~~\n# d # #\n"

theorem print_parse_print_iff_sample :
    (∀ node ∈ (parse settledText).children, node.kind = .definition → '\x22' ∉ Node.orEmpty node.title) ∧
      print (parse settledText) = ofString
        "# Log of [it](x \x22y\x22)\n\n## The `f` [bug]\n- a\n\n  b\n# c#\n[Key]: <x y> \x22z\x22\n[two]: <>\n~~~\n# d # #\n" ∧
      print (parse (print (parse settledText))) = print (parse settledText) := by
  have quote : ∀ node ∈ (parse settledText).children, node.kind = .definition → '\x22' ∉ Node.orEmpty node.title := by
    decide +kernel
  exact ⟨quote, by decide +kernel, (print_parse_print_iff settledText quote).mpr (by decide +kernel)⟩

/-- A run of number signs comes to stand at the end of a heading, two backticks end the code around them, and angle
    brackets are lost; a double quote makes a definition part of the heading below it. -/
theorem print_parse_print_differs :
    print (parse (print (parse (ofString "# a # #\n")))) ≠ print (parse (ofString "# a # #\n")) ∧
      print (parse (print (parse (ofString "# ```a``b```\n")))) ≠ print (parse (ofString "# ```a``b```\n")) ∧
      print (parse (print (parse (ofString "[x]: <<a>>\n")))) ≠ print (parse (ofString "[x]: <<a>>\n")) ∧
      print (parse (print (parse (ofString "[a]: /u 'x\x22y'\n===\n")))) ≠
        print (parse (ofString "[a]: /u 'x\x22y'\n===\n")) := by
  decide +kernel

end

end Document

end Changelog
