import Changelog.Proofs.Markdown.Fragment

/-! # Definitions that are read as they are written

A definition is written in one way, whatever way it was read from. A title that holds a double quote is cut short by it,
and a destination without white space loses angle brackets of its own. Every other definition is read back as it was.
-/

namespace Changelog

variable {label url text rest : Text} {title : Option Text}

namespace LineForm

/-- A destination as it is read back: without white space it loses angle brackets around it. -/
def writtenUrl (url : Text) : Text := if url.any isBlankChar then url else Inline.dropAngles url

theorem writtenTitle_eq (h : title ≠ some []) : writtenTitle title = title := by
  rcases title with _ | _ | _
  · rfl
  · contradiction
  · rfl

/-! ## What follows a destination -/

theorem readDefinitionEnd_of_head {c : Char} (h : isSpaceOrTab c = false) (rest : Text) :
    readDefinitionEnd (c :: rest) = none := by
  simp [readDefinitionEnd, h]

theorem all_eq_false_of_readUntil {close : Char} {inside : Text} (hclose : close ≠ '\x22')
    (h : Inline.readUntil close (text ++ ['\x22']) = some (inside, rest)) : rest.all isSpaceOrTab = false := by
  have hsplit := congrArg List.getLast? (Text.cutAt_eq_some h)
  rcases List.eq_nil_or_concat rest with rfl | ⟨front, last, rfl⟩
  · rw [List.getLast?_concat, List.getLast?_concat] at hsplit
    exact absurd (Option.some.inj hsplit).symm hclose
  · rw [List.concat_eq_append, ← List.cons_append, ← List.append_assoc, List.getLast?_concat, List.getLast?_concat] at hsplit
    rw [List.concat_eq_append, ← Option.some.inj hsplit]
    simp [isSpaceOrTab]

/-- The quote that ends a title begins none and ends no other one. -/
theorem readDefinitionEnd_concat_quote (h : '\x22' ∉ text) : readDefinitionEnd (text ++ ['\x22']) = none := by
  obtain ⟨inside, hinside, hdrop⟩ : ∃ inside, inside <:+ text ∧
      (text ++ ['\x22']).dropWhile isSpaceOrTab = inside ++ ['\x22'] := by
    rw [List.dropWhile_append]
    split
    · exact ⟨[], List.nil_suffix, rfl⟩
    · exact ⟨_, List.dropWhile_suffix _, rfl⟩
  have unquoted : '\x22' ∉ inside := fun hmem => h (hinside.subset hmem)
  unfold readDefinitionEnd
  simp only [hdrop]
  cases inside with
  | nil => simp [Inline.readTitle, Inline.readUntil, Text.cutAt]
  | cons c inside =>
      simp only [List.cons_append, List.isEmpty_cons, Bool.false_eq_true, if_false]
      split
      · split
        next t rest hread =>
          unfold Inline.readTitle at hread
          split at hread
          next heq =>
            cases heq
            exact absurd List.mem_cons_self unquoted
          next heq =>
            cases heq
            rw [all_eq_false_of_readUntil (by decide) hread]
            rfl
          next heq =>
            cases heq
            rw [all_eq_false_of_readUntil (by decide) hread]
            rfl
          next => contradiction
        next => rfl
      · rfl

theorem quote_of_readDefinitionEnd {read : Option Text} (h : readDefinitionEnd (titleText title) = some read) :
    '\x22' ∉ Node.orEmpty read := by
  rw [titleText] at h
  split at h
  next =>
    cases h
    exact List.not_mem_nil
  next =>
    have dropped : ∀ t : Text, ([' ', '\x22'] ++ t ++ ['\x22']).dropWhile isSpaceOrTab = '\x22' :: (t ++ ['\x22']) := fun _ => rfl
    unfold readDefinitionEnd at h
    simp only [dropped, List.isEmpty_cons, Bool.false_eq_true, if_false] at h
    split at h
    · split at h
      next t rest hread =>
        split at h
        · cases h
          have inside : Inline.readUntil '\x22' (Node.orEmpty title ++ ['\x22']) = some (t, rest) := hread
          exact Inline.not_mem_of_readUntil inside
        · contradiction
      next => contradiction
    · contradiction

/-! ## Destinations -/

theorem titleText_eq_nil_or (title : Option Text) :
    titleText title = [] ∨ titleText title = ' ' :: '\x22' :: (Node.orEmpty title ++ ['\x22']) := by
  rw [titleText]
  split
  · exact Or.inl rfl
  · exact Or.inr rfl

/-- A destination without white space that begins with an angle bracket ends with the next closing one, or goes on past
    it, or the closing one belongs to its title. -/
theorem angled_cases {destination after : Text} (hurl : ∀ c ∈ url, isBlankChar c = false) (hne : url ≠ [])
    (h : Inline.readAngled (url ++ titleText title) = some (destination, after)) :
    destination = url ∧ after = titleText title ∨ readDefinitionEnd after = none ∨
      ' ' ∈ Inline.dropAngles destination ∧ ∃ back, back ⊆ Node.orEmpty title ∧ after = back ++ ['\x22'] := by
  obtain ⟨c, url, rfl⟩ := List.exists_cons_of_ne_nil hne
  rw [List.cons_append] at h
  unfold Inline.readAngled at h
  split at h
  next rest heq =>
    obtain ⟨rfl, rfl⟩ := List.cons.inj heq
    simp only [Option.map_eq_some_iff, Prod.exists, Prod.mk.injEq] at h
    obtain ⟨inside, _, hread, rfl, rfl⟩ := h
    by_cases hclosed : '>' ∈ url
    · obtain ⟨front, back, rfl, hfront⟩ := List.eq_append_cons_of_mem hclosed
      rw [List.append_assoc, List.cons_append, Inline.readUntil_append hfront] at hread
      cases hread
      cases back with
      | nil => exact Or.inl ⟨by simp, rfl⟩
      | cons c back =>
          have hc : isSpaceOrTab c = false := isSpaceOrTab_eq_false (hurl c (by simp))
          exact Or.inr (Or.inl (readDefinitionEnd_of_head hc _))
    · -- the closing bracket stands in the title
      have hmem : '>' ∈ titleText title := by
        have : '>' ∈ url ++ titleText title := by
          rw [Text.cutAt_eq_some hread]
          simp
        exact (List.mem_append.mp this).resolve_left hclosed
      rcases titleText_eq_nil_or title with htitle | htitle
      · rw [htitle] at hmem
        contradiction
      · have inside : '>' ∈ Node.orEmpty title := by simpa [htitle] using hmem
        obtain ⟨front, back, hsplit, hfront⟩ := List.eq_append_cons_of_mem inside
        have unclosed : '>' ∉ url ++ ' ' :: '\x22' :: front := by simp [hclosed, hfront]
        have whole : url ++ titleText title = (url ++ ' ' :: '\x22' :: front) ++ '>' :: (back ++ ['\x22']) := by
          rw [htitle, hsplit]
          simp
        rw [whole, Inline.readUntil_append unclosed] at hread
        cases hread
        refine Or.inr (Or.inr ⟨?_, back, ?_, rfl⟩)
        · rw [List.cons_append, Inline.dropAngles_angled]
          simp
        · rw [hsplit]
          exact List.Subset.trans (List.subset_cons_self _ _) (List.subset_append_right _ _)
  next => contradiction

section

variable (hurl : '>' ∉ url ∨ ∀ c ∈ url, isBlankChar c = false)

include hurl

/-- A destination and a title without double quotes are read as they are written. -/
theorem readDefinitionTarget_written (htitle : '\x22' ∉ Node.orEmpty title) :
    readDefinitionTarget (targetText url ++ titleText title) = some (writtenUrl url, writtenTitle title) := by
  rw [targetText]
  split
  next angled =>
    have same : writtenUrl url = url := by
      rw [writtenUrl]
      split
      next => rfl
      next filled =>
        obtain rfl : url = [] := by simpa [filled] using angled
        rfl
    rw [List.append_assoc, same]
    exact readDefinitionTarget_angled (not_mem_of_angled hurl angled) htitle
  next plain =>
    simp only [Bool.or_eq_true, not_or, List.isEmpty_iff, Bool.not_eq_true] at plain
    have filled : ∀ c ∈ url, isBlankChar c = false := by simpa using plain.2
    have same : writtenUrl url = Inline.dropAngles url := by rw [writtenUrl, plain.2]; rfl
    rw [readDefinitionTarget_eq filled plain.1 htitle, same]
    cases hread : Inline.readAngled (url ++ titleText title) with
    | none => rfl
    | some parts =>
        obtain ⟨destination, after⟩ := parts
        simp only [Option.bind_eq_bind, Option.bind_some]
        rcases angled_cases filled plain.1 hread with ⟨rfl, rfl⟩ | hnone | ⟨-, back, hback, rfl⟩
        · rw [readDefinitionEnd_titleText htitle]
          rfl
        · rw [hnone]
          rfl
        · rw [readDefinitionEnd_concat_quote fun hmem => htitle (hback hmem)]
          rfl

theorem quote_of_readDefinitionTarget (h : readDefinitionTarget (targetText url ++ titleText title) = some (url, title)) :
    '\x22' ∉ Node.orEmpty title := by
  obtain ⟨destination, after, hdrop, hend, hread⟩ := exists_of_readDefinitionTarget h
  suffices hafter : after = titleText title from quote_of_readDefinitionEnd (hafter ▸ hend)
  rw [targetText] at hread
  split at hread
  next angled =>
    rcases hread with hread | ⟨rfl, rfl⟩
    · rw [List.append_assoc, List.cons_append, Inline.readAngled, List.singleton_append,
        Inline.readUntil_append (not_mem_of_angled hurl angled)] at hread
      cases hread
      rfl
    · -- without the brackets the destination ends at its first white space, so it has none
      have filled : ∀ c ∈ url, isBlankChar c = false := by
        intro c hc
        rw [hdrop] at hc
        simpa using List.all_eq_true.mp List.all_takeWhile c ((Inline.dropAngles_sublist _).subset hc)
      have noBlank : url.any isBlankChar = false := by simpa using filled
      rw [noBlank, Bool.or_false, List.isEmpty_iff] at angled
      have marks : ∀ c ∈ ['<', '>'], (!isBlankChar c) = true := by decide
      rw [angled, show '<' :: [] ++ ['>'] = ['<', '>'] from rfl, List.dropWhile_append_of_pos marks, (stop_titleText _).2]
  next plain =>
    simp only [Bool.or_eq_true, not_or, List.isEmpty_iff, Bool.not_eq_true] at plain
    have filled : ∀ c ∈ url, isBlankChar c = false := by simpa using plain.2
    rcases hread with hread | ⟨-, rfl⟩
    · rcases angled_cases filled plain.1 hread with ⟨-, hafter⟩ | hnone | ⟨blank, -⟩
      · exact hafter
      · rw [hnone] at hend
        contradiction
      · rw [← hdrop] at blank
        exact absurd (filled ' ' blank) (by decide)
    · rw [List.dropWhile_append_of_pos (by simpa using filled), (stop_titleText _).2]

end

end LineForm

/-! ## Definitions by themselves -/

namespace Node

variable {node : Node}

theorem IsPlainDefinition.withoutPositions_node {block : Block} (h : block.node.IsPlainDefinition label url) :
    block.node.withoutPositions = definition (normalizeLabel label) label url block.node.title := by
  obtain ⟨parts, hform⟩ := Block.exists_parts_of_kind h.kind
  have hnode : block.node = block.definitionNode parts := by rw [Block.node, hform]
  have hlabel := h.label_eq
  have hurl := h.url_eq
  rw [hnode] at hlabel hurl ⊢
  obtain rfl : parts.label = label := Option.some.inj hlabel
  obtain rfl : parts.url = url := Option.some.inj hurl
  rfl

theorem IsPlainDefinition.parseFragment_eq (h : node.IsPlainDefinition label url) :
    Document.parseFragment node.blockText = [(node.reread 1).withoutPositions] := by
  have filled := isBlank_definitionLine label url node.title
  rw [Document.parseFragment, Document.parse, Document.ofLines, reread, block, h.lines_eq, h.blockText_eq,
    Document.ofLines_of_isUnbroken h.unbroken filled]
  rfl

theorem IsPlainDefinition.withoutPositions_reread_iff (h : node.IsPlainDefinition label url) (url' : Text)
    (title' : Option Text) :
    (node.reread 1).withoutPositions = definition (normalizeLabel label) label url' title' ↔
      LineForm.readDefinitionTarget (targetText url ++ titleText node.title) = some (url', title') := by
  have hline : LineForm.definition? (definitionLine label url node.title) = _ :=
    LineForm.definition?_definitionLine h.isLabel h.label_ne_nil
  have hread : Block.read (definitionLine label url node.title) [] = ((node.block 1).form, 0) := by
    rw [block, h.lines_eq]
    exact Prod.ext rfl (Nat.le_zero.mp (Block.read_le _ []))
  constructor
  · intro hnode
    have hkind : (node.reread 1).kind = .definition := by
      rw [← kind_withoutPositions, hnode]
      rfl
    obtain ⟨parts, hform⟩ := Block.exists_parts_of_kind hkind
    have hparts : LineForm.definition? (definitionLine label url node.title) = some parts := by
      refine LineForm.definition?_of_ofLine ?_
      rcases Block.ofLine_of_read hread with hofLine | ⟨_, hsetext, -⟩
      · rw [hofLine, hform]
      · rw [hform] at hsetext
        contradiction
    have hreread : node.reread 1 = (node.block 1).definitionNode parts := by rw [reread, Block.node, hform]
    rw [hreread] at hnode
    have hurl : parts.url = url' := Option.some.inj (congrArg Node.url hnode)
    have htitle : parts.title = title' := congrArg Node.title hnode
    rw [hline] at hparts
    obtain ⟨target, htarget, rfl⟩ := Option.map_eq_some_iff.mp hparts
    rw [htarget, ← hurl, ← htitle]
  · intro htarget
    rw [htarget, Option.map_some] at hline
    have hform : (node.block 1).form = .definition { label, url := url', title := title' } := by
      rw [Block.read, LineForm.ofLine_of_definition? hline] at hread
      exact (congrArg Prod.fst hread).symm
    rw [reread, Block.node, hform]
    rfl

end Node

namespace Document

variable {node : Node}

/-- A definition that was read is read again from its own print, as the one it was, if and only if its title holds no
    double quote and its destination no angle brackets of its own. A title is not empty. -/
theorem parseFragment_definition_iff (hnode : node ∈ (parse text).children) (hkind : node.kind = .definition)
    (titled : node.title ≠ some []) : parseFragment node.blockText = [node.withoutPositions] ↔
      '\x22' ∉ Node.orEmpty node.title ∧ LineForm.writtenUrl (Node.orEmpty node.url) = Node.orEmpty node.url := by
  obtain ⟨block, hblock, rfl⟩ := List.mem_map.mp hnode
  have standing := Block.standsIn_of_mem_ofLinesFrom hblock
  obtain ⟨label, url, plain⟩ := standing.isPlainDefinition (fun _ => Text.isUnbroken_of_mem_lines) hkind
  rw [plain.parseFragment_eq, List.cons.injEq, eq_self, and_true, plain.withoutPositions_node,
    plain.withoutPositions_reread_iff, plain.url_eq, Node.orEmpty, Node.orEmpty, Option.getD_some]
  constructor
  · intro hread
    have quote := LineForm.quote_of_readDefinitionTarget plain.target hread
    rw [LineForm.readDefinitionTarget_written plain.target quote] at hread
    exact ⟨quote, congrArg Prod.fst (Option.some.inj hread)⟩
  · rintro ⟨quote, same⟩
    rw [LineForm.readDefinitionTarget_written plain.target quote, same, LineForm.writtenTitle_eq titled]

open Text (ofString)

/-- A destination with a blank, and a title that holds the quotes that it was written between elsewhere. -/
theorem parseFragment_definition_iff_sample :
    let node : Node := { Node.definition (ofString "key") (ofString "Key") (ofString "x y") (some (ofString "it's")) with
      position := some { startLine := 1, startColumn := 1, endLine := 1, endColumn := 21 } }
    node ∈ (parse (ofString "[Key]: <x y>  (it's)\n")).children ∧ node.kind = .definition ∧ node.title ≠ some [] ∧
      parseFragment node.blockText = [node.withoutPositions] := by
  intro node
  have hnode : node ∈ (parse (ofString "[Key]: <x y>  (it's)\n")).children := by decide +kernel
  exact ⟨hnode, rfl, by decide, (parseFragment_definition_iff hnode rfl (by decide)).mpr (by decide +kernel)⟩

/-- A title with a double quote makes its definition a paragraph, and angle brackets are lost from around a destination. -/
theorem parseFragment_definition_differs :
    let quoted : Node := { Node.definition ['a'] ['a'] (ofString "/u") (some (ofString "x\x22y")) with
      position := some { startLine := 1, startColumn := 1, endLine := 1, endColumn := 14 } }
    let angled : Node := { Node.definition ['b'] ['b'] (ofString "<c>") with
      position := some { startLine := 2, startColumn := 1, endLine := 2, endColumn := 11 } }
    (parse (ofString "[a]: /u 'x\x22y'\n[b]: <<c>>\n")).children = [quoted, angled] ∧
      parseFragment quoted.blockText = [{ kind := .paragraph, value := some (ofString "[a]: /u \x22x\x22y\x22") }] ∧
      parseFragment angled.blockText = [Node.definition ['b'] ['b'] ['c']] := by
  decide +kernel

end Document

end Changelog
