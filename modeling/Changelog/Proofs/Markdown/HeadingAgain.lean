import Changelog.Proofs.Markdown.Constructs

/-! # Headings that are written again

The content of a heading begins and ends with no blank, whether it stood behind number signs or over an underline. The
line that is printed for it is read as a heading with this content, but for a run of number signs behind a blank, which
closes the heading. So a heading keeps its line if it has no such run and its content is printed as it is.
-/

namespace Changelog

/-! ## Texts without blanks at their ends -/

namespace Text

variable {text : Text}

/-- A text that begins and ends with neither a space nor a tab. -/
structure IsTrimmed (text : Text) : Prop where
  first : ∀ c ∈ text.head?, isSpaceOrTab c = false
  last : ∀ c ∈ text.getLast?, isSpaceOrTab c = false

namespace IsTrimmed

theorem dropWhile_eq (h : text.IsTrimmed) : text.dropWhile isSpaceOrTab = text := dropWhile_eq_self h.first

theorem dropTailWhile_eq (h : text.IsTrimmed) : dropTailWhile isSpaceOrTab text = text := dropTailWhile_eq_self h.last

theorem written (h : text.IsTrimmed) : (Inline.written text).IsTrimmed :=
  ⟨Inline.head?_written text ▸ h.first, Inline.getLast?_written text ▸ h.last⟩

end IsTrimmed

theorem isTrimmed_nil : IsTrimmed [] := ⟨nofun, nofun⟩

theorem isTrimmed_join (separator : Text) {parts : List Text} (h : ∀ part ∈ parts, part ≠ [] ∧ part.IsTrimmed) :
    (join separator parts).IsTrimmed := by
  induction parts with
  | nil => exact isTrimmed_nil
  | cons part parts ih =>
      obtain ⟨⟨hne, hpart⟩, hparts⟩ := List.forall_mem_cons.mp h
      cases parts with
      | nil => exact hpart
      | cons next parts =>
          have later := ih hparts
          have filled : join separator (next :: parts) ≠ [] := by
            have := (hparts next List.mem_cons_self).1
            cases parts <;> simp [join, this]
          constructor
          · rw [join, List.append_assoc, List.head?_append_of_ne_nil _ hne]
            exact hpart.first
          · rw [join, List.getLast?_append_of_ne_nil _ filled]
            exact later.last

theorem isTrimmed_strip (h : isBlank text = false) : strip text ≠ [] ∧ (strip text).IsTrimmed := by
  obtain ⟨c, rest, hlead⟩ : ∃ c rest, stripLead text = c :: rest := by
    refine List.exists_cons_of_ne_nil fun hnil => ?_
    rw [isBlank, List.all_eq_false] at h
    obtain ⟨c, hc, filled⟩ := h
    exact filled (List.dropWhile_eq_nil_iff.mp hnil c hc)
  have hhead : (text.dropWhile isBlankChar).head? = some c := by
    rw [← stripLead, hlead]
    rfl
  have filled := eq_false_of_head?_dropWhile hhead
  have hstrip : strip text = c :: stripTail rest := by
    rw [strip, hlead]
    exact dropTailWhile_append_cons filled [] rest
  refine ⟨by simp [hstrip], fun d hd => ?_, fun d hd => ?_⟩
  · rw [hstrip] at hd
    obtain rfl : c = d := Option.some.inj hd
    exact isSpaceOrTab_eq_false filled
  · exact isSpaceOrTab_eq_false (eq_false_of_getLast?_dropTailWhile hd)

end Text

/-! ## The content of headings -/

namespace LineForm

variable {text line content : Text} {heading : Atx}

theorem isTrimmed_dropClosing (h : ∀ c ∈ text.head?, isSpaceOrTab c = false) : (dropClosing text).IsTrimmed := by
  obtain ⟨front, hfront, heq⟩ := exists_dropClosing text
  rw [heq]
  refine ⟨fun c hc => h c ?_, fun c hc => Text.eq_false_of_getLast?_dropTailWhile hc⟩
  obtain ⟨rest, hcons⟩ := List.head?_eq_some_iff.mp hc
  obtain ⟨tail, hsplit⟩ := (Text.dropTailWhile_isPrefix isSpaceOrTab front).trans hfront
  rw [← hsplit, hcons]
  rfl

theorem isTrimmed_of_atx? (h : atx? line = some heading) : heading.content.IsTrimmed := by
  simp only [atx?, Option.bind_eq_bind, Option.bind_eq_some_iff] at h
  obtain ⟨marked, -, h⟩ := h
  split at h
  · cases h
    exact isTrimmed_dropClosing fun c hc => Text.eq_false_of_head?_dropWhile hc
  · contradiction

theorem count_dropClosing_lt (h : content.IsTrimmed) (closed : dropClosing content ≠ content) :
    (dropClosing content).count '#' < content.count '#' := by
  unfold dropClosing at closed ⊢
  simp only [h.dropTailWhile_eq] at closed ⊢
  split at closed
  next hclosing =>
    rw [if_pos hclosing]
    have split := Text.dropTailWhile_append_takeTailWhile (· == '#') content
    have signs : ∀ c ∈ Text.takeTailWhile (· == '#') content, '#' = c := fun c hc =>
      (beq_iff_eq.mp (Text.forall_mem_takeTailWhile (· == '#') content c hc)).symm
    have length := congrArg List.length split
    have count := congrArg (List.count '#') split
    have stem := (Text.dropTailWhile_isPrefix isSpaceOrTab (Text.dropTailWhile (· == '#') content)).sublist.count_le '#'
    simp only [Bool.and_eq_true, decide_eq_true_eq] at hclosing
    rw [List.length_append] at length
    rw [List.count_append, List.count_eq_length.mpr signs] at count
    omega
  next => exact absurd rfl closed

theorem headingLine_inj {depth : Nat} {other : Text} : headingLine depth content = headingLine depth other ↔ content = other := by
  rw [headingLine, headingLine, List.append_cancel_left_eq]
  cases content <;> cases other <;> simp

end LineForm

namespace Block

open LineForm

variable {line : Text} {lines rest : List Text} {number depth : Nat} {block : Block}

theorem reachParagraph_of_read (h : read line rest = (.setext depth, rest.length)) :
    reachParagraph rest = (rest.length, some depth) := by
  cases reaches_of_read h with
  | alone own => exact absurd own (ofLine_ne_setext depth)
  | upToBlank own => exact absurd own (ofLine_ne_setext depth)
  | setext _ reach => exact reach

end Block

/-! ## What is printed for a heading -/

theorem Block.StandsIn.isTrimmed_content {lines : List Text} {number : Nat} {block : Block} (h : StandsIn number lines block)
    (hkind : block.node.kind = .heading) : block.content.IsTrimmed := by
  obtain ⟨line, rest, hlines, filled, hread⟩ := h.read_own
  have hfirst := ofLine_of_read hread
  rw [kind_node] at hkind
  unfold content
  cases hform : block.form with
  | atx heading => exact LineForm.isTrimmed_of_atx? (atx?_of_ofLine ((hform ▸ hfirst).resolve_right (by simp)))
  | setext depth =>
      have filled : ∀ line ∈ block.lines, Text.isBlank line = false := by
        rw [hform] at hread
        rw [hlines]
        have passed := passed_of_reachParagraph (reachParagraph_of_read hread)
        exact List.forall_mem_cons.mpr ⟨filled, fun line hline => (passed line hline).1⟩
      refine Text.isTrimmed_join _ (List.forall_mem_map.mpr fun line hline => ?_)
      exact Text.isTrimmed_strip (filled line (List.dropLast_subset _ hline))
  | fence | thematicBreak | definition | list | blockquote | html | indentedCode | paragraph =>
      rw [hform] at hkind
      cases hkind

theorem Block.StandsIn.isTrimmed {lines : List Text} {number : Nat} {block : Block} (h : StandsIn number lines block)
    (hkind : block.node.kind = .heading) : (Node.inlineTextAll block.node.children).IsTrimmed := by
  obtain ⟨column, htext⟩ := h.exists_inlineText
  rw [htext, Inline.inlineTextAll_parse]
  exact (h.isTrimmed_content hkind).written

namespace Node

variable {node : Node}

/-- A heading is read from its line without a closing run of number signs, and is written in the same line again if
    there is none and its content is written as it is. -/
theorem IsPlainHeading.blockText_reread_iff (h : node.IsPlainHeading) (trimmed : (inlineTextAll node.children).IsTrimmed)
    (number : Nat) : (node.reread number).blockText = node.blockText ↔
      LineForm.dropClosing (inlineTextAll node.children) = inlineTextAll node.children ∧
        Inline.written (inlineTextAll node.children) = inlineTextAll node.children := by
  obtain ⟨column, hread⟩ := h.reread_eq
  obtain ⟨position, hread⟩ := hread number
  obtain ⟨depth, hdepth, -, -, htext, -⟩ := h.blockText_eq
  have again : (node.reread number).blockText =
      headingLine depth (Inline.written (LineForm.dropClosing (inlineTextAll node.children))) := by
    rw [hread, blockText_of_heading rfl, hdepth, headingText_eq, Inline.inlineTextAll_parse, trimmed.dropWhile_eq]
  rw [again, htext, LineForm.headingLine_inj]
  constructor
  · intro same
    -- a closing run that is gone cannot be written again: nothing but marks is written more often than it is read
    have kept : LineForm.dropClosing (inlineTextAll node.children) = inlineTextAll node.children := by
      by_contra closed
      have fewer := LineForm.count_dropClosing_lt trimmed closed
      have atMost := Inline.count_written_le (c := '#') (by decide) (LineForm.dropClosing (inlineTextAll node.children))
      rw [same] at atMost
      omega
    rw [kept] at same
    exact ⟨kept, same⟩
  · rintro ⟨kept, same⟩
    rw [kept, same]

end Node

end Changelog
