import Changelog.Proofs.Markdown.HeadingLine

/-! # Headings that are read as they are written

Text without brackets and backticks is read as text, and a label without them as a link reference. A heading whose
content begins with no blank and ends with neither a blank nor a number sign is read with the same content.
-/

namespace Changelog

namespace Inline

variable {text label rest : Text} {line : Option Nat} {column : Nat}

/-- Does a text hold none of the characters that constructs and labels are made with? -/
def IsBare (text : Text) : Prop := ∀ c ∈ text, c ∉ ['[', ']', '\x5c', '\x60']

instance (text : Text) : Decidable (IsBare text) := inferInstanceAs (Decidable (∀ c ∈ text, _))

theorem findConstruct_of_isBare (h : IsBare text) : findConstruct text = (text, none) := by
  induction text with
  | nil => rfl
  | cons c rest ih =>
      obtain ⟨hc, hrest⟩ := List.forall_mem_cons.mp h
      simp only [List.mem_cons, List.not_mem_nil, or_false, not_or] at hc
      have nothing : readConstruct (c :: rest) = none := by simp [readConstruct, hc]
      rw [findConstruct, nothing, ih hrest]

theorem parse_of_isBare (h : IsBare text) (line : Option Nat) (column : Nat) :
    parse line column text = textNodes line column text :=
  parse_of_none (findConstruct_of_isBare h) line column

theorem readLabel_of_isBare (h : IsBare label) (rest : Text) : readLabel (label ++ ']' :: rest) = some (label, rest) := by
  induction label with
  | nil => rfl
  | cons c label ih =>
      obtain ⟨hc, hlabel⟩ := List.forall_mem_cons.mp h
      simp only [List.mem_cons, List.not_mem_nil, or_false, not_or] at hc
      obtain ⟨hopen, hclose, hescape, _⟩ := hc
      rw [List.cons_append]
      simp [readLabel, hescape, ih hlabel]

theorem readConstruct_of_isBare (h : IsBare label) (hne : label ≠ []) (rest : Text) :
    readConstruct ('[' :: label ++ ']' :: ' ' :: rest) =
      some { node := reference label .shortcut, inner := label, rest := ' ' :: rest } := by
  rw [List.cons_append, readConstruct, if_pos rfl, readBracketed, readLabel_of_isBare h]
  simp [readLink, readFullReference, readShortcut, hne]

theorem withoutPositionsAll_textNodes_of_ne_nil (hne : text ≠ []) :
    Node.withoutPositionsAll (textNodes line column text) = [Node.ofText text] := by
  have filled : text.isEmpty = false := by simpa using hne
  rw [textNodes, filled]
  rfl

/-- A label and text behind it are read as they are written. -/
theorem withoutPositionsAll_parse_of_isBare (hlabel : IsBare label) (hne : label ≠ []) (hrest : IsBare rest) :
    Node.withoutPositionsAll (parse line column ('[' :: label ++ ']' :: ' ' :: rest)) =
      [Node.linkReference (normalizeLabel label) label .shortcut [Node.ofText label], Node.ofText (' ' :: rest)] := by
  have found : findConstruct ('[' :: label ++ ']' :: ' ' :: rest) =
      ([], some { node := reference label .shortcut, inner := label, rest := ' ' :: rest }) := by
    have hread := readConstruct_of_isBare hlabel hne rest
    rw [List.cons_append] at hread ⊢
    rw [findConstruct, hread]
  have behind : IsBare (' ' :: rest) := List.forall_mem_cons.mpr ⟨by decide, hrest⟩
  rw [parse_of_some found, parse_of_isBare hlabel, parse_of_isBare behind, withoutPositionsAll_append]
  simp only [Node.withoutPositionsAll, Node.withoutPositions]
  rw [withoutPositionsAll_textNodes_of_ne_nil hne, withoutPositionsAll_textNodes_of_ne_nil (List.cons_ne_nil _ _)]
  rfl

end Inline

namespace LineForm

theorem dropClosing_concat {c : Char} (hblank : isSpaceOrTab c = false) (hsign : c ≠ '#') (text : Text) :
    dropClosing (text ++ [c]) = text ++ [c] := by
  have kept : ∀ {p : Char → Bool}, p c = false → Text.dropTailWhile p (text ++ [c]) = text ++ [c] := fun h =>
    Text.dropTailWhile_eq_self (by simpa using h)
  have stem : Text.dropTailWhile (· == '#') (text ++ [c]) = text ++ [c] := kept (by simpa using hsign)
  simp only [dropClosing, kept hblank, stem]
  simp

theorem dropClosing_append {text : Text} {c : Char} (filled : isSpaceOrTab c = false)
    (trimmed : Text.dropTailWhile isSpaceOrTab (c :: text) = c :: text) (other : ∃ d ∈ c :: text, d ≠ '#') (front : Text) :
    dropClosing (front ++ c :: text) = front ++ dropClosing (c :: text) := by
  have kept : ∃ d ∈ c :: text, (d == '#') = false := by simpa using other
  have signs := Text.dropTailWhile_append_of_exists kept front
  obtain ⟨stem, hstem⟩ : ∃ stem, Text.dropTailWhile (· == '#') (c :: text) = c :: stem := by
    obtain ⟨d, stem, hstem⟩ := List.exists_cons_of_ne_nil (Text.dropTailWhile_ne_nil kept)
    have first := hstem ▸ Text.dropTailWhile_isPrefix (· == '#') (c :: text)
    exact ⟨stem, by rw [hstem, (List.cons_prefix_cons.mp first).1]⟩
  have blanks : ∀ rest, Text.dropTailWhile isSpaceOrTab (front ++ c :: rest) =
      front ++ Text.dropTailWhile isSpaceOrTab (c :: rest) := fun rest =>
    Text.dropTailWhile_append_of_exists ⟨c, List.mem_cons_self, filled⟩ front
  unfold dropClosing
  simp only [blanks, trimmed, signs, hstem, List.getLast?_append, List.getLast?_cons, Option.some_or, List.length_append,
    Nat.add_lt_add_iff_left]
  split <;> rfl

end LineForm

namespace Node

variable {node : Node}

theorem IsPlainHeading.withoutPositionsAll_reread (h : node.IsPlainHeading) :
    withoutPositionsAll (node.reread 1).children = withoutPositionsAll
      (Inline.parse none 1 (LineForm.dropClosing ((inlineTextAll node.children).dropWhile isSpaceOrTab))) := by
  obtain ⟨column, hread⟩ := h.reread_eq
  obtain ⟨position, hread⟩ := hread 1
  rw [hread]
  exact Inline.withoutPositionsAll_parse ..

end Node

end Changelog
