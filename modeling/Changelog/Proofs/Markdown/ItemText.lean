import Changelog.Proofs.Markdown.ListLines

/-! # Items printed

An item is printed in its first line behind a dash and its other lines behind blanks. If its first line holds more than
dashes and its last one is not blank, its lines are those of a list, and so are the lines of items one below the other.
-/

namespace Changelog

namespace Node

theorem blockTexts_eq_map (nodes : List Node) : blockTexts nodes = nodes.map blockText := by
  induction nodes with
  | nil => rfl
  | cons node nodes ih => rw [blockTexts, ih, List.map_cons]

/-- The text of an item without its dash and indentation. -/
def content (item : Node) : Text := Text.join (gap item.spread) (item.children.map blockText)

theorem itemTexts_eq_map (items : List Node) : itemTexts items = items.map fun item => itemText item.content := by
  induction items with
  | nil => rfl
  | cons item items ih =>
      obtain ⟨kind, depth, value, url, title, identifier, label, form, spread, children, position⟩ := item
      rw [itemTexts, ih, blockTexts_eq_map]
      rfl

theorem blockText_list {items : List Node} (hne : items ≠ []) (spread : Bool) :
    (list items spread).blockText = Text.join (gap spread) (items.map fun item => itemText item.content) := by
  obtain ⟨item, items, rfl⟩ := List.exists_cons_of_ne_nil hne
  rw [← itemTexts_eq_map]
  rfl

end Node

namespace Text

variable {line text : Text} {parts : List Text}

/-! ## Parts with gaps between them -/

def gapRows (spread : Bool) : List Text := if spread then [[]] else []

theorem isFed_gap (spread : Bool) : (Node.gap spread).IsFed := by
  cases spread <;> simp [Node.gap]

theorem rows_append_gap (spread : Bool) (text other : Text) :
    rows (text ++ Node.gap spread ++ other) = rows text ++ (gapRows spread ++ rows other) := by
  cases spread with
  | false => simpa [Node.gap, gapRows] using rows_append text other
  | true =>
      have blank : rows ('\n' :: other) = [] :: rows other := rows_append [] other
      have whole := rows_append text ('\n' :: other)
      rw [blank] at whole
      simpa [Node.gap, gapRows] using whole

theorem join_cons_of_ne_nil (separator : Text) (part : Text) (hne : parts ≠ []) :
    join separator (part :: parts) = part ++ separator ++ join separator parts := by
  obtain ⟨next, rest, rfl⟩ := List.exists_cons_of_ne_nil hne
  rfl

theorem isRounded_join (spread : Bool) {last : Text} (parts : List Text) (h : IsRounded (rows last)) :
    IsRounded (rows (join (Node.gap spread) (parts ++ [last]))) := by
  induction parts with
  | nil => exact h
  | cons part parts ih =>
      rw [List.cons_append, join_cons_of_ne_nil _ _ (by simp), rows_append_gap]
      exact (ih.append _).append _

/-! ## Indentation -/

theorem le_indentFrom (column : Nat) (line : Text) : column ≤ indentFrom column line := by
  induction line generalizing column with
  | nil => exact Nat.le_refl column
  | cons c line ih =>
      rw [indentFrom]
      split
      · exact Nat.le_trans (Nat.le_add_right _ _) (ih _)
      · split
        · exact Nat.le_trans (Nat.le_succ _) (ih _)
        · exact Nat.le_refl column

theorem two_le_indent (line : Text) : 2 ≤ indent (' ' :: ' ' :: line) := le_indentFrom 2 line

end Text

namespace Node

variable {content first : Text} {rest : List Text}

def indented (line : Text) : Text := if line.isEmpty then [] else ' ' :: ' ' :: line

def dashed (line : Text) : Text := if line.isEmpty then ['-'] else '-' :: ' ' :: line

theorem itemText_eq (fed : content.IsFed) (hrows : Text.rows content = first :: rest) :
    itemText content = Text.unlines (dashed first :: rest.map indented) := by
  rw [itemText, Text.splitOn_eq_rows fed, hrows]
  rfl

theorem isUnbroken_dashed (h : first.IsUnbroken) : (dashed first).IsUnbroken := by
  rw [dashed]
  split
  · decide
  · simp [h, show isLineEnd '-' = false by decide, show isLineEnd ' ' = false by decide]

theorem isUnbroken_indented {line : Text} (h : line.IsUnbroken) : (indented line).IsUnbroken := by
  rw [indented]
  split
  · simp
  · simp [h, show isLineEnd ' ' = false by decide]

theorem isBlank_dashed (line : Text) : Text.isBlank (dashed line) = false := by
  rw [dashed]
  split <;> rw [Text.isBlank, List.all_cons, show isBlankChar '-' = false by decide, Bool.false_and]

theorem isBlank_indented (line : Text) : Text.isBlank (indented line) = Text.isBlank line := by
  rw [indented]
  split
  next empty => rw [List.isEmpty_iff.mp empty]
  next => simp [Text.isBlank, show isBlankChar ' ' = true by decide]

/-- An item is printed in its first line behind a dash, and its other lines with blanks in front. -/
theorem rows_itemText (fed : content.IsFed) (hrows : Text.rows content = first :: rest) :
    Text.rows (itemText content) = dashed first :: rest.map indented ∧ (itemText content).IsFed := by
  have unbroken : ∀ line ∈ dashed first :: rest.map indented, line.IsUnbroken := by
    have each : ∀ line ∈ first :: rest, line.IsUnbroken := fun line hline => Text.isUnbroken_of_mem_rows (hrows ▸ hline)
    obtain ⟨hfirst, hrest⟩ := List.forall_mem_cons.mp each
    refine List.forall_mem_cons.mpr ⟨isUnbroken_dashed hfirst, List.forall_mem_map.mpr fun line hline => ?_⟩
    exact isUnbroken_indented (hrest line hline)
  rw [itemText_eq fed hrows]
  exact ⟨Text.rows_unlines (List.cons_ne_nil _ _) unbroken, Text.isFed_unlines unbroken⟩

theorem staysInList_indented (line : Text) : StaysInList (indented line) := by
  rw [indented]
  split
  · exact Or.inl rfl
  · exact Or.inr (Or.inl (Text.two_le_indent line))

end Node

/-- A text of some lines that an item can be made of: its first line holds more than dashes, and its last one is not
    blank. -/
structure IsItemContent (text : Text) : Prop where
  fed : text.IsFed
  opening : ∃ first rest, Text.rows text = first :: rest ∧ IsMarked first
  rounded : Text.IsRounded (Text.rows text)

theorem IsItemContent.isListing {text : Text} (h : IsItemContent text) : IsListing (Text.rows (Node.itemText text)) := by
  obtain ⟨first, rest, hrows, hfirst⟩ := h.opening
  rw [(Node.rows_itemText h.fed hrows).1]
  have filled : first.isEmpty = false := by
    obtain ⟨c, hc, _⟩ := hfirst
    cases first with
    | nil => contradiction
    | cons _ _ => rfl
  refine ⟨⟨_, _, rfl, ⟨first, by simp [Node.dashed, filled], hfirst⟩, ?_⟩, ?_⟩
  · exact List.forall_mem_map.mpr fun line _ => Node.staysInList_indented line
  · obtain ⟨front, last, hlast, nonblank⟩ := h.rounded
    rw [hrows] at hlast
    cases front with
    | nil =>
        cases hlast
        exact Text.isRounded_singleton (Node.isBlank_dashed _)
    | cons _ front =>
        cases hlast
        refine ⟨Node.dashed first :: front.map Node.indented, Node.indented last, by simp, ?_⟩
        rw [Node.isBlank_indented, nonblank]

theorem IsListing.append {lines others : List Text} (h : IsListing lines) (spread : Bool) (hothers : IsListing others) :
    IsListing (lines ++ (Text.gapRows spread ++ others)) := by
  obtain ⟨first, rest, rfl, hfirst, hrest⟩ := h.opening
  obtain ⟨next, later, rfl, hnext, hlater⟩ := hothers.opening
  refine ⟨⟨first, rest ++ (Text.gapRows spread ++ next :: later), rfl, hfirst, ?_⟩, (hothers.rounded.append _).append _⟩
  have blank : ∀ line ∈ Text.gapRows spread, StaysInList line := by
    cases spread with
    | false => nofun
    | true =>
        intro line hline
        rw [List.mem_singleton.mp hline]
        exact Or.inl rfl
  intro line hline
  simp only [List.mem_append, List.mem_cons] at hline
  rcases hline with hline | hline | rfl | hline
  · exact hrest line hline
  · exact blank line hline
  · exact Or.inr (Or.inr hnext)
  · exact hlater line hline

theorem isListing_join (spread : Bool) {texts : List Text} (hne : texts ≠ []) (h : ∀ text ∈ texts, IsItemContent text) :
    IsListing (Text.rows (Text.join (Node.gap spread) (texts.map Node.itemText))) := by
  induction texts with
  | nil => contradiction
  | cons text texts ih =>
      have own := (h text List.mem_cons_self).isListing
      cases texts with
      | nil => exact own
      | cons next texts =>
          rw [List.map_cons, Text.join_cons_of_ne_nil _ _ (by simp), Text.rows_append_gap]
          exact own.append spread
            (ih (List.cons_ne_nil next texts) fun other hother => h other (List.mem_cons_of_mem text hother))

end Changelog
