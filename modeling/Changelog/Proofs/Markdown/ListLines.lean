import Changelog.Proofs.Markdown.Fragment

/-! # Lines of lists

A line with a dash, a blank and more than dashes behind them begins an item of a list of dashes, whatever stands behind
the dash. A list goes on with such lines and with indented ones, so that lines of these kinds are one block as a whole.
-/

namespace Changelog

open LineForm

/-- A line that begins an item of a list of dashes. -/
def IsItemLine (line : Text) : Prop := ∃ content, line = '-' :: ' ' :: content ∧ IsMarked content

/-- A line that stays in a list of dashes that it stands in. -/
def StaysInList (line : Text) : Prop := Text.isBlank line ∨ 2 ≤ Text.indent line ∨ IsItemLine line

/-- The lines of a list of dashes, up to one that is not blank. -/
structure IsListing (lines : List Text) : Prop where
  opening : ∃ first rest, lines = first :: rest ∧ IsItemLine first ∧ ∀ line ∈ rest, StaysInList line
  rounded : Text.IsRounded lines

namespace IsItemLine

variable {line : Text}

theorem isBlank_eq (h : IsItemLine line) : Text.isBlank line = false := by
  obtain ⟨content, rfl, -⟩ := h
  rw [Text.isBlank, List.all_cons, show isBlankChar '-' = false by decide, Bool.false_and]

theorem isThematicBreak_eq (h : IsItemLine line) : isThematicBreak line = false := by
  obtain ⟨content, rfl, c, hc, hdash, hblank⟩ := h
  have other : (c == '-' || isSpaceOrTab c) = false := by simp [hdash, hblank]
  have mixed : (' ' :: content).all (fun c => c == '-' || isSpaceOrTab c) = false :=
    List.all_eq_false.mpr ⟨c, List.mem_cons_of_mem ' ' hc, by rw [other]; decide⟩
  rw [isThematicBreak, dropIndent?_of_cons (by decide)]
  simp only [mixed, Bool.and_false, Bool.false_and]

theorem item?_eq (h : IsItemLine line) : ∃ content, item? line = some ⟨'-', content⟩ := by
  obtain ⟨content, rfl, -⟩ := h
  have shorter := (List.dropWhile_suffix isSpaceOrTab (l := content)).length_le
  have dropped : (' ' :: content).dropWhile isSpaceOrTab = content.dropWhile isSpaceOrTab :=
    List.dropWhile_cons_of_pos (by decide)
  have inside : (content.dropWhile isSpaceOrTab).length < (' ' :: content).length := by
    rw [List.length_cons]
    omega
  refine ⟨content.dropWhile isSpaceOrTab, ?_⟩
  have bullet : bullet? ('-' :: ' ' :: content) = some ('-', ' ' :: content) := by simp [bullet?]
  rw [item?, dropIndent?_of_cons (by decide)]
  simp only [Option.bind_eq_bind, Option.bind_some, bullet, dropped, inside, decide_true, Bool.or_true, if_true]

theorem ofLine_eq (h : IsItemLine line) : BlockForm.ofLine line = .list '-' := by
  obtain ⟨content, hitem⟩ := h.item?_eq
  have thematic := h.isThematicBreak_eq
  obtain ⟨content, rfl, -⟩ := h
  have marked := dropIndent?_of_cons (c := '-') (by decide) (' ' :: content)
  have atx : atx? ('-' :: ' ' :: content) = none := by simp [atx?, marked]
  have fence : fence? ('-' :: ' ' :: content) = none := by simp [fence?, marked]
  have definition : definition? ('-' :: ' ' :: content) = none := by
    simp [definition?, marked, Text.dropLead?, List.isPrefixOf?]
  simp [BlockForm.ofLine, atx, fence, thematic, definition, hitem]

theorem isItemOf_eq (h : IsItemLine line) : isItemOf '-' line = true := by
  obtain ⟨content, hitem⟩ := h.item?_eq
  simp [isItemOf, hitem]

end IsItemLine

namespace Block

variable {line first : Text} {rest : List Text} {belongs : Bool → Text → Bool}

theorem keepsList_of_staysInList (h : StaysInList line) (filled : Text.isBlank line = false) (direct : Bool) :
    keepsList '-' direct line = true := by
  rcases h with blank | indented | item
  · rw [blank] at filled
    contradiction
  · cases direct <;> simp [keepsList, continuesList, resumesList, indented]
  · cases direct <;>
      simp [keepsList, continuesList, resumesList, item.isThematicBreak_eq, item.isItemOf_eq]

/-- A block reaches to the end of lines that all belong to it, if the last one is not blank. -/
theorem reachOver_of_forall (stays : ∀ line ∈ rest, Text.isBlank line = false → ∀ direct, belongs direct line = true)
    (rounded : Text.IsRounded rest) (passed : Nat) : reachOver belongs passed rest = passed + rest.length := by
  obtain ⟨front, last, rfl, hlast⟩ := rounded
  induction front generalizing passed with
  | nil =>
      have kept := stays last (List.mem_singleton_self last) hlast (decide (passed = 0))
      simp [reachOver, hlast, kept]
  | cons line front ih =>
      have later := fun passed => ih passed fun other hother => stays other (List.mem_cons_of_mem line hother)
      rw [List.cons_append, reachOver, later, later, List.length_cons]
      split
      · omega
      next filled =>
        rw [if_pos (stays line List.mem_cons_self (by simpa using filled) _)]
        omega

theorem read_of_isListing (h : IsListing (first :: rest)) : read first rest = (.list '-', rest.length) := by
  obtain ⟨_, _, hlines, hfirst, hrest⟩ := h.opening
  cases hlines
  have reach : reachOver (keepsList '-') 0 rest = rest.length := by
    obtain ⟨front, last, hfront, hlast⟩ := h.rounded
    cases front with
    | nil =>
        cases hfront
        rfl
    | cons _ front =>
        cases hfront
        have whole := reachOver_of_forall (fun line hline filled => keepsList_of_staysInList (hrest line hline) filled)
          ⟨front, last, rfl, hlast⟩ 0
        rw [whole, Nat.zero_add]
  rw [read, hfirst.ofLine_eq]
  simp only [reachList_eq, reach]

end Block

theorem Document.children_ofLines_of_isListing {lines : List Text} (h : IsListing lines) :
    ∃ position, (ofLines lines).children =
      [{ kind := .list, value := some (Text.unlines lines), position := some position }] := by
  obtain ⟨first, rest, rfl, hfirst, -⟩ := h.opening
  have hread : Block.read first (rest ++ []) = (.list '-', rest.length) := by
    rw [List.append_nil]
    exact Block.read_of_isListing h
  have blocks := Block.ofLinesFrom_block hfirst.isBlank_eq hread 1
  rw [List.append_nil] at blocks
  refine ⟨Block.span 1 (first :: rest), ?_⟩
  rw [ofLines, Block.ofLines, blocks]
  rfl

end Changelog
