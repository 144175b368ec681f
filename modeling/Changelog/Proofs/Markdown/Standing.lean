import Changelog.Proofs.Markdown.Reach
import Mathlib.Data.List.Chain

/-! # Where blocks stand

A block takes its first line and as many of the next ones as it reaches, and the next block is looked for behind it.
So every block can be told from its own lines and those behind it, and it is read in the same way wherever its lines
stand, if it ends there.
-/

namespace Changelog

namespace Block

variable {line : Text} {lines rest post : List Text} {number : Nat} {form : BlockForm} {block : Block}

/-! ## No block reaches past the end -/

theorem reachThrough_le (p : Text → Bool) (lines : List Text) : reachThrough p lines ≤ lines.length := by
  induction lines with
  | nil => exact Nat.le_refl 0
  | cons line lines ih =>
      rw [reachThrough, List.length_cons]
      split <;> omega

theorem reachOver_le (belongs : Bool → Text → Bool) (passed : Nat) (lines : List Text) :
    reachOver belongs passed lines ≤ passed + lines.length := by
  induction lines generalizing passed with
  | nil => exact Nat.zero_le _
  | cons line lines ih =>
      have direct := ih 0
      have later := ih (passed + 1)
      rw [reachOver, List.length_cons]
      split
      · omega
      · split <;> omega

theorem reachParagraph_le (lines : List Text) : (reachParagraph lines).1 ≤ lines.length := by
  induction lines with
  | nil => exact Nat.le_refl 0
  | cons line lines ih =>
      rw [reachParagraph, List.length_cons]
      split
      · exact Nat.zero_le _
      · split
        · exact Nat.succ_le_succ (Nat.zero_le _)
        · split
          · exact Nat.zero_le _
          · exact Nat.succ_le_succ ih

theorem read_le (line : Text) (rest : List Text) : (read line rest).2 ≤ rest.length := by
  have within := fun belongs => reachOver_le belongs 0 rest
  simp only [Nat.zero_add] at within
  have reached := reachParagraph_le rest
  rcases hread : read line rest with ⟨form, length⟩
  cases reaches_of_read hread with
  | alone _ reach => exact reach ▸ Nat.zero_le _
  | fence _ reach => exact reach ▸ reachThrough_le _ rest
  | list _ reach | indentedCode _ reach => exact reach ▸ within _
  | upToBlank _ _ reach => exact reach ▸ (List.takeWhile_prefix _).length_le
  | rawHtml _ reach =>
      rw [← reach]
      split
      · exact Nat.zero_le _
      · exact reachThrough_le _ rest
  | paragraph _ reach | setext _ reach => rwa [reach] at reached

/-! ## Reading on behind a block -/

theorem ofLinesFrom_skip (number skip : Nat) (lines : List Text) :
    ofLinesFrom number skip lines = ofLinesFrom (number + skip) 0 (lines.drop skip) := by
  induction lines generalizing number skip with
  | nil => simp [ofLinesFrom]
  | cons line lines ih =>
      cases skip with
      | zero => rfl
      | succ skip => rw [ofLinesFrom, ih, List.drop_succ_cons, Nat.add_right_comm, Nat.add_assoc]

theorem ofLinesFrom_blank (h : Text.isBlank line) (number : Nat) (lines : List Text) :
    ofLinesFrom number 0 (line :: lines) = ofLinesFrom (number + 1) 0 lines := by
  rw [ofLinesFrom, if_pos h]

theorem ofLinesFrom_cons (hline : Text.isBlank line = false) (number : Nat) (lines : List Text) :
    ofLinesFrom number 0 (line :: lines) =
      { first := number, lines := line :: lines.take (read line lines).2, form := (read line lines).1 } ::
        ofLinesFrom (number + 1) (read line lines).2 lines := by
  rw [ofLinesFrom, hline]
  rfl

theorem ofLinesFrom_block (hline : Text.isBlank line = false) (hread : read line (rest ++ post) = (form, rest.length))
    (number : Nat) :
    ofLinesFrom number 0 (line :: (rest ++ post)) =
      { first := number, lines := line :: rest, form } :: ofLinesFrom (number + 1 + rest.length) 0 post := by
  rw [ofLinesFrom_cons hline, hread, ofLinesFrom_skip, List.take_left, List.drop_left]

/-! ## Standing -/

/-- A block as it stands among lines that are numbered from `number` on. -/
def StandsIn (number : Nat) (lines : List Text) (block : Block) : Prop :=
  ∃ before line rest post, lines = before ++ line :: (rest ++ post) ∧ block.first = number + before.length ∧
    block.lines = line :: rest ∧ Text.isBlank line = false ∧ read line (rest ++ post) = (block.form, rest.length)

theorem StandsIn.behind (before : List Text) (h : StandsIn (number + before.length) lines block) :
    StandsIn number (before ++ lines) block := by
  obtain ⟨others, line, rest, post, rfl, hfirst, hlines, hline, hread⟩ := h
  refine ⟨before ++ others, line, rest, post, by simp, ?_, hlines, hline, hread⟩
  rw [hfirst, List.length_append, Nat.add_assoc]

theorem StandsIn.mem_lines (h : StandsIn number lines block) {line : Text} (hline : line ∈ block.lines) : line ∈ lines := by
  obtain ⟨before, first, rest, post, rfl, _, hlines, _⟩ := h
  rw [hlines] at hline
  refine List.mem_append_right before ?_
  rw [← List.cons_append]
  exact List.mem_append_left post hline

theorem standsIn_of_mem_ofLinesFrom {skip : Nat} (h : block ∈ ofLinesFrom number skip lines) :
    StandsIn number lines block := by
  induction lines generalizing number skip with
  | nil => contradiction
  | cons line lines ih =>
      have later : ∀ skip, block ∈ ofLinesFrom (number + 1) skip lines → StandsIn number (line :: lines) block :=
        fun skip h => (ih h).behind [line]
      cases skip with
      | succ skip => exact later skip h
      | zero =>
          cases hline : Text.isBlank line with
          | true => exact later 0 (ofLinesFrom_blank hline number lines ▸ h)
          | false =>
              rw [ofLinesFrom_cons hline] at h
              rcases List.mem_cons.mp h with hblock | h
              · refine ⟨[], line, lines.take (read line lines).2, lines.drop (read line lines).2, ?_, ?_, ?_, hline, ?_⟩
                · rw [List.take_append_drop, List.nil_append]
                · rw [hblock, List.length_nil, Nat.add_zero]
                · rw [hblock]
                · rw [List.take_append_drop, List.length_take_of_le (read_le line lines), hblock]
              · exact later _ h

theorem StandsIn.read_own (h : StandsIn number lines block) : ∃ line rest, block.lines = line :: rest ∧
    Text.isBlank line = false ∧ read line rest = (block.form, rest.length) := by
  obtain ⟨_, line, rest, post, _, _, hlines, hline, hread⟩ := h
  exact ⟨line, rest, hlines, hline, ((read_append line rest post block.form).mp hread).1⟩

theorem StandsIn.goesOn_eq_false {next : Block} (h : StandsIn number lines block) (hnext : StandsIn number lines next)
    (direct : block.first + block.lines.length = next.first) :
    goesOn block.form block.lines.tail true (next.lines.head?.getD []) = false := by
  obtain ⟨before, line, rest, post, hsplit, hfirst, hlines, _, hread⟩ := h
  obtain ⟨before', line', rest', post', hsplit', hfirst', hlines', hline', _⟩ := hnext
  have same : before ++ line :: rest ++ post = before' ++ line' :: (rest' ++ post') := by
    rw [← hsplit', hsplit]
    simp
  have length : (before ++ line :: rest).length = before'.length := by
    rw [hlines, hfirst, hfirst', List.length_cons] at direct
    simp only [List.length_append, List.length_cons]
    omega
  obtain ⟨-, hpost⟩ := List.append_inj same length
  have ends := ((read_append line rest post block.form).mp hread).2
  rw [hpost] at ends
  have := (endsBefore_iff block.form rest (List.forall_mem_nil _) hline' _).mp ends
  rw [hlines, hlines']
  exact this

/-! ## Neighbours -/

theorem exists_gap_of_ofLinesFrom {skip : Nat} {blocks : List Block}
    (h : ofLinesFrom number skip lines = block :: blocks) :
    ∃ gap line rest, lines.drop skip = gap ++ line :: rest ∧ (∀ blank ∈ gap, Text.isBlank blank) ∧
      Text.isBlank line = false ∧ block.first = number + skip + gap.length ∧ block.lines.head?.getD [] = line := by
  induction lines generalizing number skip with
  | nil => contradiction
  | cons line lines ih =>
      cases skip with
      | succ skip =>
          rw [ofLinesFrom] at h
          obtain ⟨gap, next, rest, hdrop, hgap, hnext, hfirst, hhead⟩ := ih h
          exact ⟨gap, next, rest, hdrop, hgap, hnext, by omega, hhead⟩
      | zero =>
          cases hline : Text.isBlank line with
          | true =>
              rw [ofLinesFrom_blank hline] at h
              obtain ⟨gap, next, rest, hdrop, hgap, hnext, hfirst, hhead⟩ := ih h
              refine ⟨line :: gap, next, rest, ?_, ?_, hnext, ?_, hhead⟩
              · rw [List.drop_zero] at hdrop ⊢
                rw [hdrop, List.cons_append]
              · exact List.forall_mem_cons.mpr ⟨hline, hgap⟩
              · rw [List.length_cons]
                omega
          | false =>
              rw [ofLinesFrom_cons hline] at h
              cases h
              exact ⟨[], line, lines, rfl, List.forall_mem_nil _, hline, rfl, rfl⟩

/-- Does a block go on with the first line of another one that stands behind it? -/
def runsOn (block next : Block) : Bool :=
  goesOn block.form block.lines.tail (decide (block.first + block.lines.length = next.first)) (next.lines.head?.getD [])

theorem isChain_ofLinesFrom (number skip : Nat) (lines : List Text) :
    (ofLinesFrom number skip lines).IsChain fun block next => runsOn block next = false := by
  induction lines generalizing number skip with
  | nil => exact .nil
  | cons line lines ih =>
      cases skip with
      | succ skip => exact ih (number + 1) skip
      | zero =>
          cases hline : Text.isBlank line with
          | true =>
              rw [ofLinesFrom_blank hline]
              exact ih (number + 1) 0
          | false =>
              rw [ofLinesFrom_cons hline]
              refine List.isChain_cons.mpr ⟨fun next hnext => ?_, ih (number + 1) _⟩
              obtain ⟨blocks, hblocks⟩ := List.head?_eq_some_iff.mp hnext
              -- the next block begins behind this one, with the first line that is not blank
              obtain ⟨gap, first, rest, hdrop, hgap, hfirst, hplace, hhead⟩ := exists_gap_of_ofLinesFrom hblocks
              have reach := List.length_take_of_le (read_le line lines)
              have whole : read line (lines.take (read line lines).2 ++ (gap ++ first :: rest)) =
                  ((read line lines).1, (lines.take (read line lines).2).length) := by
                rw [← hdrop, List.take_append_drop, reach]
              have ends := ((read_append line _ _ _).mp whole).2
              have direct : decide (number + (line :: lines.take (read line lines).2).length = next.first) = gap.isEmpty := by
                rw [hplace, List.length_cons, reach]
                cases gap <;> simp <;> omega
              rw [runsOn, direct, hhead]
              exact (endsBefore_iff _ _ hgap hfirst rest).mp ends

end Block

end Changelog
