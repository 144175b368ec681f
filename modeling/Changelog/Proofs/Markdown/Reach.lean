import Changelog.Markdown.Block

/-! # How far blocks reach

Whether a block goes on with the lines behind it depends on its form, on its own lines, and on the next line that is
not blank. So a block ends in another document where it ended in its own, if the next line leaves it alone there too.
What can begin with a line, and which lines it takes, is told once, with a case for each form.
-/

namespace Changelog

open LineForm

namespace Block

variable {line next : Text} {rest gap post : List Text} {form : BlockForm} {p : Text → Bool} {family : Char} {passed : Nat}

/-! ## The ways of reaching on -/

theorem reachThrough_eq_zero_iff : reachThrough p post = 0 ↔ post = [] := by
  cases post with
  | nil => simp [reachThrough]
  | cons line post =>
      rw [reachThrough]
      split <;> simp

theorem reachThrough_append (post : List Text) : reachThrough p (rest ++ post) = rest.length ↔
    reachThrough p rest = rest.length ∧ (rest.any p ∨ post = []) := by
  induction rest with
  | nil => simp [reachThrough_eq_zero_iff, reachThrough]
  | cons line rest ih =>
      by_cases hline : p line
      · simp only [List.cons_append, reachThrough, hline, if_true, List.length_cons, List.any_cons, Bool.true_or, true_or,
          and_true]
      · simp [reachThrough, hline, ih]

theorem reachBlank_append (post : List Text) : reachBlank (rest ++ post) = rest.length ↔
    reachBlank rest = rest.length ∧ reachBlank post = 0 := by
  induction rest with
  | nil => simp [reachBlank]
  | cons line rest ih =>
      by_cases hline : Text.isBlank line
      · simp [reachBlank, hline]
      · simpa [reachBlank, hline] using ih

/-- Up to the last line that belongs to a block before one that does not. Blank lines count when a line that belongs comes
    after them; `passed` is how many were just passed, and it is told whether there were none. -/
def reachOver (belongs : Bool → Text → Bool) (passed : Nat) : List Text → Nat
  | [] => 0
  | line :: rest =>
    if Text.isBlank line then reachOver belongs (passed + 1) rest
    else if belongs (decide (passed = 0)) line then passed + 1 + reachOver belongs 0 rest
    else 0

theorem reachIndented_eq (passed : Nat) (post : List Text) :
    reachIndented passed post = reachOver (fun _ => isIndentedCode) passed post := by
  induction post generalizing passed with
  | nil => rfl
  | cons line post ih => rw [reachIndented, reachOver, ih, ih]

/-- Does a line that is not blank go on with a list, right after one of its lines or after blank lines? -/
def keepsList (family : Char) (direct : Bool) (line : Text) : Bool :=
  if direct then continuesList family line else resumesList family line

theorem reachList_eq (family : Char) (passed : Nat) (post : List Text) :
    reachList family passed post = reachOver (keepsList family) passed post := by
  induction post generalizing passed with
  | nil => rfl
  | cons line post ih =>
      rw [reachList, reachOver, ih, ih, keepsList]
      simp only [decide_eq_true_eq]

theorem reachOver_eq_zero_or_lt (belongs : Bool → Text → Bool) (passed : Nat) (post : List Text) :
    reachOver belongs passed post = 0 ∨ passed < reachOver belongs passed post := by
  induction post generalizing passed with
  | nil => exact Or.inl rfl
  | cons line post ih =>
      rw [reachOver]
      split
      · rcases ih (passed + 1) with h | h
        · exact Or.inl h
        · exact Or.inr (Nat.lt_of_succ_lt h)
      · split
        · exact Or.inr (by omega)
        · exact Or.inl rfl

theorem reachOver_append {belongs : Bool → Text → Bool} (passed : Nat) (post : List Text) :
    reachOver belongs passed (rest ++ post) = passed + rest.length ↔
      reachOver belongs passed rest = passed + rest.length ∧ reachOver belongs 0 post = 0 := by
  induction rest generalizing passed with
  | nil =>
      have dichotomy := reachOver_eq_zero_or_lt belongs passed post
      cases passed with
      | zero => simp [reachOver]
      | succ passed =>
          simp only [List.nil_append, List.length_nil, reachOver]
          omega
  | cons line rest ih =>
      rw [List.cons_append, reachOver, reachOver, List.length_cons]
      split
      · have := ih (passed + 1)
        rwa [Nat.add_right_comm, Nat.add_assoc] at this
      · split
        · have := ih 0
          omega
        · omega

/-- After blank lines the first other line decides. -/
theorem reachOver_eq_zero_iff {belongs : Bool → Text → Bool} (hgap : ∀ line ∈ gap, Text.isBlank line)
    (hnext : Text.isBlank next = false) (post : List Text) :
    reachOver belongs passed (gap ++ next :: post) = 0 ↔ belongs (decide (passed + gap.length = 0)) next = false := by
  induction gap generalizing passed with
  | nil =>
      rw [List.nil_append, reachOver, hnext]
      cases belongs (decide (passed = 0)) next <;> simp [*]
  | cons line gap ih =>
      rw [List.cons_append, reachOver, if_pos (hgap line List.mem_cons_self),
        ih fun other hother => hgap other (List.mem_cons_of_mem line hother), List.length_cons]
      simp [Nat.add_right_comm, Nat.add_assoc]

theorem reachParagraph_append (post : List Text) : reachParagraph (rest ++ post) = (rest.length, none) ↔
    reachParagraph rest = (rest.length, none) ∧ reachParagraph post = (0, none) := by
  induction rest with
  | nil => simp [reachParagraph]
  | cons line rest ih =>
      rw [List.cons_append, reachParagraph, reachParagraph, List.length_cons]
      split
      · simp
      · split
        · simp
        · split
          · simp
          · simpa [Prod.ext_iff] using ih

theorem reachParagraph_ne {depth : Nat} (post : List Text) : reachParagraph post ≠ (0, some depth) := by
  cases post with
  | nil => simp [reachParagraph]
  | cons line post =>
      rw [reachParagraph]
      split
      · simp
      · split
        · simp
        · split <;> simp

theorem reachParagraph_append_underlined {depth : Nat} (post : List Text) :
    reachParagraph (rest ++ post) = (rest.length, some depth) ↔ reachParagraph rest = (rest.length, some depth) := by
  induction rest with
  | nil => simpa [reachParagraph] using reachParagraph_ne post
  | cons line rest ih =>
      rw [List.cons_append, reachParagraph, reachParagraph, List.length_cons]
      split
      · simp
      · split
        · simp
        · split
          · simp
          · simpa [Prod.ext_iff] using ih

/-! ## What is passed -/

theorem isBlank_of_reachBlank (h : reachBlank rest = rest.length) : ∀ line ∈ rest, Text.isBlank line = false := by
  have whole : rest.takeWhile (!Text.isBlank ·) = rest := (List.takeWhile_prefix _).eq_of_length h
  intro line hline
  rw [← whole] at hline
  simpa using List.all_eq_true.mp List.all_takeWhile line hline

/-- Only the last line of a paragraph can be an underline, and none begins another block. -/
theorem passed_of_reachParagraph {depth : Option Nat} (h : reachParagraph rest = (rest.length, depth)) :
    ∀ line ∈ rest, Text.isBlank line = false ∧ ((underline? line).isSome ∨ interrupts line = false) := by
  induction rest with
  | nil => nofun
  | cons line rest ih =>
      rw [reachParagraph, List.length_cons] at h
      split at h
      next => cases h
      next filled =>
        rw [Bool.not_eq_true] at filled
        split at h
        next underlined =>
          have last : rest = [] := by simpa [eq_comm] using congrArg Prod.fst h
          rw [last]
          simp [filled, underlined]
        next =>
          split at h
          next => cases h
          next calm => exact List.forall_mem_cons.mpr ⟨⟨filled, Or.inr (by simpa using calm)⟩, ih (by simpa [Prod.ext_iff] using h)⟩

theorem belongs_of_reachOver {belongs : Bool → Text → Bool} (passed : Nat)
    (h : reachOver belongs passed rest = passed + rest.length) :
    ∀ line ∈ rest, Text.isBlank line = false → ∃ direct, belongs direct line := by
  induction rest generalizing passed with
  | nil => nofun
  | cons line rest ih =>
      rw [reachOver, List.length_cons] at h
      split at h
      next blank =>
        refine List.forall_mem_cons.mpr ⟨fun filled => ?_, ih (passed + 1) (by omega)⟩
        rw [blank] at filled
        contradiction
      next =>
        split at h
        next own => exact List.forall_mem_cons.mpr ⟨fun _ => ⟨_, own⟩, ih 0 (by omega)⟩
        next => omega

theorem isBlank_of_reachOver {belongs : Bool → Text → Bool} {last : Text} (passed : Nat)
    (h : reachOver belongs passed (rest ++ [last]) = passed + (rest.length + 1)) : Text.isBlank last = false := by
  induction rest generalizing passed with
  | nil =>
      cases hlast : Text.isBlank last with
      | true => simp [reachOver, hlast] at h
      | false => rfl
  | cons line rest ih =>
      rw [List.cons_append, reachOver, List.length_cons] at h
      split at h
      · apply ih (passed + 1)
        omega
      · split at h
        · apply ih 0
          omega
        · omega

/-! ## What a block is and how far it reaches -/

/-- What a line says that begins a block of a form. No line is a heading with an underline by itself. -/
def IsSaidBy (line : Text) : BlockForm → Prop
  | .atx heading => atx? line = some heading
  | .fence fence => fence? line = some fence
  | .thematicBreak => isThematicBreak line
  | .definition parts => definition? line = some parts
  | .list family => ∃ item, item? line = some item ∧ item.family = family
  | .blockquote => isBlockquote line
  | .html raw => isHtml line ∧ rawHtml? line = raw
  | .indentedCode => isIndentedCode line
  | .paragraph => True
  | .setext _ => False

theorem isSaidBy_of_ofLine (h : BlockForm.ofLine line = form) : IsSaidBy line form := by
  subst h
  unfold BlockForm.ofLine
  repeat' split
  all_goals simp_all only [IsSaidBy, and_self, Option.some.injEq, exists_eq_left']

theorem underlined_eq_iff {reached : Nat × Option Nat} {form : BlockForm} {length : Nat} :
    (match reached with
      | (reach, some depth) => (BlockForm.setext depth, reach)
      | (reach, none) => (.paragraph, reach)) = (form, length) ↔
      (form = .paragraph ∧ reached = (length, none)) ∨ ∃ depth, form = .setext depth ∧ reached = (length, some depth) := by
  obtain ⟨reach, _ | depth⟩ := reached <;> simp [eq_comm]

/-- What begins with a line and takes `length` of the lines behind it. The form of a block is that of its first line, but
    for a heading with an underline, which begins like a paragraph. -/
inductive Reaches (line : Text) (lines : List Text) (length : Nat) : BlockForm → Prop where
  | alone {form : BlockForm} : BlockForm.ofLine line = form → length = 0 → Reaches line lines length form
  | fence {fence : Fence} : BlockForm.ofLine line = .fence fence → reachThrough (closesFence fence) lines = length →
      Reaches line lines length (.fence fence)
  | list {family : Char} : BlockForm.ofLine line = .list family → reachOver (keepsList family) 0 lines = length →
      Reaches line lines length (.list family)
  | indentedCode : BlockForm.ofLine line = .indentedCode → reachOver (fun _ => isIndentedCode) 0 lines = length →
      Reaches line lines length .indentedCode
  | upToBlank {form : BlockForm} : BlockForm.ofLine line = form → form = .blockquote ∨ form = .html none →
      reachBlank lines = length → Reaches line lines length form
  | rawHtml {raw : RawHtml} {after : Text} : BlockForm.ofLine line = .html (some (raw, after)) →
      (if raw.endsIn after then 0 else reachThrough raw.endsIn lines) = length →
      Reaches line lines length (.html (some (raw, after)))
  | paragraph : BlockForm.ofLine line = .paragraph → reachParagraph lines = (length, none) →
      Reaches line lines length .paragraph
  | setext {depth : Nat} : BlockForm.ofLine line = .paragraph → reachParagraph lines = (length, some depth) →
      Reaches line lines length (.setext depth)

theorem reaches_of_read {lines : List Text} {length : Nat} (h : read line lines = (form, length)) :
    Reaches line lines length form := by
  unfold read at h
  cases hform : BlockForm.ofLine line with
  | fence fence =>
      rw [hform] at h
      cases h
      exact .fence hform rfl
  | list family =>
      rw [hform] at h
      cases h
      exact .list hform (reachList_eq family 0 lines).symm
  | indentedCode =>
      rw [hform] at h
      cases h
      exact .indentedCode hform (reachIndented_eq 0 lines).symm
  | blockquote =>
      rw [hform] at h
      cases h
      exact .upToBlank hform (Or.inl rfl) rfl
  | html raw =>
      rw [hform] at h
      cases raw with
      | none =>
          cases h
          exact .upToBlank hform (Or.inr rfl) rfl
      | some opening =>
          cases h
          exact .rawHtml hform rfl
  | paragraph =>
      rw [hform] at h
      rcases underlined_eq_iff.mp h with ⟨rfl, reach⟩ | ⟨depth, rfl, reach⟩
      · exact .paragraph hform reach
      · exact .setext hform reach
  | atx | thematicBreak | definition | setext =>
      rw [hform] at h
      cases h
      exact .alone hform rfl

/-! ## Where a block ends -/

/-- A block of a form, with some lines after its first, ends in front of some others. -/
def EndsBefore (form : BlockForm) (rest post : List Text) : Prop :=
  match form with
  | .fence fence => rest.any (closesFence fence) ∨ post = []
  | .list family => reachOver (keepsList family) 0 post = 0
  | .blockquote | .html none => reachBlank post = 0
  | .html (some (raw, after)) => raw.endsIn after ∨ rest.any raw.endsIn ∨ post = []
  | .indentedCode => reachOver (fun _ => isIndentedCode) 0 post = 0
  | .paragraph => reachParagraph post = (0, none)
  | .atx _ | .thematicBreak | .definition _ | .setext _ => True

theorem form_reach_eq_iff {read form : BlockForm} {whole own length : Nat}
    (h : whole = length ↔ own = length ∧ EndsBefore read rest post) :
    (read, whole) = (form, length) ↔ (read, own) = (form, length) ∧ EndsBefore form rest post := by
  rw [Prod.mk.injEq, Prod.mk.injEq, h]
  constructor
  · rintro ⟨rfl, hown, ends⟩
    exact ⟨⟨rfl, hown⟩, ends⟩
  · rintro ⟨⟨rfl, hown⟩, ends⟩
    exact ⟨rfl, hown, ends⟩

/-- A block takes its own lines and no others just if it takes all of its own lines and ends before the others. -/
theorem read_append (line : Text) (rest post : List Text) (form : BlockForm) :
    read line (rest ++ post) = (form, rest.length) ↔ read line rest = (form, rest.length) ∧ EndsBefore form rest post := by
  unfold read
  cases BlockForm.ofLine line with
  | fence fence => exact form_reach_eq_iff (reachThrough_append post)
  | list family =>
      have whole := @reachOver_append rest (keepsList family) 0 post
      simp only [Nat.zero_add, ← reachList_eq] at whole
      exact form_reach_eq_iff (whole.trans (by rw [reachList_eq family 0 post]; rfl))
  | blockquote => exact form_reach_eq_iff (reachBlank_append post)
  | indentedCode =>
      have whole := @reachOver_append rest (fun _ => isIndentedCode) 0 post
      simp only [Nat.zero_add, ← reachIndented_eq] at whole
      exact form_reach_eq_iff (whole.trans (by rw [reachIndented_eq 0 post]; rfl))
  | html raw =>
      cases raw with
      | none => exact form_reach_eq_iff (reachBlank_append post)
      | some opening =>
          obtain ⟨raw, after⟩ := opening
          refine form_reach_eq_iff ?_
          by_cases hafter : raw.endsIn after
          · simp only [hafter, if_true, EndsBefore, true_or, and_true]
          · rw [if_neg hafter, if_neg hafter, reachThrough_append, EndsBefore, or_iff_right hafter]
  | paragraph =>
      -- an underline ends a paragraph whatever stands behind it
      refine underlined_eq_iff.trans (Iff.trans ?_ (and_congr_left' underlined_eq_iff).symm)
      simp only [reachParagraph_append, reachParagraph_append_underlined]
      constructor
      · rintro (⟨rfl, hown, ends⟩ | ⟨depth, rfl, hown⟩)
        · exact ⟨Or.inl ⟨rfl, hown⟩, ends⟩
        · exact ⟨Or.inr ⟨depth, rfl, hown⟩, trivial⟩
      · rintro ⟨⟨rfl, hown⟩ | ⟨depth, rfl, hown⟩, ends⟩
        · exact Or.inl ⟨rfl, hown, ends⟩
        · exact Or.inr ⟨depth, rfl, hown⟩
  | atx | thematicBreak | definition | setext => exact form_reach_eq_iff (by simp [EndsBefore])

/-- Does a block of a form, with some lines after its first, go on with the next line that is not blank? `direct` tells
    whether no blank line stands between. -/
def goesOn (form : BlockForm) (rest : List Text) (direct : Bool) (next : Text) : Bool :=
  match form with
  | .fence fence => !rest.any (closesFence fence)
  | .list family => keepsList family direct next
  | .blockquote | .html none => direct
  | .html (some (raw, after)) => !(raw.endsIn after || rest.any raw.endsIn)
  | .indentedCode => isIndentedCode next
  | .paragraph => direct && ((underline? next).isSome || !interrupts next)
  | .atx _ | .thematicBreak | .definition _ | .setext _ => false

/-- Whether a block ends in front of other lines is decided by the first of them that is not blank. -/
theorem endsBefore_iff (form : BlockForm) (rest : List Text) (hgap : ∀ line ∈ gap, Text.isBlank line)
    (hnext : Text.isBlank next = false) (post : List Text) :
    EndsBefore form rest (gap ++ next :: post) ↔ goesOn form rest gap.isEmpty next = false := by
  have direct : decide (0 + gap.length = 0) = gap.isEmpty := by cases gap <;> simp
  cases form with
  | fence fence => simp [EndsBefore, goesOn]
  | list family => rw [EndsBefore, reachOver_eq_zero_iff hgap hnext, direct, goesOn]
  | indentedCode => rw [EndsBefore, reachOver_eq_zero_iff hgap hnext, goesOn]
  | blockquote =>
      cases gap with
      | nil => simp [EndsBefore, goesOn, reachBlank, hnext]
      | cons line gap => simp [EndsBefore, goesOn, reachBlank, hgap line List.mem_cons_self]
  | html raw =>
      cases raw with
      | none =>
          cases gap with
          | nil => simp [EndsBefore, goesOn, reachBlank, hnext]
          | cons line gap => simp [EndsBefore, goesOn, reachBlank, hgap line List.mem_cons_self]
      | some opening =>
          obtain ⟨raw, after⟩ := opening
          cases hafter : raw.endsIn after <;> simp [EndsBefore, goesOn, hafter]
  | paragraph =>
      cases gap with
      | nil =>
          rw [List.nil_append, EndsBefore, reachParagraph, goesOn, hnext]
          cases underline? next <;> cases interrupts next <;> simp
      | cons line gap =>
          rw [List.cons_append, EndsBefore, reachParagraph, if_pos (hgap line List.mem_cons_self)]
          simp [goesOn]
  | atx | thematicBreak | definition | setext => simp [EndsBefore, goesOn]

theorem endsBefore_nil : EndsBefore form rest [] := by
  cases form with
  | fence fence => exact Or.inr rfl
  | html raw =>
      cases raw with
      | none => rfl
      | some opening => exact Or.inr (Or.inr rfl)
  | list | indentedCode | blockquote | paragraph => rfl
  | atx | thematicBreak | definition | setext => trivial

end Block

end Changelog
