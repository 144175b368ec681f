import Changelog.Proofs.Paired
import Changelog.Proofs.Text.Lowercase
import Changelog.Text.Line
import Mathlib.Data.List.Chain

/-! # Looking for a word

A word in lower case is found in a text in lower case without regard to case just where it stands as it is. It cannot
stand across a character that is not its own.
-/

namespace Changelog.Text

variable {part text rest : Text} {c : Char}

/-- Is every basic letter in the text in lower case and of the basic alphabet? -/
def IsPlainLower (text : Text) : Prop := ∀ c ∈ text, c.toNat < 128 ∧ c.isUpper = false

@[simp] theorem isPlainLower_append (text other : Text) :
    IsPlainLower (text ++ other) ↔ text.IsPlainLower ∧ other.IsPlainLower := List.forall_mem_append

@[simp] theorem isPlainLower_cons (c : Char) (text : Text) :
    IsPlainLower (c :: text) ↔ (c.toNat < 128 ∧ c.isUpper = false) ∧ text.IsPlainLower := List.forall_mem_cons

theorem isUpper_iff (c : Char) : c.isUpper ↔ 'A'.toNat ≤ c.toNat ∧ c.toNat ≤ 'Z'.toNat :=
  decide_eq_true_iff

/-! ## Leads -/

theorem dropLead?_singleton (c : Char) (text : Text) : dropLead? [c] (c :: text) = some text := by
  simp [dropLead?]

theorem dropLead?_subset {lead : Text} (h : dropLead? lead text = some rest) : rest ⊆ text := by
  have : lead ++ rest = text := List.isPrefixOf?_eq_some_iff_append_eq.mp h
  rw [← this]
  exact List.subset_append_right lead rest

/-! ## Case -/

theorem foldLetter?_of_isPlainLower (h : c.toNat < 128 ∧ c.isUpper = false) {letter : Char}
    (hfold : foldLetter? c = some letter) : letter = c := by
  obtain ⟨small, lower⟩ := h
  have notUpper : ¬('A'.toNat ≤ c.toNat ∧ c.toNat ≤ 'Z'.toNat) := by
    rw [← isUpper_iff, lower]
    exact Bool.false_ne_true
  unfold foldLetter? at hfold
  simp only [Char.reduceToNat, Bool.and_eq_true, Bool.or_eq_true, decide_eq_true_eq, beq_iff_eq] at hfold notUpper
  repeat' split at hfold
  all_goals first
    | exact (Option.some.inj hfold).symm
    | contradiction
    | omega

theorem isSome_dropLeadFolded?_iff (h : text.IsPlainLower) : (dropLeadFolded? part text).isSome ↔ part <+: text := by
  induction part generalizing text with
  | nil => simp [dropLeadFolded?]
  | cons letter part ih =>
      cases text with
      | nil => simp [dropLeadFolded?]
      | cons c text =>
          obtain ⟨hc, htext⟩ := (isPlainLower_cons c text).mp h
          have same : (foldLetter? c = some letter || c = letter) = decide (letter = c) := by
            rw [Bool.eq_iff_iff, Bool.or_eq_true, decide_eq_true_eq, decide_eq_true_eq, decide_eq_true_eq]
            exact ⟨fun h => h.elim (foldLetter?_of_isPlainLower hc) Eq.symm, fun h => Or.inr h.symm⟩
          rw [dropLeadFolded?, same, List.cons_prefix_cons]
          by_cases hletter : letter = c
          · simp [hletter, ih htext]
          · simp [hletter]

theorem foldLetter?_ne {mark : Char} (h : isPlainLetter mark = false) (c : Char) : foldLetter? c ≠ some mark := by
  intro hfold
  -- whatever letter is a form of another one, the other one is between a and z
  suffices inside : 97 ≤ mark.toNat ∧ mark.toNat ≤ 122 by
    simp [isPlainLetter] at h
    omega
  unfold foldLetter? at hfold
  simp only [Char.reduceToNat, Bool.and_eq_true, Bool.or_eq_true, decide_eq_true_eq, beq_iff_eq] at hfold
  split at hfold
  next letter =>
    rw [Option.some.inj hfold] at letter
    exact letter
  · split at hfold
    next capital =>
      have valid : (c.toNat + 32).isValidChar := Or.inl (by omega)
      have same : (Char.ofNat (c.toNat + 32)).toNat = c.toNat + 32 := toNat_ofNat valid
      rw [Option.some.inj hfold] at same
      omega
    · repeat' split at hfold
      all_goals cases hfold
      all_goals decide

/-- Is a character a form of a letter that is given in lower case? -/
def FoldsTo (c letter : Char) : Prop := foldLetter? c = some letter ∨ c = letter

instance (c letter : Char) : Decidable (FoldsTo c letter) := inferInstanceAs (Decidable (_ ∨ _))

theorem FoldsTo.isLetterForm {letter : Char} (h : FoldsTo c letter) (hletter : isLetterForm letter) : isLetterForm c := by
  rcases h with h | rfl
  · exact Option.isSome_of_mem h
  · exact hletter

theorem dropLeadFolded?_eq_some_iff {lead : Text} :
    dropLeadFolded? lead text = some rest ↔ ∃ front, text = front ++ rest ∧ List.Forall₂ FoldsTo front lead := by
  induction lead generalizing text with
  | nil => simp [dropLeadFolded?, List.forall₂_nil_right_iff]
  | cons letter lead ih =>
      cases text with
      | nil =>
          simp only [dropLeadFolded?, List.forall₂_cons_right_iff]
          constructor
          · exact nofun
          · rintro ⟨front, hfront, c, later, -, -, rfl⟩
            exact absurd hfront nofun
      | cons c text =>
          simp only [dropLeadFolded?, Bool.or_eq_true, decide_eq_true_eq, List.forall₂_cons_right_iff]
          constructor
          · intro h
            split at h
            next same =>
              obtain ⟨front, rfl, forms⟩ := ih.mp h
              exact ⟨c :: front, rfl, c, front, same, forms, rfl⟩
            next => contradiction
          · rintro ⟨front, hfront, d, later, same, forms, rfl⟩
            obtain ⟨rfl, rfl⟩ := List.cons.inj hfront
            rw [FoldsTo] at same
            rw [if_pos same]
            exact ih.mpr ⟨later, rfl, forms⟩

theorem mem_of_dropLeadFolded? {lead : Text} {mark : Char} (h : dropLeadFolded? lead text = some rest)
    (plain : isPlainLetter mark = false) (hlead : mark ∈ lead) : mark ∈ text := by
  obtain ⟨front, rfl, forms⟩ := dropLeadFolded?_eq_some_iff.mp h
  obtain ⟨c, hc, fold | rfl⟩ := exists_left_of_forall₂ forms hlead
  · exact absurd fold (foldLetter?_ne plain c)
  · exact List.mem_append_left rest hc

theorem mem_of_containsFolded {mark : Char} (h : containsFolded part text) (plain : isPlainLetter mark = false)
    (hpart : mark ∈ part) : mark ∈ text := by
  induction text with
  | nil =>
      rw [containsFolded, List.isEmpty_iff] at h
      rw [h] at hpart
      contradiction
  | cons c text ih =>
      rw [containsFolded, Bool.or_eq_true] at h
      cases h with
      | inl h =>
          obtain ⟨rest, hrest⟩ := Option.isSome_iff_exists.mp h
          exact mem_of_dropLeadFolded? hrest plain hpart
      | inr h => exact List.mem_cons_of_mem c (ih h)

theorem contains_iff (part text : Text) : contains part text ↔ part <:+: text := by
  induction text with
  | nil => simp [contains]
  | cons c text ih =>
      rw [contains, Bool.or_eq_true, ih, startsWith, List.isPrefixOf_iff_prefix, List.infix_cons_iff]

/-- In a text in lower case, case makes no difference. -/
theorem containsFolded_iff (h : text.IsPlainLower) : containsFolded part text ↔ part <:+: text := by
  induction text with
  | nil => simp [containsFolded]
  | cons c text ih =>
      rw [containsFolded, Bool.or_eq_true, ih ((isPlainLower_cons c text).mp h).2, isSome_dropLeadFolded?_iff h,
        List.infix_cons_iff]

theorem lowercase_of_isPlainLower (h : text.IsPlainLower) : lowercase text = text := by
  have each : ∀ before, lowercaseAfter before text = text := by
    induction text with
    | nil => exact fun _ => rfl
    | cons c text ih =>
        intro before
        obtain ⟨⟨small, lower⟩, htext⟩ := (isPlainLower_cons c text).mp h
        have notUpper : ('A'.toNat ≤ c.toNat && c.toNat ≤ 'Z'.toNat) = false := by
          rw [← Bool.not_eq_true, Bool.and_eq_true, decide_eq_true_eq, decide_eq_true_eq, ← isUpper_iff, lower]
          exact Bool.false_ne_true
        have own : lowercaseBetween before c text = [c] := by
          rw [lowercaseBetween, if_pos small, notUpper]
          rfl
        rw [lowercaseAfter, own, ih htext]
        rfl
  exact each []

/-! ## Places -/

theorem infix_append_cons_iff (h : c ∉ part) : part <:+: text ++ c :: rest ↔ part <:+: text ∨ part <:+: rest := by
  constructor
  · intro hpart
    rcases List.infix_append_iff.mp hpart with hpart | hpart | ⟨front, back, rfl, hfront, hback⟩
    · exact Or.inl hpart
    · rcases List.infix_cons_iff.mp hpart with hpart | hpart
      · cases part with
        | nil => exact Or.inl List.nil_infix
        | cons d part =>
            rw [(List.cons_prefix_cons.mp hpart).1] at h
            exact absurd List.mem_cons_self h
      · exact Or.inr hpart
    · cases back with
      | nil =>
          rw [List.append_nil]
          exact Or.inl hfront.isInfix
      | cons d back =>
          rw [(List.cons_prefix_cons.mp hback).1] at h
          exact absurd (by simp) h
  · rintro (hpart | hpart)
    · exact List.infix_append_of_infix_left hpart
    · exact List.infix_append_of_infix_right (List.infix_cons hpart)

/-! ## Words -/

theorem words_of_filled (h : ∀ c ∈ text, isBlankChar c = false) (hne : text ≠ []) : words text = [text] := by
  induction text with
  | nil => contradiction
  | cons c text ih =>
      obtain ⟨hc, htext⟩ := List.forall_mem_cons.mp h
      cases text with
      | nil => simp [words, hc]
      | cons d text =>
          have hd := htext d List.mem_cons_self
          rw [words, ih htext (List.cons_ne_nil d text)]
          simp [hc, hd, consFirst]

theorem dropWhile_of_forall {p : Char → Bool} (h : ∀ c ∈ text, p c = false) : text.dropWhile p = text := by
  cases text with
  | nil => rfl
  | cons c text => exact List.dropWhile_cons_of_neg (by simp [h c List.mem_cons_self])

theorem strip_of_filled (h : ∀ c ∈ text, isBlankChar c = false) : strip text = text := by
  have back : text.reverse.dropWhile isBlankChar = text.reverse :=
    dropWhile_of_forall fun c hc => h c (List.mem_reverse.mp hc)
  rw [strip, stripLead, dropWhile_of_forall h, stripTail, dropTailWhile, back, List.reverse_reverse]

end Changelog.Text
