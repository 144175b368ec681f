import Changelog.Proofs.Outline.Heading
import Changelog.Proofs.Version.Bump
import Changelog.Review.Release

/-! # Headings that speak of what is not released yet

The word for it is looked for without regard to case. It is made of letters alone, so it stands in no number and in no
date, and a version that was bumped says it only if the version before did.
-/

namespace Changelog

namespace Text

variable {part text : Text} {c letter : Char}

theorem isSome_dropLeadFolded?_iff_exists :
    (dropLeadFolded? part text).isSome ↔ ∃ stretch, stretch <+: text ∧ List.Forall₂ FoldsTo stretch part := by
  simp only [Option.isSome_iff_exists, dropLeadFolded?_eq_some_iff]
  constructor
  · rintro ⟨rest, stretch, rfl, folds⟩
    exact ⟨stretch, List.prefix_append stretch rest, folds⟩
  · rintro ⟨stretch, ⟨rest, rfl⟩, folds⟩
    exact ⟨rest, stretch, rfl, folds⟩

theorem containsFolded_iff_exists :
    containsFolded part text ↔ ∃ stretch, stretch <:+: text ∧ List.Forall₂ FoldsTo stretch part := by
  induction text with
  | nil =>
      rw [containsFolded, List.isEmpty_iff]
      constructor
      · rintro rfl
        exact ⟨[], List.infix_rfl, .nil⟩
      · rintro ⟨stretch, hinside, folds⟩
        rw [List.infix_nil.mp hinside] at folds
        cases folds
        rfl
  | cons c text ih =>
      rw [containsFolded, Bool.or_eq_true, ih, isSome_dropLeadFolded?_iff_exists]
      constructor
      · rintro (⟨stretch, hprefix, folds⟩ | ⟨stretch, hinside, folds⟩)
        · exact ⟨stretch, hprefix.isInfix, folds⟩
        · exact ⟨stretch, List.infix_cons hinside, folds⟩
      · rintro ⟨stretch, hinside, folds⟩
        exact (List.infix_cons_iff.mp hinside).imp (fun h => ⟨stretch, h, folds⟩) fun h => ⟨stretch, h, folds⟩

theorem isLetterForm_of_foldsTo {word letters : Text} (h : List.Forall₂ FoldsTo word letters)
    (hletters : ∀ letter ∈ letters, isLetterForm letter) : ∀ c ∈ word, isLetterForm c := by
  intro c hc
  obtain ⟨letter, hletter, folds⟩ : ∃ letter ∈ letters, FoldsTo c letter := exists_left_of_forall₂ h.flip hc
  exact folds.isLetterForm (hletters letter hletter)

theorem isDecimalDigit_of_isLetterForm (h : isLetterForm c) : isDecimalDigit c = false := by
  have apart : ∀ first ∈ digitZeros, first + 9 < 65 ∨ 122 < first ∧ (first + 9 < 0x130 ∨ 0x131 < first ∧
      (first + 9 < 0x17f ∨ 0x17f < first ∧ (first + 9 < 0x212a ∨ 0x212a < first))) := by decide
  have letter : 65 ≤ c.toNat ∧ c.toNat ≤ 122 ∨ c.toNat = 0x17f ∨ c.toNat = 0x212a ∨ c.toNat = 0x130 ∨ c.toNat = 0x131 := by
    unfold isLetterForm foldLetter? at h
    simp only [Char.reduceToNat, Bool.and_eq_true, Bool.or_eq_true, decide_eq_true_eq, beq_iff_eq] at h
    repeat' split at h
    all_goals first
      | contradiction
      | omega
  rw [Bool.eq_false_iff]
  intro digit
  rw [isDecimalDigit, digitValue?, Option.isSome_map, List.find?_isSome] at digit
  obtain ⟨first, hfirst, covers⟩ := digit
  have := apart first hfirst
  simp only [Bool.and_eq_true, decide_eq_true_eq] at covers
  omega

end Text

namespace ReleaseHeading

open Text

variable {text word version date : Text}

/-- A word for what is not released yet, in some case. -/
def IsUnreleasedWord (word : Text) : Prop := List.Forall₂ FoldsTo word unreleased

theorem saysUnreleased_iff : saysUnreleased text ↔ ∃ word, word <:+: text ∧ IsUnreleasedWord word :=
  containsFolded_iff_exists

theorem IsUnreleasedWord.isLetterForm (h : IsUnreleasedWord word) : ∀ c ∈ word, isLetterForm c := by
  have letters : ∀ letter ∈ unreleased, Changelog.isLetterForm letter := by decide
  exact isLetterForm_of_foldsTo h letters

theorem IsUnreleasedWord.not_mem (h : IsUnreleasedWord word) {c : Char} (other : Changelog.isLetterForm c = false) : c ∉ word := by
  intro hc
  rw [h.isLetterForm c hc] at other
  contradiction

theorem IsUnreleasedWord.ne_nil (h : IsUnreleasedWord word) : word ≠ [] := by
  rintro rfl
  cases h

theorem IsUnreleasedWord.not_infix (h : IsUnreleasedWord word) (other : ∀ c ∈ text, Changelog.isLetterForm c = false) :
    ¬word <:+: text := by
  intro hinside
  obtain ⟨c, rest, rfl⟩ := List.exists_cons_of_ne_nil h.ne_nil
  exact h.not_mem (other c (hinside.subset List.mem_cons_self)) List.mem_cons_self

/-! ## Dates -/

theorem forall_mem_of_isDate (h : Review.isDate date) : ∀ c ∈ date, isDecimalDigit c ∨ c = '-' ∨ c = '\n' := by
  have rest : ∀ c ∈ date, c ∈ (Text.dropTail? ['\n'] date).getD date ∨ c = '\n' := by
    intro c hc
    cases hdrop : Text.dropTail? ['\n'] date with
    | none => exact Or.inl hc
    | some day =>
        have whole : day ++ ['\n'] = date := List.isSuffixOf?_eq_some_iff_append_eq.mp hdrop
        rw [← whole, List.mem_append, List.mem_singleton] at hc
        exact hc
  unfold Review.isDate at h
  generalize (Text.dropTail? ['\n'] date).getD date = day at h rest
  dsimp only at h
  split at h
  next a b c d dash e f dash' g last =>
    simp only [List.all_cons, List.all_nil, Bool.and_true, Bool.and_eq_true, beq_iff_eq] at h
    have plain : ∀ x ∈ [a, b, c, d, dash, e, f, dash', g, last], isDecimalDigit x ∨ x = '-' := by simp [h]
    intro x hx
    rcases rest x hx with hx | rfl
    · exact (plain x hx).imp_right Or.inl
    · exact Or.inr (Or.inr rfl)
  next => contradiction

theorem isLetterForm_of_mem_date (h : Review.isDate date) : ∀ c ∈ date, isLetterForm c = false := by
  intro c hc
  rcases forall_mem_of_isDate h c hc with digit | rfl | rfl
  · cases letter : isLetterForm c with
    | false => rfl
    | true =>
        rw [isDecimalDigit_of_isLetterForm letter] at digit
        contradiction
  · decide
  · decide

theorem not_mem_space_of_isDate (h : Review.isDate date) : ' ' ∉ date := by
  intro hc
  rcases forall_mem_of_isDate h ' ' hc with digit | same | same
  · exact absurd digit (by decide)
  · exact absurd same (by decide)
  · exact absurd same (by decide)

theorem saysUnreleased_of_infix {part : Text} (h : part <:+: text) (hpart : saysUnreleased part) : saysUnreleased text := by
  obtain ⟨word, hinside, isWord⟩ := saysUnreleased_iff.mp hpart
  exact saysUnreleased_iff.mpr ⟨word, hinside.trans h, isWord⟩

theorem saysUnreleased_separated :
    saysUnreleased (version ++ (dateSeparator ++ date)) = (saysUnreleased version || saysUnreleased date) := by
  rw [Bool.eq_iff_iff, Bool.or_eq_true]
  constructor
  · intro h
    obtain ⟨word, hinside, isWord⟩ := saysUnreleased_iff.mp h
    have space : ' ' ∉ word := isWord.not_mem (by decide)
    have whole : version ++ (dateSeparator ++ date) = version ++ ' ' :: (['-'] ++ ' ' :: date) := rfl
    rw [whole, infix_append_cons_iff space, infix_append_cons_iff space] at hinside
    rcases hinside with hinside | hinside | hinside
    · exact Or.inl (saysUnreleased_iff.mpr ⟨word, hinside, isWord⟩)
    · exact absurd hinside (isWord.not_infix (by decide))
    · exact Or.inr (saysUnreleased_iff.mpr ⟨word, hinside, isWord⟩)
  · rintro (h | h)
    · exact saysUnreleased_of_infix (List.prefix_append version _).isInfix h
    · rw [← List.append_assoc]
      exact saysUnreleased_of_infix (List.suffix_append _ date).isInfix h

theorem saysUnreleased_dated (h : Review.isDate date) (hversion : saysUnreleased version = false) :
    saysUnreleased (version ++ (dateSeparator ++ date)) = false := by
  have silent : saysUnreleased date = false := by
    rw [Bool.eq_false_iff, ne_eq, saysUnreleased_iff]
    rintro ⟨word, hinside, isWord⟩
    exact isWord.not_infix (isLetterForm_of_mem_date h) hinside
  rw [saysUnreleased_separated, hversion, silent]
  rfl

/-! ## Versions -/

theorem isLetterForm_of_isPlainDigit {c : Char} (h : isPlainDigit c) : isLetterForm c = false := by
  cases letter : isLetterForm c with
  | false => rfl
  | true =>
      have digit := isDecimalDigit_of_isPlainDigit h
      rw [isDecimalDigit_of_isLetterForm letter] at digit
      contradiction

theorem IsUnreleasedWord.not_infix_ofNat (h : IsUnreleasedWord word) (n : Nat) : ¬word <:+: ofNat n :=
  h.not_infix fun c hc => isLetterForm_of_isPlainDigit (forall_isPlainDigit_ofNat n c hc)

theorem IsUnreleasedWord.not_infix_core (h : IsUnreleasedWord word) (v : Version) : ¬word <:+: v.core := by
  intro hinside
  obtain ⟨number, hnumber, hword⟩ := exists_of_infix_join h.ne_nil (h.not_mem (by decide)) hinside
  simp only [List.mem_cons, List.not_mem_nil, or_false] at hnumber
  rcases hnumber with rfl | rfl | rfl <;> exact h.not_infix_ofNat _ hword

/-- In a version without build metadata the word can only stand in an identifier of the prerelease. -/
theorem IsUnreleasedWord.exists_identifier (h : IsUnreleasedWord word) {v : Version} (plain : v.build = [])
    (hinside : word <:+: v.text) : ∃ identifier ∈ v.prerelease, word <:+: identifier := by
  rw [Version.text_eq, plain, Version.marked, List.append_nil] at hinside
  cases hpre : v.prerelease with
  | nil =>
      rw [hpre, Version.marked, List.append_nil] at hinside
      exact absurd hinside (h.not_infix_core v)
  | cons first rest =>
      rw [hpre, Version.marked_of_ne_nil (List.cons_ne_nil first rest),
        infix_append_cons_iff (h.not_mem (by decide))] at hinside
      exact exists_of_infix_join h.ne_nil (h.not_mem (by decide)) (hinside.resolve_left (h.not_infix_core v))

theorem infix_text_of_mem_prerelease {v : Version} {identifier : Text} (h : identifier ∈ v.prerelease) :
    identifier <:+: v.text := by
  rw [Version.text_eq, Version.marked_of_ne_nil (List.ne_nil_of_mem h)]
  exact List.infix_append_of_infix_left (List.infix_append_of_infix_right (List.infix_cons (infix_join_of_mem ['.'] h)))

/-- A bumped version says it only if the version before did. -/
theorem saysUnreleased_bump {v : Version} (bump : Bump) (h : saysUnreleased v.text = false) :
    saysUnreleased (v.bump bump).text = false := by
  rw [Bool.eq_false_iff, ne_eq, saysUnreleased_iff] at h ⊢
  rintro ⟨word, hinside, isWord⟩
  obtain ⟨identifier, hidentifier, hword⟩ := isWord.exists_identifier (Version.build_bump v bump) hinside
  rcases Version.prerelease_bump v bump with empty | ⟨init, last, hlast, ⟨n, rfl⟩, others⟩
  · rw [empty] at hidentifier
    contradiction
  · rw [hlast, List.mem_append, List.mem_singleton] at hidentifier
    rcases hidentifier with hidentifier | rfl
    · rcases others identifier hidentifier with rfl | hidentifier
      · have short := hword.length_le
        rw [List.Forall₂.length_eq isWord] at short
        exact absurd short (by decide)
      · exact h ⟨word, hword.trans (infix_text_of_mem_prerelease hidentifier), isWord⟩
    · exact isWord.not_infix_ofNat n hword

theorem ofNodes_dated (h : Review.isDate date) (released : saysUnreleased version = false) (filled : ' ' ∉ version) :
    ofNodes [Node.ofText (version ++ (dateSeparator ++ date))] =
      { version := some version, date := some date, title := some (version ++ (dateSeparator ++ date)),
        isParseable := true } :=
  ofNodes_plain (saysUnreleased_dated h released) filled (isUnsplit_of_not_mem (not_mem_space_of_isDate h) _)

end ReleaseHeading

end Changelog
