import Changelog.Proofs.Markdown.Exact
import Changelog.Proofs.Review.Link
import Changelog.Proofs.Version.Written

/-! # Addresses that links lead to

The address of a comparison is put together from the address of the project and two tags. It is written in its definition
without brackets if the address of the project can be, because there is no white space in versions.
-/

namespace Changelog

open LineForm

namespace Version

variable {version : Text}

theorem tag_subset (version : Text) (tags : List Text) : tag version tags ⊆ 'v' :: version := by
  have plain : (Text.dropLead? ['v'] version).getD version ⊆ version := by
    cases hlead : Text.dropLead? ['v'] version with
    | none => exact List.Subset.refl version
    | some rest => exact Text.dropLead?_subset hlead
  unfold tag
  dsimp only
  split
  · exact List.cons_subset_cons 'v' plain
  · split
    · exact List.Subset.trans plain (List.subset_cons_self 'v' version)
    · exact List.cons_subset_cons 'v' plain

theorem filled_tag (h : ∀ c ∈ version, isBlankChar c = false) (tags : List Text) :
    ∀ c ∈ tag version tags, isBlankChar c = false := by
  intro c hc
  rcases List.mem_cons.mp (tag_subset version tags hc) with rfl | hc
  · decide
  · exact h c hc

/-- A valid version, or the word for what is not released yet. -/
def IsKnown (version : Text) : Prop := version = unreleased ∨ isValid version

namespace IsKnown

theorem isVersionChar (h : IsKnown version) : ∀ c ∈ version, isVersionChar c := by
  rcases h with rfl | valid
  · decide
  · exact forall_isVersionChar_of_isValid valid

theorem ne_nil (h : IsKnown version) : version ≠ [] := by
  rcases h with rfl | valid
  · decide
  · exact ne_nil_of_isValid valid

theorem filled (h : IsKnown version) : ∀ c ∈ version, isBlankChar c = false := fun c hc =>
  isBlankChar_of_isVersionChar (h.isVersionChar c hc)

theorem normalizeLabel_eq (h : IsKnown version) : normalizeLabel version = Text.lowercase version := by
  rw [normalizeLabel, Text.words_of_filled h.filled h.ne_nil]
  rfl

end IsKnown

theorem isVersionChar_of_mem_lowercaseBetween {before after : Text} {c d : Char} (hc : isVersionChar c)
    (h : d ∈ Text.lowercaseBetween before c after) : isVersionChar d := by
  have bounds := bounds_of_isVersionChar hc
  rw [Text.lowercaseBetween, if_pos (by omega)] at h
  split at h
  next capital =>
    obtain rfl := List.mem_singleton.mp h
    simp only [Bool.and_eq_true, decide_eq_true_eq, Char.reduceToNat] at capital
    have small : (Char.ofNat (c.toNat + 32)).toNat = c.toNat + 32 := Text.toNat_ofNat (Or.inl (by omega))
    simp only [isVersionChar, isIdentifierChar, isPlainLetter, Char.reduceToNat, small, Bool.or_eq_true, Bool.and_eq_true,
      decide_eq_true_eq]
    omega
  next =>
    obtain rfl := List.mem_singleton.mp h
    exact hc

theorem isVersionChar_of_mem_lowercase (h : ∀ c ∈ version, isVersionChar c) :
    ∀ c ∈ Text.lowercase version, isVersionChar c := by
  unfold Text.lowercase
  generalize ([] : Text) = before
  induction version generalizing before with
  | nil => exact nofun
  | cons c rest ih =>
      obtain ⟨hc, hrest⟩ := List.forall_mem_cons.mp h
      exact List.forall_mem_append.mpr ⟨fun d hd => isVersionChar_of_mem_lowercaseBetween hc hd, ih hrest (c :: before)⟩

namespace IsKnown

theorem isVersionChar_lowercase (h : IsKnown version) : ∀ c ∈ Text.lowercase version, Version.isVersionChar c :=
  isVersionChar_of_mem_lowercase h.isVersionChar

theorem filled_lowercase (h : IsKnown version) : ∀ c ∈ Text.lowercase version, isBlankChar c = false := fun c hc =>
  isBlankChar_of_isVersionChar (h.isVersionChar_lowercase c hc)

end IsKnown

theorem isBare_of_isVersionChar (h : ∀ c ∈ version, isVersionChar c) : Inline.IsBare version := by
  intro c hc hmark
  have other : ∀ c ∈ ['[', ']', '\x5c', '\x60'], isVersionChar c = false := by decide
  exact Bool.false_ne_true ((other c hmark).symm.trans (h c hc))

end Version

namespace Review

/-- An address that can stand in a definition without brackets. -/
structure Project.IsPlain (project : Project) : Prop where
  filled : ∀ c ∈ project.url, isBlankChar c = false
  head : project.url.head? ≠ some '<'

variable {project : Project} {version previous : Text}

theorem filled_compareUrl (plain : project.IsPlain) (hversion : ∀ c ∈ version, isBlankChar c = false)
    (hprevious : ∀ c ∈ previous, isBlankChar c = false) :
    ∀ c ∈ compareUrl project version previous, isBlankChar c = false := by
  have middle : ∀ c ∈ Text.ofString "/compare/", isBlankChar c = false := by decide
  have dots : ∀ c ∈ Text.ofString "...", isBlankChar c = false := by decide
  have right : ∀ c ∈ if version = unreleased then Text.ofString "HEAD" else Version.tag version project.tags,
      isBlankChar c = false := by
    split
    · decide
    · exact Version.filled_tag hversion project.tags
  intro c hc
  simp only [compareUrl, List.mem_append] at hc
  rcases hc with (((hc | hc) | hc) | hc) | hc
  · exact plain.filled c hc
  · exact middle c hc
  · exact Version.filled_tag hprevious project.tags c hc
  · exact dots c hc
  · exact right c hc

/-- The definition of a link needs no brackets. -/
theorem isShortDefinition_compareUrl (plain : project.IsPlain) (hversion : Version.IsKnown version)
    (hprevious : Version.IsKnown previous) :
    Node.IsShortDefinition (Text.lowercase version) (compareUrl project version previous) where
  label_ne_nil := Text.lowercase_ne_nil hversion.ne_nil
  bare := Version.isBare_of_isVersionChar hversion.isVersionChar_lowercase
  normal := by
    rw [normalizeLabel, Text.words_of_filled hversion.filled_lowercase (Text.lowercase_ne_nil hversion.ne_nil)]
    exact Text.lowercase_lowercase version
  unbroken := Node.isUnbroken_of_filled hversion.filled_lowercase
  filled := filled_compareUrl plain hversion.filled hprevious.filled
  url_ne_nil := by simp [compareUrl]
  head := by
    have behind : ∀ rest : Text, (Text.ofString "/compare/" ++ rest).head? ≠ some '<' := fun rest => by
      rw [show (Text.ofString "/compare/" ++ rest).head? = some '/' from rfl]
      decide
    simp only [compareUrl, List.append_assoc]
    cases hurl : project.url with
    | nil => exact behind _
    | cons c rest =>
        have head := plain.head
        rw [hurl] at head
        exact head

end Review

end Changelog
