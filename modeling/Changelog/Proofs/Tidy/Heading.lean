import Changelog.Proofs.Markdown.Exact
import Changelog.Proofs.Review.Address
import Changelog.Proofs.Review.Legible
import Changelog.Proofs.Text.Search
import Changelog.Proofs.Tidy.Basic

/-! # Headings of tidy releases

The heading of a tidy release is read as it is written, linked or not, and says the version and the date.
-/

namespace Changelog

open LineForm Review

/-! ## Versions -/

namespace Version

variable {version : Text}

/-- A text that definitions are found by as it is written: characters of versions, without capitals. -/
structure IsName (version : Text) : Prop where
  ne_nil : version ≠ []
  chars : ∀ c ∈ version, isVersionChar c ∧ c.isUpper = false

theorem isName_unreleased : IsName unreleased := ⟨by decide, by decide⟩

namespace IsName

theorem isPlainLower (h : IsName version) : version.IsPlainLower := by
  intro c hc
  obtain ⟨hchar, lower⟩ := h.chars c hc
  have bounds := bounds_of_isVersionChar hchar
  exact ⟨by omega, lower⟩

theorem filled (h : IsName version) : ∀ c ∈ version, isBlankChar c = false := fun c hc =>
  isBlankChar_of_isVersionChar (h.chars c hc).1

theorem isBare (h : IsName version) : Inline.IsBare version := isBare_of_isVersionChar fun c hc => (h.chars c hc).1

theorem lowercase_eq (h : IsName version) : Text.lowercase version = version :=
  Text.lowercase_of_isPlainLower h.isPlainLower

theorem normalizeLabel_eq (h : IsName version) : normalizeLabel version = version := by
  rw [normalizeLabel, Text.words_of_filled h.filled h.ne_nil]
  exact h.lowercase_eq

theorem not_mem_space (h : IsName version) : ' ' ∉ version := fun hc => absurd (h.filled ' ' hc) (by decide)

theorem dropWhile_append (h : IsName version) (text : Text) : (version ++ text).dropWhile isSpaceOrTab = version ++ text := by
  obtain ⟨first, rest, rfl⟩ := List.exists_cons_of_ne_nil h.ne_nil
  refine List.dropWhile_cons_of_neg fun blank => ?_
  exact Bool.false_ne_true ((h.filled first List.mem_cons_self).symm.trans (isBlankChar_of_isSpaceOrTab blank))

end IsName

end Version

theorem TidyVersion.isName (v : TidyVersion) : Version.IsName v.version :=
  ⟨Version.ne_nil_of_isValid v.valid, fun c hc => ⟨Version.forall_isVersionChar_of_isValid v.valid c hc, v.lower c hc⟩⟩

theorem TidyVersion.version_ne_unreleased (v : TidyVersion) : v.version ≠ unreleased := by
  intro same
  have released := v.released
  rw [same] at released
  exact absurd released (by decide)

theorem TidyTitle.isName_version (title : TidyTitle) : Version.IsName title.version := by
  cases title with
  | unreleased => exact Version.isName_unreleased
  | released v => exact v.isName

theorem TidyTitle.isKnown_version (title : TidyTitle) : Version.IsKnown title.version := by
  cases title with
  | unreleased => exact .inl rfl
  | released v => exact .inr v.valid

/-! ## Dates -/

section

variable {date : Text}

theorem forall_of_isPlainDate (h : isPlainDate date) : ∀ c ∈ date, isPlainDigit c ∨ c = '-' := by
  unfold isPlainDate at h
  split at h
  next a b c d dash e f dash' g last =>
    simp only [Bool.and_eq_true, List.all_cons, List.all_nil, Bool.and_true, beq_iff_eq] at h
    obtain ⟨⟨⟨ha, hb, hc, hd, he, hf, hg, hlast⟩, rfl⟩, rfl⟩ := h
    simp [ha, hb, hc, hd, he, hf, hg, hlast]
  next => contradiction

theorem isPlainLower_of_isPlainDate (h : isPlainDate date) : date.IsPlainLower := by
  intro c hc
  rcases forall_of_isPlainDate h c hc with hc | rfl
  · simp only [isPlainDigit, Char.reduceToNat, Bool.and_eq_true, decide_eq_true_eq] at hc
    refine ⟨by omega, ?_⟩
    rw [Bool.eq_false_iff, ne_eq, Text.isUpper_iff]
    simp only [Char.reduceToNat]
    omega
  · decide

theorem isUnbroken_of_isPlainDate (h : isPlainDate date) : date.IsUnbroken := by
  intro c hc
  rcases forall_of_isPlainDate h c hc with hc | rfl
  · simp only [isPlainDigit, Char.reduceToNat, Bool.and_eq_true, decide_eq_true_eq] at hc
    rw [Bool.eq_false_iff]
    simp only [isLineEnd, ne_eq, Bool.or_eq_true, Bool.and_eq_true, decide_eq_true_eq, beq_iff_eq]
    omega
  · decide

theorem isUnsplit_of_isPlainDate (h : isPlainDate date) : Text.IsUnsplit ReleaseHeading.dateSeparator date := by
  refine Text.isUnsplit_of_not_mem (fun hc => ?_) ['-', ' ']
  rcases forall_of_isPlainDate h ' ' hc with hc | hc
  · exact absurd hc (by decide)
  · exact absurd hc (by decide)

theorem isDate_of_isPlainDate (h : isPlainDate date) : Review.isDate date := by
  rw [isDate, dropTail?_of_isUnbroken (isUnbroken_of_isPlainDate h), Option.getD_none]
  unfold isPlainDate at h
  split at h
  next =>
    simp only [Bool.and_eq_true, List.all_cons, List.all_nil, Bool.and_true, beq_iff_eq] at h ⊢
    obtain ⟨⟨⟨ha, hb, hc, hd, he, hf, hg, hlast⟩, hdash⟩, hdash'⟩ := h
    simp [isDecimalDigit_of_isPlainDigit, ha, hb, hc, hd, he, hf, hg, hlast, hdash, hdash']
  next => contradiction

end

theorem TidyVersion.saysUnreleased_eq (v : TidyVersion) :
    ReleaseHeading.saysUnreleased (v.version ++ (ReleaseHeading.dateSeparator ++ v.date)) = false := by
  have name := v.isName.isPlainLower
  have separator : ReleaseHeading.dateSeparator.IsPlainLower := by unfold Text.IsPlainLower; decide
  have lower : (v.version ++ (ReleaseHeading.dateSeparator ++ v.date)).IsPlainLower := by
    rw [Text.isPlainLower_append, Text.isPlainLower_append]
    exact ⟨name, separator, isPlainLower_of_isPlainDate v.dated⟩
  rw [Bool.eq_false_iff, ReleaseHeading.saysUnreleased, ne_eq, Text.containsFolded_iff lower]
  intro found
  have found : unreleased <:+: v.version ++ ' ' :: ('-' :: ' ' :: v.date) := found
  rcases (Text.infix_append_cons_iff (by decide)).mp found with found | found
  · exact Bool.false_ne_true (v.released.symm.trans ((Text.contains_iff _ _).mpr found))
  · -- what stands behind the version holds no letters
    have letter : 'u' ∈ '-' :: ' ' :: v.date := found.subset (by decide)
    simp only [List.mem_cons, Char.reduceEq, false_or] at letter
    rcases forall_of_isPlainDate v.dated 'u' letter with digit | dash
    · exact absurd digit (by decide)
    · exact absurd dash (by decide)

namespace TidyTitle

/-! ## Inline nodes -/

def inline (linked : Bool) : TidyTitle → List Node
  | unreleased =>
    if linked then [Node.linkReference Changelog.unreleased Changelog.unreleased .full [Node.ofText unreleasedText]]
    else [Node.ofText unreleasedText]
  | released v =>
    if linked then
      [Node.linkReference v.version v.version .shortcut [Node.ofText v.version],
        Node.ofText (ReleaseHeading.dateSeparator ++ v.date)]
    else [Node.ofText (v.version ++ (ReleaseHeading.dateSeparator ++ v.date))]

def node (linked : Bool) (title : TidyTitle) : Node := Node.heading 2 (title.inline linked)

def said (linked : Bool) : TidyTitle → ReleaseHeading
  | unreleased =>
    { version := some Changelog.unreleased, title := some unreleasedText, isParseable := true
      link := if linked then some .linkReference else none }
  | released v =>
    { version := some v.version, date := some v.date, isParseable := true
      title := if linked then none else some (v.version ++ (ReleaseHeading.dateSeparator ++ v.date))
      link := if linked then some .linkReference else none }

theorem ofNodes_inline (linked : Bool) (title : TidyTitle) :
    ReleaseHeading.ofNodes (title.inline linked) = title.said linked := by
  cases title with
  | unreleased => cases linked <;> decide
  | released v =>
      have date := isUnsplit_of_isPlainDate v.dated
      have name := v.isName
      cases linked with
      | true => exact ReleaseHeading.ofNodes_linked date
      | false => exact ReleaseHeading.ofNodes_plain v.saysUnreleased_eq name.not_mem_space date

theorem inlineTextAll_released (linked : Bool) (v : TidyVersion) : Node.inlineTextAll ((released v).inline linked) =
    (if linked then '[' :: v.version ++ [']'] else v.version) ++ (ReleaseHeading.dateSeparator ++ v.date) := by
  cases linked <;>
    simp [inline, Node.inlineTextAll, Node.inlineText, Node.linkReference, Node.ofText, Node.referenceText, Node.orEmpty]

theorem blockText_node (linked : Bool) (title : TidyTitle) : (title.node linked).blockText = title.line linked := by
  cases title with
  | unreleased => cases linked <;> decide
  | released v =>
      obtain ⟨c, rest, hdate⟩ : ∃ c rest, ReleaseHeading.dateSeparator ++ v.date = c :: rest := ⟨_, _, rfl⟩
      have filled : (Node.inlineTextAll ((released v).inline linked)).isEmpty = false := by
        rw [inlineTextAll_released, hdate]
        simp
      have text : (released v).line linked =
          '#' :: '#' :: ' ' :: Node.inlineTextAll ((released v).inline linked) := by
        have marks : Text.ofString "## " = ['#', '#', ' '] := by decide
        rw [inlineTextAll_released, line, marks]
        simp [ReleaseHeading.dateSeparator]
      rw [text]
      show Node.headingText (some 2) ((released v).inline linked) = _
      rw [Node.headingText, filled]
      rfl

/-! ## Reading -/

theorem isUnbroken_inline (linked : Bool) (title : TidyTitle) :
    (Node.inlineTextAll (title.inline linked)).IsUnbroken := by
  cases title with
  | unreleased =>
      cases linked <;> decide
  | released v =>
      have own : v.version.IsUnbroken := Node.isUnbroken_of_filled v.isName.filled
      have separator : ReleaseHeading.dateSeparator.IsUnbroken := by decide
      have marks : ∀ c ∈ ['[', ']'], isLineEnd c = false := by decide
      rw [inlineTextAll_released]
      cases linked <;> simp [own, separator, isUnbroken_of_isPlainDate v.dated, marks]

theorem isPlainHeading_node (linked : Bool) (title : TidyTitle) : (title.node linked).IsPlainHeading :=
  ⟨rfl, ⟨2, rfl, by decide⟩, title.isUnbroken_inline linked⟩

theorem isExact_node (linked : Bool) (title : TidyTitle) : (title.node linked).IsExact := by
  refine Node.isExact_heading (by decide) (title.isUnbroken_inline linked) ?_
  cases title with
  | unreleased => cases linked <;> decide +kernel
  | released v =>
      have name := v.isName
      have unbroken := isUnbroken_of_isPlainDate v.dated
      have dated := isDate_of_isPlainDate v.dated
      rw [inlineTextAll_released]
      cases linked with
      | true =>
          have parsed := withoutPositionsAll_parse_linked name.isBare name.ne_nil dated unbroken
          rw [name.normalizeLabel_eq] at parsed
          simpa [inline] using parsed
      | false =>
          have separator : Inline.IsBare ReleaseHeading.dateSeparator := by decide
          have bare : Inline.IsBare (v.version ++ (ReleaseHeading.dateSeparator ++ v.date)) :=
            List.forall_mem_append.mpr ⟨name.isBare, List.forall_mem_append.mpr ⟨separator, isBare_of_isDate dated unbroken⟩⟩
          have front := name.dropWhile_append (ReleaseHeading.dateSeparator ++ v.date)
          have closed := dropClosing_linked dated unbroken (v.version ++ ReleaseHeading.dateSeparator)
          rw [List.append_assoc] at closed
          simp only [Bool.false_eq_true, if_false]
          rw [front, closed, Inline.parse_of_isBare bare]
          exact Inline.withoutPositionsAll_textNodes_of_ne_nil (by simp [name.ne_nil])

end TidyTitle

end Changelog
