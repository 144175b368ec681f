import Changelog.Proofs.Version.Bump
import Changelog.Proofs.Version.Candidate

/-! # What versions are compared as

A version is compared as what it is normalized to: the number of a candidate, if it ends with one, becomes an identifier of its
own, without leading zeros. The order of versions is that of what they are normalized to (`compareNewest_eq_compareNormalized`,
`isNewer_eq_compareNormalized`). Wherever the number can be read, normalizing gives a version with the same three numbers, and
normalizing it again changes nothing.
-/

namespace Changelog.Version

open Text

variable {text a b : Text} {v w : Version}

/-- What a version is compared as. There is an error where the number of a candidate has too many digits to be read. -/
def normalized (text : Text) : Except Fault Text :=
  if hasLongCandidate text then .error .numberTooLong else .ok (normalizeCandidate text)

/-- Order of two versions by what they are normalized to, older first. -/
def compareNormalized (a b : Text) : Except Fault Ordering := do
  let v ← read (← normalized a)
  let w ← read (← normalized b)
  return precedence v w

/-! ## Comparing -/

theorem compareNormalized_eq (va : isValid a) (vb : isValid b) : compareNormalized a b =
    if hasLongCandidate a || hasLongCandidate b then .error .numberTooLong else .ok (compareTexts a b) := by
  obtain ⟨v, hv, pv⟩ := exists_read_normalizeCandidate va
  obtain ⟨w, hw, pw⟩ := exists_read_normalizeCandidate vb
  unfold compareNormalized normalized compareTexts
  cases hasLongCandidate a <;> cases hasLongCandidate b <;> simp [bind, Except.bind, pure, Except.pure, hv, hw, pv, pw]

theorem compareNewest_eq_compareNormalized (va : isValid a) (vb : isValid b) (h : a ≠ b) :
    compareNewest a b = compareNormalized b a := by
  rw [compareNormalized_eq vb va, compareNewest, clash, newestFirst_eq_compareTexts va vb]
  simp [va, vb, h, Bool.or_comm]

theorem isNewer_eq_compareNormalized (va : isValid a) (vb : isValid b) :
    isNewer a b = (compareNormalized a b).map (· == .gt) := by
  rw [compareNormalized_eq va vb, isNewer, va, vb]
  cases hasLongCandidate a || hasLongCandidate b <;> rfl

/-! ## Normalizing -/

theorem candidateNumber?_splitCandidate (text : Text) : candidateNumber? (splitCandidate text) = none := by
  unfold splitCandidate
  split
  next => exact candidateNumber?_of_isNumeric (Or.inr (Or.inr rfl)) (isNumeric_ofNat _)
  next unsplit => exact unsplit

theorem normalized_splitCandidate (text : Text) : normalized (splitCandidate text) = .ok (splitCandidate text) := by
  have unsplit := candidateNumber?_splitCandidate text
  have short : hasLongCandidate (splitCandidate text) = false := by simp [hasLongCandidate, unsplit]
  rw [normalized, short, if_neg Bool.false_ne_true, normalizeCandidate_of_none unsplit]

theorem normalizeCandidate_of_isValid (h : isValid (splitCandidate text)) :
    normalizeCandidate text = splitCandidate text := by
  simp [normalizeCandidate, h]

theorem IsComparedAs.hasLongNumber_eq (h : IsComparedAs v w) : w.hasLongNumber = v.hasLongNumber := by
  rw [hasLongNumber, hasLongNumber, h.major, h.minor, h.patch]

/-- Normalizing a version whose last digits behind `-rc` can be read gives the candidate that is built of it. This is always a
    version, one with the same numbers, and what it is normalized to itself. -/
theorem normalized_keeps_numbers (valid : isValid text) (short : HasShortSuffix text) :
    ∃ v w : Version, read text = .ok v ∧ splitCandidate text = w.text ∧ isValid w.text ∧ read w.text = .ok w ∧
      normalized text = .ok w.text ∧ w.major = v.major ∧ w.minor = v.minor ∧ w.patch = v.patch ∧
      normalized w.text = .ok w.text := by
  obtain ⟨v, hread⟩ := isValid_iff.mp valid
  obtain ⟨hparse, numbers⟩ := read_eq_ok_iff.mp hread
  obtain ⟨wellFormed, rfl⟩ := parse?_eq_some_iff.mp hparse
  -- the candidate is well formed wherever its number stood, at the end of the prerelease or of the build metadata
  obtain ⟨w, hw, split, compared⟩ := exists_splitCandidate wellFormed
  have reread : read w.text = .ok w :=
    read_eq_ok_iff.mpr ⟨parse?_eq_some_iff.mpr ⟨hw, rfl⟩, compared.hasLongNumber_eq.trans numbers⟩
  have validSplit : isValid w.text := isValid_iff.mpr ⟨w, reread⟩
  have normal : normalized v.text = .ok w.text := by
    rw [normalized, hasShortSuffix_iff.mp short, if_neg Bool.false_ne_true, normalizeCandidate_of_isValid (split ▸ validSplit),
      split]
  have again : normalized w.text = .ok w.text := split ▸ normalized_splitCandidate v.text
  exact ⟨v, w, hread, split, validSplit, reread, normal, compared.major, compared.minor, compared.patch, again⟩

/-- A number with leading zeros, behind a dash that is itself part of an identifier, and behind another `-rc`. -/
theorem normalized_keeps_numbers_sample :
    let text := ofString "1.20.3-rc1.-rc007"
    isValid text ∧ HasShortSuffix text ∧ normalized text = .ok (ofString "1.20.3-rc1.-rc.7") ∧
    ∃ v w : Version, read text = .ok v ∧ splitCandidate text = w.text ∧ isValid w.text ∧ read w.text = .ok w ∧
      normalized text = .ok w.text ∧ w.major = v.major ∧ w.minor = v.minor ∧ w.patch = v.patch ∧
      normalized w.text = .ok w.text := by
  intro text
  have valid : isValid text := by decide +kernel
  have short : HasShortSuffix text := hasShortSuffix_iff.mpr (by decide +kernel)
  exact ⟨valid, short, by decide +kernel, normalized_keeps_numbers valid short⟩

end Changelog.Version
